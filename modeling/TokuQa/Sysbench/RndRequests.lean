import TokuQa.Lib.Blocks
import TokuQa.Sysbench.FileIo

/-!
# Random requests and the files

A random position in all files together is rounded down to a block and then divided by the size
of a file. Nothing in `parse_arguments` makes the blocks end where the files do, or the files
where file-total-size does: a block can cross the end of its file, and the rest that is left of
the total size by the division is addressed as one more file, and more.

The random number is scaled, so for more than `SB_MAX_RND` bytes there are blocks that no
number leads to. A configuration goes wrong exactly if a number leads to a wrong block
(`rndRequests_inside_iff`); up to `SB_MAX_RND` bytes every block has a number, and blocks and
files have to divide the total size (`rndFits_iff`).
-/

set_option autoImplicit false

namespace TokuQa.Sysbench.FileIo

open TokuQa.Lib

variable {c : Config}

theorem sbMaxRnd_pos : 0 < sbMaxRnd := by decide

/-- The random number, scaled to the total size. -/
def scaled (c : Config) (randnum : Nat) : Nat := randnum * c.totalSize / sbMaxRnd

theorem tmppos_eq (c : Config) (randnum : Nat) :
    tmppos c randnum = blockStart c.fileBlockSize (scaled c randnum) := by
  have hdiv := Nat.div_add_mod (scaled c randnum) c.fileBlockSize
  change scaled c randnum - scaled c randnum % c.fileBlockSize = _
  rw [blockStart, Nat.mul_comm]
  omega

/-- No random number leads to a block that the end of a file is inside of, nor to one that
begins behind the last file, up to the file whose number is zero as an `unsigned int`. -/
structure RndFits (c : Config) : Prop where
  ends : ∀ k, Missed sbMaxRnd c.totalSize (blockStart c.fileBlockSize (k * c.fileSize))
    (blockEnd c.fileBlockSize (k * c.fileSize))
  files : Missed sbMaxRnd c.totalSize (blockEnd c.fileBlockSize (c.numFiles * c.fileSize))
    (blockEnd c.fileBlockSize (2 ^ 32 * c.fileSize))

/-- **Blocks that cross the end of a file.** -/
theorem ends_iff (hsize : 0 < c.fileSize) :
    (∀ randnum < sbMaxRnd, tmppos c randnum % c.fileSize + c.fileBlockSize ≤ c.fileSize) ↔
      ∀ k, Missed sbMaxRnd c.totalSize (blockStart c.fileBlockSize (k * c.fileSize))
        (blockEnd c.fileBlockSize (k * c.fileSize)) := by
  have hblock := c.fileBlockSize_pos
  constructor
  · intro h k
    refine (missed_iff sbMaxRnd_pos c.totalSize_pos).mpr fun randnum hlt hlo => ?_
    by_contra hhi
    -- the position is inside the block that the end of the file is inside of
    have hstart := dvd_blockStart c.fileBlockSize (k * c.fileSize)
    have hafter : k * c.fileSize < blockStart c.fileBlockSize (k * c.fileSize) + c.fileBlockSize :=
      lt_blockStart_add hblock
    have hbefore : blockStart c.fileBlockSize (k * c.fileSize) < k * c.fileSize := by
      refine lt_of_le_of_ne (blockStart_le _ _) fun heq => ?_
      rw [blockEnd_of_dvd hblock (heq ▸ hstart)] at hhi
      omega
    rw [blockEnd_eq hstart hbefore hafter.le] at hhi
    have hpos : tmppos c randnum = blockStart c.fileBlockSize (k * c.fileSize) :=
      (tmppos_eq c randnum).trans (blockStart_eq hstart hlo (Nat.lt_of_not_le hhi))
    have hcross := (crosses_iff hsize).mpr ⟨k, hbefore, hafter⟩
    rw [← hpos] at hcross
    exact absurd (h randnum hlt) (Nat.not_le_of_lt hcross)
  · intro h randnum hlt
    by_contra hcross
    obtain ⟨k, hbefore, hafter⟩ := (crosses_iff hsize).mp (Nat.lt_of_not_le hcross)
    rw [tmppos_eq] at hbefore hafter
    have hstart := dvd_blockStart c.fileBlockSize (scaled c randnum)
    have hmissed := (missed_iff sbMaxRnd_pos c.totalSize_pos).mp (h k) randnum hlt
    rw [blockStart_eq hstart hbefore.le hafter, blockEnd_eq hstart hbefore hafter.le] at hmissed
    have hend : scaled c randnum < blockStart c.fileBlockSize (scaled c randnum) + c.fileBlockSize :=
      lt_blockStart_add hblock
    exact absurd (hmissed (blockStart_le _ _)) (Nat.not_le_of_lt hend)

/-- The files that are addressed. -/
theorem le_file_iff (hsize : 0 < c.fileSize) {k randnum : Nat} :
    k ≤ tmppos c randnum / c.fileSize ↔
      blockEnd c.fileBlockSize (k * c.fileSize) ≤ scaled c randnum := by
  have hblock := c.fileBlockSize_pos
  rw [Nat.le_div_iff_mul_le hsize, tmppos_eq, ← blockEnd_le_iff hblock (dvd_blockStart _ _),
    le_blockStart_iff hblock (dvd_blockEnd _ _)]

theorem file_lt (hsize : 0 < c.fileSize) {randnum : Nat} (hlt : randnum < sbMaxRnd) :
    tmppos c randnum / c.fileSize < 2 ^ 32 + c.numFiles := by
  have hnum := c.numFiles_lt
  have hpos : tmppos c randnum < c.totalSize := by
    rw [tmppos_eq]
    exact lt_of_le_of_lt (blockStart_le _ _) (scaled_lt c.totalSize_pos hlt)
  have htotal : c.totalSize < c.numFiles * (c.fileSize + 1) :=
    Nat.lt_mul_div_succ _ c.numFiles_pos
  have hfiles : c.numFiles ≤ c.numFiles * c.fileSize := Nat.le_mul_of_pos_right _ hsize
  rw [Nat.div_lt_iff_lt_mul hsize, Nat.add_mul]
  have hmul : c.numFiles * c.fileSize ≤ 2 ^ 32 * c.fileSize := Nat.mul_le_mul_right _ hnum.le
  rw [Nat.mul_succ] at htotal
  omega

/-- **Blocks behind the last file.** -/
theorem files_iff (hsize : 0 < c.fileSize) :
    (∀ randnum < sbMaxRnd, tmppos c randnum / c.fileSize % 2 ^ 32 < c.numFiles) ↔
      Missed sbMaxRnd c.totalSize (blockEnd c.fileBlockSize (c.numFiles * c.fileSize))
        (blockEnd c.fileBlockSize (2 ^ 32 * c.fileSize)) := by
  have hnum := c.numFiles_lt
  rw [missed_iff sbMaxRnd_pos c.totalSize_pos]
  refine forall₂_congr fun randnum hlt => ?_
  have hfile := file_lt hsize hlt
  change _ ↔ (_ ≤ scaled c randnum → _ ≤ scaled c randnum)
  rw [← le_file_iff hsize, ← le_file_iff hsize]
  generalize tmppos c randnum / c.fileSize = file at hfile ⊢
  omega

/-- What both halves of the bounds come to. -/
theorem rndFits_iff_inside (hsize : 0 < c.fileSize) :
    (∀ randnum < sbMaxRnd, tmppos c randnum / c.fileSize % 2 ^ 32 < c.numFiles ∧
      tmppos c randnum % c.fileSize + c.fileBlockSize ≤ c.fileSize) ↔ RndFits c := by
  constructor
  · intro h
    exact ⟨(ends_iff hsize).mp fun randnum hlt => (h randnum hlt).2,
      (files_iff hsize).mp fun randnum hlt => (h randnum hlt).1⟩
  · intro h randnum hlt
    exact ⟨(files_iff hsize).mpr h.files randnum hlt, (ends_iff hsize).mpr h.ends randnum hlt⟩

/-- **Random requests stay inside the files** exactly if no random number leads to a block that
does not. -/
theorem rndRequests_inside_iff (c : Config) (hsize : c.fileBlockSize ≤ c.fileSize) :
    (∀ (g : Globals) (randnum : Fin sbMaxRnd) (s s' : State) (fileReq : FileRequest),
      fileGetRndRequest c g randnum s = some (.file fileReq, s') → fileReq.operation ≠ .fsync →
        fileReq.fileId < c.numFiles ∧ fileReq.pos + fileReq.size ≤ c.fileSize) ↔
    RndFits c := by
  have hpos : 0 < c.fileSize := lt_of_lt_of_le c.fileBlockSize_pos hsize
  rw [← rndFits_iff_inside hpos]
  constructor
  · intro h randnum hlt
    have hdata : rndData c (rndOperation c initVars) randnum = some _ :=
      rndData_eq_some.mpr ⟨hpos, rfl⟩
    have hget := h endless ⟨randnum, hlt⟩ initVars (initVars.performed (rndOperation c initVars)) _
      (by
        rw [fileGetRndRequest, hdata, fsyncFirst, if_neg (not_done _),
          if_neg fun hdue => Bool.noConfusion hdue.2.2.1]
        rfl) (rndOperation_ne_fsync c initVars)
    dsimp only at hget
    exact_mod_cast hget
  · intro h g randnum s s' fileReq hget hop
    obtain ⟨req, s₁, hfirst, hnone, -⟩ | ⟨-, -, hfirst⟩ := fsyncFirst_cases c g
      (c.testMode = .rndWrite ∨ c.testMode = .rndRw ∨ c.testMode = .mixed) true s
    · rw [fileGetRndRequest, hfirst] at hget
      cases hget
      rw [data_file hop] at hnone
      cases hnone
    · rw [fileGetRndRequest, hfirst] at hget
      obtain ⟨_, hdata, heq⟩ := Option.map_eq_some_iff.mp hget
      cases heq
      obtain ⟨-, rfl⟩ := rndData_eq_some.mp hdata
      obtain ⟨hfile, hend⟩ := h randnum randnum.isLt
      dsimp only
      exact_mod_cast And.intro hfile hend

/-! ## Sizes that fit -/

theorem fileSize_of_dvd {m : Nat} (h : c.totalSize = c.numFiles * m) : c.fileSize = m := by
  rw [Config.fileSize, h, Nat.mul_div_cancel_left _ c.numFiles_pos]

/-- Blocks that divide the files, and files that divide the total size. -/
theorem rndFits_of_dvd (h : c.numFiles * c.fileBlockSize ∣ c.totalSize) : RndFits c := by
  have hblock := c.fileBlockSize_pos
  have hdvd : c.fileBlockSize ∣ c.fileSize := by
    obtain ⟨m, hm⟩ := h
    rw [Nat.mul_assoc] at hm
    exact ⟨m, fileSize_of_dvd hm⟩
  have htotal : c.numFiles * c.fileSize = c.totalSize :=
    Nat.mul_div_cancel' (dvd_of_mul_right_dvd h)
  constructor
  · intro k
    have hk : c.fileBlockSize ∣ k * c.fileSize := Nat.dvd_mul_left_of_dvd hdvd k
    refine missed_of_le sbMaxRnd_pos c.totalSize_pos ?_
    rw [blockStart_of_dvd hk, blockEnd_of_dvd hblock hk]
  · refine missed_of_total_le sbMaxRnd_pos c.totalSize_pos ?_
    rw [htotal]
    exact le_blockEnd hblock

/-- **Up to `SB_MAX_RND` bytes** no other sizes fit: every byte is what some number leads to. -/
theorem rndFits_iff (hsize : c.fileBlockSize ≤ c.fileSize) (hfine : c.totalSize ≤ sbMaxRnd) :
    RndFits c ↔ c.numFiles * c.fileBlockSize ∣ c.totalSize := by
  have hblock := c.fileBlockSize_pos
  have hpos : 0 < c.fileSize := lt_of_lt_of_le hblock hsize
  have hfiles : c.numFiles * c.fileSize ≤ c.totalSize := Nat.mul_div_le _ _
  refine ⟨fun h => ?_, rndFits_of_dvd⟩
  -- an end of a file that is not behind all positions is the end of a block
  have hends : ∀ k, k * c.fileSize ≤ c.totalSize → c.fileBlockSize ∣ k * c.fileSize := by
    intro k hk
    by_contra hcross
    have hstart : blockStart c.fileBlockSize (k * c.fileSize) < k * c.fileSize :=
      lt_of_le_of_ne (blockStart_le _ _) fun heq => hcross (heq ▸ dvd_blockStart _ _)
    have hle := total_le_of_missed hfine c.totalSize_pos
      (lt_of_lt_of_le hstart (le_blockEnd hblock)) (h.ends k)
    omega
  have hdvd : c.fileBlockSize ∣ c.fileSize := by
    have hone : 1 * c.fileSize ≤ c.totalSize := by
      refine le_trans (Nat.mul_le_mul_right _ c.numFiles_pos) hfiles
    simpa using hends 1 hone
  have hlast : c.totalSize ≤ c.numFiles * c.fileSize := by
    have hlt : c.numFiles * c.fileSize < 2 ^ 32 * c.fileSize :=
      Nat.mul_lt_mul_of_pos_right c.numFiles_lt hpos
    have hmissed := h.files
    rw [blockEnd_of_dvd hblock (Nat.dvd_mul_left_of_dvd hdvd _),
      blockEnd_of_dvd hblock (Nat.dvd_mul_left_of_dvd hdvd _)] at hmissed
    exact total_le_of_missed hfine c.totalSize_pos hlt hmissed
  rw [← le_antisymm hfiles hlast]
  exact Nat.mul_dvd_mul_left _ hdvd

/-- Two files of four blocks each. -/
theorem rndRequests_inside_blocks :
    (settings 2 16 2 0 .rndRead).fileBlockSize ≤ (settings 2 16 2 0 .rndRead).fileSize ∧
    ∀ (g : Globals) (randnum : Fin sbMaxRnd) (s s' : State) (fileReq : FileRequest),
      fileGetRndRequest (settings 2 16 2 0 .rndRead) g randnum s = some (.file fileReq, s') →
        fileReq.operation ≠ .fsync →
        fileReq.fileId < (settings 2 16 2 0 .rndRead).numFiles ∧
          fileReq.pos + fileReq.size ≤ (settings 2 16 2 0 .rndRead).fileSize :=
  ⟨by decide, (rndRequests_inside_iff (settings 2 16 2 0 .rndRead) (by decide)).mpr
    (rndFits_of_dvd (by decide))⟩

/-- Two files of two bytes, and one byte that is left of five: the last random number leads to
the third file, at a position that the check of `file_execute_request` lets pass. -/
theorem rndRequests_third_file :
    ¬ ∀ (g : Globals) (randnum : Fin sbMaxRnd) (s s' : State) (fileReq : FileRequest),
      fileGetRndRequest (settings 2 5 2 0 .rndRead) g randnum s = some (.file fileReq, s') →
        fileReq.operation ≠ .fsync →
        fileReq.fileId < (settings 2 5 2 0 .rndRead).numFiles ∧
          fileReq.pos + fileReq.size ≤ (settings 2 5 2 0 .rndRead).fileSize := by
  intro h
  have hget := h endless ⟨sbMaxRnd - 1, by decide⟩ initVars (initVars.performed .read)
    ⟨2, 0, 2, .read⟩ (by rfl) (by decide)
  exact absurd hget.1 (by decide)

end TokuQa.Sysbench.FileIo
