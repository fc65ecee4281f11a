import Mathlib.Data.Rat.Init
import Mathlib.Algebra.Order.Field.Rat
import Mathlib.Data.List.Basic
import TokuQa.Lib.Fallible
import TokuQa.Lib.JavaInt
import TokuQa.Lib.Run

/-!
# `MotifDataGenerator.java`

A buffer is filled chunk by chunk. A chunk is of new random bytes or copied from the motifs, random
bytes that are drawn once. The byte to start from is stored as a signed one, which the bytes of the
buffer do not show: they are cut off to 8 bits.

The loop counts by whole chunks. The last one can be shorter, but the counter is still moved by a
whole one. For the largest buffers it passes the largest `int` then, and the loop goes on with a
negative one (`fill_iff`).

The numbers of the generator are those it returns: `nextInt k` for the bound of the `k`-th such call
of a `fill`, `nextDouble k` likewise. A byte is an integer of 8 bits, with a sign. `fill` gives the
loop more rounds than there are bytes; nothing is the result of a loop that would need more.
-/

set_option autoImplicit false

namespace TokuQa.LinkBench

open TokuQa.Lib

namespace MotifDataGenerator

inductive Exn where
  | configError
  | illegalArgument
  | indexOutOfBounds
deriving DecidableEq

/-- The numbers a `fill` gets. -/
structure Rng where
  nextInt : Nat → Int → Int
  nextDouble : Nat → ℚ

/-- A generator keeps to the bounds it is given. -/
def Rng.Keeps (rng : Rng) : Prop :=
  ∀ k bound, 0 < bound → 0 ≤ rng.nextInt k bound ∧ rng.nextInt k bound < bound

end MotifDataGenerator

structure MotifDataGenerator where
  start : Int
  /-- "Number of distinct bytes to appear in output". -/
  range : Int
  uniqueness : ℚ
  /-- "Starts off null, initialized on demand". -/
  motifs : Option (List Int)
  motifBytes : Nat

namespace MotifDataGenerator

def maxChunkSize : Nat := 128

def init (start finish : Int) (uniqueness : ℚ) (motifBytes : Nat) :
    Except Exn MotifDataGenerator :=
  if start < 0 ∨ 256 ≤ start then .error .configError
  else if finish < 0 ∨ 256 ≤ finish then .error .configError
  else if finish ≤ start then .error .configError
  else .ok ⟨wrap 7 start, finish - start + 1, uniqueness, none, motifBytes⟩

/-- `rng.nextInt(bound)`. -/
def draw (rng : Rng) (k : Nat) (bound : Int) : Except Exn Int :=
  if bound ≤ 0 then .error .illegalArgument else .ok (rng.nextInt k bound)

/-- The buffer, and how many numbers of each kind have been drawn. -/
structure Filling where
  data : List Int
  ints : Nat
  doubles : Nat

/-- `data[j] = b`. -/
def put (data : List Int) (j b : Int) : Except Exn (List Int) :=
  if 0 ≤ j ∧ j < data.length then .ok (data.set j.toNat b) else .error .indexOutOfBounds

/-- `System.arraycopy`. -/
def arraycopy (src : List Int) (srcPos : Int) (dest : List Int) (destPos length : Int) :
    Except Exn (List Int) :=
  if srcPos < 0 ∨ destPos < 0 ∨ length < 0 ∨ src.length < srcPos + length ∨
      dest.length < destPos + length then .error .indexOutOfBounds
  else .ok (dest.take destPos.toNat ++ (src.drop srcPos.toNat).take length.toNat ++
    dest.drop (destPos.toNat + length.toNat))

variable (g : MotifDataGenerator) (rng : Rng)

/-- A random byte, as the `k`-th number. -/
def randomByte (k : Nat) : Except Exn Int := do
  return wrap 7 (g.start + (← draw rng k g.range))

/-- "New sequence of unique bytes", as many from `j` on. -/
def freshBytes : Nat → Int → Filling → Except Exn Filling
  | 0, _, f => .ok f
  | m + 1, j, f => do
    let b ← g.randomByte rng f.ints
    let data ← put f.data j b
    freshBytes m (j + 1) { f with data := data, ints := f.ints + 1 }

/-- "Fill motifs now so that we can use rng". -/
def initMotifs : Except Exn (List Int) := (List.range g.motifBytes).mapM (g.randomByte rng)

def chunk : Nat := min maxChunkSize g.motifBytes

/-- The chunk of the buffer at `i`. -/
def fillChunk (motifs : List Int) (i : Int) (f : Filling) : Except Exn Filling :=
  let n : Int := f.data.length
  let chunk := g.chunk
  let f := { f with doubles := f.doubles + 1 }
  if rng.nextDouble (f.doubles - 1) < g.uniqueness then
    let chunkEnd := min n (wrap32 (i + chunk))
    g.freshBytes rng (chunkEnd - i).toNat i f
  else do
    let thisChunk := min (chunk : Int) (wrap32 (n - i))
    let k ← draw rng f.ints (wrap32 (wrap32 (g.motifBytes - thisChunk) + 1))
    let data ← arraycopy motifs k f.data i thisChunk
    return { f with data := data, ints := f.ints + 1 }

/-- The loop from `i` on, for so many rounds. -/
def fillFrom (motifs : List Int) : Nat → Int → Filling → Option (Except Exn Filling)
  | 0, _, _ => none
  | rounds + 1, i, f =>
    if i < f.data.length then
      match g.fillChunk rng motifs i f with
      | .error e => some (.error e)
      | .ok f => fillFrom motifs rounds (wrap32 (i + g.chunk)) f
    else some (.ok f)

/-- The generator with motifs, and how many numbers have been drawn for them. -/
def prepare : Except Exn (MotifDataGenerator × Nat) :=
  match g.motifs with
  | none => do
    let motifs ← g.initMotifs rng
    return ({ g with motifs := some motifs }, g.motifBytes)
  | some _ => .ok (g, 0)

/-- What becomes of the generator in a `fill` of whatever buffer. -/
def afterFill : Option MotifDataGenerator := (g.prepare rng).toOption.map Prod.fst

def fill (data : List Int) : Option (Except Exn (List Int)) :=
  match g.prepare rng with
  | .error e => some (.error e)
  | .ok (g, ints) =>
    (g.fillFrom rng (g.motifs.getD []) (data.length + 2) 0 ⟨data, ints, 0⟩).map fun r =>
      r.map Filling.data

/-! ## The generator -/

/-- A byte whose unsigned value is in a range. -/
def InRange (start finish b : Int) : Prop := start ≤ b % 256 ∧ b % 256 ≤ finish

/-- What `init` makes of its arguments, with or without motifs. -/
structure Ready (g : MotifDataGenerator) (start finish : Int) (motifBytes : Nat) : Prop where
  nonneg : 0 ≤ start
  lt : start < finish
  le : finish < 256
  start_eq : g.start = wrap 7 start
  range_eq : g.range = finish - start + 1
  motifBytes_eq : g.motifBytes = motifBytes
  motifs : ∀ motifs ∈ g.motifs, motifs.length = motifBytes ∧ ∀ b ∈ motifs, InRange start finish b

section

variable {g : MotifDataGenerator} {rng : Rng} {start finish : Int} {motifBytes : Nat}

theorem ready_init {uniqueness : ℚ} (h : init start finish uniqueness motifBytes = .ok g) :
    Ready g start finish motifBytes := by
  unfold init at h
  split_ifs at h with hstart hfinish hle
  cases h
  exact ⟨by omega, by omega, by omega, rfl, rfl, rfl, nofun⟩

/-- The sign of the first byte is lost with the high bits of the sum. -/
theorem Ready.inRange (hg : Ready g start finish motifBytes) {x : Int} (hx : 0 ≤ x)
    (hx' : x < g.range) : InRange start finish (wrap 7 (g.start + x)) := by
  have hpos := hg.nonneg
  have hle := hg.le
  have hmod : wrap 7 (g.start + x) % 256 = start + x := by
    rw [hg.start_eq, wrap_add_wrap]
    have hbmod : wrap 7 (start + x) % 256 = (start + x) % 256 := Int.bmod_emod ..
    rw [hbmod, Int.emod_eq_of_lt (by omega) (by have := hg.range_eq; omega)]
  rw [InRange, hmod]
  have := hg.range_eq
  omega

/-- The `k`-th number as a byte. -/
def byteAt (g : MotifDataGenerator) (rng : Rng) (k : Nat) : Int :=
  wrap 7 (g.start + rng.nextInt k g.range)

theorem Ready.draw_range (hg : Ready g start finish motifBytes) (hrng : rng.Keeps) (k : Nat) :
    draw rng k g.range = .ok (rng.nextInt k g.range) ∧ InRange start finish (byteAt g rng k) := by
  have hlt := hg.lt
  have hrange := hg.range_eq
  have hdraw := hrng k g.range (by omega)
  exact ⟨if_neg (by omega), hg.inRange hdraw.1 hdraw.2⟩

theorem Ready.randomByte_eq (hg : Ready g start finish motifBytes) (hrng : rng.Keeps) (k : Nat) :
    g.randomByte rng k = .ok (byteAt g rng k) := by
  rw [randomByte, (hg.draw_range hrng k).1]
  rfl

theorem Ready.prepare (hg : Ready g start finish motifBytes) (hrng : rng.Keeps) :
    ∃ g' ints, g.prepare rng = .ok (g', ints) ∧ Ready g' start finish motifBytes ∧
      ∃ motifs, g'.motifs = some motifs := by
  cases hmotifs : g.motifs with
  | some motifs =>
    rw [MotifDataGenerator.prepare, hmotifs]
    exact ⟨g, 0, rfl, hg, motifs, hmotifs⟩
  | none =>
    have hinit : g.initMotifs rng = .ok ((List.range g.motifBytes).map (byteAt g rng)) := by
      have hpure : g.randomByte rng = fun k => pure (byteAt g rng k) :=
        funext (hg.randomByte_eq hrng)
      rw [initMotifs, hpure, List.mapM_pure]
      rfl
    rw [MotifDataGenerator.prepare, hmotifs, hinit]
    refine ⟨_, _, rfl, { hg with motifs := ?_ }, _, rfl⟩
    intro motifs hsome
    cases hsome
    refine ⟨by rw [List.length_map, List.length_range, hg.motifBytes_eq], fun b hb => ?_⟩
    obtain ⟨k, -, rfl⟩ := List.mem_map.mp hb
    exact (hg.draw_range hrng k).2

/-! ## A chunk of the buffer -/

theorem put_append (written rest : List Int) (a b : Int) :
    put (written ++ a :: rest) written.length b = .ok (written ++ b :: rest) := by
  rw [put, if_pos (by simp), Int.toNat_natCast, List.set_append_right _ _ le_rfl, Nat.sub_self,
    List.set_cons_zero]

theorem Ready.freshBytes_eq (hg : Ready g start finish motifBytes) (hrng : rng.Keeps)
    (written rest : List Int) (ints doubles : Nat) {m : Nat} (hm : m ≤ rest.length) :
    g.freshBytes rng m written.length ⟨written ++ rest, ints, doubles⟩ =
      .ok ⟨written ++ (List.range m).map (fun j => byteAt g rng (ints + j)) ++ rest.drop m, ints + m,
        doubles⟩ := by
  induction m generalizing written rest ints with
  | zero => simp [freshBytes]
  | succ m ih =>
    obtain ⟨a, rest, rfl⟩ := List.exists_cons_of_length_pos (Nat.zero_lt_of_lt hm)
    have hnext := ih (written ++ [byteAt g rng ints]) rest (ints + 1) (by simpa using hm)
    rw [List.length_append, List.length_singleton] at hnext
    simp only [freshBytes, hg.randomByte_eq hrng, put_append, bind, Except.bind]
    rw [List.append_assoc, List.singleton_append] at hnext
    push_cast at hnext
    rw [hnext, List.range_succ_eq_map]
    simp [Function.comp_def, Nat.add_assoc, Nat.add_comm 1]

/-- Where a chunk of `len` bytes starts in the motifs. -/
def motifStart (g : MotifDataGenerator) (rng : Rng) (len ints : Nat) : Nat :=
  (rng.nextInt ints (g.motifBytes - len + 1)).toNat

/-- The bytes of a chunk, after so many numbers of each kind. -/
def chunkBytes (g : MotifDataGenerator) (rng : Rng) (motifs : List Int) (len ints doubles : Nat) :
    List Int :=
  if rng.nextDouble doubles < g.uniqueness then
    (List.range len).map fun j => byteAt g rng (ints + j)
  else (motifs.drop (motifStart g rng len ints)).take len

/-- How many numbers have been drawn after it. -/
def chunkInts (g : MotifDataGenerator) (rng : Rng) (len ints doubles : Nat) : Nat :=
  if rng.nextDouble doubles < g.uniqueness then ints + len else ints + 1

variable {motifs written rest : List Int} {len : Nat}

theorem Ready.chunk_bounds (hg : Ready g start finish motifBytes) (hpos : 1 ≤ motifBytes) :
    1 ≤ g.chunk ∧ g.chunk ≤ motifBytes := by
  rw [chunk, hg.motifBytes_eq]
  exact ⟨le_min (by decide) hpos, min_le_right _ _⟩

theorem Ready.motifStart_le (hg : Ready g start finish motifBytes) (hrng : rng.Keeps)
    (hlen : len ≤ motifBytes) (ints : Nat) :
    draw rng ints (g.motifBytes - len + 1) = .ok (motifStart g rng len ints) ∧
      motifStart g rng len ints + len ≤ motifBytes := by
  have hbytes := hg.motifBytes_eq
  have hdraw := hrng ints (g.motifBytes - len + 1) (by omega)
  refine ⟨?_, by unfold motifStart; omega⟩
  rw [draw, if_neg (by omega), motifStart, Int.toNat_of_nonneg hdraw.1]

theorem Ready.chunkBytes_spec (hg : Ready g start finish motifBytes) (hrng : rng.Keeps)
    (hmotifs : g.motifs = some motifs) (hlen : len ≤ motifBytes) (ints doubles : Nat) :
    (chunkBytes g rng motifs len ints doubles).length = len ∧
      ∀ b ∈ chunkBytes g rng motifs len ints doubles, InRange start finish b := by
  obtain ⟨hlength, hall⟩ := hg.motifs motifs hmotifs
  unfold chunkBytes
  split_ifs
  · refine ⟨by rw [List.length_map, List.length_range], fun b hb => ?_⟩
    obtain ⟨j, -, rfl⟩ := List.mem_map.mp hb
    exact (hg.draw_range hrng _).2
  · have hstart := (hg.motifStart_le hrng hlen ints).2
    refine ⟨?_, fun b hb => hall b (List.mem_of_mem_drop (List.mem_of_mem_take hb))⟩
    rw [List.length_take, List.length_drop]
    omega

/-- A copy to where the written part of the buffer ends. -/
theorem arraycopy_append {start len : Nat} (hsrc : start + len ≤ motifs.length)
    (hdest : len ≤ rest.length) :
    arraycopy motifs start (written ++ rest) written.length len =
      .ok (written ++ (motifs.drop start).take len ++ rest.drop len) := by
  have hdata : (written ++ rest).length = written.length + rest.length := List.length_append
  rw [arraycopy, if_neg (by omega)]
  simp [List.drop_append]

/-- **A chunk is filled**, the last one too, as long as the counter does not overflow after it. -/
theorem Ready.fillChunk_eq (hg : Ready g start finish motifBytes) (hrng : rng.Keeps)
    (hmotifs : g.motifs = some motifs) (hpos : 1 ≤ motifBytes) (hbytes : motifBytes < 2 ^ 31)
    (hrest : 0 < rest.length) (hn : written.length + rest.length < 2 ^ 31)
    (hnext : written.length + g.chunk < 2 ^ 31) (ints doubles : Nat) :
    g.fillChunk rng motifs written.length ⟨written ++ rest, ints, doubles⟩ =
      .ok ⟨written ++ chunkBytes g rng motifs (min g.chunk rest.length) ints doubles ++
          rest.drop (min g.chunk rest.length),
        chunkInts g rng (min g.chunk rest.length) ints doubles, doubles + 1⟩ := by
  obtain ⟨len, hlen⟩ : ∃ len, min g.chunk rest.length = len := ⟨_, rfl⟩
  obtain ⟨hchunk1, hchunk⟩ := hg.chunk_bounds hpos
  have hdata : ((written ++ rest).length : Int) = written.length + rest.length := by
    rw [List.length_append]
    push_cast
    rfl
  rw [hlen]
  simp only [fillChunk, chunkBytes, chunkInts, Nat.add_sub_cancel, hdata]
  split_ifs with hfresh
  · have hend : (min ((written.length : Int) + rest.length)
        (wrap32 (written.length + g.chunk)) - written.length).toNat = len := by
      have hwrap : wrap32 (written.length + g.chunk) = written.length + g.chunk :=
        wrap_eq_self (by omega) (by omega)
      omega
    rw [hend]
    exact hg.freshBytes_eq hrng written rest ints (doubles + 1) (by omega)
  · have hthis : min (g.chunk : Int) (wrap32 (written.length + rest.length - written.length)) =
        len := by
      have hwrap : wrap32 (written.length + rest.length - written.length) = rest.length := by
        rw [add_sub_cancel_left]
        exact wrap_eq_self (by omega) (by omega)
      omega
    have hbound : wrap32 (wrap32 (g.motifBytes - len) + 1) = g.motifBytes - len + 1 := by
      have hbytes' := hg.motifBytes_eq
      have hwrap : wrap32 (g.motifBytes - len) = g.motifBytes - len :=
        wrap_eq_self (by omega) (by omega)
      rw [hwrap]
      exact wrap_eq_self (by omega) (by omega)
    have hlen' : len ≤ motifBytes := by omega
    have hstart := hg.motifStart_le hrng hlen' ints
    have hlength := (hg.motifs motifs hmotifs).1
    have hcopy : arraycopy motifs (motifStart g rng len ints) (written ++ rest) written.length len =
        .ok (written ++ (motifs.drop (motifStart g rng len ints)).take len ++ rest.drop len) :=
      arraycopy_append (by omega) (by omega)
    rw [hthis, hbound, hstart.1]
    simp only [bind, Except.bind, hcopy]
    rfl

/-! ## The loop, while the counter does not overflow -/

/-- Rounded up to a multiple. -/
def roundUp (n c : Nat) : Nat := (n + c - 1) / c * c

/-- The counter after the chunk in which the buffer ends. -/
theorem roundUp_eq {n c w : Nat} (hc : c ∣ w) (hw : w < n) (hn : n ≤ w + c) :
    roundUp n c = w + c := by
  obtain ⟨q, rfl⟩ := hc
  have hdiv : (n + c - 1) / c = q + 1 := by
    apply Nat.div_eq_of_lt_le
    · rw [Nat.succ_mul, Nat.mul_comm q c]
      omega
    · rw [Nat.succ_mul, Nat.succ_mul, Nat.mul_comm q c]
      omega
  rw [roundUp, hdiv, Nat.succ_mul, Nat.mul_comm]

theorem add_le_roundUp {n c w : Nat} (hc : c ∣ w) (hw : w < n) : w + c ≤ roundUp n c := by
  obtain ⟨q, rfl⟩ := hc
  rcases Nat.eq_zero_or_pos c with rfl | hpos
  · simp
  have hdiv : q + 1 ≤ (n + c - 1) / c := by
    rw [Nat.le_div_iff_mul_le hpos, Nat.succ_mul, Nat.mul_comm]
    omega
  rw [roundUp, Nat.mul_comm c q, ← Nat.succ_mul]
  exact Nat.mul_le_mul_right c hdiv

/-- The bytes that are written in so many rounds, from where `len` are left. -/
def emitted (g : MotifDataGenerator) (rng : Rng) (motifs : List Int) :
    Nat → Nat → Nat → Nat → List Int
  | 0, _, _, _ => []
  | rounds + 1, len, ints, doubles =>
    if len = 0 then []
    else
      let m := min g.chunk len
      chunkBytes g rng motifs m ints doubles ++
        emitted g rng motifs rounds (len - m) (chunkInts g rng m ints doubles) (doubles + 1)

theorem fillFrom_of_le {rounds : Nat} {i : Int} {f : Filling} (h : f.data.length ≤ i) :
    g.fillFrom rng motifs (rounds + 1) i f = some (.ok f) := by
  rw [fillFrom, if_neg (by omega)]

theorem Ready.emitted_spec (hg : Ready g start finish motifBytes) (hrng : rng.Keeps)
    (hmotifs : g.motifs = some motifs) (hpos : 1 ≤ motifBytes) {rounds : Nat} (hlen : len < rounds)
    (ints doubles : Nat) :
    (emitted g rng motifs rounds len ints doubles).length = len ∧
      ∀ b ∈ emitted g rng motifs rounds len ints doubles, InRange start finish b := by
  induction rounds generalizing len ints doubles with
  | zero => omega
  | succ rounds ih =>
    unfold emitted
    split_ifs with hzero
    · exact ⟨hzero.symm, nofun⟩
    · obtain ⟨hchunk1, hchunk⟩ := hg.chunk_bounds hpos
      have hfits : min g.chunk len ≤ motifBytes := by omega
      have hleft : len - min g.chunk len < rounds := by omega
      have hbytes := hg.chunkBytes_spec hrng hmotifs hfits ints doubles
      have hrest := ih hleft (chunkInts g rng (min g.chunk len) ints doubles) (doubles + 1)
      refine ⟨?_, fun b hb => ?_⟩
      · rw [List.length_append, hbytes.1, hrest.1]
        omega
      · rcases List.mem_append.mp hb with hb | hb
        · exact hbytes.2 b hb
        · exact hrest.2 b hb

/-- One round: a chunk is written, and the counter goes on by a whole chunk. -/
theorem Ready.fillFrom_succ (hg : Ready g start finish motifBytes) (hrng : rng.Keeps)
    (hmotifs : g.motifs = some motifs) (hpos : 1 ≤ motifBytes) (hbytes : motifBytes < 2 ^ 31)
    (hrest : 0 < rest.length) (hn : written.length + rest.length < 2 ^ 31)
    (hnext : written.length + g.chunk < 2 ^ 31) (rounds ints doubles : Nat) :
    g.fillFrom rng motifs (rounds + 1) written.length ⟨written ++ rest, ints, doubles⟩ =
      g.fillFrom rng motifs rounds (written.length + g.chunk : Nat)
        ⟨written ++ chunkBytes g rng motifs (min g.chunk rest.length) ints doubles ++
            rest.drop (min g.chunk rest.length),
          chunkInts g rng (min g.chunk rest.length) ints doubles, doubles + 1⟩ := by
  have hstep := hg.fillChunk_eq hrng hmotifs hpos hbytes hrest hn hnext ints doubles
  have hwrap : wrap32 (written.length + g.chunk) = (written.length + g.chunk : Nat) :=
    wrap_eq_self (by omega) (by push_cast; omega)
  have hmore : (written.length : Int) < (written ++ rest).length := by
    rw [List.length_append]
    omega
  rw [fillFrom, if_pos hmore, hstep]
  dsimp only
  rw [hwrap]

/-- **The loop fills the buffer.** -/
theorem Ready.fillFrom_eq (hg : Ready g start finish motifBytes) (hrng : rng.Keeps)
    (hmotifs : g.motifs = some motifs) (hpos : 1 ≤ motifBytes) (hbytes : motifBytes < 2 ^ 31)
    (hn : written.length + rest.length < 2 ^ 31)
    (hfits : roundUp (written.length + rest.length) g.chunk < 2 ^ 31)
    (hdvd : g.chunk ∣ written.length) {rounds : Nat} (hrounds : rest.length < rounds)
    (ints doubles : Nat) :
    ∃ ints' doubles', g.fillFrom rng motifs rounds written.length ⟨written ++ rest, ints, doubles⟩ =
      some (.ok ⟨written ++ emitted g rng motifs rounds rest.length ints doubles, ints',
        doubles'⟩) := by
  induction rounds generalizing written rest ints doubles with
  | zero => omega
  | succ rounds ih =>
    obtain ⟨hchunk1, hchunk⟩ := hg.chunk_bounds hpos
    rcases Nat.eq_zero_or_pos rest.length with hzero | hrest
    · rw [List.length_eq_zero_iff.mp hzero, emitted, if_pos List.length_nil, List.append_nil]
      exact ⟨ints, doubles, fillFrom_of_le le_rfl⟩
    · obtain ⟨len, hlen⟩ : ∃ len, min g.chunk rest.length = len := ⟨_, rfl⟩
      have hlen' : len ≤ motifBytes := by omega
      have hnext := add_le_roundUp hdvd (Nat.lt_add_of_pos_right (n := written.length) hrest)
      have hnew := (hg.chunkBytes_spec hrng hmotifs hlen' ints doubles).1
      rw [hg.fillFrom_succ hrng hmotifs hpos hbytes hrest hn (by omega), emitted,
        if_neg hrest.ne', hlen]
      dsimp only
      rw [← List.append_assoc]
      rcases Nat.lt_or_ge rest.length g.chunk with hlast | hwhole
      · -- The rest is shorter than a chunk: the counter passes the end, and the loop is over.
        obtain rfl : len = rest.length := by omega
        obtain ⟨r, rfl⟩ : ∃ r, rounds = r + 1 := ⟨rounds - 1, by omega⟩
        rw [Nat.sub_self, emitted, if_pos rfl, List.append_nil, List.drop_length, List.append_nil]
        refine ⟨_, _, fillFrom_of_le ?_⟩
        rw [List.length_append, hnew]
        push_cast
        omega
      · obtain rfl : len = g.chunk := by omega
        have hcounter : (written ++ chunkBytes g rng motifs g.chunk ints doubles).length =
            written.length + g.chunk := by rw [List.length_append, hnew]
        have hleft : (rest.drop g.chunk).length = rest.length - g.chunk := List.length_drop
        have htotal : written.length + g.chunk + (rest.length - g.chunk) =
            written.length + rest.length := by omega
        have hrest' := @ih (written ++ chunkBytes g rng motifs g.chunk ints doubles)
          (rest.drop g.chunk)
        rw [hcounter, hleft, htotal] at hrest'
        exact hrest' hn hfits (Nat.dvd_add hdvd dvd_rfl) (by omega) _ _

/-! ## The loop, when the counter overflows -/

theorem length_put {data data' : List Int} {j b : Int} (h : put data j b = .ok data') :
    data'.length = data.length := by
  unfold put at h
  split_ifs at h
  cases h
  exact List.length_set

theorem length_arraycopy {src dest dest' : List Int} {srcPos destPos length : Int}
    (h : arraycopy src srcPos dest destPos length = .ok dest') : dest'.length = dest.length := by
  unfold arraycopy at h
  split_ifs at h with hbounds
  cases h
  simp only [List.length_append, List.length_take, List.length_drop]
  omega

theorem length_freshBytes {m : Nat} {j : Int} {f f' : Filling}
    (h : g.freshBytes rng m j f = .ok f') : f'.data.length = f.data.length := by
  induction m generalizing j f with
  | zero =>
    cases h
    rfl
  | succ m ih =>
    obtain ⟨b, -, h⟩ := bind_eq_ok.mp h
    obtain ⟨data, hput, h⟩ := bind_eq_ok.mp h
    exact (ih h).trans (length_put hput)

theorem length_fillChunk {i : Int} {f f' : Filling} (h : g.fillChunk rng motifs i f = .ok f') :
    f'.data.length = f.data.length := by
  unfold fillChunk at h
  dsimp only at h
  split_ifs at h
  · have hlen := length_freshBytes h
    exact hlen
  · obtain ⟨k, -, h⟩ := bind_eq_ok.mp h
    obtain ⟨data, hcopy, h⟩ := bind_eq_ok.mp h
    cases h
    exact length_arraycopy hcopy

/-- There is no chunk at a negative place. -/
theorem fillChunk_of_neg {i : Int} {f f' : Filling} (hi : i < 0) (hmin : -2 ^ 31 ≤ i)
    (hchunk : 1 ≤ g.chunk) (hmax : g.chunk < 2 ^ 31) : g.fillChunk rng motifs i f ≠ .ok f' := by
  intro h
  unfold fillChunk at h
  dsimp only at h
  split_ifs at h
  · have hwrap : wrap32 (i + g.chunk) = i + g.chunk := wrap_eq_self (by omega) (by omega)
    obtain ⟨m, hm⟩ : ∃ m, (min (f.data.length : Int) (wrap32 (i + g.chunk)) - i).toNat = m + 1 :=
      ⟨(min (f.data.length : Int) (wrap32 (i + g.chunk)) - i).toNat - 1, by omega⟩
    rw [hm] at h
    obtain ⟨b, -, h⟩ := bind_eq_ok.mp h
    obtain ⟨data, hput, -⟩ := bind_eq_ok.mp h
    unfold put at hput
    rw [if_neg (by omega)] at hput
    cases hput
  · obtain ⟨k, -, h⟩ := bind_eq_ok.mp h
    obtain ⟨data, hcopy, -⟩ := bind_eq_ok.mp h
    unfold arraycopy at hcopy
    rw [if_pos (.inr (.inl hi))] at hcopy
    cases hcopy

/-- A round of a loop that comes to an end: its chunk was written, and the rest came to an end. -/
theorem fillFrom_eq_ok {rounds : Nat} {i : Int} {f f' : Filling} (hi : i < f.data.length)
    (h : g.fillFrom rng motifs (rounds + 1) i f = some (.ok f')) :
    ∃ f₁, g.fillChunk rng motifs i f = .ok f₁ ∧
      g.fillFrom rng motifs rounds (wrap32 (i + g.chunk)) f₁ = some (.ok f') := by
  rw [fillFrom, if_pos hi] at h
  cases hchunk : g.fillChunk rng motifs i f with
  | error e =>
    rw [hchunk] at h
    cases h
  | ok f₁ =>
    rw [hchunk] at h
    exact ⟨f₁, rfl, h⟩

/-- **A counter that overflows** does so behind the last chunk, and is then negative. -/
theorem fillFrom_overflow {n w : Nat} {f f' : Filling} (hlen : f.data.length = n) (hw : w < n)
    (hn : n < 2 ^ 31) (hdvd : g.chunk ∣ w) (hover : 2 ^ 31 ≤ roundUp n g.chunk)
    (hchunk : 1 ≤ g.chunk) (hmax : g.chunk < 2 ^ 31) (rounds : Nat) :
    g.fillFrom rng motifs rounds w f ≠ some (.ok f') := by
  induction rounds generalizing w f with
  | zero => nofun
  | succ rounds ih =>
    intro h
    obtain ⟨f₁, hchunkAt, hrest⟩ := fillFrom_eq_ok (by omega) h
    have hlen₁ : f₁.data.length = n := (length_fillChunk hchunkAt).trans hlen
    rcases Nat.lt_or_ge (w + g.chunk) n with hmore | hlast
    · have hwrap : wrap32 (w + g.chunk) = (w + g.chunk : Nat) :=
        wrap_eq_self (by omega) (by push_cast; omega)
      rw [hwrap] at hrest
      exact ih hlen₁ hmore (Nat.dvd_add hdvd dvd_rfl) hrest
    · have hround := roundUp_eq hdvd hw hlast
      have hwrap : wrap32 (w + g.chunk) = w + g.chunk - 2 * 2 ^ 31 :=
        wrap_of_overflow (by omega) (by omega)
      rw [hwrap] at hrest
      cases rounds with
      | zero => cases hrest
      | succ rounds =>
        obtain ⟨f₂, hneg, -⟩ := fillFrom_eq_ok (by omega) hrest
        exact fillChunk_of_neg (by omega) (by omega) hchunk hmax hneg

/-! ## `fill` -/

/-- What `fill` is for: it comes to an end, every byte is in the range, and nothing is left of what
the buffer had before. -/
structure Fills (g : MotifDataGenerator) (rng : Rng) (start finish : Int) (data out : List Int) :
    Prop where
  result : g.fill rng data = some (.ok out)
  length : out.length = data.length
  inRange : ∀ b ∈ out, InRange start finish b
  written : ∀ data' : List Int, data'.length = data.length → g.fill rng data' = some (.ok out)

theorem Ready.fill_eq (hg : Ready g start finish motifBytes) (hrng : rng.Keeps)
    (hpos : 1 ≤ motifBytes) (hbytes : motifBytes < 2 ^ 31) {n : Nat} (hn : n < 2 ^ 31)
    (hfits : roundUp n g.chunk < 2 ^ 31) :
    ∃ out, out.length = n ∧ (∀ b ∈ out, InRange start finish b) ∧
      ∀ data : List Int, data.length = n → g.fill rng data = some (.ok out) := by
  obtain ⟨g', ints, hprepare, hg', motifs, hmotifs⟩ := hg.prepare hrng
  have hchunk : g'.chunk = g.chunk := by
    rw [chunk, chunk, hg.motifBytes_eq, hg'.motifBytes_eq]
  have hspec := hg'.emitted_spec hrng hmotifs hpos (Nat.lt_add_of_pos_right (n := n) two_pos) ints 0
  refine ⟨emitted g' rng motifs (n + 2) n ints 0, hspec.1, hspec.2, fun data hdata => ?_⟩
  subst hdata
  have hzero : ([] : List Int).length + data.length = data.length := Nat.zero_add _
  obtain ⟨ints', doubles', hloop⟩ := @Ready.fillFrom_eq g' rng start finish motifBytes motifs []
    data hg' hrng hmotifs hpos hbytes (by rwa [hzero]) (by rwa [hzero, hchunk]) (Nat.dvd_zero _)
    (data.length + 2) (by omega) ints 0
  rw [fill, hprepare]
  simp only [hmotifs, Option.getD_some]
  have hloop' : g'.fillFrom rng motifs (data.length + 2) 0 ⟨data, ints, 0⟩ =
      some (.ok ⟨emitted g' rng motifs (data.length + 2) data.length ints 0, ints', doubles'⟩) :=
    hloop
  rw [hloop']
  rfl

/-- A buffer that is filled is so short that the counter stays an `int`. -/
theorem Ready.fits_of_fill (hg : Ready g start finish motifBytes) (hrng : rng.Keeps)
    (hpos : 1 ≤ motifBytes) (hbytes : motifBytes < 2 ^ 31) {data out : List Int}
    (hn : data.length < 2 ^ 31) (h : g.fill rng data = some (.ok out)) :
    roundUp data.length g.chunk < 2 ^ 31 := by
  obtain ⟨hchunk1, hchunkle⟩ := hg.chunk_bounds hpos
  by_contra hover
  obtain ⟨g', ints, hprepare, hg', motifs, -⟩ := hg.prepare hrng
  have hchunk' : g'.chunk = g.chunk := by
    rw [chunk, chunk, hg.motifBytes_eq, hg'.motifBytes_eq]
  have hw : 0 < data.length := by
    rcases Nat.eq_zero_or_pos data.length with hzero | hpos'
    · rw [hzero, roundUp, Nat.zero_add, Nat.div_eq_of_lt (by omega), Nat.zero_mul] at hover
      omega
    · exact hpos'
  have hover' : 2 ^ 31 ≤ roundUp data.length g'.chunk := hchunk'.symm ▸ not_lt.mp hover
  rw [fill, hprepare] at h
  dsimp only at h
  obtain ⟨r, hloop, hr⟩ := Option.map_eq_some_iff.mp h
  cases r with
  | error e => cases hr
  | ok f' =>
    exact fillFrom_overflow (w := 0) rfl hw hn (Nat.dvd_zero _) hover' (by omega) (by omega) _ hloop

theorem Ready.run_afterFill {earlier : List Rng} {g₀ : MotifDataGenerator}
    (hg₀ : Ready g₀ start finish motifBytes) (hearlier : ∀ rng ∈ earlier, rng.Keeps)
    (hrun : run (fun rng g => g.afterFill rng) earlier g₀ = some g) :
    Ready g start finish motifBytes := by
  induction earlier generalizing g₀ with
  | nil =>
    cases hrun
    exact hg₀
  | cons rng earlier ih =>
    obtain ⟨g₁, hstep, hrest⟩ := run_cons_eq_some.mp hrun
    obtain ⟨g', ints, hprepare, hg', -⟩ := hg₀.prepare (hearlier rng List.mem_cons_self)
    rw [afterFill, hprepare] at hstep
    cases hstep
    exact ih hg' (fun r hr => hearlier r (List.mem_cons_of_mem rng hr)) hrest

/-- **When the buffer is filled**: when the counter of the loop stays an `int`. -/
theorem fill_iff {uniqueness : ℚ} {g₀ : MotifDataGenerator} {earlier : List Rng} {data : List Int}
    (hinit : init start finish uniqueness motifBytes = .ok g₀)
    (hearlier : ∀ rng ∈ earlier, rng.Keeps)
    (hrun : run (fun rng g => g.afterFill rng) earlier g₀ = some g) (hrng : rng.Keeps)
    (hpos : 1 ≤ motifBytes) (hbytes : motifBytes < 2 ^ 31) (hn : data.length < 2 ^ 31) :
    (∃ out, Fills g rng start finish data out) ↔
      roundUp data.length (min maxChunkSize motifBytes) < 2 ^ 31 := by
  have hg := (ready_init hinit).run_afterFill hearlier hrun
  have hchunk : g.chunk = min maxChunkSize motifBytes := by rw [chunk, hg.motifBytes_eq]
  rw [← hchunk]
  constructor
  · rintro ⟨out, hout⟩
    exact hg.fits_of_fill hrng hpos hbytes hn hout.result
  · intro hfits
    obtain ⟨out, hlen, hrange, hall⟩ := hg.fill_eq hrng hpos hbytes hn hfits
    exact ⟨out, hall data rfl, hlen, hrange, hall⟩

end

/-- Bytes from 200 to 201, and motifs of 128. -/
def twoBytes : MotifDataGenerator := ⟨wrap 7 200, 2, 1 / 2, none, 128⟩

def zeros : Rng := ⟨fun _ _ => 0, fun _ => 0⟩

theorem zeros_keeps : zeros.Keeps := fun _ _ hbound => ⟨le_rfl, hbound⟩

theorem init_twoBytes : init 200 201 (1 / 2) 128 = .ok twoBytes := rfl

theorem run_twoBytes : run (fun rng g => g.afterFill rng) [] twoBytes = some twoBytes := rfl

theorem fill_one : (∃ out, Fills twoBytes zeros 200 201 [0] out) ↔
    roundUp [(0 : Int)].length (min maxChunkSize 128) < 2 ^ 31 :=
  fill_iff init_twoBytes (List.forall_mem_nil _) run_twoBytes zeros_keeps (by decide) (by decide)
    (by decide)

/-- The largest buffer: its last chunk is one byte short of the largest `int`. -/
theorem not_fill : ¬ ∀ (start finish : Int) (uniqueness : ℚ) (motifBytes : Nat)
    (g : MotifDataGenerator) (rng : Rng) (data : List Int),
    init start finish uniqueness motifBytes = .ok g → rng.Keeps → 1 ≤ motifBytes →
      motifBytes < 2 ^ 31 → data.length < 2 ^ 31 → ∃ out, Fills g rng start finish data out := by
  intro h
  have hlen : (List.replicate (2 ^ 31 - 3) (0 : Int)).length = 2 ^ 31 - 3 := List.length_replicate
  have hfills := h 200 201 (1 / 2) 128 twoBytes zeros (List.replicate (2 ^ 31 - 3) 0) rfl zeros_keeps
    (by decide) (by decide) (by rw [hlen]; decide)
  have hfits := (fill_iff init_twoBytes (List.forall_mem_nil _) run_twoBytes zeros_keeps (by decide)
    (by decide) (by rw [hlen]; decide)).mp hfills
  rw [hlen] at hfits
  exact absurd hfits (by decide)

end MotifDataGenerator

end TokuQa.LinkBench
