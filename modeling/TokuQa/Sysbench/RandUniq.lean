import Mathlib.NumberTheory.LucasLehmer
import TokuQa.Lib.JavaInt
import TokuQa.Lib.Run
import TokuQa.Lib.Stride

/-!
# `sb_rand_uniq` of `sysbench.c`

Unique ids without a record of those given out: a shared seed goes up by a large prime, and an
id is the seed modulo the size of the range. The prime has no factor in common with a smaller
size, so the seed runs through all residues before it meets one again.

The seed is read and moved on under `rnd_mutex`. What follows the section is local to the
thread, so the calls of all threads are one list, in the order in which they take the lock.
-/

set_option autoImplicit false

namespace TokuQa.Sysbench.RandUniq

open TokuQa.Lib

/-- `LARGE_PRIME`, also the first value of `rnd_seed`. -/
def largePrime : Nat := 2147483647

/-- A call of a thread. -/
structure Call (threads : Nat) where
  thread : Fin threads
  a : Int
  b : Int

/-- `sb_rand_uniq`: the id, and `rnd_seed` after the call. The divisor is an `int`, converted to
the seed's unsigned 64 bits; the remainder goes through `unsigned int` into an `int`. -/
def sbRandUniq (a b : Int) (rndSeed : Nat) : Int × Nat :=
  let divisor := (wrap32 (wrap32 (b - a) + 1) % 2 ^ 64).toNat
  let res := wrap32 ((rndSeed % divisor % 2 ^ 32 : Nat) : Int)
  (wrap32 (res + a), (rndSeed + largePrime) % 2 ^ 64)

variable {threads : Nat}

/-- The ids of a list of calls, and the seed after them. -/
def sbRandUniqs (calls : List (Call threads)) (rndSeed : Nat) : List Int × Nat :=
  answers (fun (c : Call threads) seed => sbRandUniq c.a c.b seed) calls rndSeed

/-! ## One call -/

theorem prime_largePrime : Nat.Prime largePrime := by
  have htest : LucasLehmerTest 31 := by norm_num
  have hmersenne : mersenne 31 = largePrime := by decide
  rw [← hmersenne]
  exact lucas_lehmer_sufficiency 31 (by decide) htest

/-- No size of a range that is small enough has a factor in common with the prime. -/
theorem coprime_largePrime {n : Nat} (hn : 0 < n) (hlt : n < largePrime) :
    Nat.Coprime n largePrime :=
  Nat.coprime_comm.mp
    ((Nat.Prime.coprime_iff_not_dvd prime_largePrime).mpr (Nat.not_dvd_of_pos_of_lt hn hlt))

section

variable {a b : Int} (ha : -2 ^ 31 ≤ a) (hb : b < 2 ^ 31) (hab : a ≤ b)
  (hn : b - a + 1 < 2 ^ 31 - 1)

include ha hb hab hn

/-- No conversion and no addition of a call loses anything. -/
theorem sbRandUniq_eq (rndSeed : Nat) :
    (sbRandUniq a b rndSeed).1 = a + (rndSeed % (b - a + 1).toNat : Nat) := by
  have hsub : wrap32 (b - a) = b - a := wrap_eq_self (by omega) (by omega)
  have hsize : wrap32 (b - a + 1) = b - a + 1 := wrap_eq_self (by omega) (by omega)
  have hdivisor : ((b - a + 1) % 2 ^ 64).toNat = (b - a + 1).toNat := by
    rw [Int.emod_eq_of_lt (by omega) (by omega)]
  have hlt : rndSeed % (b - a + 1).toNat < (b - a + 1).toNat := Nat.mod_lt _ (by omega)
  have hunsigned : rndSeed % (b - a + 1).toNat % 2 ^ 32 = rndSeed % (b - a + 1).toNat :=
    Nat.mod_eq_of_lt (by omega)
  have hres : wrap32 ((rndSeed % (b - a + 1).toNat : Nat) : Int) =
      (rndSeed % (b - a + 1).toNat : Nat) := wrap_eq_self (by omega) (by omega)
  have hsum : wrap32 ((rndSeed % (b - a + 1).toNat : Nat) + a) =
      (rndSeed % (b - a + 1).toNat : Nat) + a := wrap_eq_self (by omega) (by omega)
  simp only [sbRandUniq, hsub, hsize, hdivisor, hunsigned, hres, hsum]
  exact Int.add_comm _ _

end

/-! ## Calls in a row -/

/-- The seed after some calls, if it has not wrapped. -/
theorem seed_after (calls : List (Call threads)) {rndSeed : Nat}
    (hseed : rndSeed + calls.length * largePrime < 2 ^ 64) :
    (sbRandUniqs calls rndSeed).2 = rndSeed + calls.length * largePrime := by
  unfold sbRandUniqs
  induction calls generalizing rndSeed with
  | nil => simp [answers]
  | cons c calls ih =>
    rw [List.length_cons, Nat.succ_mul] at hseed
    have hnext : (rndSeed + largePrime) % 2 ^ 64 = rndSeed + largePrime :=
      Nat.mod_eq_of_lt (by omega)
    rw [answers]
    show (answers _ calls ((rndSeed + largePrime) % 2 ^ 64)).2 = _
    rw [hnext, ih (by omega), List.length_cons, Nat.succ_mul]
    omega

/-- The ids of calls with one range, if the last of them does not read a wrapped seed. -/
theorem ids_eq {a b : Int} (ha : -2 ^ 31 ≤ a) (hb : b < 2 ^ 31) (hab : a ≤ b)
    (hn : b - a + 1 < 2 ^ 31 - 1) (threadIds : List (Fin threads)) {rndSeed : Nat}
    (hseed : rndSeed + (threadIds.length - 1) * largePrime < 2 ^ 64) :
    (sbRandUniqs (threadIds.map fun i => ⟨i, a, b⟩) rndSeed).1 =
      (List.range threadIds.length).map fun k : Nat =>
        a + (((rndSeed + k * largePrime) % (b - a + 1).toNat : Nat) : Int) := by
  unfold sbRandUniqs
  induction threadIds generalizing rndSeed with
  | nil => rfl
  | cons i is ih =>
    rw [List.map_cons, answers, sbRandUniq_eq ha hb hab hn, List.length_cons,
      List.range_succ_eq_map, List.map_cons, Nat.zero_mul, Nat.add_zero]
    refine List.cons_eq_cons.mpr ⟨rfl, ?_⟩
    cases is with
    | nil => rfl
    | cons j js =>
      have hlength : (i :: j :: js).length - 1 = (j :: js).length - 1 + 1 := by simp
      rw [hlength, Nat.succ_mul] at hseed
      have hnext : (rndSeed + largePrime) % 2 ^ 64 = rndSeed + largePrime :=
        Nat.mod_eq_of_lt (by omega)
      show (answers _ _ ((rndSeed + largePrime) % 2 ^ 64)).1 = _
      rw [hnext, ih (by omega), List.map_map]
      refine List.map_congr_left fun k _ => ?_
      have hk : rndSeed + largePrime + k * largePrime = rndSeed + (k + 1) * largePrime := by
        rw [Nat.succ_mul]
        omega
      show _ = a + (((rndSeed + (k + 1) * largePrime) % (b - a + 1).toNat : Nat) : Int)
      rw [hk]

/-- **Any `n` calls in a row give out every id of a range of `n` once**, whatever threads make
them and whatever was called before, as long as the seed has not wrapped. -/
theorem sbRandUniq_perm {a b : Int} (ha : -2 ^ 31 ≤ a) (hb : b < 2 ^ 31) (hab : a ≤ b)
    (hn : b - a + 1 < 2 ^ 31 - 1) (before : List (Call threads)) (threadIds : List (Fin threads))
    (hlength : (threadIds.length : Int) = b - a + 1)
    (hseed : (before.length + threadIds.length) * largePrime < 2 ^ 64) :
    (sbRandUniqs (threadIds.map fun i => ⟨i, a, b⟩) (sbRandUniqs before largePrime).2).1.Perm
      ((List.range threadIds.length).map fun k : Nat => a + (k : Int)) := by
  have hpos : 0 < threadIds.length := by omega
  have hsize : (b - a + 1).toNat = threadIds.length := by omega
  have hlt : threadIds.length < largePrime := by
    unfold largePrime
    omega
  have hmul : (before.length + threadIds.length) * largePrime =
      largePrime + before.length * largePrime + (threadIds.length - 1) * largePrime := by
    obtain ⟨m, hm⟩ := Nat.exists_eq_succ_of_ne_zero hpos.ne'
    rw [hm]
    simp only [Nat.succ_eq_add_one, Nat.add_sub_cancel]
    ring
  rw [hmul] at hseed
  rw [seed_after before (by omega), ids_eq ha hb hab hn threadIds hseed, hsize]
  have hperm := (perm_stride hpos (coprime_largePrime hpos hlt)
    (largePrime + before.length * largePrime)).map fun x : Nat => a + (x : Int)
  rw [List.map_map] at hperm
  exact hperm

/-- Two threads on a range of three, after another call. -/
theorem sbRandUniq_perm_three :
    (sbRandUniqs (([0, 1, 1] : List (Fin 2)).map fun i => ⟨i, 5, 7⟩)
        (sbRandUniqs [(⟨1, 1, 100⟩ : Call 2)] largePrime).2).1.Perm
      ((List.range ([0, 1, 1] : List (Fin 2)).length).map fun k : Nat => (5 : Int) + (k : Int)) :=
  sbRandUniq_perm (by decide) (by decide) (by decide) (by decide) [⟨1, 1, 100⟩] [0, 1, 1]
    (by decide) (by decide)

end TokuQa.Sysbench.RandUniq
