import Mathlib.Algebra.Order.Ring.Int
import Mathlib.Data.Int.ConditionallyCompleteOrder
import Mathlib.Data.Int.Interval
import Mathlib.Data.Int.ModEq
import Mathlib.Data.Nat.ChineseRemainder
import Mathlib.Data.Set.Card

/-!
# Residue classes of an interval, and their rotations

Modulo `s`, the interval `[0, n)` falls into classes `g, g + s, g + 2 * s, ..`; the class of
`g` has `classSize s n g` members, `n / s` of them and one more when `g < n % s`. An element
is its class `i % s` with its place `i / s` in it.

`rotated s n rot i` moves `i` on by `rot` places within its own class, around its end. The
class does not change, and rotations whose amounts add up to the size of the class undo one
another.

`gathered s n i` is where `i` comes to stand when the classes are laid out one after another, and
takes the interval onto itself.

One shift takes numbers to given residues, each modulo its own modulus, whatever the residues
are, exactly when any two of the moduli are coprime (`exists_shift`, `coprime_of_shifts`).
-/

set_option autoImplicit false

namespace TokuQa.Lib

/-- How many `k` there are with `0 ≤ g + s * k < n`. -/
def classSize (s n g : Int) : Int := if g < n % s then n / s + 1 else n / s

def rotated (s n rot i : Int) : Int := i % s + s * ((i / s + rot) % classSize s n (i % s))

variable {s n g k rot rot' i : Int}

/-- **The class of `g` ends where its size says.** -/
theorem add_mul_lt_iff (hg : 0 ≤ g) (hgs : g < s) : g + s * k < n ↔ k < classSize s n g := by
  have hs : 0 < s := by omega
  have hn := Int.emod_add_mul_ediv n s
  have hr := Int.emod_lt_of_pos n hs
  have hr0 := Int.emod_nonneg n hs.ne'
  unfold classSize
  rcases lt_trichotomy k (n / s) with hk | hk | hk
  · have hmul : s * (k + 1) ≤ s * (n / s) := Int.mul_le_mul_of_nonneg_left (by omega) hs.le
    rw [Int.mul_add] at hmul
    split <;> omega
  · subst hk
    split <;> omega
  · have hmul : s * (n / s + 1) ≤ s * k := Int.mul_le_mul_of_nonneg_left (by omega) hs.le
    rw [Int.mul_add] at hmul
    split <;> omega

theorem emod_add_mul (hg : 0 ≤ g) (hgs : g < s) (k : Int) : (g + s * k) % s = g := by
  rw [Int.add_mul_emod_self_left, Int.emod_eq_of_lt hg hgs]

theorem ediv_add_mul (hg : 0 ≤ g) (hgs : g < s) (k : Int) : (g + s * k) / s = k := by
  rw [Int.add_mul_ediv_left _ _ (by omega), Int.ediv_eq_zero_of_lt hg hgs, Int.zero_add]

section

variable (hs : 0 < s)
include hs

theorem place_lt (hn : i < n) : i / s < classSize s n (i % s) := by
  rw [← add_mul_lt_iff (Int.emod_nonneg i hs.ne') (Int.emod_lt_of_pos i hs),
    Int.emod_add_mul_ediv]
  exact hn

theorem classSize_pos (h0 : 0 ≤ i) (hn : i < n) : 0 < classSize s n (i % s) :=
  lt_of_le_of_lt (Int.ediv_nonneg h0 hs.le) (place_lt hs hn)

theorem rotated_emod : rotated s n rot i % s = i % s :=
  emod_add_mul (Int.emod_nonneg i hs.ne') (Int.emod_lt_of_pos i hs) _

theorem rotated_ediv : rotated s n rot i / s = (i / s + rot) % classSize s n (i % s) :=
  ediv_add_mul (Int.emod_nonneg i hs.ne') (Int.emod_lt_of_pos i hs) _

theorem rotated_nonneg (h0 : 0 ≤ i) (hn : i < n) : 0 ≤ rotated s n rot i := by
  have hpos := classSize_pos hs h0 hn
  have hplace := Int.emod_nonneg (i / s + rot) hpos.ne'
  exact Int.add_nonneg (Int.emod_nonneg i hs.ne') (Int.mul_nonneg hs.le hplace)

theorem rotated_lt (h0 : 0 ≤ i) (hn : i < n) : rotated s n rot i < n :=
  (add_mul_lt_iff (Int.emod_nonneg i hs.ne') (Int.emod_lt_of_pos i hs)).mpr
    (Int.emod_lt_of_pos _ (classSize_pos hs h0 hn))

/-- **A full turn is none.** -/
theorem rotated_rotated (h0 : 0 ≤ i) (hn : i < n) (hturn : rot + rot' = classSize s n (i % s)) :
    rotated s n rot' (rotated s n rot i) = i := by
  have hlt := place_lt hs hn
  have hplace := Int.ediv_nonneg h0 hs.le
  have hback : ((i / s + rot) % classSize s n (i % s) + rot') % classSize s n (i % s) = i / s := by
    rw [Int.emod_add_emod, Int.add_assoc, hturn, Int.add_emod_right,
      Int.emod_eq_of_lt hplace hlt]
  rw [rotated, rotated_emod hs, rotated_ediv hs, hback, Int.emod_add_mul_ediv]

end

/-! ## The classes one after another -/

/-- Where the class of `g` begins. -/
def classStart (s n g : Int) : Int := g * (n / s) + min g (n % s)

def gathered (s n i : Int) : Int := classStart s n (i % s) + i / s

theorem classStart_succ (s n g : Int) :
    classStart s n (g + 1) = classStart s n g + classSize s n g := by
  unfold classStart classSize
  rw [Int.add_mul, Int.one_mul]
  split <;> omega

section

variable (hs : 0 < s)
include hs

theorem classStart_mono {g' : Int} (h0 : 0 ≤ n) (hg : g ≤ g') :
    classStart s n g ≤ classStart s n g' := by
  have hmul : g * (n / s) ≤ g' * (n / s) :=
    Int.mul_le_mul_of_nonneg_right hg (Int.ediv_nonneg h0 hs.le)
  unfold classStart
  omega

/-- The classes begin at 0, and after the last one is the end. -/
theorem classStart_ends : classStart s n 0 = 0 ∧ classStart s n s = n := by
  have hr := Int.emod_lt_of_pos n hs
  have hr0 := Int.emod_nonneg n hs.ne'
  have hn := Int.emod_add_mul_ediv n s
  unfold classStart
  rw [Int.zero_mul]
  omega

/-- An element of a class comes before the next class. -/
theorem gathered_lt_classStart (hi : i < n) (hg : i % s < g) (h0 : 0 ≤ n) :
    gathered s n i < classStart s n g := by
  have hplace := place_lt hs hi
  have hnext := classStart_succ s n (i % s)
  have hmono : classStart s n (i % s + 1) ≤ classStart s n g :=
    classStart_mono hs h0 (by omega)
  unfold gathered
  omega

theorem gathered_mapsTo : Set.MapsTo (gathered s n) (Set.Ico 0 n) (Set.Ico 0 n) := by
  intro i ⟨hi0, hi⟩
  have h0 : 0 ≤ n := by omega
  obtain ⟨hfirst, hlast⟩ := classStart_ends (n := n) hs
  have hlower : classStart s n 0 ≤ classStart s n (i % s) :=
    classStart_mono hs h0 (Int.emod_nonneg i hs.ne')
  have hupper := gathered_lt_classStart hs hi (Int.emod_lt_of_pos i hs) h0
  have hplace := Int.ediv_nonneg hi0 hs.le
  refine ⟨?_, hupper.trans_eq hlast⟩
  unfold gathered
  omega

theorem gathered_injOn : Set.InjOn (gathered s n) (Set.Ico 0 n) := by
  have hne : ∀ {i j}, i ∈ Set.Ico 0 n → j ∈ Set.Ico 0 n → i % s < j % s →
      gathered s n i < gathered s n j := by
    intro i j ⟨hi0, hi⟩ ⟨hj0, _⟩ hlt
    have hbefore := gathered_lt_classStart hs hi hlt (by omega)
    have hplace := Int.ediv_nonneg hj0 hs.le
    rw [gathered.eq_def s n j]
    omega
  intro i hi j hj heq
  rcases lt_trichotomy (i % s) (j % s) with hlt | hsame | hlt
  · exact absurd heq (hne hi hj hlt).ne
  · rw [gathered, gathered, hsame] at heq
    rw [← Int.emod_add_mul_ediv i s, ← Int.emod_add_mul_ediv j s, hsame, Int.add_left_cancel heq]
  · exact absurd heq (hne hj hi hlt).ne'

/-- **Gathering the classes is a permutation.** -/
theorem gathered_bijOn : Set.BijOn (gathered s n) (Set.Ico 0 n) (Set.Ico 0 n) :=
  ((Set.finite_Ico 0 n).injOn_iff_bijOn_of_mapsTo (gathered_mapsTo hs)).mp (gathered_injOn hs)

end

/-! ## One shift for many moduli -/

section

variable {ι : Type}

theorem exists_shift (l : List ι) (m o r : ι → Nat) (hm : ∀ i ∈ l, 0 < m i)
    (hco : l.Pairwise fun i j => Nat.Coprime (m i) (m j)) :
    ∃ c, ∀ i ∈ l, (o i + c) % m i = r i % m i := by
  obtain ⟨c, hc⟩ := Nat.chineseRemainderOfList (fun i => r i + (m i - 1) * o i) m l hco
  refine ⟨c, fun i hi => ?_⟩
  obtain ⟨p, hp⟩ : ∃ p, m i = p + 1 := ⟨m i - 1, (Nat.sub_add_cancel (hm i hi)).symm⟩
  calc (o i + c) % m i = (o i + (r i + (m i - 1) * o i)) % m i := (hc i hi).add_left (o i)
    _ = (r i + m i * o i) % m i := by
      rw [hp, Nat.add_sub_cancel, Nat.succ_mul]
      congr 1
      omega
    _ = r i % m i := Nat.add_mul_mod_self_left ..

/-- Two shifts that agree modulo `m`, and modulo `m'` take a number to residues that are one
apart. -/
theorem coprime_of_shifts {m m' o o' c c' : Nat} (hm : (o + c) % m = (o + c') % m)
    (h₀ : (o' + c) % m' = 0) (h₁ : (o' + c') % m' = 1 % m') : Nat.Coprime m m' := by
  have hagree : c ≡ c' [MOD Nat.gcd m m'] :=
    (Nat.ModEq.add_left_cancel' o hm).of_dvd (Nat.gcd_dvd_left m m')
  have hzero : o' + c ≡ 0 [MOD Nat.gcd m m'] :=
    Nat.ModEq.of_dvd (Nat.gcd_dvd_right m m') (h₀.trans (Nat.zero_mod m').symm)
  have hone : o' + c' ≡ 1 [MOD Nat.gcd m m'] := Nat.ModEq.of_dvd (Nat.gcd_dvd_right m m') h₁
  have hdvd : 0 ≡ 1 [MOD Nat.gcd m m'] := hzero.symm.trans ((hagree.add_left o').trans hone)
  exact Nat.dvd_one.mp ((Nat.modEq_zero_iff_dvd).mp hdvd.symm)

end

end TokuQa.Lib
