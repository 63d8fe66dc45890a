import Mathlib.Data.Int.Log
import Mathlib.Data.Rat.Floor
import OpenMasu.NearestEven

/-!
# Binary floating point

The numbers of binary64 arithmetic, as the values they stand for: a rational,
one of the two infinities, or not a number.  The two zeros are one value.  An
operation computes the exact result and rounds it to the nearest number with
53 significant bits, of two to the one whose last bit is even.

* `nearest`, `rounds_nearest` — the nearest integer;
* `round` — the nearest number; `round_natCast`, `natCast_addCount` — whole numbers
  up to `2 ^ 53` and their sums are exact;
* `total`, `total_eq` — a sum in the order of a list, and where it is exact.
-/

namespace BinaryFloat

/-- A number of binary64 arithmetic. -/
inductive Number where
  | nan
  | infinite (negative : Bool)
  | finite (value : Rat)
  deriving DecidableEq

/-- The nearest integer, of two the even one. -/
def nearest (x : Rat) : Int :=
  if x - ⌊x⌋ < 1 / 2 ∨ (x - ⌊x⌋ = 1 / 2 ∧ ⌊x⌋ % 2 = 0) then ⌊x⌋ else ⌊x⌋ + 1

/-- The exponent of the distance between the numbers around `q`: 53 bits
follow its first one, but none is below `2 ^ (-1074)`. -/
def unitExponent (q : Rat) : Int := max (Int.log 2 |q| - 52) (-1074)

/-- The number nearest to `q`; from `2 ^ 1024` on it is infinite. -/
def round (q : Rat) : Number :=
  let unit : Rat := 2 ^ unitExponent q
  let value := nearest (q / unit) * unit
  if |value| < 2 ^ 1024 then .finite value else .infinite (q < 0)

namespace Number

def add : Number → Number → Number
  | finite p, finite q => round (p + q)
  | finite _, infinite s => infinite s
  | infinite s, finite _ => infinite s
  | infinite s, infinite t => if s = t then infinite s else nan
  | _, _ => nan

/-- A count is rounded when it is read. -/
def addCount (sum : Number) (n : Nat) : Number := sum.add (round n)

def mul : Number → Number → Number
  | finite p, finite q => round (p * q)
  | finite p, infinite s => if p = 0 then nan else infinite (s != decide (p < 0))
  | infinite s, finite q => if q = 0 then nan else infinite (s != decide (q < 0))
  | infinite s, infinite t => infinite (s != t)
  | _, _ => nan

/-- Division; zero as a divisor is the positive one. -/
def div : Number → Number → Number
  | finite p, finite q =>
      if q ≠ 0 then round (p / q) else if p ≠ 0 then infinite (p < 0) else nan
  | finite _, infinite _ => finite 0
  | infinite s, finite q => infinite (s != decide (q < 0))
  | _, _ => nan

/-- No number is less than, or comparable with, one that is none. -/
def lt : Number → Number → Bool
  | finite p, finite q => p < q
  | finite _, infinite s => !s
  | infinite s, finite _ => s
  | infinite s, infinite t => s && !t
  | _, _ => false

def le : Number → Number → Bool
  | finite p, finite q => p ≤ q
  | finite _, infinite s => !s
  | infinite s, finite _ => s
  | infinite s, infinite t => s || !t
  | _, _ => false

/-- The value of a finite number. -/
def value? : Number → Option Rat
  | finite q => some q
  | _ => none

end Number

/-- A sum in the order of the list. -/
def total (counts : List Nat) : Number :=
  counts.foldl Number.addCount (.finite 0)

/-- The nearest integer is at most half away, and even where two are. -/
theorem rounds_nearest (x : Rat) : NearestEven.Rounds (nearest x) x := by
  have hlow : 0 ≤ x - ⌊x⌋ := sub_nonneg.mpr (Int.floor_le x)
  have hhigh : x - ⌊x⌋ < 1 := by linarith [Int.lt_floor_add_one x]
  by_cases hbelow : x - ⌊x⌋ < 1 / 2 ∨ (x - ⌊x⌋ = 1 / 2 ∧ ⌊x⌋ % 2 = 0)
  · rw [nearest, if_pos hbelow]
    have habs : |((⌊x⌋ : Int) : Rat) - x| = x - ⌊x⌋ := by
      rw [abs_sub_comm, abs_of_nonneg hlow]
    rw [← habs] at hbelow
    refine ⟨?_, fun htie => ?_⟩
    · rcases hbelow with hbelow | ⟨htie, -⟩
      · exact hbelow.le
      · exact htie.le
    · rcases hbelow with hbelow | ⟨-, heven⟩
      · exact absurd htie hbelow.ne
      · exact Int.even_iff.mpr heven
  · rw [nearest, if_neg hbelow]
    obtain ⟨hhalf, hodd⟩ := not_or.mp hbelow
    have habs : |((⌊x⌋ + 1 : Int) : Rat) - x| = 1 - (x - ⌊x⌋) := by
      rw [abs_of_nonneg]
      · push_cast
        ring
      · push_cast
        linarith
    refine ⟨?_, fun htie => ?_⟩
    · rw [habs]
      linarith [not_lt.mp hhalf]
    · rw [habs] at htie
      have heven : ⌊x⌋ % 2 ≠ 0 := fun heven => hodd ⟨by linarith, heven⟩
      rw [Int.even_iff]
      omega

theorem nearest_intCast (n : Int) : nearest n = n :=
  (rounds_nearest n).unique (NearestEven.rounds_intCast n)

/-- A number with 53 bits is its own nearest one. -/
theorem round_natCast {n : Nat} (h : n ≤ 2 ^ 53) : round n = .finite n := by
  rcases Nat.lt_or_ge n (2 ^ 53) with hlt | hge
  · -- the unit is a fraction of one, so that a whole number is a multiple of it
    have hexp : unitExponent n ≤ 0 := by
      refine max_le ?_ (by norm_num)
      rw [abs_of_nonneg (Nat.cast_nonneg (α := Rat) n), Int.log_natCast]
      have hlog : Nat.log 2 n ≤ 52 := by
        rcases Nat.eq_zero_or_pos n with rfl | hpos
        · rw [Nat.log_zero_right]
          exact Nat.zero_le 52
        · exact Nat.lt_succ_iff.mp (Nat.log_lt_of_lt_pow hpos.ne' hlt)
      omega
    obtain ⟨k, hk⟩ := Int.eq_ofNat_of_zero_le (show 0 ≤ -unitExponent n by omega)
    have hunit : (2 : Rat) ^ unitExponent n = (2 ^ k)⁻¹ := by
      rw [show unitExponent n = -(k : Int) by omega, zpow_neg, zpow_natCast]
    have hmultiple : (n : Rat) / 2 ^ unitExponent n = ((n * 2 ^ k : Int) : Rat) := by
      rw [hunit, div_inv_eq_mul]
      push_cast
      rfl
    have hvalue : (nearest ((n : Rat) / 2 ^ unitExponent n) : Rat) * 2 ^ unitExponent n = n := by
      rw [hmultiple, nearest_intCast, ← hmultiple, div_mul_cancel₀]
      exact zpow_ne_zero _ two_ne_zero
    rw [round, hvalue, if_pos]
    rw [abs_of_nonneg (Nat.cast_nonneg n)]
    calc (n : Rat) < 2 ^ 53 := by exact_mod_cast hlt
      _ ≤ 2 ^ 1024 := by gcongr <;> norm_num
  · obtain rfl := Nat.le_antisymm h hge
    decide +kernel

/-- The sum of two whole numbers up to `2 ^ 53` is exact. -/
theorem natCast_addCount {m n : Nat} (h : m + n ≤ 2 ^ 53) :
    (Number.finite m).addCount n = .finite ((m + n : Nat) : Rat) := by
  rw [Number.addCount, round_natCast (by omega), Number.add, ← Nat.cast_add, round_natCast h]

theorem foldl_addCount {counts : List Nat} {m : Nat} (h : m + counts.sum ≤ 2 ^ 53) :
    counts.foldl Number.addCount (.finite m) =
      .finite ((m + counts.sum : Nat) : Rat) := by
  induction counts generalizing m with
  | nil => rfl
  | cons n rest ih =>
      rw [List.sum_cons] at h
      rw [List.foldl_cons, natCast_addCount (by omega), ih (by omega), List.sum_cons, Nat.add_assoc]

/-- Up to `2 ^ 53` a sum of whole numbers is exact, in whatever order. -/
theorem total_eq {counts : List Nat} (h : counts.sum ≤ 2 ^ 53) :
    total counts = .finite counts.sum := by
  have hfold := @foldl_addCount counts 0 (by omega)
  rw [Nat.cast_zero, Nat.zero_add] at hfold
  exact hfold

end BinaryFloat
