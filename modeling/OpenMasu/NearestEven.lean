import Mathlib.Algebra.Order.Field.Basic
import Mathlib.Algebra.Order.Ring.Cast
import Mathlib.Algebra.Group.Int.Even
import Mathlib.Tactic.FieldSimp
import Mathlib.Tactic.Linarith
import Mathlib.Tactic.Ring

/-!
# Rounding to the nearest even integer

The nearest integer to a value of an ordered field, the even one where two
integers are equally near.

* `Rounds` — an integer is the nearest-even rounding of a value;
* `Rounds.le`, `Rounds.unique` — the rounding is monotone and unique;
* `Rounds.neg` — it commutes with a change of sign;
* `rounds_div_iff` — the rounding of a fraction, in integers.
-/

namespace NearestEven

variable {K : Type*} [Field K] [LinearOrder K] [IsStrictOrderedRing K] {p q : ℤ} {x y : K}

/-- `q` is a nearest integer to `x`, the even one if there are two. -/
structure Rounds (q : ℤ) (x : K) : Prop where
  near : |(q : K) - x| ≤ 1 / 2
  even : |(q : K) - x| = 1 / 2 → Even q

theorem rounds_intCast (q : ℤ) : Rounds q (q : K) where
  near := by
    rw [sub_self, abs_zero]
    linarith
  even := by
    intro h
    rw [sub_self, abs_zero] at h
    linarith

/-- A larger value has no smaller rounding: two roundings in the wrong order
would be the two neighbours of one tie, and not both even. -/
theorem Rounds.le (hp : Rounds p x) (hq : Rounds q y) (hxy : x ≤ y) : p ≤ q := by
  by_contra hlt
  have hstep : q + 1 ≤ p := by omega
  have hcast : (q : K) + 1 ≤ p := by exact_mod_cast hstep
  have hpx := (abs_le.mp hp.near).2
  have hqy := (abs_le.mp hq.near).1
  have hpTie : (p : K) - x = 1 / 2 := by linarith
  have hqTie : (q : K) - y = -(1 / 2) := by linarith
  have hpEven : Even p := hp.even (by rw [hpTie, abs_of_pos (by linarith)])
  have hqEven : Even q := hq.even (by rw [hqTie, abs_neg, abs_of_pos (by linarith)])
  have hnext : p = q + 1 := by
    have : (p : K) = q + 1 := by linarith
    exact_mod_cast this
  rw [hnext, Int.even_add_one] at hpEven
  exact hpEven hqEven

theorem Rounds.unique (hp : Rounds p x) (hq : Rounds q x) : p = q :=
  le_antisymm (hp.le hq le_rfl) (hq.le hp le_rfl)

omit [IsStrictOrderedRing K] in
theorem Rounds.neg (h : Rounds q x) : Rounds (-q) (-x) := by
  have hdistance : |((-q : ℤ) : K) - -x| = |(q : K) - x| := by
    rw [Int.cast_neg, neg_sub_neg, abs_sub_comm]
  exact ⟨hdistance.trans_le h.near, fun htie => (h.even (hdistance.symm.trans htie)).neg⟩

/-- The distance to a fraction, in units of its denominator. -/
theorem abs_sub_div {n d : ℤ} (hd : 0 < d) :
    |(q : K) - n / d| = ((|2 * (q * d - n)| : ℤ) : K) / (2 * d) := by
  have hpos : (0 : K) < d := by exact_mod_cast hd
  have hsplit : (q : K) - n / d = (2 * (q * d - n)) / (2 * d) := by
    field_simp
  rw [hsplit, abs_div, abs_of_pos (show (0 : K) < 2 * d by linarith)]
  push_cast
  rfl

theorem rounds_div_iff {n d : ℤ} (hd : 0 < d) :
    Rounds q ((n : K) / d) ↔
      |2 * (q * d - n)| ≤ d ∧ (|2 * (q * d - n)| = d → Even q) := by
  have hpos : (0 : K) < 2 * d := by
    have : (0 : K) < d := by exact_mod_cast hd
    linarith
  have hnear : |(q : K) - n / d| ≤ 1 / 2 ↔ |2 * (q * d - n)| ≤ d := by
    rw [abs_sub_div hd, div_le_iff₀ hpos, one_div, inv_mul_cancel_left₀ two_ne_zero, Int.cast_le]
  have htie : |(q : K) - n / d| = 1 / 2 ↔ |2 * (q * d - n)| = d := by
    rw [abs_sub_div hd, div_eq_iff hpos.ne', one_div, inv_mul_cancel_left₀ two_ne_zero,
      Int.cast_inj]
  constructor
  · intro h
    exact ⟨hnear.mp h.near, fun heq => h.even (htie.mpr heq)⟩
  · intro h
    exact ⟨hnear.mpr h.1, fun heq => h.2 (htie.mp heq)⟩

end NearestEven
