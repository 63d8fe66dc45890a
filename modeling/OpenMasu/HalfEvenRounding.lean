import OpenMasu.MetricRuns
import OpenMasu.NearestEven

/-!
# Rounding of published amounts

Every amount and ratio of a metric run leaves `roundHalfEven`.  It works on
absolute values and restores the sign, and decides a tie by the parity of the
truncated quotient; the result is the nearest-even rounding of the fraction.

* `roundHalfEven_eq_iff` — `roundHalfEven` in terms of `Rounds`;
* `Money.exact`, `FxRate.exact` — amounts and rates as rationals;
* `convertMoney_rounds`, `scaleMoney_rounds` — conversion and scaling;
* `roundHalfEven_nearestEven` — the laws of the rounding.
-/

namespace OpenMasu

open NearestEven

section Fraction

variable {n m d k p q : Int}

/-- The quotient of natural numbers that `roundHalfEven` keeps. -/
def roundedQuotient (n d : Nat) : Nat :=
  if n % d * 2 > d ∨ (n % d * 2 = d ∧ n / d % 2 = 1) then n / d + 1 else n / d

theorem roundHalfEven_of_pos (hd : 0 < d) : roundHalfEven n d =
    .ok (if n < 0 then -(roundedQuotient n.natAbs d.toNat : Int)
      else roundedQuotient n.natAbs d.toNat) := by
  rw [roundHalfEven, if_neg (by omega)]
  rfl

/-- Rounding up leaves `2 * (d - r)` to the doubled value, rounding down `2 * r`. -/
theorem rounds_roundedQuotient {n d : Nat} (hd : 0 < d) :
    Rounds (roundedQuotient n d) (((n : ℤ) : ℚ) / ((d : ℤ) : ℚ)) := by
  rw [rounds_div_iff (by omega), roundedQuotient]
  have hdivision : (n : ℤ) = d * (n / d : ℕ) + (n % d : ℕ) := by
    exact_mod_cast (Nat.div_add_mod n d).symm
  have hremainder := Nat.mod_lt n hd
  generalize n / d = quotient at hdivision ⊢
  generalize n % d = remainder at hdivision hremainder ⊢
  have hproduct : ((quotient : ℤ) + 1) * d = d * quotient + d := by ring
  have hcommute : (quotient : ℤ) * d = d * quotient := mul_comm _ _
  split
  · case isTrue hup =>
      have hdistance : 2 * (((quotient + 1 : ℕ) : ℤ) * d - n) = 2 * ((d : ℤ) - remainder) := by
        push_cast
        omega
      rw [hdistance, abs_of_nonneg (by omega)]
      refine ⟨by omega, fun htie => ?_⟩
      rw [Int.even_coe_nat, Nat.even_iff]
      omega
  · case isFalse hdown =>
      have hdistance : 2 * ((quotient : ℤ) * d - n) = -(2 * (remainder : ℤ)) := by omega
      rw [hdistance, abs_neg, abs_of_nonneg (by omega)]
      refine ⟨by omega, fun htie => ?_⟩
      rw [Int.even_coe_nat, Nat.even_iff]
      omega

/-- The sign is restored after rounding the absolute value. -/
theorem roundHalfEven_rounds (hd : 0 < d) :
    ∃ q, roundHalfEven n d = .ok q ∧ Rounds q ((n : ℚ) / d) := by
  have hrounds := rounds_roundedQuotient (n := n.natAbs) (d := d.toNat) (by omega)
  rw [Int.toNat_of_nonneg hd.le] at hrounds
  rw [roundHalfEven_of_pos hd]
  refine ⟨_, rfl, ?_⟩
  split
  · case isTrue hneg =>
      have hvalue : (n : ℚ) / d = -((n.natAbs : ℤ) / d) := by
        rw [Int.ofNat_natAbs_of_nonpos hneg.le, Int.cast_neg, neg_div, neg_neg]
      rw [hvalue]
      exact hrounds.neg
  · case isFalse hneg =>
      rw [Int.natAbs_of_nonneg (by omega)] at hrounds
      exact hrounds

/-- `roundHalfEven` is the nearest-even rounding of the fraction. -/
theorem roundHalfEven_eq_iff (hd : 0 < d) :
    roundHalfEven n d = .ok q ↔ Rounds q ((n : ℚ) / d) := by
  obtain ⟨r, hr, hrounds⟩ := roundHalfEven_rounds (n := n) hd
  rw [hr, Except.ok.injEq]
  constructor
  · intro h
    exact h ▸ hrounds
  · intro h
    exact hrounds.unique h

/-- Fractions of one value have one rounding. -/
theorem roundHalfEven_congr {n' d' : Int} (hd : 0 < d) (hd' : 0 < d')
    (hvalue : (n : ℚ) / d = n' / d') : roundHalfEven n d = roundHalfEven n' d' := by
  obtain ⟨q, hq, hrounds⟩ := roundHalfEven_rounds (n := n) hd
  rw [hq, eq_comm, roundHalfEven_eq_iff hd', ← hvalue]
  exact hrounds

theorem roundHalfEven_neg (hd : 0 < d) :
    roundHalfEven (-n) d = (roundHalfEven n d).map (- ·) := by
  obtain ⟨q, hq, hrounds⟩ := roundHalfEven_rounds (n := n) hd
  rw [hq, Except.map, roundHalfEven_eq_iff hd, Int.cast_neg, neg_div]
  exact hrounds.neg

theorem roundHalfEven_mono (hd : 0 < d) (hmn : m ≤ n) (hp : roundHalfEven m d = .ok p)
    (hq : roundHalfEven n d = .ok q) : p ≤ q := by
  rw [roundHalfEven_eq_iff hd] at hp hq
  have hpos : (0 : ℚ) < d := by exact_mod_cast hd
  exact hp.le hq (div_le_div_of_nonneg_right (by exact_mod_cast hmn) hpos.le)

theorem roundHalfEven_scale (hk : 0 < k) (hd : 0 < d) :
    roundHalfEven (k * n) (k * d) = roundHalfEven n d := by
  have hpos : (k : ℚ) ≠ 0 := by exact_mod_cast hk.ne'
  refine roundHalfEven_congr (mul_pos hk hd) hd ?_
  rw [Int.cast_mul, Int.cast_mul, mul_div_mul_left _ _ hpos]

end Fraction

section Money

/-- The amount as a rational number. -/
def Money.exact (m : Money) : ℚ := m.amountUnscaled.value / 10 ^ m.amountScale

/-- The rate as a rational number. -/
def FxRate.exact (rate : FxRate) : ℚ := rate.rateUnscaled.value / 10 ^ rate.rateScale

theorem convertMoney_rounds {m : Money} {fx : FxPolicy} {rate : FxRate}
    (hrate : fx.rates.find? (fun r => r.currency = m.currency) = some rate) :
    ∃ q, convertMoney (some m) fx = .ok q ∧
      Rounds q (m.exact * rate.exact * 10 ^ fx.targetScale) := by
  have hvalue : m.exact * rate.exact * 10 ^ fx.targetScale =
      (((m.amountUnscaled.value * rate.rateUnscaled.value * 10 ^ fx.targetScale : ℕ) : ℤ) : ℚ) /
        ((10 ^ (m.amountScale + rate.rateScale) : ℕ) : ℤ) := by
    rw [Money.exact, FxRate.exact]
    push_cast
    rw [pow_add]
    field_simp
  rw [hvalue]
  simp only [convertMoney, hrate]
  exact roundHalfEven_rounds (by positivity)

/-- A finer target scale needs no rounding. -/
theorem scaleMoney_rounds (m : Money) (targetScale : Nat) :
    ∃ q, scaleMoney m targetScale = .ok q ∧ Rounds q (m.exact * 10 ^ targetScale) := by
  rw [scaleMoney, Money.exact]
  split
  · case isTrue hle =>
      obtain ⟨finer, rfl⟩ := Nat.exists_eq_add_of_le hle
      have hvalue : (m.amountUnscaled.value : ℚ) / 10 ^ m.amountScale *
          10 ^ (m.amountScale + finer) =
          ((m.amountUnscaled.value * 10 ^ finer : ℕ) : ℤ) := by
        push_cast
        rw [pow_add]
        field_simp
      rw [hvalue, Nat.add_sub_cancel_left]
      exact ⟨_, rfl, rounds_intCast _⟩
  · case isFalse hlt =>
      obtain ⟨coarser, hscale⟩ := Nat.exists_eq_add_of_le (Nat.le_of_not_le hlt)
      have hvalue : (m.amountUnscaled.value : ℚ) / 10 ^ m.amountScale * 10 ^ targetScale =
          ((m.amountUnscaled.value : ℤ) : ℚ) / ((10 ^ coarser : ℕ) : ℤ) := by
        push_cast
        rw [hscale, pow_add]
        field_simp
      rw [hvalue, hscale, Nat.add_sub_cancel_left]
      exact roundHalfEven_rounds (by positivity)

/-- Every amount that is published is a nearest-even rounding. -/
theorem roundHalfEven_nearestEven :
    (∀ n d : Int, 0 < d → ∃ q, roundHalfEven n d = .ok q ∧
      |2 * (q * d - n)| ≤ d ∧ (|2 * (q * d - n)| = d → Even q)) ∧
    (∀ n d : Int, 0 < d → roundHalfEven (-n) d = (roundHalfEven n d).map (- ·)) ∧
    (∀ m n d p q : Int, 0 < d → m ≤ n → roundHalfEven m d = .ok p →
      roundHalfEven n d = .ok q → p ≤ q) ∧
    (∀ k n d : Int, 0 < k → 0 < d → roundHalfEven (k * n) (k * d) = roundHalfEven n d) ∧
    (∀ (m : Money) (fx : FxPolicy) (rate : FxRate),
      fx.rates.find? (fun r => r.currency = m.currency) = some rate →
        ∃ q, convertMoney (some m) fx = .ok q ∧
          Rounds q (m.exact * rate.exact * 10 ^ fx.targetScale)) ∧
    ∀ (m : Money) (targetScale : Nat),
      ∃ q, scaleMoney m targetScale = .ok q ∧ Rounds q (m.exact * 10 ^ targetScale) := by
  refine ⟨?_, fun n d => roundHalfEven_neg, fun m n d p q => roundHalfEven_mono,
    fun k n d => roundHalfEven_scale, fun m fx rate => convertMoney_rounds, scaleMoney_rounds⟩
  intro n d hd
  obtain ⟨q, hq, hrounds⟩ := roundHalfEven_rounds (n := n) hd
  exact ⟨q, hq, (rounds_div_iff hd).mp hrounds⟩

example : roundHalfEven (-5) 2 = .ok (-2) ∧ roundHalfEven 7 2 = .ok 4 := by decide

end Money

end OpenMasu
