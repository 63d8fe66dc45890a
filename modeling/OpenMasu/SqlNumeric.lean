import OpenMasu.MetricRuns
import Mathlib.Tactic.NormNum.NatLog

/-!
# Integer division in the database

The database divides numerics to a limited scale and rounds half away from
zero there.  The half-even division of the ledger takes its integer quotient
from such a result, so it is right only while that rounding does not reach the
next integer.

* `Numeric` — an integer with the scale it is displayed at;
* `divideNumeric` — division at a scale, `selectDivScale` — the scale chosen;
* `halfEvenDiv` — the database's half-even division;
* `halfEvenDiv_eq_iff` — when it is the evaluator's;
* `halfEvenDiv_huge_quotient` — a quotient it misses by one.
-/

namespace OpenMasu

section Division

/-- An integer held by the database, and the digits after the point it is
displayed with. -/
structure Numeric where
  value : Int
  displayScale : Nat := 0

/-- Division of natural numbers to a scale, rounded half away from zero: the
result in units of the last digit. -/
def divideNumeric (scale numerator denominator : Nat) : Nat :=
  (2 * numerator * 10 ^ scale + denominator) / (2 * denominator)

/-- `trunc`, of a value at a scale. -/
def truncNumeric (scale units : Nat) : Nat := units / 10 ^ scale

/-- The scale a division is carried to, from its operands. -/
abbrev DivScale := Numeric → Numeric → Nat

/-- The place of the first digit to the base the database computes in. -/
def numericWeight (value : Int) : Nat := Nat.log 10000 value.natAbs

/-- The first digit to the base the database computes in. -/
def numericFirstDigit (value : Int) : Nat := value.natAbs / 10000 ^ numericWeight value

/-- `select_div_scale`: at least sixteen significant digits, judged by the
weights and first digits of the operands, and no fewer digits than either
operand shows. -/
def selectDivScale : DivScale := fun a b =>
  let weight : Int := numericWeight a.value - numericWeight b.value -
    (if numericFirstDigit a.value ≤ numericFirstDigit b.value then 1 else 0)
  min 1000 (max (16 - weight * 4).toNat (max a.displayScale b.displayScale))

/-- `half_even_div`. -/
def halfEvenDiv (divScale : DivScale) (numerator denominator : Numeric) : Except Failure Int :=
  if denominator.value ≤ 0 then
    .error (.error "half_even_div denominator must be a positive integer")
  else
    let absolute : Numeric := { numerator with value := numerator.value.natAbs }
    let scale := divScale absolute denominator
    let quotient := truncNumeric scale
      (divideNumeric scale numerator.value.natAbs denominator.value.toNat)
    let remainder := numerator.value.natAbs % denominator.value.toNat
    let rounded : Nat :=
      if remainder * 2 > denominator.value.toNat ∨
          (remainder * 2 = denominator.value.toNat ∧ quotient % 2 = 1) then quotient + 1
      else quotient
    .ok (if numerator.value < 0 then -(rounded : Int) else rounded)

end Division

section Quotient

/-- The quotient rounded at the scale reaches the next integer. -/
def Carries (scale numerator denominator : Nat) : Prop :=
  2 * 10 ^ scale * (denominator - numerator % denominator) ≤ denominator

instance (scale numerator denominator : Nat) : Decidable (Carries scale numerator denominator) :=
  inferInstanceAs (Decidable (_ ≤ _))

variable {scale n d : Nat}

/-- **The integer quotient of a rounded division.**  It is the quotient, or
the next integer when the rounding carries. -/
theorem truncNumeric_divideNumeric (scale n : Nat) {d : Nat} (hd : 0 < d) :
    truncNumeric scale (divideNumeric scale n d) = n / d + if Carries scale n d then 1 else 0 := by
  have hdiv : n = d * (n / d) + n % d := (Nat.div_add_mod n d).symm
  have hlt : n % d < d := Nat.mod_lt n hd
  have hpow : 0 < 10 ^ scale := Nat.pow_pos (by decide)
  generalize hq : n / d = q at *
  generalize hr : n % d = r at *
  generalize hp : 10 ^ scale = p at *
  have hunits : truncNumeric scale (divideNumeric scale n d)
      = (2 * n * p + d) / (2 * d * p) := by
    rw [truncNumeric, divideNumeric, hp, Nat.div_div_eq_div_mul]
  have hcarries : Carries scale n d ↔ 2 * p * (d - r) ≤ d := by rw [Carries, hp, hr]
  rw [hunits]
  have hnum : 2 * n * p + d = 2 * d * p * q + (2 * r * p + d) := by
    rw [hdiv]; ring
  rw [hnum, Nat.mul_add_div (by positivity)]
  congr 1
  have hsplit : 2 * p * (d - r) + 2 * r * p = 2 * d * p := by
    obtain ⟨k, rfl⟩ := Nat.exists_eq_add_of_lt hlt
    have : r + k + 1 - r = k + 1 := by omega
    rw [this]; ring
  by_cases hc : Carries scale n d
  · rw [if_pos hc]
    rw [hcarries] at hc
    have hlow : 2 * d * p ≤ 2 * r * p + d := by omega
    have hhigh : 2 * r * p + d < 2 * (2 * d * p) := by
      have h1 : 2 * r * p ≤ 2 * d * p := by gcongr
      have h2 : d < 2 * d * p := by nlinarith
      omega
    rw [Nat.div_eq_of_lt_le] <;> omega
  · rw [if_neg hc]
    rw [hcarries] at hc
    exact Nat.div_eq_of_lt (by omega)

/-- Only a remainder of at least half the divisor carries. -/
theorem half_le_of_carries (hd : 0 < d) (h : Carries scale n d) : d ≤ 2 * (n % d) := by
  have hlt : n % d < d := Nat.mod_lt n hd
  have hpow : 1 ≤ 10 ^ scale := Nat.one_le_pow _ _ (by decide)
  have hle : 2 * (d - n % d) ≤ 2 * 10 ^ scale * (d - n % d) := by
    rw [Nat.mul_assoc]
    exact Nat.mul_le_mul_left 2 (Nat.le_mul_of_pos_left _ hpow)
  unfold Carries at h
  omega

end Quotient

section Law

/-- The rounding step of both divisions: the quotient, or the next integer
past the half and at it behind an odd quotient. -/
def roundQuotient (quotient remainder denominator : Nat) : Nat :=
  if remainder * 2 > denominator ∨ (remainder * 2 = denominator ∧ quotient % 2 = 1) then
    quotient + 1
  else quotient

/-- A quotient that is one too large is rounded right only at the half behind
an odd quotient. -/
theorem roundQuotient_succ_eq_iff {q r d : Nat} (h : d ≤ 2 * r) :
    roundQuotient (q + 1) r d = roundQuotient q r d ↔ r * 2 = d ∧ q % 2 = 1 := by
  unfold roundQuotient
  split <;> split <;> omega

/-- **When the database divides like the evaluator.**  For every numerator and
every positive divisor the two divisions agree if and only if the quotient,
rounded at the scale of the division, does not reach the next integer, or lies
at the half behind an odd integer. -/
theorem halfEvenDiv_eq_iff (divScale : DivScale) (numerator denominator : Numeric)
    (hd : 0 < denominator.value) :
    halfEvenDiv divScale numerator denominator
        = roundHalfEven numerator.value denominator.value ↔
      (¬ Carries (divScale { numerator with value := numerator.value.natAbs } denominator)
          numerator.value.natAbs denominator.value.toNat ∨
        (numerator.value.natAbs % denominator.value.toNat * 2 = denominator.value.toNat ∧
          numerator.value.natAbs / denominator.value.toNat % 2 = 1)) := by
  obtain ⟨n, nScale⟩ := numerator
  obtain ⟨d, dScale⟩ := denominator
  simp only at hd ⊢
  have hpos : ¬ d ≤ 0 := by omega
  have hnat : 0 < d.toNat := by omega
  generalize hs : divScale ⟨(n.natAbs : Int), nScale⟩ ⟨d, dScale⟩ = scale
  generalize hm : n.natAbs = m
  generalize hk : d.toNat = k at hnat
  have hquotient := truncNumeric_divideNumeric scale m hnat
  -- both sides carry the sign of the numerator in the same way
  have hsign : ∀ a b : Nat, (Except.ok (if n < 0 then -(a : Int) else a) : Except Failure Int)
      = .ok (if n < 0 then -(b : Int) else b) ↔ a = b := by
    intro a b
    rw [Except.ok.injEq]
    split <;> omega
  have hsql : halfEvenDiv divScale ⟨n, nScale⟩ ⟨d, dScale⟩ = .ok (if n < 0 then
      -((roundQuotient (m / k + if Carries scale m k then 1 else 0) (m % k) k : Nat) : Int)
      else (roundQuotient (m / k + if Carries scale m k then 1 else 0) (m % k) k : Nat)) := by
    rw [← hquotient, halfEvenDiv, if_neg hpos]
    simp only [hm, hk, roundQuotient] at hs ⊢
    rw [hs]
  have hevaluator : roundHalfEven n d = .ok (if n < 0 then
      -((roundQuotient (m / k) (m % k) k : Nat) : Int)
      else (roundQuotient (m / k) (m % k) k : Nat)) := by
    rw [roundHalfEven, if_neg hpos]
    simp only [hm, hk, roundQuotient]
  rw [hsql, hevaluator, hsign]
  by_cases hc : Carries scale m k
  · rw [if_pos hc, roundQuotient_succ_eq_iff (half_le_of_carries hnat hc)]
    simp [hc]
  · rw [if_neg hc]
    simp [hc]

end Law

section Runs

/-- Four hundred quintillion and three. -/
def hugeNumerator : Numeric := ⟨400000000000000000003, 0⟩

/-- The scale of a division by four of a quotient with twenty-one digits. -/
theorem selectDivScale_huge : selectDivScale hugeNumerator ⟨4, 0⟩ = 0 := by
  have hn : numericWeight hugeNumerator.value = 5 := by
    norm_num [numericWeight, hugeNumerator]
  have hd : numericWeight 4 = 0 := by norm_num [numericWeight]
  simp only [selectDivScale, numericFirstDigit, hn, hd]
  norm_num [hugeNumerator]

/-- **A quotient off by one.**  A quotient of twenty-one digits is divided
without digits after the point, so three quarters over it are already rounded
up when the function rounds again. -/
theorem halfEvenDiv_huge_quotient :
    halfEvenDiv selectDivScale hugeNumerator ⟨4, 0⟩ ≠ roundHalfEven hugeNumerator.value 4 := by
  intro h
  rw [halfEvenDiv_eq_iff selectDivScale hugeNumerator ⟨4, 0⟩ (by decide)] at h
  have hscale : selectDivScale { hugeNumerator with value := hugeNumerator.value.natAbs } ⟨4, 0⟩
      = 0 := selectDivScale_huge
  rw [hscale] at h
  revert h
  decide

/-- A quotient of one digit is divided to sixteen digits after the point. -/
theorem selectDivScale_seven : selectDivScale ⟨7, 0⟩ ⟨2, 0⟩ = 16 := by
  have hn : numericWeight 7 = 0 := by norm_num [numericWeight]
  have hd : numericWeight 2 = 0 := by norm_num [numericWeight]
  simp only [selectDivScale, numericFirstDigit, hn, hd]
  decide

/-- A small division is right: seven halves are four on both sides. -/
theorem halfEvenDiv_seven_halves :
    ¬ Carries (selectDivScale ⟨7, 0⟩ ⟨2, 0⟩) 7 2 ∧
      halfEvenDiv selectDivScale ⟨7, 0⟩ ⟨2, 0⟩ = roundHalfEven 7 2 := by
  have hcarries : ¬ Carries (selectDivScale ⟨7, 0⟩ ⟨2, 0⟩) 7 2 := by
    rw [selectDivScale_seven]
    decide
  exact ⟨hcarries, (halfEvenDiv_eq_iff selectDivScale ⟨7, 0⟩ ⟨2, 0⟩ (by decide)).mpr
    (.inl hcarries)⟩

end Runs

end OpenMasu
