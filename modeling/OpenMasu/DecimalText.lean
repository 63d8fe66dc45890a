import Mathlib.Algebra.Field.Rat
import Mathlib.Data.Rat.Defs
import Mathlib.Tactic.FieldSimp
import Mathlib.Tactic.Ring

/-!
# Decimals as digits

A decimal is written with digits, and a point and more digits if it has a
fraction.  Padding the fraction to a scale and leaving the point out spells the
decimal times a power of ten.

* `parts` — the digits before and after the point;
* `Spells`, `parts_eq_some_iff` — the texts that are decimals;
* `value` — the number a decimal denotes;
* `ofDigitChars_scaled` — the padded digits spell the scaled value;
* `withoutZeros` — leading zeros besides the last digit are dropped.
-/

namespace DecimalText

section Reading

/-- `^([0-9]+)(?:\.([0-9]+))?$`: the digits before and after the point. -/
def parts (s : List Char) : Option (List Char × List Char) :=
  match s.span Char.isDigit with
  | ([], _) => none
  | (whole, []) => some (whole, [])
  | (whole, '.' :: fraction) =>
      if fraction ≠ [] ∧ fraction.all Char.isDigit then some (whole, fraction) else none
  | _ => none

/-- The text is a decimal with these digits before and after the point. -/
structure Spells (s whole fraction : List Char) : Prop where
  whole_ne : whole ≠ []
  whole_digits : ∀ c ∈ whole, c.isDigit = true
  fraction_digits : ∀ c ∈ fraction, c.isDigit = true
  text : s = whole ++ if fraction = [] then [] else '.' :: fraction

/-- The leading digits of a text end where another character comes. -/
theorem span_append {whole rest : List Char} (hwhole : ∀ c ∈ whole, c.isDigit = true)
    (hrest : ∀ c ∈ rest.head?, c.isDigit = false) :
    (whole ++ rest).span Char.isDigit = (whole, rest) := by
  rw [List.span_eq_takeWhile_dropWhile, List.takeWhile_append_of_pos hwhole,
    List.dropWhile_append_of_pos hwhole]
  cases rest with
  | nil => simp
  | cons c cs =>
      have hc := hrest c rfl
      simp [hc]

/-- A text that spells a decimal has its parts. -/
theorem parts_of_spells {s whole fraction : List Char} (h : Spells s whole fraction) :
    parts s = some (whole, fraction) := by
  obtain ⟨hne, hwhole, hfraction, rfl⟩ := h
  have hpoint : ∀ c ∈ (if fraction = [] then [] else '.' :: fraction).head?,
      c.isDigit = false := by
    intro c hc
    split at hc
    · cases hc
    · cases hc
      decide
  rw [parts, span_append hwhole hpoint]
  obtain ⟨d, ds, rfl⟩ := List.exists_cons_of_ne_nil hne
  cases fraction with
  | nil => rfl
  | cons c cs =>
      have hall : (c :: cs).all Char.isDigit = true := List.all_eq_true.mpr hfraction
      simp only [reduceCtorEq, if_false]
      rw [if_pos ⟨by simp, hall⟩]

/-- And the parts of a text spell it. -/
theorem spells_of_parts {s whole fraction : List Char} (h : parts s = some (whole, fraction)) :
    Spells s whole fraction := by
  rcases hspan : s.span Char.isDigit with ⟨digits, rest⟩
  have hsplit : s = digits ++ rest ∧ ∀ c ∈ digits, c.isDigit = true := by
    rw [List.span_eq_takeWhile_dropWhile, Prod.mk.injEq] at hspan
    obtain ⟨rfl, rfl⟩ := hspan
    exact ⟨(List.takeWhile_append_dropWhile).symm, fun c hc =>
      List.all_eq_true.mp List.all_takeWhile c hc⟩
  obtain ⟨rfl, hdigits⟩ := hsplit
  rw [parts, hspan] at h
  split at h
  · cases h
  · case h_2 hne heq =>
      cases heq
      cases h
      exact ⟨hne, hdigits, fun _ hc => (nomatch hc), by simp⟩
  · case h_3 hne heq =>
      cases heq
      split at h
      · case isTrue hfraction =>
          cases h
          refine ⟨hne, hdigits, List.all_eq_true.mp hfraction.2, ?_⟩
          rw [if_neg hfraction.1]
      · cases h
  · cases h

/-- Exactly the decimals are read. -/
theorem parts_eq_some_iff {s whole fraction : List Char} :
    parts s = some (whole, fraction) ↔ Spells s whole fraction :=
  ⟨spells_of_parts, parts_of_spells⟩

end Reading

section Values

/-- The number that a decimal denotes. -/
def value (whole fraction : List Char) : Rat :=
  Nat.ofDigitChars 10 whole 0 + (Nat.ofDigitChars 10 fraction 0 : Rat) / 10 ^ fraction.length

/-- The digits of a decimal at a scale: `padEnd` on the fraction. -/
def scaled (whole fraction : List Char) (scale : Nat) : List Char :=
  whole ++ (fraction ++ List.replicate (scale - fraction.length) '0')

/-- Digits in front count for as many places more as digits follow. -/
theorem ofDigitChars_append_digits (a b : List Char) :
    Nat.ofDigitChars 10 (a ++ b) 0 =
      10 ^ b.length * Nat.ofDigitChars 10 a 0 + Nat.ofDigitChars 10 b 0 := by
  rw [Nat.ofDigitChars_append, Nat.ofDigitChars_eq_ofDigitChars_zero]

/-- Zeros count nothing. -/
theorem ofDigitChars_zeros (n : Nat) : Nat.ofDigitChars 10 (List.replicate n '0') 0 = 0 := by
  rw [Nat.ofDigitChars_replicate_zero, Nat.mul_zero]

/-- The padded digits spell the value times the power of ten. -/
theorem ofDigitChars_scaled (whole : List Char) {fraction : List Char} {scale : Nat}
    (h : fraction.length ≤ scale) :
    (Nat.ofDigitChars 10 (scaled whole fraction scale) 0 : Rat) = value whole fraction * 10 ^ scale := by
  obtain ⟨k, rfl⟩ : ∃ k, scale = fraction.length + k := ⟨scale - fraction.length, by omega⟩
  have hdigits : Nat.ofDigitChars 10 (scaled whole fraction (fraction.length + k)) 0 =
      10 ^ (fraction.length + k) * Nat.ofDigitChars 10 whole 0 +
        10 ^ k * Nat.ofDigitChars 10 fraction 0 := by
    rw [scaled, Nat.add_sub_cancel_left, ofDigitChars_append_digits, ofDigitChars_append_digits,
      ofDigitChars_zeros, List.length_append, List.length_replicate, Nat.add_zero]
  rw [hdigits, value]
  push_cast
  field_simp
  ring

/-- The digits behind the leading zeros, the last digit excepted. -/
def withoutZeros : List Char → List Char
  | '0' :: c :: rest => if c.isDigit then withoutZeros (c :: rest) else '0' :: c :: rest
  | s => s

/-- Zeros are dropped, and the last digit is none of them; what is left begins
with a zero only where it is that digit or no digit follows. -/
theorem withoutZeros_spec (s : List Char) :
    (∃ n, s = List.replicate n '0' ++ withoutZeros s ∧ (withoutZeros s = [] → n = 0)) ∧
      ∀ c rest, withoutZeros s = '0' :: c :: rest → c.isDigit = false := by
  induction s using withoutZeros.induct with
  | case1 c rest hc ih =>
      rw [withoutZeros, if_pos hc]
      obtain ⟨⟨n, hzeros, hleft⟩, hhead⟩ := ih
      refine ⟨⟨n + 1, by rw [List.replicate_succ, List.cons_append, ← hzeros], fun h => ?_⟩, hhead⟩
      rw [h, hleft h] at hzeros
      cases hzeros
  | case2 c rest hc =>
      rw [withoutZeros, if_neg hc]
      refine ⟨⟨0, rfl, fun _ => rfl⟩, fun d tail h => ?_⟩
      cases h
      exact eq_false_of_ne_true hc
  | case3 s hs =>
      rw [withoutZeros.eq_2 s hs]
      exact ⟨⟨0, rfl, fun _ => rfl⟩, fun c rest h => absurd h (hs c rest)⟩

/-- Leading zeros do not change the number. -/
theorem ofDigitChars_withoutZeros (s : List Char) :
    Nat.ofDigitChars 10 (withoutZeros s) 0 = Nat.ofDigitChars 10 s 0 := by
  obtain ⟨⟨n, hs, -⟩, -⟩ := withoutZeros_spec s
  conv_rhs => rw [hs, ofDigitChars_append_digits, ofDigitChars_zeros, Nat.mul_zero, Nat.zero_add]

/-- Dropping zeros adds no character. -/
theorem mem_withoutZeros {s : List Char} {c : Char} (h : c ∈ withoutZeros s) : c ∈ s := by
  obtain ⟨⟨n, hs, -⟩, -⟩ := withoutZeros_spec s
  rw [hs]
  exact List.mem_append_right _ h

/-- One digit is left of every number. -/
theorem withoutZeros_ne_nil {s : List Char} (h : s ≠ []) : withoutZeros s ≠ [] := by
  obtain ⟨⟨n, hs, hleft⟩, -⟩ := withoutZeros_spec s
  intro hnil
  rw [hnil, hleft hnil] at hs
  exact h hs

/-- A zero at the front of digits is the only digit. -/
theorem withoutZeros_head {s rest : List Char} (hs : ∀ c ∈ s, c.isDigit = true)
    (h : withoutZeros s = '0' :: rest) : rest = [] := by
  cases rest with
  | nil => rfl
  | cons c tail =>
      have hc : c.isDigit = true := hs c (mem_withoutZeros (h ▸ by simp))
      rw [(withoutZeros_spec s).2 c tail h] at hc
      cases hc

end Values

end DecimalText
