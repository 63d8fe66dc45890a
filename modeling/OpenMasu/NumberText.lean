import Mathlib.Data.Rat.Floor
import Mathlib.Data.Rat.Defs
import OpenMasu.JoinedText

/-!
# Numbers and their texts

A number of a JSON text is the decimal that its shortest digits spell.  Whole
numbers are printed with all their digits below a bound, and with an exponent
from there on; different ones have different texts.

* `integerText` — the text of a whole number;
* `integerText_injective` — the text determines the number;
* `numberOf` — the number a text without a point spells.
-/

namespace NumberText

section Printing

/-- The digits of a number without the zeros it ends with. -/
def leadingDigits (n : Nat) : List Char :=
  ((Nat.toDigits 10 n).reverse.dropWhile (fun c => c = '0')).reverse

/-- Digits with a point behind the first. -/
def pointed : List Char → List Char
  | [] => []
  | [c] => [c]
  | c :: rest => c :: '.' :: rest

/-- A whole number with an exponent. -/
def exponentText (n : Nat) : List Char :=
  pointed (leadingDigits n) ++ 'e' :: '+' :: Nat.toDigits 10 ((Nat.toDigits 10 n).length - 1)

/-- The text of a whole number. -/
def integerText (n : Nat) : List Char :=
  if n < 10 ^ 21 then Nat.toDigits 10 n else exponentText n

/-- A number is printed in digits. -/
theorem isDigit_of_mem {n : Nat} {c : Char} (h : c ∈ Nat.toDigits 10 n) : c.isDigit = true :=
  Nat.isDigit_of_mem_toDigits (by decide) (by decide) h

/-- Different numbers have different digits. -/
theorem toDigits_injective : Function.Injective (Nat.toDigits 10) := by
  intro m n h
  have hm := Nat.ofDigitChars_ten_toDigits (n := m)
  rw [h, Nat.ofDigitChars_ten_toDigits] at hm
  exact hm.symm

/-- The digits are those in front and zeros. -/
theorem toDigits_eq_leadingDigits (n : Nat) :
    Nat.toDigits 10 n = leadingDigits n ++
      List.replicate ((Nat.toDigits 10 n).length - (leadingDigits n).length) '0' := by
  have hsplit := List.takeWhile_append_dropWhile (p := fun c => decide (c = '0'))
    (l := (Nat.toDigits 10 n).reverse)
  have hzeros : ∀ c ∈ (Nat.toDigits 10 n).reverse.takeWhile (fun c => decide (c = '0')), c = '0' := by
    intro c hc
    have hall := List.all_eq_true.mp (List.all_takeWhile (p := fun c => decide (c = '0'))
      (l := (Nat.toDigits 10 n).reverse)) c hc
    exact of_decide_eq_true hall
  have hreplicate := List.eq_replicate_iff.mpr ⟨rfl, hzeros⟩
  have hreverse := congrArg List.reverse hsplit
  rw [List.reverse_append, List.reverse_reverse] at hreverse
  have hlength := congrArg List.length hreverse
  rw [List.length_append, List.length_reverse, List.length_reverse] at hlength
  have hcount : (Nat.toDigits 10 n).length - (leadingDigits n).length =
      ((Nat.toDigits 10 n).reverse.takeWhile (fun c => decide (c = '0'))).length := by
    rw [leadingDigits, List.length_reverse]
    omega
  rw [hcount]
  conv_lhs => rw [← hreverse]
  rw [leadingDigits]
  congr 1
  rw [hreplicate, List.reverse_replicate, List.length_replicate]

/-- Digits are read off their pointed form. -/
theorem pointed_injective {s t : List Char} (hs : '.' ∉ s) (ht : '.' ∉ t)
    (h : pointed s = pointed t) : s = t := by
  match s, t with
  | [], [] => rfl
  | [], [_] => cases h
  | [], _ :: _ :: _ => cases h
  | [_], [] => cases h
  | [c], [d] => exact h
  | [_], _ :: _ :: _ => cases h
  | _ :: _ :: _, [] => cases h
  | _ :: _ :: _, [_] => cases h
  | c :: c' :: s, d :: d' :: t =>
      obtain ⟨rfl, hrest⟩ := List.cons.inj h
      rw [(List.cons.inj hrest).2]

/-- Neither points nor letters are digits. -/
theorem notMem_toDigits (n : Nat) (c : Char) (hc : c.isDigit = false) : c ∉ Nat.toDigits 10 n := by
  intro h
  rw [isDigit_of_mem h] at hc
  cases hc

/-- The leading digits are digits. -/
theorem notMem_leadingDigits (n : Nat) (c : Char) (hc : c.isDigit = false) :
    c ∉ leadingDigits n := by
  intro h
  refine notMem_toDigits n c hc ?_
  rw [leadingDigits, List.mem_reverse] at h
  exact List.mem_reverse.mp ((List.dropWhile_sublist _).subset h)

/-- The point is all that is added. -/
theorem mem_pointed {s : List Char} {c : Char} (h : c ∈ pointed s) : c ∈ s ∨ c = '.' := by
  match s with
  | [] => exact .inl h
  | [_] => exact .inl h
  | d :: d' :: s =>
      rcases List.mem_cons.mp h with rfl | h
      · exact .inl List.mem_cons_self
      · rcases List.mem_cons.mp h with rfl | h
        · exact .inr rfl
        · exact .inl (List.mem_cons_of_mem _ h)

/-- A pointed number has no exponent mark. -/
theorem e_notMem_pointed (n : Nat) : 'e' ∉ pointed (leadingDigits n) := by
  intro h
  rcases mem_pointed h with h | h
  · exact notMem_leadingDigits n 'e' (by decide) h
  · cases h

/-- Different exponents are printed differently. -/
theorem exponentText_injective : Function.Injective exponentText := by
  intro m n h
  unfold exponentText at h
  have hcount : (pointed (leadingDigits m)).count 'e' = (pointed (leadingDigits n)).count 'e' := by
    rw [List.count_eq_zero_of_not_mem (e_notMem_pointed m),
      List.count_eq_zero_of_not_mem (e_notMem_pointed n)]
  obtain ⟨hpointed, hrest⟩ := JoinedText.append_cons_inj_of_count h hcount
  have hexponent := toDigits_injective (List.cons.inj hrest).2
  have hleading := pointed_injective (notMem_leadingDigits m '.' (by decide))
    (notMem_leadingDigits n '.' (by decide)) hpointed
  have hpos : ∀ k : Nat, 0 < (Nat.toDigits 10 k).length := fun k => Nat.length_toDigits_pos
  have hlength : (Nat.toDigits 10 m).length = (Nat.toDigits 10 n).length := by
    have := hpos m
    have := hpos n
    omega
  apply toDigits_injective
  rw [toDigits_eq_leadingDigits m, toDigits_eq_leadingDigits n, hleading, hlength]

/-- **The text of a whole number determines it.**  Its sign, its digits and,
for large numbers, its exponent are read off it. -/
theorem integerText_injective : Function.Injective integerText := by
  intro m n h
  have hmixed : ∀ a b : Nat, Nat.toDigits 10 a ≠ exponentText b := by
    intro a b heq
    have hmem : 'e' ∈ Nat.toDigits 10 a := by
      rw [heq, exponentText]
      simp
    exact notMem_toDigits a 'e' (by decide) hmem
  unfold integerText at h
  split at h
  · split at h
    · exact toDigits_injective h
    · exact absurd h (hmixed m n)
  · split at h
    · exact absurd h.symm (hmixed n m)
    · exact exponentText_injective h

end Printing

section Reading

/-- White space and line ends. -/
def isSpace (c : Char) : Bool :=
  [9, 10, 11, 12, 13, 32, 160, 0x1680, 0x2028, 0x2029, 0x202f, 0x205f, 0x3000, 0xfeff].contains
    c.toNat || (0x2000 ≤ c.toNat && c.toNat ≤ 0x200a)

/-- A text without the white space around it. -/
def trimmed (text : List Char) : List Char :=
  ((text.dropWhile isSpace).reverse.dropWhile isSpace).reverse

/-- The value of a digit, in any base up to sixteen. -/
def digitValue (c : Char) : Nat :=
  if c.isDigit then c.toNat - '0'.toNat
  else if 'a' ≤ c ∧ c ≤ 'f' then c.toNat - 'a'.toNat + 10
  else if 'A' ≤ c ∧ c ≤ 'F' then c.toNat - 'A'.toNat + 10
  else 16

/-- The whole number that digits spell in a base. -/
def digitsOf (base : Nat) (text : List Char) : Option Nat :=
  if text ≠ [] ∧ text.all (fun c => digitValue c < base) then
    some (text.foldl (fun n c => n * base + digitValue c) 0)
  else none

/-- The number that a sign and digits spell. -/
def signedOf : List Char → Option Int
  | '+' :: rest => (digitsOf 10 rest).map (fun n => (n : Int))
  | '-' :: rest => (digitsOf 10 rest).map (fun n => -(n : Int))
  | text => (digitsOf 10 text).map (fun n => (n : Int))

/-- The number that a decimal without a point spells. -/
def decimalOf (text : List Char) : Option Rat :=
  match text.span (fun c => c ≠ 'e' && c ≠ 'E') with
  | (mantissa, []) => (signedOf mantissa).map (fun m => (m : Rat))
  | (mantissa, _ :: exponent) => do
      let m ← signedOf mantissa
      let e ← signedOf exponent
      return (m : Rat) * (10 : Rat) ^ e

/-- `Number`, of a text without a point: none where it spells no finite
number. -/
def numberOf (text : List Char) : Option Rat :=
  match trimmed text with
  | [] => some 0
  | '0' :: 'x' :: rest | '0' :: 'X' :: rest => (digitsOf 16 rest).map (fun n => (n : Rat))
  | '0' :: 'o' :: rest | '0' :: 'O' :: rest => (digitsOf 8 rest).map (fun n => (n : Rat))
  | '0' :: 'b' :: rest | '0' :: 'B' :: rest => (digitsOf 2 rest).map (fun n => (n : Rat))
  | rest => decimalOf rest

end Reading

end NumberText
