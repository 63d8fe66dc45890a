import Mathlib.Algebra.Group.Nat.Defs
import Mathlib.Data.Rat.Defs
import OpenMasu.KeyedSort

/-!
# Canonical values, digests and the order of texts

The evaluator identifies values by the SHA-256 digest of their canonical JSON
text and orders its output by comparing texts code unit by code unit.

* `Json` — a JSON value; `Json.object` drops the members that are absent;
* `Digest` — the digest function, the one parameter of the development;
* `codeUnits` — the UTF-16 code units of a text, in which texts compare;
* `sortByKey` — the order of every list the evaluator returns, with
  `perm_sortByKey`, `mem_sortByKey` and `filter_sortByKey`.
-/

namespace OpenMasu

/-- A JSON value. -/
inductive Json where
  | null
  | bool (value : Bool)
  | num (value : Rat)
  | str (value : String)
  | arr (items : List Json)
  | obj (members : List (String × Json))

/-- An object; a member without a value is left out. -/
def Json.object (members : List (String × Option Json)) : Json :=
  .obj (members.filterMap (fun m => m.2.map (fun v => (m.1, v))))

/-- Whole numbers as JSON values. -/
def Json.int (n : Int) : Json := .num n

/-- Values that have a canonical JSON form. -/
class Encode (α : Type) where
  toJson : α → Json

export Encode (toJson)

/-- The SHA-256 digest of a value's canonical JSON text, in hexadecimal. -/
class Digest where
  sha256 : Json → String

export Digest (sha256)

/-- One decimal digit. -/
def digitChar (n : Nat) : Char := Char.ofNat (48 + n % 10)

/-- The last `width` decimal digits of a number. -/
def digits : Nat → Nat → List Char
  | 0, _ => []
  | width + 1, n => digits width (n / 10) ++ [digitChar n]

theorem length_digits (width n : Nat) : (digits width n).length = width := by
  induction width generalizing n with
  | zero => rfl
  | succ width ih => simp [digits, ih]

/-- One digit tells the numbers below ten apart. -/
theorem digitChar_inj {m n : Nat} (h : digitChar m = digitChar n) : m % 10 = n % 10 := by
  have hten : ∀ d < 10, (Char.ofNat (48 + d)).toNat = 48 + d := by decide
  have hval : ∀ k : Nat, (digitChar k).toNat = 48 + k % 10 :=
    fun k => hten (k % 10) (Nat.mod_lt k (by decide))
  have hnat := congrArg Char.toNat h
  rw [hval, hval] at hnat
  omega

/-- Digits behind any texts tell the numbers they have room for apart. -/
theorem digits_append_inj {width m n : Nat} {r s : List Char} (hm : m < 10 ^ width)
    (hn : n < 10 ^ width) (h : digits width m ++ r = digits width n ++ s) : m = n ∧ r = s := by
  have hlength : (digits width m).length = (digits width n).length := by
    rw [length_digits, length_digits]
  obtain ⟨hdigits, hrest⟩ := List.append_inj h hlength
  refine ⟨?_, hrest⟩
  clear h hrest hlength
  induction width generalizing m n with
  | zero => omega
  | succ width ih =>
      rw [digits, digits] at hdigits
      obtain ⟨hhigh, hlow⟩ := List.append_inj hdigits (by rw [length_digits, length_digits])
      have hm' : m / 10 < 10 ^ width := by
        rw [Nat.pow_succ] at hm
        omega
      have hn' : n / 10 < 10 ^ width := by
        rw [Nat.pow_succ] at hn
        omega
      have hquotient := ih hm' hn' hhigh
      have hremainder := digitChar_inj (List.singleton_inj.mp hlow)
      omega

mutual

/-- A checksum of a JSON value. -/
def checksum : Json → Nat
  | .null => 1
  | .bool b => if b then 2 else 3
  | .num q => (q.num.natAbs * 131 + q.den * 257 + (if q.num < 0 then 5 else 7)) % 2305843009213693951
  | .str s =>
      s.toByteArray.data.toList.foldl (fun n b => (n * 1000003 + b.toNat) % 2305843009213693951) 11
  | .arr items => (checksums items * 1000033 + 13) % 2305843009213693951
  | .obj members => (memberChecksums members * 1000037 + 17) % 2305843009213693951

/-- A checksum of a list of values. -/
def checksums : List Json → Nat
  | [] => 19
  | j :: rest => (checksum j * 1000039 + checksums rest * 31 + 23) % 2305843009213693951

/-- A checksum of the members of an object. -/
def memberChecksums : List (String × Json) → Nat
  | [] => 29
  | (name, j) :: rest =>
      (name.utf8ByteSize * 7919 + checksum j * 1000081 + memberChecksums rest * 37) % 2305843009213693951

end

/-- A digest that can be evaluated: the checksum in 64 digits.  Runs on
concrete inputs use it, no general statement does. -/
@[reducible] def checksumDigest : Digest := ⟨fun j => String.ofList (digits 64 (checksum j))⟩

/-- The UTF-16 code units of a character. -/
def charUnits (c : Char) : List Nat :=
  let n := c.toNat
  if n < 0x10000 then [n]
  else [0xd800 + (n - 0x10000) / 0x400, 0xdc00 + (n - 0x10000) % 0x400]

/-- The UTF-16 code units of a text: the order of texts is the order of
these lists. -/
def codeUnits (s : String) : List Nat := s.toList.flatMap charUnits

/-- The units of a character are not the beginning of those of another. -/
theorem charUnits_append_inj {c d : Char} {r s : List Nat}
    (h : charUnits c ++ r = charUnits d ++ s) : c = d ∧ r = s := by
  have hsurrogate : ∀ c : Char, ¬ (0xd800 ≤ c.toNat ∧ c.toNat ≤ 0xdbff) := by
    intro c ⟨hlow, hhigh⟩
    have hvalid := c.valid
    simp only [UInt32.isValidChar, Nat.isValidChar, Char.toNat] at hvalid hlow hhigh
    omega
  have hbound : ∀ c : Char, c.toNat < 0x110000 := by
    intro c
    have hvalid := c.valid
    simp only [UInt32.isValidChar, Nat.isValidChar] at hvalid
    simp only [Char.toNat]
    omega
  have hc := hsurrogate c
  have hd := hsurrogate d
  have hc' := hbound c
  have hd' := hbound d
  have heq : c.toNat = d.toNat → c = d := fun h => Char.ext (UInt32.toNat_inj.mp h)
  simp only [charUnits] at h
  split at h <;> split at h <;>
    simp only [List.cons_append, List.nil_append, List.cons.injEq] at h
  · exact ⟨heq h.1, h.2⟩
  · exact absurd h.1 (by omega)
  · exact absurd h.1 (by omega)
  · exact ⟨heq (by omega), h.2.2⟩

/-- Texts with the same units are the same. -/
theorem codeUnits_injective : Function.Injective codeUnits := by
  have hlist : ∀ l l' : List Char, l.flatMap charUnits = l'.flatMap charUnits → l = l' := by
    intro l
    have hunits : ∀ c : Char, charUnits c ≠ [] := by
      intro c
      simp only [charUnits]
      split <;> exact List.cons_ne_nil _ _
    induction l with
    | nil =>
        intro l' h
        cases l' with
        | nil => rfl
        | cons d rest' =>
            rw [List.flatMap_nil, List.flatMap_cons] at h
            exact absurd (List.append_eq_nil_iff.mp h.symm).1 (hunits d)
    | cons c rest ih =>
        intro l' h
        cases l' with
        | nil =>
            rw [List.flatMap_nil, List.flatMap_cons] at h
            exact absurd (List.append_eq_nil_iff.mp h).1 (hunits c)
        | cons d rest' =>
            rw [List.flatMap_cons, List.flatMap_cons] at h
            obtain ⟨rfl, hrest⟩ := charUnits_append_inj h
            rw [ih rest' hrest]
  intro s t h
  exact String.toList_injective (hlist s.toList t.toList h)

/-- The key a list is sorted by: the named texts, then the digest of the
whole value. -/
def textKey [Digest] {α : Type} [Encode α] (key : α → List String) (a : α) :
    List (List Nat) :=
  (key a ++ [sha256 (toJson a)]).map codeUnits

/-- `sortByKey`: stable sort by texts, ties broken by the digest. -/
def sortByKey [Digest] {α : Type} [Encode α] (values : List α) (key : α → List String) :
    List α :=
  KeyedSort.sortOn (textKey key) values

section SortByKey

variable [Digest] {α : Type} [Encode α] (values : List α) (key : α → List String)

theorem perm_sortByKey : (sortByKey values key).Perm values :=
  KeyedSort.perm_sortOn _ _

@[simp] theorem mem_sortByKey {a : α} : a ∈ sortByKey values key ↔ a ∈ values :=
  KeyedSort.mem_sortOn _

@[simp] theorem sortByKey_singleton (a : α) : sortByKey [a] key = [a] :=
  KeyedSort.sortOn_singleton _ a

/-- Selecting from a sorted list is sorting the selection. -/
theorem filter_sortByKey (p : α → Bool) :
    (sortByKey values key).filter p = sortByKey (values.filter p) key :=
  KeyedSort.filter_sortOn _ _ _

end SortByKey

end OpenMasu
