import Mathlib.Data.List.Basic
import Mathlib.Data.Option.Basic

/-!
# Form encoding

Texts of pairs in `application/x-www-form-urlencoded`.  A letter, a digit and
four marks stand for themselves, a space is written as a plus sign, every other
character as the percent escapes of its bytes.  The separators of the pairs are
escaped, so the pairs can be told apart again.

* `encode`, `text` — the encoding of a text and of a list of pairs;
* `Decoder` — a decoder that reads encoded texts back;
* `fields` — the pairs of a text;
* `fields_text` — the pairs of an encoded list are the list;
* `utf8Decoder` — a decoder.
-/

namespace FormEncoding

/-- A hexadecimal digit of a percent escape. -/
def hexDigit (n : Nat) : Char := Char.ofNat (if n < 10 then 48 + n else 55 + n)

/-- A byte as a percent escape. -/
def percentByte (b : UInt8) : List Char := ['%', hexDigit (b.toNat / 16), hexDigit (b.toNat % 16)]

/-- The characters that stand for themselves. -/
def isPlain (c : Char) : Bool := c.isAlphanum || c = '*' || c = '-' || c = '.' || c = '_'

/-- A character of an encoded text. -/
def encodeChar (c : Char) : List Char :=
  if isPlain c then [c]
  else if c = ' ' then ['+']
  else (String.utf8EncodeChar c).flatMap percentByte

/-- An encoded text. -/
def encode (s : String) : List Char := s.toList.flatMap encodeChar

/-- An encoded pair. -/
def pair (p : String × String) : List Char := encode p.1 ++ '=' :: encode p.2

/-- The text of a list of pairs. -/
def text (pairs : List (String × String)) : String := String.ofList (['&'].intercalate (pairs.map pair))

/-- A decoder of encoded texts; it throws on what it cannot read, and reads back
what the encoding wrote. -/
structure Decoder where
  decode : List Char → Option String
  decode_encode : ∀ s, decode (encode s) = some s

/-- The two sides of the first equals sign. -/
def splitPair (cs : List Char) : Option (List Char × List Char) :=
  if '=' ∈ cs then some (cs.takeWhile (· ≠ '='), (cs.dropWhile (· ≠ '=')).tail) else none

/-- Both sides of a pair, decoded. -/
def decodePair (D : Decoder) (p : List Char × List Char) : Option (String × String) := do
  let name ← D.decode p.1
  let value ← D.decode p.2
  return (name, value)

/-- The pairs of a text; parts without an equals sign are dropped. -/
def fields (D : Decoder) (cs : List Char) : Option (List (String × String)) :=
  ((cs.splitOn '&').filterMap splitPair).mapM (decodePair D)

section Separators

/-- A hexadecimal digit separates nothing. -/
theorem hexDigit_ne {n : Nat} (h : n < 16) : hexDigit n ≠ '&' ∧ hexDigit n ≠ '=' := by
  have hdigits : ∀ n < 16, hexDigit n ≠ '&' ∧ hexDigit n ≠ '=' := by decide
  exact hdigits n h

/-- An encoded character contains no separator. -/
theorem separator_not_mem_encodeChar {c d : Char} (hd : d = '&' ∨ d = '=') : d ∉ encodeChar c := by
  intro hmem
  rw [encodeChar] at hmem
  split at hmem
  next hplain =>
    rw [← List.mem_singleton.mp hmem] at hplain
    rcases hd with rfl | rfl
    · exact absurd hplain (by decide)
    · exact absurd hplain (by decide)
  next =>
    split at hmem
    next =>
      have hplus := List.mem_singleton.mp hmem
      rcases hd with rfl | rfl
      · exact absurd hplus (by decide)
      · exact absurd hplus (by decide)
    next =>
      obtain ⟨b, _, hb⟩ := List.mem_flatMap.mp hmem
      have hsize : b.toNat < 256 := b.toNat_lt_size
      have hhigh := hexDigit_ne (n := b.toNat / 16) (by omega)
      have hlow := hexDigit_ne (n := b.toNat % 16) (by omega)
      simp only [percentByte, List.mem_cons, List.not_mem_nil, or_false] at hb
      rcases hd with rfl | rfl
      · rcases hb with h | h | h
        · exact absurd h (by decide)
        · exact hhigh.1 h.symm
        · exact hlow.1 h.symm
      · rcases hb with h | h | h
        · exact absurd h (by decide)
        · exact hhigh.2 h.symm
        · exact hlow.2 h.symm

/-- An encoded text has no separator. -/
theorem separator_not_mem_encode {s : String} {d : Char} (hd : d = '&' ∨ d = '=') : d ∉ encode s := by
  intro hmem
  obtain ⟨c, _, hc⟩ := List.mem_flatMap.mp hmem
  exact separator_not_mem_encodeChar hd hc

/-- A pair has no ampersand, so pairs can be joined by it. -/
theorem ampersand_not_mem_pair (p : String × String) : '&' ∉ pair p := by
  rw [pair, List.mem_append, List.mem_cons, not_or, not_or]
  exact ⟨separator_not_mem_encode (.inl rfl), by decide, separator_not_mem_encode (.inl rfl)⟩

/-- The first equals sign of an encoded pair is the one between its sides. -/
theorem splitPair_pair (p : String × String) : splitPair (pair p) = some (encode p.1, encode p.2) := by
  have hname : ∀ c ∈ encode p.1, (c ≠ '=' : Bool) = true := by
    intro c hc
    have hne : c ≠ '=' := fun h => separator_not_mem_encode (.inr rfl) (h ▸ hc)
    simpa using hne
  rw [splitPair, pair, if_pos (List.mem_append.mpr (.inr List.mem_cons_self)),
    List.takeWhile_append_of_pos hname, List.dropWhile_append_of_pos hname]
  simp

end Separators

section Fields

variable (D : Decoder)

/-- **The pairs of an encoded list.**  They are read back as they were written,
in their order. -/
theorem fields_text {pairs : List (String × String)} (h : pairs ≠ []) :
    fields D (text pairs).toList = some pairs := by
  have hparts : (text pairs).toList.splitOn '&' = pairs.map pair := by
    rw [text, String.toList_ofList]
    refine List.splitOn_intercalate '&' ?_ (by simpa using h)
    intro part hpart
    obtain ⟨p, _, rfl⟩ := List.mem_map.mp hpart
    exact ampersand_not_mem_pair p
  have hsplit : (pairs.map pair).filterMap splitPair = pairs.map fun p => (encode p.1, encode p.2) := by
    rw [List.filterMap_map, ← List.filterMap_eq_map]
    exact List.filterMap_congr fun p _ => splitPair_pair p
  have hdecode : (decodePair D ∘ fun p : String × String => (encode p.1, encode p.2)) = pure := by
    funext p
    simp only [Function.comp, decodePair, D.decode_encode]
    rfl
  rw [fields, hparts, hsplit, List.mapM_map, hdecode, List.mapM_pure, List.map_id']
  rfl

/-- A text without separators has no pairs. -/
theorem fields_of_no_separator {cs : List Char} (hampersand : '&' ∉ cs) (hequals : '=' ∉ cs) :
    fields D cs = some [] := by
  have hpair : splitPair cs = none := if_neg hequals
  rw [fields, List.splitOn_eq_singleton hampersand, List.filterMap_cons_none hpair]
  rfl

end Fields

section Utf8

/-- The value of a hexadecimal digit. -/
def hexValue (c : Char) : Option Nat :=
  if c.isDigit then some (c.toNat - 48)
  else if 'A' ≤ c ∧ c ≤ 'F' then some (c.toNat - 55)
  else if 'a' ≤ c ∧ c ≤ 'f' then some (c.toNat - 87)
  else none

/-- The bytes of an encoded text; a malformed escape is not read. -/
def bytes : List Char → Option (List UInt8)
  | [] => some []
  | '%' :: high :: low :: rest => do
      let h ← hexValue high
      let l ← hexValue low
      let bs ← bytes rest
      return UInt8.ofNat (16 * h + l) :: bs
  | c :: rest => do
      guard (c ≠ '%')
      let bs ← bytes rest
      return String.utf8EncodeChar (if c = '+' then ' ' else c) ++ bs

/-- The bytes of an encoded text, as UTF-8; bytes of another form are not read. -/
def utf8Decode (cs : List Char) : Option String :=
  (bytes cs).bind fun bs => bs.toByteArray.utf8Decode?.map fun chars =>
    String.ofList chars.toList

/-- A digit is read back. -/
theorem hexValue_hexDigit {n : Nat} (h : n < 16) : hexValue (hexDigit n) = some n := by
  have hdigits : ∀ n < 16, hexValue (hexDigit n) = some n := by decide
  exact hdigits n h

/-- An escaped byte is read back as the byte. -/
theorem bytes_percentByte (b : UInt8) (cs : List Char) :
    bytes (percentByte b ++ cs) = (bytes cs).map (b :: ·) := by
  have hsize : b.toNat < 256 := b.toNat_lt_size
  have hbyte : UInt8.ofNat (16 * (b.toNat / 16) + b.toNat % 16) = b := by
    rw [Nat.div_add_mod]
    exact UInt8.ofNat_toNat
  change bytes ('%' :: hexDigit (b.toNat / 16) :: hexDigit (b.toNat % 16) :: cs) = _
  rw [bytes, hexValue_hexDigit (by omega), hexValue_hexDigit (by omega), Option.bind_eq_bind,
    Option.bind_some, Option.bind_eq_bind, Option.bind_some, hbyte]
  cases bytes cs <;> rfl

/-- Every other character is read as its bytes, a plus as a blank. -/
theorem bytes_cons {c : Char} (h : c ≠ '%') (cs : List Char) :
    bytes (c :: cs) = (bytes cs).map (String.utf8EncodeChar (if c = '+' then ' ' else c) ++ ·) := by
  rw [bytes, guard, if_pos h]
  · cases bytes cs <;> rfl
  · intro _ _ _ hpercent
    exact absurd hpercent h

/-- An encoded character is read back as its bytes. -/
theorem bytes_encodeChar (c : Char) (cs : List Char) :
    bytes (encodeChar c ++ cs) = (bytes cs).map (String.utf8EncodeChar c ++ ·) := by
  rw [encodeChar]
  split
  next hplain =>
    have hpercent : c ≠ '%' := by
      intro h
      rw [h] at hplain
      exact absurd hplain (by decide)
    have hplus : c ≠ '+' := by
      intro h
      rw [h] at hplain
      exact absurd hplain (by decide)
    rw [List.singleton_append, bytes_cons hpercent, if_neg hplus]
  next =>
    split
    next hspace =>
      rw [List.singleton_append, bytes_cons (by decide), if_pos rfl, hspace]
    next =>
      generalize String.utf8EncodeChar c = bs
      induction bs with
      | nil => simp
      | cons b bs ih =>
          rw [List.flatMap_cons, List.append_assoc, bytes_percentByte, ih, Option.map_map]
          rfl

/-- The bytes of an encoded text are those of the text. -/
theorem bytes_encode (cs : List Char) :
    bytes (cs.flatMap encodeChar) = some (cs.flatMap String.utf8EncodeChar) := by
  induction cs with
  | nil => rfl
  | cons c cs ih => rw [List.flatMap_cons, bytes_encodeChar, ih, List.flatMap_cons, Option.map_some]

/-- The decoder of UTF-8. -/
def utf8Decoder : Decoder where
  decode := utf8Decode
  decode_encode s := by
    have hbytes : (s.toList.flatMap String.utf8EncodeChar).toByteArray = s.toList.utf8Encode := rfl
    rw [utf8Decode, encode, bytes_encode, Option.bind_some, hbytes, List.utf8Decode?_utf8Encode,
      Option.map_some, List.toList_toArray, String.ofList_toList]

end Utf8

end FormEncoding
