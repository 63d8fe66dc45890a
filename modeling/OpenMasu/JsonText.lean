import Mathlib.Data.List.Basic

/-!
# JSON texts of arrays of strings

The JSON text of an array of strings, with absent members written as null.
The text determines the array: every value of it can be read off the front of
the text, whatever comes behind.

* `escapeChar`, `quote`, `value`, `array` — the text;
* `unescape_escapeChar` — an escaped character can be read back;
* `array_injective` — different arrays have different texts.
-/

namespace JsonText

def quoteMark : Char := Char.ofNat 0x22

def backslash : Char := Char.ofNat 0x5c

/-- One hexadecimal digit. -/
def hexDigit (n : Nat) : Char :=
  if n < 10 then Char.ofNat (0x30 + n) else Char.ofNat (0x61 + (n - 10))

/-- The letters of the short escapes. -/
def shortEscapes : List (Char × Char) :=
  [(quoteMark, quoteMark), (backslash, backslash), (Char.ofNat 0x08, 'b'), (Char.ofNat 0x09, 't'),
   (Char.ofNat 0x0a, 'n'), (Char.ofNat 0x0c, 'f'), (Char.ofNat 0x0d, 'r')]

/-- A character inside a JSON string. -/
def escapeChar (c : Char) : List Char :=
  match shortEscapes.find? (fun e => e.1 = c) with
  | some e => [backslash, e.2]
  | none =>
      if c.toNat < 0x20 then
        [backslash, 'u', '0', '0', hexDigit (c.toNat / 16), hexDigit (c.toNat % 16)]
      else [c]

/-- A JSON string. -/
def quote (s : String) : List Char := quoteMark :: (s.toList.flatMap escapeChar ++ [quoteMark])

/-- A JSON string, or null. -/
def value : Option String → List Char
  | some s => quote s
  | none => ['n', 'u', 'l', 'l']

/-- The members of an array behind the first, and its end. -/
def members : List (Option String) → List Char
  | [] => [']']
  | v :: rest => ',' :: (value v ++ members rest)

/-- A JSON array. -/
def array : List (Option String) → List Char
  | [] => ['[', ']']
  | v :: rest => '[' :: (value v ++ members rest)

section Characters

/-- The value of a hexadecimal digit. -/
def hexValue (c : Char) : Nat := if c.toNat < 0x61 then c.toNat - 0x30 else c.toNat - 0x61 + 10

/-- Read one character off the front of a JSON string's inside. -/
def unescape : List Char → Option (Char × List Char)
  | [] => none
  | c :: rest =>
      if c ≠ backslash then some (c, rest)
      else match rest with
        | [] => none
        | e :: rest' =>
            match shortEscapes.find? (fun s => s.2 = e) with
            | some s => some (s.1, rest')
            | none => match rest' with
                | _ :: _ :: high :: low :: rest'' =>
                    some (Char.ofNat (16 * hexValue high + hexValue low), rest'')
                | _ => none

theorem hexValue_hexDigit {n : Nat} (h : n < 16) : hexValue (hexDigit n) = n := by
  have hall : ∀ n : Fin 16, hexValue (hexDigit n) = n := by decide
  exact hall ⟨n, h⟩

/-- The short escapes are read back. -/
theorem unescape_short {e : Char × Char} (h : e ∈ shortEscapes) (r : List Char) :
    unescape (backslash :: e.2 :: r) = some (e.1, r) := by
  have hfind : shortEscapes.find? (fun s => s.2 = e.2) = some e := by
    revert e
    decide
  simp [unescape, hfind]

/-- **An escaped character can be read back**, whatever follows it. -/
theorem unescape_escapeChar (c : Char) (r : List Char) :
    unescape (escapeChar c ++ r) = some (c, r) := by
  unfold escapeChar
  cases hshort : shortEscapes.find? (fun e => e.1 = c) with
  | some e =>
      have hmem := List.mem_of_find?_eq_some hshort
      have hc : e.1 = c := by simpa using List.find?_some hshort
      simp only [List.cons_append, List.nil_append]
      rw [unescape_short hmem, hc]
  | none =>
      by_cases hcontrol : c.toNat < 0x20
      · have hhigh : c.toNat / 16 < 16 := by omega
        have hlow : c.toNat % 16 < 16 := by omega
        have hu : shortEscapes.find? (fun s => s.2 = 'u') = none := by decide
        have hback : 16 * (c.toNat / 16) + c.toNat % 16 = c.toNat := by omega
        simp only [if_pos hcontrol, List.cons_append, List.nil_append, unescape, ne_eq,
          not_true_eq_false, if_false, hu, hexValue_hexDigit hhigh, hexValue_hexDigit hlow, hback,
          Char.ofNat_toNat]
      · have hplain : c ≠ backslash := by
          rintro rfl
          revert hshort
          decide
        simp [if_neg hcontrol, unescape, hplain]

/-- No escaped character begins with a quotation mark. -/
theorem escapeChar_ne_quoteMark (c : Char) (r r' : List Char) :
    escapeChar c ++ r ≠ quoteMark :: r' := by
  intro h
  have hread := unescape_escapeChar c r
  rw [h] at hread
  have hquote : quoteMark ≠ backslash := by decide
  simp only [unescape, hquote, ne_eq, not_false_eq_true, if_true, Option.some.injEq,
    Prod.mk.injEq] at hread
  -- a quotation mark is itself escaped
  obtain ⟨rfl, -⟩ := hread
  have hescaped : escapeChar quoteMark = [backslash, quoteMark] := by decide
  rw [hescaped, List.cons_append, List.cons.injEq] at h
  exact absurd h.1 (by decide)

end Characters

section Values

/-- The inside of a string ends at the first unescaped quotation mark. -/
theorem escaped_append_inj {l l' r r' : List Char}
    (h : l.flatMap escapeChar ++ quoteMark :: r = l'.flatMap escapeChar ++ quoteMark :: r') :
    l = l' ∧ r = r' := by
  induction l generalizing l' with
  | nil =>
      cases l' with
      | nil => exact ⟨rfl, by simpa using h⟩
      | cons c rest =>
          rw [List.flatMap_cons, List.append_assoc] at h
          exact absurd h.symm (escapeChar_ne_quoteMark c _ _)
  | cons c rest ih =>
      cases l' with
      | nil =>
          rw [List.flatMap_cons, List.append_assoc] at h
          exact absurd h (escapeChar_ne_quoteMark c _ _)
      | cons c' rest' =>
          rw [List.flatMap_cons, List.flatMap_cons, List.append_assoc, List.append_assoc] at h
          have hread := congrArg unescape h
          rw [unescape_escapeChar, unescape_escapeChar, Option.some.injEq, Prod.mk.injEq] at hread
          obtain ⟨rfl, hrest⟩ := hread
          obtain ⟨rfl, hr⟩ := ih hrest
          exact ⟨rfl, hr⟩

/-- A value can be read off the front of a text. -/
theorem value_append_inj {v v' : Option String} {r r' : List Char}
    (h : value v ++ r = value v' ++ r') : v = v' ∧ r = r' := by
  have hnull : 'n' ≠ quoteMark := by decide
  cases v with
  | none =>
      cases v' with
      | none => exact ⟨rfl, by simpa [value] using h⟩
      | some s' =>
          simp only [value, quote, List.cons_append, List.cons.injEq] at h
          exact absurd h.1 hnull
  | some s =>
      cases v' with
      | none =>
          simp only [value, quote, List.cons_append, List.cons.injEq] at h
          exact absurd h.1.symm hnull
      | some s' =>
          simp only [value, quote, List.cons_append, List.append_assoc, List.nil_append,
            List.cons.injEq, true_and] at h
          obtain ⟨hs, hr⟩ := escaped_append_inj h
          exact ⟨by rw [String.toList_injective hs], hr⟩

/-- A value does not begin like the end of an array. -/
theorem value_ne_end (v : Option String) (r : List Char) : value v ++ r ≠ [']'] := by
  have hquote : quoteMark ≠ ']' := by decide
  cases v with
  | none => simp [value]
  | some s => simp [value, quote, hquote]

theorem members_injective {l l' : List (Option String)} (h : members l = members l') : l = l' := by
  induction l generalizing l' with
  | nil =>
      cases l' with
      | nil => rfl
      | cons v rest => simp [members] at h
  | cons v rest ih =>
      cases l' with
      | nil => simp [members] at h
      | cons v' rest' =>
          simp only [members, List.cons.injEq, true_and] at h
          obtain ⟨rfl, hrest⟩ := value_append_inj h
          rw [ih hrest]

/-- **The text determines the array.**  No element's text runs into the next,
since each ends where a separator comes. -/
theorem array_injective : Function.Injective array := by
  intro l l' h
  cases l with
  | nil =>
      cases l' with
      | nil => rfl
      | cons v rest =>
          simp only [array, List.cons.injEq, true_and] at h
          exact absurd h.symm (value_ne_end v _)
  | cons v rest =>
      cases l' with
      | nil =>
          simp only [array, List.cons.injEq, true_and] at h
          exact absurd h (value_ne_end v _)
      | cons v' rest' =>
          simp only [array, List.cons.injEq, true_and] at h
          obtain ⟨rfl, hrest⟩ := value_append_inj h
          rw [members_injective hrest]

end Values

end JsonText
