import OpenMasu.Canonical
import OpenMasu.DecimalText
import OpenMasu.NumberText

/-!
# Decimal money

Revenue and cost of a report are read from decimals by two parsers.  Both take
the decimals whose fraction fits the scale, and both spell the decimal times
the power of ten of the scale.

* `decimalToUnscaled` — the amount of a cost row;
* `moneyValue` — the money of a mapped row;
* `ReadsDecimal` — the texts that are decimals at a scale;
* `decimalMoney_exact` — both parsers read exactly these, and exactly.
-/

namespace OpenMasu

section Parsers

/-- `decimalToUnscaled`. -/
def decimalToUnscaled (value : String) (scale : Nat) : Except String String :=
  match DecimalText.parts (NumberText.trimmed value.toList) with
  | none => .error "cost amount must be a non-negative decimal without exponent notation"
  | some (whole, fraction) =>
      if scale < fraction.length then .error ("cost amount exceeds scale " ++ toString scale)
      else .ok (String.ofList (DecimalText.withoutZeros (DecimalText.scaled whole fraction scale)))

/-- A field of money as it comes, of whatever type. -/
inductive MoneyInput where
  | integer
  | decimal
  deriving DecidableEq

/-- `money` of a mapping expression; the column of the currency is read before. -/
structure MoneyConfig where
  input : MoneyInput
  scale : Nat
  currencyDefault : Option String

/-- A money as the mapping writes it. -/
structure MoneyValue where
  amountUnscaled : String
  amountScale : Nat
  currency : String
  deriving DecidableEq

/-- `String` and `toUpperCase`. -/
structure TextFunctions where
  stringOf : Json → String
  toUpperCase : String → String

variable (text : TextFunctions)

/-- A value that `||` passes over. -/
def isFalsy : Json → Bool
  | .null => true
  | .bool b => !b
  | .num n => n = 0
  | .str s => s = ""
  | .arr _ => false
  | .obj _ => false

/-- `String(currencyValue || config.currency_default || "").toUpperCase()` -/
def currencyText (config : MoneyConfig) (currencyValue : Option Json) : String :=
  text.toUpperCase (match currencyValue.filter fun v => !isFalsy v with
    | some v => text.stringOf v
    | none => config.currencyDefault.getD "")

/-- `^[A-Z]{3}$` -/
def isCurrency (s : String) : Bool := s.length = 3 && s.toList.all fun c => 'A' ≤ c && c ≤ 'Z'

/-- `Number.isSafeInteger` -/
def isSafeInteger (n : Rat) : Bool := n.den = 1 && n.num.natAbs ≤ 9007199254740991

/-- The amount of a decimal input. -/
def decimalAmount (value : Option Json) (scale : Nat) : Except String String :=
  let decimal := match value with
    | some (.str s) => NumberText.trimmed s.toList
    | _ => []
  match DecimalText.parts decimal with
  | none => .error
      "money decimal source must be a non-negative base-10 decimal string without exponent notation"
  | some (whole, fraction) =>
      if scale < fraction.length then
        .error "money decimal source exceeds the declared scale; rounding is not permitted"
      else .ok (String.ofList (DecimalText.scaled whole fraction scale))

/-- The amount of an integer input. -/
def integerAmount (value : Option Json) : Except String String :=
  let amount := match value with
    | some (.num n) => if isSafeInteger n && 0 ≤ n then text.stringOf (.num n) else ""
    | some .null => ""
    | none => ""
    | some v => String.ofList (NumberText.trimmed (text.stringOf v).toList)
  if amount ≠ "" ∧ amount.toList.all Char.isDigit then .ok amount
  else .error "money source must be a non-negative base-10 integer without exponent notation"

/-- `moneyValue`, given what the column of the currency holds. -/
def moneyValue (value : Option Json) (config : MoneyConfig) (currencyValue : Option Json) :
    Except String MoneyValue := do
  let amount ← match config.input with
    | .decimal => decimalAmount value config.scale
    | .integer => integerAmount text value
  let currency := currencyText text config currencyValue
  if isCurrency currency then return ⟨amount, config.scale, currency⟩
  else throw "money currency is missing or invalid"

end Parsers

section Exactness

variable {text : TextFunctions}

/-- Trimmed, the text is a decimal whose fraction fits the scale. -/
structure ReadsDecimal (s : String) (scale : Nat) (whole fraction : List Char) : Prop where
  spells : DecimalText.Spells (NumberText.trimmed s.toList) whole fraction
  fits : fraction.length ≤ scale

/-- Digits that spell the decimal times the power of ten. -/
structure SpellsScaled (amount : String) (scale : Nat) (whole fraction : List Char) : Prop where
  ne : amount.toList ≠ []
  digits : ∀ c ∈ amount.toList, c.isDigit = true
  value : (Nat.ofDigitChars 10 amount.toList 0 : Rat) = DecimalText.value whole fraction * 10 ^ scale

/-- The digits of a scaled text are digits, and there is one at least. -/
theorem scaled_digits {s whole fraction : List Char} (h : DecimalText.Spells s whole fraction)
    (scale : Nat) : DecimalText.scaled whole fraction scale ≠ [] ∧
      ∀ c ∈ DecimalText.scaled whole fraction scale, c.isDigit = true := by
  refine ⟨by simp [DecimalText.scaled, h.whole_ne], fun c hc => ?_⟩
  rw [DecimalText.scaled, List.mem_append, List.mem_append] at hc
  rcases hc with hc | hc | hc
  · exact h.whole_digits c hc
  · exact h.fraction_digits c hc
  · rw [List.eq_of_mem_replicate hc]
    decide

/-- A scaled text writes the number it was read from, in units of the scale. -/
theorem spellsScaled_scaled {s : String} {scale : Nat} {whole fraction : List Char}
    (h : ReadsDecimal s scale whole fraction) :
    SpellsScaled (String.ofList (DecimalText.scaled whole fraction scale)) scale whole fraction := by
  obtain ⟨hne, hdigits⟩ := scaled_digits h.spells scale
  refine ⟨?_, ?_, ?_⟩
  · rwa [String.toList_ofList]
  · rwa [String.toList_ofList]
  · rw [String.toList_ofList]
    exact DecimalText.ofDigitChars_scaled whole h.fits

/-- So does the text without its leading zeros. -/
theorem spellsScaled_withoutZeros {s : String} {scale : Nat} {whole fraction : List Char}
    (h : ReadsDecimal s scale whole fraction) :
    SpellsScaled (String.ofList (DecimalText.withoutZeros (DecimalText.scaled whole fraction scale)))
      scale whole fraction := by
  obtain ⟨hne, hdigits⟩ := scaled_digits h.spells scale
  refine ⟨?_, ?_, ?_⟩
  · rw [String.toList_ofList]
    exact DecimalText.withoutZeros_ne_nil hne
  · rw [String.toList_ofList]
    exact fun c hc => hdigits c (DecimalText.mem_withoutZeros hc)
  · rw [String.toList_ofList, DecimalText.ofDigitChars_withoutZeros]
    exact DecimalText.ofDigitChars_scaled whole h.fits

/-- What the cost parser answers. -/
theorem decimalToUnscaled_eq_ok_iff {s amount : String} {scale : Nat} :
    decimalToUnscaled s scale = .ok amount ↔ ∃ whole fraction, ReadsDecimal s scale whole fraction ∧
      amount = String.ofList (DecimalText.withoutZeros (DecimalText.scaled whole fraction scale)) := by
  rw [decimalToUnscaled]
  constructor
  · intro h
    split at h
    · cases h
    · case h_2 whole fraction hparts =>
        split at h
        · cases h
        · case isFalse hfits =>
            cases h
            exact ⟨whole, fraction, ⟨DecimalText.spells_of_parts hparts, by omega⟩, rfl⟩
  · rintro ⟨whole, fraction, h, rfl⟩
    have hfits := h.fits
    rw [DecimalText.parts_of_spells h.spells]
    simp only
    rw [if_neg (by omega)]

/-- An amount is read exactly from a decimal number whose fraction the scale
can hold. -/
theorem decimalAmount_eq_ok_iff {s amount : String} {scale : Nat} :
    decimalAmount (some (.str s)) scale = .ok amount ↔
      ∃ whole fraction, ReadsDecimal s scale whole fraction ∧
        amount = String.ofList (DecimalText.scaled whole fraction scale) := by
  rw [decimalAmount]
  constructor
  · intro h
    split at h
    · cases h
    · case h_2 whole fraction hparts =>
        split at h
        · cases h
        · case isFalse hfits =>
            cases h
            exact ⟨whole, fraction, ⟨DecimalText.spells_of_parts hparts, by omega⟩, rfl⟩
  · rintro ⟨whole, fraction, h, rfl⟩
    have hfits := h.fits
    simp only [DecimalText.parts_of_spells h.spells]
    rw [if_neg (by omega)]

/-- What the money parser answers to a text. -/
theorem moneyValue_eq_ok_iff {s : String} {config : MoneyConfig} {currencyValue : Option Json}
    {money : MoneyValue} (hinput : config.input = .decimal) :
    moneyValue text (some (.str s)) config currencyValue = .ok money ↔
      ∃ amount, decimalAmount (some (.str s)) config.scale = .ok amount ∧
        isCurrency (currencyText text config currencyValue) = true ∧
        money = ⟨amount, config.scale, currencyText text config currencyValue⟩ := by
  rw [moneyValue, hinput]
  cases hamount : decimalAmount (some (.str s)) config.scale with
  | error message =>
      refine ⟨fun h => (nomatch h), fun ⟨amount, h, _⟩ => (nomatch h)⟩
  | ok amount =>
      cases hcurrency : isCurrency (currencyText text config currencyValue) with
      | false =>
          simp only [bind, Except.bind, hcurrency]
          exact ⟨fun h => (nomatch h), fun ⟨_, _, h, _⟩ => (nomatch h)⟩
      | true =>
          simp only [bind, Except.bind, hcurrency]
          constructor
          · intro h
            cases h
            exact ⟨amount, rfl, trivial, rfl⟩
          · rintro ⟨_, h, -, rfl⟩
            cases h
            rfl

/-- **Exact decimals.**  Both parsers take exactly the decimals at the scale,
the money parser where its currency is valid, and spell them exactly; the
digits of the cost parser have no leading zero but a single one. -/
theorem decimalMoney_exact (s : String) (scale : Nat) (currencyDefault : Option String)
    (currencyValue : Option Json) :
    let config : MoneyConfig := ⟨.decimal, scale, currencyDefault⟩
    let currency := currencyText text config currencyValue
    ((∃ amount, decimalToUnscaled s scale = .ok amount) ↔
      ∃ whole fraction, ReadsDecimal s scale whole fraction) ∧
    ((∃ money, moneyValue text (some (.str s)) config currencyValue = .ok money) ↔
      (∃ whole fraction, ReadsDecimal s scale whole fraction) ∧ isCurrency currency = true) ∧
    ∀ whole fraction, ReadsDecimal s scale whole fraction →
      (∀ amount, decimalToUnscaled s scale = .ok amount →
        SpellsScaled amount scale whole fraction ∧
        ∀ rest, amount.toList = '0' :: rest → rest = []) ∧
      ∀ money, moneyValue text (some (.str s)) config currencyValue = .ok money →
        SpellsScaled money.amountUnscaled scale whole fraction ∧
        money.amountScale = scale ∧ money.currency = currency := by
  intro config currency
  refine ⟨⟨?_, ?_⟩, ⟨?_, ?_⟩, ?_⟩
  · rintro ⟨amount, h⟩
    obtain ⟨whole, fraction, hread, -⟩ := decimalToUnscaled_eq_ok_iff.mp h
    exact ⟨whole, fraction, hread⟩
  · rintro ⟨whole, fraction, hread⟩
    exact ⟨_, decimalToUnscaled_eq_ok_iff.mpr ⟨whole, fraction, hread, rfl⟩⟩
  · rintro ⟨money, h⟩
    obtain ⟨amount, hamount, hcurrency, -⟩ := (moneyValue_eq_ok_iff rfl).mp h
    obtain ⟨whole, fraction, hread, -⟩ := decimalAmount_eq_ok_iff.mp hamount
    exact ⟨⟨whole, fraction, hread⟩, hcurrency⟩
  · rintro ⟨⟨whole, fraction, hread⟩, hcurrency⟩
    have hamount := decimalAmount_eq_ok_iff.mpr ⟨whole, fraction, hread, rfl⟩
    exact ⟨_, (moneyValue_eq_ok_iff rfl).mpr ⟨_, hamount, hcurrency, rfl⟩⟩
  · intro whole fraction hread
    -- a text is one decimal only
    have honly : ∀ whole' fraction', ReadsDecimal s scale whole' fraction' →
        whole' = whole ∧ fraction' = fraction := fun whole' fraction' hread' => by
      have hparts := DecimalText.parts_of_spells hread'.spells
      rw [DecimalText.parts_of_spells hread.spells] at hparts
      cases hparts
      exact ⟨rfl, rfl⟩
    refine ⟨fun amount h => ?_, fun money h => ?_⟩
    · obtain ⟨whole', fraction', hread', rfl⟩ := decimalToUnscaled_eq_ok_iff.mp h
      obtain ⟨rfl, rfl⟩ := honly whole' fraction' hread'
      refine ⟨spellsScaled_withoutZeros hread, fun rest hrest => ?_⟩
      rw [String.toList_ofList] at hrest
      exact DecimalText.withoutZeros_head (scaled_digits hread.spells scale).2 hrest
    · obtain ⟨amount, hamount, -, rfl⟩ := (moneyValue_eq_ok_iff rfl).mp h
      obtain ⟨whole', fraction', hread', rfl⟩ := decimalAmount_eq_ok_iff.mp hamount
      obtain ⟨rfl, rfl⟩ := honly whole' fraction' hread'
      exact ⟨spellsScaled_scaled hread, rfl, rfl⟩

end Exactness

end OpenMasu
