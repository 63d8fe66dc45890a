import OpenMasu.HalfEvenRounding
import OpenMasu.RevenueSchemas
import Mathlib.Tactic.NormNum

/-!
# Revenue of MAX on two platforms

A MAX observation carries its revenue as a double.  Both SDKs take the shortest
decimal that prints the double and publish it in millionths of a dollar, rounded
half to even, Android over `BigDecimal` and iOS over the decimal of Foundation,
which has 38 digits and exponents from -128 to 127.

* `Observation`, `Revenue` — what MAX reports;
* `BigDecimal`, `FoundationDecimal` — the two decimal libraries;
* `androidMap`, `iosMap` — `MaxRevenueMapper.map` in Kotlin and in Swift;
* `androidMicros_rounds`, `iosMicros_rounds` — the amounts they publish;
* `unnamed_network_published` — revenue one platform drops;
* `max_mappings_agree_iff` — where the two agree.
-/

namespace OpenMasu

open JsonSchema (Schema MemberFits memberOf)
open NearestEven (Rounds)

section Numbers

/-- The shortest decimal that prints a double: `coefficient * 10 ^ exponent`. -/
structure ShortestDecimal where
  coefficient : Nat
  exponent : Int
  short : coefficient < 10 ^ 17
  shortest : coefficient % 10 ≠ 0 ∨ (coefficient = 0 ∧ exponent = 0)

/-- A double, by its printed form; both zeros print the decimal zero. -/
inductive Revenue where
  | nan
  | infinite (negative : Bool)
  | finite (negative : Bool) (decimal : ShortestDecimal)

def Revenue.isFinite : Revenue → Bool
  | .finite _ _ => true
  | _ => false

/-- `revenue < 0` -/
def Revenue.isNegative : Revenue → Bool
  | .nan => false
  | .infinite negative => negative
  | .finite negative decimal => negative && decimal.coefficient ≠ 0

/-- The decimal without its sign. -/
def Revenue.decimal? : Revenue → Option ShortestDecimal
  | .finite _ decimal => some decimal
  | _ => none

def ShortestDecimal.value (d : ShortestDecimal) : ℚ := d.coefficient * (10 : ℚ) ^ d.exponent

/-- `coefficient * 10 ^ exponent`, rounded half to even to an integer. -/
def halfEvenAt (coefficient : Nat) (exponent : Int) : Nat :=
  if 0 ≤ exponent then coefficient * 10 ^ exponent.toNat
  else roundedQuotient coefficient (10 ^ (-exponent).toNat)

/-- Rounding at a decimal place is rounding of the scaled number, whatever the
place. -/
theorem halfEvenAt_rounds (c : Nat) (e : Int) :
    Rounds (halfEvenAt c e) ((c : ℚ) * (10 : ℚ) ^ e) := by
  rw [halfEvenAt]
  split
  · case isTrue h =>
      have hvalue : (c : ℚ) * (10 : ℚ) ^ e = ((c * 10 ^ e.toNat : ℕ) : ℤ) := by
        obtain ⟨n, rfl⟩ := Int.eq_ofNat_of_zero_le h
        push_cast
        rw [Int.toNat_natCast, zpow_natCast]
      rw [hvalue]
      exact NearestEven.rounds_intCast _
  · case isFalse h =>
      obtain ⟨n, hn⟩ := Int.eq_ofNat_of_zero_le (show 0 ≤ -e by omega)
      have hvalue : (c : ℚ) * (10 : ℚ) ^ e = ((c : ℤ) : ℚ) / ((10 ^ n : ℕ) : ℤ) := by
        rw [show e = -(n : ℤ) by omega, zpow_neg, zpow_natCast]
        push_cast
        rfl
      rw [hvalue, hn, Int.toNat_natCast]
      exact rounds_roundedQuotient (by positivity)

end Numbers

section Android

/-- A non-negative `BigDecimal`: `unscaled * 10 ^ -scale`. -/
structure BigDecimal where
  unscaled : Nat
  scale : Int

namespace BigDecimal

/-- `BigDecimal.valueOf` -/
def valueOf (d : ShortestDecimal) : BigDecimal := ⟨d.coefficient, -d.exponent⟩

/-- `setScale(0, RoundingMode.HALF_EVEN)` -/
def toInteger (b : BigDecimal) : BigDecimal := ⟨halfEvenAt b.unscaled (-b.scale), 0⟩

/-- `movePointRight`; the result has no negative scale. -/
def movePointRight (b : BigDecimal) (n : Nat) : BigDecimal :=
  let moved : BigDecimal := ⟨b.unscaled, b.scale - n⟩
  if moved.scale < 0 then ⟨b.unscaled * 10 ^ (-moved.scale).toNat, 0⟩ else moved

/-- `toPlainString` of an integer. -/
def toPlainString (b : BigDecimal) : String := b.unscaled.repr

end BigDecimal

end Android

section Foundation

/-- A non-negative `Decimal` of Foundation: `mantissa * 10 ^ exponent`. -/
structure FoundationDecimal where
  mantissa : Nat
  exponent : Int
  digits : mantissa < 10 ^ 38
  range : -128 ≤ exponent ∧ exponent ≤ 127

namespace FoundationDecimal

/-- `coefficient * 10 ^ exponent`, if the exponent can be brought into the range
within the digits. -/
def ofScaled? (coefficient : Nat) (exponent : Int) : Option FoundationDecimal :=
  let up := (exponent - 127).toNat
  let down := (-128 - exponent).toNat
  let mantissa := coefficient / 10 ^ down * 10 ^ up
  if h : coefficient % 10 ^ down = 0 ∧ mantissa < 10 ^ 38 then
    some ⟨mantissa, max (-128) (min exponent 127), h.2, by omega⟩
  else none

/-- `Decimal(string:)`; none outside the range. -/
def ofString? (d : ShortestDecimal) : Option FoundationDecimal :=
  ofScaled? d.coefficient d.exponent

/-- The product with a million; none where it is not a number. -/
def timesMillion (v : FoundationDecimal) : Option FoundationDecimal :=
  ofScaled? v.mantissa (v.exponent + 6)

/-- `NSDecimalRound` to no places with `.bankers`; an integer. -/
def bankers (v : FoundationDecimal) : Nat := halfEvenAt v.mantissa v.exponent

def value (v : FoundationDecimal) : ℚ := v.mantissa * (10 : ℚ) ^ v.exponent

/-- The text of the rounded product, `stringValue`. -/
def microsText (v : FoundationDecimal) : String :=
  match v.timesMillion with
  | some product => product.bankers.repr
  | none => "NaN"

end FoundationDecimal

end Foundation

section Mapping

/-- `MaxRevenueObservation` -/
structure Observation where
  revenue : Revenue
  precision : String
  networkName : String
  adUnitId : String
  format : String
  placement : Option String
  networkPlacement : Option String

/-- `PRECISIONS` -/
def precisions : List String := ["publisher_defined", "exact", "estimated", "undefined"]

def Observation.extensions (o : Observation) : List (String × Option Json) := [
  ("ad_format", some (.str o.format)),
  ("placement", o.placement.map .str),
  ("network_placement", o.networkPlacement.map .str)]

/-- The members of the payload, in both languages. -/
def Observation.members (o : Observation) (installationId impressionId amount : String) :
    List (String × Option Json) := [
  ("event_name", some (.str "ad_revenue")),
  ("subject_scope", some (.str "installation_level")),
  ("installation_id", some (.str installationId)),
  ("impression_id", some (.str impressionId)),
  ("ad_unit_id", some (.str o.adUnitId)),
  ("ad_network", some (.str o.networkName)),
  ("mediation_provider", some (.str "applovin-max")),
  ("amount_unscaled", some (.str amount)),
  ("amount_scale", some (Json.int 6)),
  ("currency", some (.str "USD")),
  ("currency_source", some (.str "reported")),
  ("revenue_source", some (.str "client_estimated")),
  ("revenue_precision", some (.str o.precision)),
  ("extensions", some (Json.object o.extensions))]

def androidMicros (d : ShortestDecimal) : String :=
  ((BigDecimal.valueOf d).movePointRight 6).toInteger.toPlainString

/-- `MaxRevenueMapper.map` in Kotlin. -/
def androidMap (o : Observation) (installationId impressionId : String) : Option Json :=
  if !o.revenue.isFinite || o.revenue.isNegative then none
  else if o.precision ∉ precisions then none
  else o.revenue.decimal?.map fun d =>
    Json.object (o.members installationId impressionId (androidMicros d))

/-- `MaxRevenueMapper.map` in Swift. -/
def iosMap (o : Observation) (installationId impressionId : String) : Option Json :=
  if !(o.revenue.isFinite && !o.revenue.isNegative && precisions.contains o.precision &&
      !o.networkName.isEmpty && !o.adUnitId.isEmpty) then none
  else do
    let d ← o.revenue.decimal?
    let decimalRevenue ← FoundationDecimal.ofString? d
    return Json.object (o.members installationId impressionId decimalRevenue.microsText)

end Mapping

section Amounts

variable {d : ShortestDecimal} {v w : FoundationDecimal} {c : Nat} {e : Int}

/-- Zeros behind the digits move the exponent and keep the value. -/
theorem value_scale (c : Nat) (e : Int) (n : Nat) :
    ((c * 10 ^ n : ℕ) : ℚ) * (10 : ℚ) ^ e = c * (10 : ℚ) ^ (e + n) := by
  rw [zpow_add₀ (by norm_num), zpow_natCast]
  push_cast
  ring

/-- What the library keeps has the value it was given. -/
theorem FoundationDecimal.value_ofScaled (h : ofScaled? c e = some v) :
    v.value = (c : ℚ) * (10 : ℚ) ^ e := by
  unfold ofScaled? at h
  dsimp only at h
  split at h
  · case isTrue hfits =>
      cases h
      rw [value]
      dsimp only
      rcases le_total e 127 with hhigh | hhigh
      · rw [show (e - 127).toNat = 0 by omega, pow_zero, mul_one, min_eq_left hhigh]
        rcases le_total (-128) e with hlow | hlow
        · rw [show (-128 - e).toNat = 0 by omega, pow_zero, Nat.div_one, max_eq_right hlow]
        · obtain ⟨n, hn⟩ := Int.eq_ofNat_of_zero_le (show 0 ≤ -128 - e by omega)
          have hdvd := Nat.div_mul_cancel (Nat.dvd_of_mod_eq_zero hfits.1)
          rw [max_eq_left hlow, hn, Int.toNat_natCast]
          rw [hn, Int.toNat_natCast] at hdvd
          rw [show (-128 : ℤ) = e + n by omega, ← value_scale, hdvd]
      · rw [min_eq_right hhigh, show (-128 - e).toNat = 0 by omega, pow_zero, Nat.div_one]
        obtain ⟨n, hn⟩ := Int.eq_ofNat_of_zero_le (show 0 ≤ e - 127 by omega)
        rw [hn, Int.toNat_natCast, max_eq_right (by omega), value_scale]
        rw [show (127 : ℤ) + n = e by omega]
  · cases h

/-- Within the exponents the digits decide. -/
theorem FoundationDecimal.isSome_ofScaled (hlow : -128 ≤ e) :
    (ofScaled? c e).isSome = true ↔ c * 10 ^ (e - 127).toNat < 10 ^ 38 := by
  have hdown : (-128 - e).toNat = 0 := by omega
  unfold ofScaled?
  simp only [hdown, pow_zero, Nat.mod_one, Nat.div_one, true_and]
  split
  · case isTrue h => exact ⟨fun _ => h, fun _ => rfl⟩
  · case isFalse h => exact ⟨nofun, fun hlt => absurd hlt h⟩

/-- A decimal that fits keeps its digits; an exponent above the greatest is
written out in zeros. -/
theorem FoundationDecimal.eq_of_ofScaled (hlow : -128 ≤ e) (h : ofScaled? c e = some v) :
    v.mantissa = c * 10 ^ (e - 127).toNat ∧ v.exponent = min e 127 := by
  have hdown : (-128 - e).toNat = 0 := by omega
  unfold ofScaled? at h
  simp only [hdown, pow_zero, Nat.div_one] at h
  split at h
  · cases h
    exact ⟨rfl, max_eq_right (by omega)⟩
  · cases h

/-- Below the exponents the last digit is lost. -/
theorem FoundationDecimal.ofScaled_eq_none (hlow : e < -128) (hdigit : c % 10 ≠ 0) :
    ofScaled? c e = none := by
  unfold ofScaled?
  dsimp only
  rw [dif_neg]
  rintro ⟨hmod, -⟩
  refine hdigit (Nat.mod_eq_zero_of_dvd ?_)
  exact (dvd_pow_self 10 (by omega)).trans (Nat.dvd_of_mod_eq_zero hmod)

/-- The amount of Android is the rounding. -/
theorem androidMicros_rounds (d : ShortestDecimal) :
    ∃ q : ℕ, androidMicros d = q.repr ∧ Rounds q (d.value * 10 ^ 6) := by
  have hvalue : d.value * 10 ^ 6 = d.coefficient * (10 : ℚ) ^ (d.exponent + 6) := by
    rw [ShortestDecimal.value, zpow_add₀ (by norm_num)]
    norm_num
    ring
  rw [hvalue]
  refine ⟨_, rfl, ?_⟩
  rw [BigDecimal.movePointRight, BigDecimal.toInteger, BigDecimal.valueOf]
  dsimp only
  split
  · case isTrue hneg =>
      obtain ⟨n, hn⟩ := Int.eq_ofNat_of_zero_le (show 0 ≤ d.exponent + 6 by omega)
      have hrounds := halfEvenAt_rounds (d.coefficient * 10 ^ n) 0
      rw [value_scale, zero_add] at hrounds
      rw [show -(-d.exponent - (6 : ℕ)) = (n : ℤ) by omega, hn, Int.toNat_natCast]
      exact hrounds
  · case isFalse =>
      rw [show -(-d.exponent - (6 : ℕ)) = d.exponent + 6 by omega]
      exact halfEvenAt_rounds _ _

/-- So is the amount of iOS, where it is a number. -/
theorem iosMicros_rounds (hv : FoundationDecimal.ofString? d = some v)
    (hw : v.timesMillion = some w) :
    ∃ q : ℕ, v.microsText = q.repr ∧ Rounds q (d.value * 10 ^ 6) := by
  have hvalue : d.value * 10 ^ 6 = w.value := by
    have hproduct := FoundationDecimal.value_ofScaled hw
    have hstring := FoundationDecimal.value_ofScaled hv
    rw [hproduct, zpow_add₀ (by norm_num), ← mul_assoc]
    rw [FoundationDecimal.value] at hstring
    rw [hstring, ShortestDecimal.value]
    norm_num
  rw [hvalue]
  refine ⟨w.bankers, ?_, halfEvenAt_rounds _ _⟩
  rw [FoundationDecimal.microsText, hw]

end Amounts

section Agreement

variable {o : Observation} {d : ShortestDecimal} {installationId impressionId amount : String}

/-- Both mappers reject the observation for its revenue or its precision. -/
def Observation.Rejected (o : Observation) : Prop :=
  o.revenue.isFinite = false ∨ o.revenue.isNegative = true ∨ o.precision ∉ precisions

/-- The decimal fits the digits and exponents of Foundation, in millionths too. -/
def ShortestDecimal.FitsFoundation (d : ShortestDecimal) : Prop :=
  -128 ≤ d.exponent ∧ d.coefficient * 10 ^ (d.exponent + 6 - 127).toNat < 10 ^ 38

/-- The product has the digits of the string and the six of the million. -/
theorem isSome_timesMillion {v : FoundationDecimal} (hlow : -128 ≤ d.exponent)
    (hv : FoundationDecimal.ofString? d = some v) : v.timesMillion.isSome = true ↔
      d.coefficient * 10 ^ (d.exponent + 6 - 127).toNat < 10 ^ 38 := by
  obtain ⟨hmantissa, hexponent⟩ := FoundationDecimal.eq_of_ofScaled hlow hv
  have hdigits : (d.exponent - 127).toNat + (min d.exponent 127 + 6 - 127).toNat =
      (d.exponent + 6 - 127).toNat := by omega
  rw [FoundationDecimal.timesMillion, FoundationDecimal.isSome_ofScaled (by omega), hmantissa,
    hexponent, mul_assoc, ← pow_add, hdigits]

/-- What fits is read, and can still be multiplied by a million. -/
theorem fitsFoundation_iff : d.FitsFoundation ↔
    ∃ v w, FoundationDecimal.ofString? d = some v ∧ v.timesMillion = some w := by
  constructor
  · rintro ⟨hlow, hdigits⟩
    have hstring : d.coefficient * 10 ^ (d.exponent - 127).toNat < 10 ^ 38 :=
      (Nat.mul_le_mul_left _ (Nat.pow_le_pow_right (by omega) (by omega))).trans_lt hdigits
    obtain ⟨v, hv⟩ := Option.isSome_iff_exists.mp
      ((FoundationDecimal.isSome_ofScaled hlow).mpr hstring)
    obtain ⟨w, hw⟩ := Option.isSome_iff_exists.mp ((isSome_timesMillion hlow hv).mpr hdigits)
    exact ⟨v, w, hv, hw⟩
  · rintro ⟨v, w, hv, hw⟩
    have hlow : -128 ≤ d.exponent := by
      by_contra hbelow
      rcases d.shortest with hdigit | ⟨-, hzero⟩
      · rw [FoundationDecimal.ofString?,
          FoundationDecimal.ofScaled_eq_none (Int.not_le.mp hbelow) hdigit] at hv
        cases hv
      · omega
    exact ⟨hlow, (isSome_timesMillion hlow hv).mp (by rw [hw]; rfl)⟩

/-- A natural number is printed in digits. -/
theorem isDigitsText_repr (n : Nat) : isDigitsText n.repr.toList = true := by
  rw [isDigitsText, Bool.and_eq_true, Bool.not_eq_true', List.isEmpty_eq_false_iff,
    List.all_eq_true, Nat.toList_repr]
  refine ⟨?_, fun c => Nat.isDigit_of_mem_toDigits (by decide) (by decide)⟩
  exact List.ne_nil_of_length_pos Nat.length_toDigits_pos

/-- No number is printed as the text of an undefined one. -/
theorem repr_ne_nan (n : Nat) : n.repr ≠ "NaN" := by
  intro h
  have hdigits := isDigitsText_repr n
  rw [h] at hdigits
  cases hdigits

/-- The extensions of an observation meet the schema of extensions. -/
theorem observationExtensions_admits (o : Observation) :
    extensionsSchema.admits (Json.object o.extensions) = true := by
  have hnames : ∀ m ∈ o.extensions, (!isReservedExtension m.1.toList) = true := by
    simp only [Observation.extensions, List.forall_mem_cons, List.not_mem_nil, false_imp_iff,
      implies_true, and_true]
    decide
  rw [extensionsSchema, Schema.admits, Bool.and_eq_true]
  refine ⟨rfl, ?_⟩
  simp only [Json.object, Schema.admits, List.all_eq_true, List.mem_filterMap,
    Option.map_eq_some_iff]
  rintro m ⟨member, hmember, v, _, hv⟩
  rw [← hv]
  exact hnames member hmember

/-- A network may have any name but the empty one. -/
theorem networkSchema_admits {text : String} :
    (Schema.both (.type .string) (.minLength 1)).admits (.str text) = true ↔ text ≠ "" := by
  rw [Schema.admits, Bool.and_eq_true]
  simp only [Schema.admits, JsonSchema.JsonType.isOf, true_and, decide_eq_true_eq,
    Nat.one_le_iff_ne_zero, ne_eq, String.length_eq_zero_iff]

/-- The members of a payload whose ids are identifiers fit if it names its network. -/
theorem observationMembers_fit (hinstallation : isIdText installationId.toList = true)
    (himpression : isIdText impressionId.toList = true)
    (hunit : isIdText o.adUnitId.toList = true) (hprecision : o.precision ∈ precisions) :
    (∀ m ∈ o.members installationId impressionId amount, MemberFits adRevenueProperties m) ↔
      o.networkName ≠ "" := by
  have hdeclared : (adRevenueProperties.map Prod.fst).Nodup := by decide
  constructor
  · intro h
    exact networkSchema_admits.mp ((h ("ad_network", some (.str o.networkName))
      (by simp [Observation.members])).admits hdeclared (by simp [adRevenueProperties]) rfl)
  · intro hnetwork
    simp only [Observation.members, List.forall_mem_cons, List.not_mem_nil, false_imp_iff,
      implies_true, and_true]
    refine ⟨.present (s := .enum ["ad_revenue"]) (by simp [adRevenueProperties]) rfl,
      .present (s := .enum ["installation_level", "aggregate"]) (by simp [adRevenueProperties]) rfl,
      .present (s := idSchema) (by simp [adRevenueProperties])
        (textSchema_admits.mpr hinstallation),
      .present (s := idSchema) (by simp [adRevenueProperties]) (textSchema_admits.mpr himpression),
      .present (s := idSchema) (by simp [adRevenueProperties]) (textSchema_admits.mpr hunit),
      .present (s := .both (.type .string) (.minLength 1)) (by simp [adRevenueProperties])
        (networkSchema_admits.mpr hnetwork),
      .present (s := boundedText 1 128) (by simp [adRevenueProperties]) (by decide),
      .present (s := .any) (by simp [adRevenueProperties]) rfl,
      .present (s := .any) (by simp [adRevenueProperties]) rfl,
      .present (s := .any) (by simp [adRevenueProperties]) rfl,
      .present (s := .enum ["reported", "default"]) (by simp [adRevenueProperties]) rfl,
      .present (s := .enum ["client_estimated", "server_verified", "imported_reported"])
        (by simp [adRevenueProperties]) rfl,
      .present (s := .enum ["exact", "estimated", "publisher_defined", "undefined"])
        (by simp [adRevenueProperties]) ?_,
      .present (s := extensionsSchema) (by simp [adRevenueProperties])
        (observationExtensions_admits o)⟩
    rw [Schema.admits, List.contains_iff_mem]
    simp only [precisions, List.mem_cons, List.not_mem_nil, or_false] at hprecision ⊢
    tauto

/-- **What the schema asks of a payload** whose ids are identifiers: a named
network, and an amount in digits. -/
theorem adRevenuePayload_admits (hinstallation : isIdText installationId.toList = true)
    (himpression : isIdText impressionId.toList = true)
    (hunit : isIdText o.adUnitId.toList = true) (hprecision : o.precision ∈ precisions) :
    validateEventPayload adRevenueSchema "ad_revenue"
        (Json.object (o.members installationId impressionId amount)) = true ↔
      o.networkName ≠ "" ∧ isDigitsText amount.toList = true := by
  have hnames : (namedMembers "ad_revenue" (o.members installationId impressionId amount)).map
      Prod.fst = ["subject_scope", "installation_id", "impression_id", "ad_unit_id", "ad_network",
        "mediation_provider", "amount_unscaled", "amount_scale", "currency", "currency_source",
        "revenue_source", "revenue_precision", "extensions", "event_name"] := rfl
  have hnodup : ((namedMembers "ad_revenue" (o.members installationId impressionId amount)).map
      Prod.fst).Nodup := by
    rw [hnames]
    decide
  have hdeclared : (adRevenueProperties.map Prod.fst).Nodup := by decide
  have hmembers : (∀ m ∈ namedMembers "ad_revenue" (o.members installationId impressionId amount),
      MemberFits adRevenueProperties m) ↔ o.networkName ≠ "" := by
    have hobservation : (∀ m ∈ o.members installationId impressionId amount,
        MemberFits adRevenueProperties m) ↔ o.networkName ≠ "" :=
      observationMembers_fit hinstallation himpression hunit hprecision
    rw [← hobservation]
    exact namedMembers_fit_iff (by simp [adRevenueProperties]) (by simp [Observation.members])
  have hscope : memberOf (namedMembers "ad_revenue" (o.members installationId impressionId amount))
      "subject_scope" = some (.str "installation_level") := rfl
  have hid : memberOf (namedMembers "ad_revenue" (o.members installationId impressionId amount))
      "installation_id" = some (.str installationId) := rfl
  have hmoney : moneySchema.admits (Json.object (namedMembers "ad_revenue"
        (o.members installationId impressionId amount))) = true ↔
      isDigitsText amount.toList = true ∧ ((0 : Int) ≤ 6 ∧ (6 : Int) ≤ 18) ∧
        isCurrencyText "USD".toList = true :=
    moneySchema_admits hnodup rfl rfl rfl
  rw [validateEventPayload_object, adRevenueSchema, Schema.admits_all]
  simp only [List.forall_mem_cons, List.not_mem_nil, false_imp_iff, implies_true, and_true,
    JsonSchema.admits_closedObject hnodup hdeclared, hmembers, hmoney, Schema.admits_ifThen,
    memberIs_admits hnodup, JsonSchema.admits_required hnodup, hscope, hid]
  constructor
  · rintro ⟨⟨hnetwork, -⟩, ⟨hdigits, -⟩, -⟩
    exact ⟨hnetwork, hdigits⟩
  · rintro ⟨hnetwork, hdigits⟩
    refine ⟨⟨hnetwork, rfl, rfl, rfl, rfl, rfl, rfl, rfl⟩, ⟨hdigits, by decide, rfl⟩,
      fun _ => rfl, ?_⟩
    intro haggregate
    exact absurd (Json.str.inj (Option.some.inj haggregate)) (by decide)

/-- The amount of a payload. -/
def amountOf (payload : Json) : Option Json := JsonSchema.get? "amount_unscaled" payload

/-- The amount stands in the payload under its name. -/
theorem amountOf_payload :
    amountOf (Json.object (o.members installationId impressionId amount)) = some (.str amount) := by
  have hnodup : ((o.members installationId impressionId amount).map Prod.fst).Nodup := by
    have hnames : (o.members installationId impressionId amount).map Prod.fst =
        ["event_name", "subject_scope", "installation_id", "impression_id", "ad_unit_id",
          "ad_network", "mediation_provider", "amount_unscaled", "amount_scale", "currency",
          "currency_source", "revenue_source", "revenue_precision", "extensions"] := rfl
    rw [hnames]
    decide
  rw [amountOf, JsonSchema.get?_object hnodup]
  rfl

variable (installationId impressionId) in
/-- A rejected observation is published by neither platform. -/
theorem map_of_rejected (h : o.Rejected) :
    androidMap o installationId impressionId = none ∧
      iosMap o installationId impressionId = none := by
  rw [androidMap, iosMap]
  rcases h with hfinite | hnegative | hprecision
  · rw [hfinite]
    exact ⟨rfl, rfl⟩
  · rw [hnegative, Bool.or_true, if_pos rfl, Bool.not_true, Bool.and_false]
    exact ⟨rfl, rfl⟩
  · have hcontains : precisions.contains o.precision = false := by
      rw [← Bool.not_eq_true, List.contains_iff_mem]
      exact hprecision
    rw [if_pos hprecision, ite_self, hcontains, Bool.and_false]
    exact ⟨rfl, rfl⟩

/-- What is not rejected is finite, not negative, and of a known precision. -/
theorem not_rejected (h : ¬ o.Rejected) : o.revenue.isFinite = true ∧
    o.revenue.isNegative = false ∧ o.precision ∈ precisions := by
  rw [Observation.Rejected, not_or, not_or, not_not] at h
  exact ⟨by simpa using h.1, by simpa using h.2.1, h.2.2⟩

/-- A revenue that is not rejected is a decimal. -/
theorem decimal_of_not_rejected (h : ¬ o.Rejected) : ∃ d, o.revenue.decimal? = some d := by
  have hfinite := (not_rejected h).1
  cases hrevenue : o.revenue with
  | nan => rw [hrevenue] at hfinite; cases hfinite
  | infinite negative => rw [hrevenue] at hfinite; cases hfinite
  | finite negative d => exact ⟨d, rfl⟩

/-- What Android publishes: the members of the observation with the amount in
micros, without a look at the names. -/
theorem androidMap_eq (h : ¬ o.Rejected) (hd : o.revenue.decimal? = some d) :
    androidMap o installationId impressionId =
      some (Json.object (o.members installationId impressionId (androidMicros d))) := by
  obtain ⟨hfinite, hnegative, hprecision⟩ := not_rejected h
  rw [androidMap, hfinite, hnegative, hd, if_neg (by decide), if_neg (not_not.mpr hprecision)]
  rfl

/-- What iOS publishes: nothing for an unnamed network or unit, nor for a
revenue its decimals cannot hold. -/
theorem iosMap_eq (h : ¬ o.Rejected) (hd : o.revenue.decimal? = some d) :
    iosMap o installationId impressionId =
      if o.networkName = "" ∨ o.adUnitId = "" then none
      else (FoundationDecimal.ofString? d).map fun v =>
        Json.object (o.members installationId impressionId v.microsText) := by
  obtain ⟨hfinite, hnegative, hprecision⟩ := not_rejected h
  have hguard : (!(o.revenue.isFinite && !o.revenue.isNegative &&
      precisions.contains o.precision && !o.networkName.isEmpty && !o.adUnitId.isEmpty)) = true ↔
        o.networkName = "" ∨ o.adUnitId = "" := by
    rw [hfinite, hnegative, List.contains_iff_mem.mpr hprecision]
    simp only [Bool.not_false, Bool.true_and, Bool.not_and, Bool.not_not, Bool.or_eq_true,
      String.isEmpty_iff]
  rw [iosMap]
  by_cases hnamed : o.networkName = "" ∨ o.adUnitId = ""
  · rw [if_pos hnamed, if_pos (hguard.mpr hnamed)]
  · rw [if_neg hnamed, if_neg (hguard.not.mpr hnamed), hd]
    cases hv : FoundationDecimal.ofString? d with
    | none => simp only [bind, Option.bind_some, hv, Option.bind_none, Option.map_none]
    | some v => simp only [bind, pure, Option.bind_some, hv, Option.map_some]

/-- A decimal whose iOS amount is Android's is no `NaN`. -/
theorem fits_of_amount {v : FoundationDecimal} (hv : FoundationDecimal.ofString? d = some v)
    (hamount : v.microsText = androidMicros d) : d.FitsFoundation := by
  obtain ⟨q, hq, -⟩ := androidMicros_rounds d
  cases hw : v.timesMillion with
  | none =>
      rw [FoundationDecimal.microsText, hw, hq] at hamount
      exact absurd hamount.symm (repr_ne_nan q)
  | some w => exact fitsFoundation_iff.mpr ⟨v, w, hv, hw⟩

variable (installationId impressionId) in
/-- Both publish the one rounding of a decimal that fits. -/
theorem published_amount (hfits : d.FitsFoundation) (h : ¬ o.Rejected)
    (hd : o.revenue.decimal? = some d) (hnetwork : o.networkName ≠ "") (hunit : o.adUnitId ≠ "") :
    ∃ q : ℕ,
      androidMap o installationId impressionId =
        some (Json.object (o.members installationId impressionId q.repr)) ∧
      iosMap o installationId impressionId =
        some (Json.object (o.members installationId impressionId q.repr)) ∧
      Rounds q (d.value * 10 ^ 6) := by
  obtain ⟨v, w, hv, hw⟩ := fitsFoundation_iff.mp hfits
  obtain ⟨q, handroid, hrounds⟩ := androidMicros_rounds d
  obtain ⟨q', hios, hrounds'⟩ := iosMicros_rounds hv hw
  have hsame : q = q' := by exact_mod_cast hrounds.unique hrounds'
  refine ⟨q, ?_, ?_, hrounds⟩
  · rw [androidMap_eq h hd, handroid]
  · rw [iosMap_eq h hd, if_neg (not_or.mpr ⟨hnetwork, hunit⟩), hv, Option.map_some, hios, hsame]

/-- **Where the mappings agree and are exact.**  Both reject or publish one payload, its
amount is the rounding and its fields pass the schema, exactly if an observation that is
not rejected for its revenue or precision names its network and its ad unit and its
decimal fits Foundation's. -/
theorem max_mappings_agree_iff (o : Observation) (installationId impressionId : String) :
    (androidMap o installationId impressionId = iosMap o installationId impressionId ∧
      ∀ payload, (androidMap o installationId impressionId = some payload ∨
          iosMap o installationId impressionId = some payload) →
        (∃ (d : ShortestDecimal) (q : ℕ), o.revenue.decimal? = some d ∧
          amountOf payload = some (.str q.repr) ∧ Rounds q (d.value * 10 ^ 6)) ∧
        (isIdText installationId.toList = true → isIdText impressionId.toList = true →
          isIdText o.adUnitId.toList = true →
            validateEventPayload adRevenueSchema "ad_revenue" payload = true)) ↔
    (¬ o.Rejected → o.networkName ≠ "" ∧ o.adUnitId ≠ "" ∧
      ∀ d, o.revenue.decimal? = some d → d.FitsFoundation) := by
  constructor
  · rintro ⟨hagree, -⟩ hrejected
    obtain ⟨d, hd⟩ := decimal_of_not_rejected hrejected
    rw [androidMap_eq hrejected hd, iosMap_eq hrejected hd] at hagree
    split at hagree
    · cases hagree
    · case isFalse hnamed =>
        obtain ⟨hnetwork, hunit⟩ := not_or.mp hnamed
        obtain ⟨v, hv, hpayload⟩ := Option.map_eq_some_iff.mp hagree.symm
        have hamount := congrArg amountOf hpayload
        rw [amountOf_payload, amountOf_payload] at hamount
        refine ⟨hnetwork, hunit, fun d' hd' => ?_⟩
        cases hd.symm.trans hd'
        exact fits_of_amount hv (Json.str.inj (Option.some.inj hamount))
  · intro h
    by_cases hrejected : o.Rejected
    · obtain ⟨handroid, hios⟩ := map_of_rejected installationId impressionId hrejected
      rw [handroid, hios]
      refine ⟨rfl, fun payload hpayload => ?_⟩
      rcases hpayload with hpayload | hpayload <;> cases hpayload
    · obtain ⟨hnetwork, hunit, hfits⟩ := h hrejected
      obtain ⟨d, hd⟩ := decimal_of_not_rejected hrejected
      obtain ⟨q, handroid, hios, hrounds⟩ :=
        published_amount installationId impressionId (hfits d hd) hrejected hd hnetwork hunit
      rw [handroid, hios]
      refine ⟨rfl, fun payload hpayload => ?_⟩
      rw [or_self, Option.some.injEq] at hpayload
      subst hpayload
      refine ⟨⟨d, q, hd, amountOf_payload, hrounds⟩, fun hinstallation himpression hid => ?_⟩
      exact (adRevenuePayload_admits hinstallation himpression hid (not_rejected hrejected).2.2).mpr
        ⟨hnetwork, isDigitsText_repr q⟩

/-- An observation without a network name. -/
def unnamedObservation : Observation where
  revenue := .finite false ⟨25, -2, by decide, .inl (by decide)⟩
  precision := "exact"
  networkName := ""
  adUnitId := "ad-unit:synthetic"
  format := "banner"
  placement := none
  networkPlacement := none

/-- Android publishes what iOS drops, and the schema refuses it: the one does
not look at the name of the network, which may not be empty. -/
theorem unnamed_network_published :
    (androidMap unnamedObservation "installation:synthetic" "impression:synthetic").map
      (validateEventPayload adRevenueSchema "ad_revenue") = some false ∧
    (iosMap unnamedObservation "installation:synthetic" "impression:synthetic").isNone = true := by
  decide +kernel

end Agreement

end OpenMasu
