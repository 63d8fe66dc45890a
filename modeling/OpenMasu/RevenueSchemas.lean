import OpenMasu.ClickIngestibility

/-!
# Schemas of revenue and custom events

The closed schemas of the events an application reports through the SDKs, and
what they ask of the money a payload carries.

* `moneySchema`, `moneySchema_admits` — an amount, its scale and its currency;
* `adRevenueSchema`, `purchaseSchema`, `refundSchema` — the events with money;
* `customEventSchema`, `consentChangedSchema` — the others.
-/

namespace OpenMasu

open JsonSchema (Schema MemberFits closedObject memberOf admits_property admits_required)

/-- `^[A-Z]{3}$` -/
def isCurrencyText : List Char → Bool := ofClass Char.isUpper 3 3

def scaleSchema : Schema := .all [.type .integer, .minimum 0, .maximum 18]

/-- `money` of the common schema. -/
def moneySchema : Schema := .all [
  .type .object,
  .required "amount_unscaled", .required "amount_scale", .required "currency",
  .property "amount_unscaled" (textSchema isDigitsText),
  .property "amount_scale" scaleSchema,
  .property "currency" (textSchema isCurrencyText)]

/-- Extensions of any names. -/
def freeExtensionsSchema : Schema := .type .object

def adRevenueProperties : List (String × Schema) := [
  ("event_name", .enum ["ad_revenue"]),
  ("subject_scope", .enum ["installation_level", "aggregate"]),
  ("installation_id", idSchema),
  ("impression_id", idSchema),
  ("ad_unit_id", idSchema),
  ("ad_network", .both (.type .string) (.minLength 1)),
  ("mediation_provider", boundedText 1 128),
  ("country", countrySchema),
  ("anchor_source", .enum ["provider_install_ref", "provider_click_ref", "server_user_ref"]),
  ("amount_unscaled", .any),
  ("amount_scale", .any),
  ("currency", .any),
  ("currency_source", .enum ["reported", "default"]),
  ("revenue_source", .enum ["client_estimated", "server_verified", "imported_reported"]),
  ("revenue_precision", .enum ["exact", "estimated", "publisher_defined", "undefined"]),
  ("import_context", importContextSchema),
  ("extensions", extensionsSchema)]

/-- `ad-revenue.schema.json` -/
def adRevenueSchema : Schema := .all [
  closedObject adRevenueProperties
    ["event_name", "subject_scope", "ad_network", "amount_unscaled", "amount_scale", "currency",
      "revenue_source"],
  moneySchema,
  .ifThen (memberIs "subject_scope" "installation_level") (.required "installation_id"),
  .ifThen (memberIs "subject_scope" "aggregate") (.negation (.required "installation_id"))]

def financialStatuses : List String := ["settled", "pending", "reversed"]

def purchaseProperties : List (String × Schema) := [
  ("event_name", .enum ["purchase"]),
  ("transaction_id", idSchema),
  ("original_transaction_id", idSchema),
  ("amount_unscaled", .any),
  ("amount_scale", .any),
  ("currency", .any),
  ("financial_status", .enum financialStatuses),
  ("extensions", freeExtensionsSchema)]

/-- `purchase.schema.json` -/
def purchaseSchema : Schema := .both
  (closedObject purchaseProperties
    ["event_name", "transaction_id", "amount_unscaled", "amount_scale", "currency",
      "financial_status"])
  moneySchema

def refundProperties : List (String × Schema) := [
  ("event_name", .enum ["refund"]),
  ("transaction_id", idSchema),
  ("original_transaction_id", idSchema),
  ("correction_target_record_id", idSchema),
  ("amount_unscaled", .any),
  ("amount_scale", .any),
  ("currency", .any),
  ("financial_status", .enum financialStatuses),
  ("extensions", freeExtensionsSchema)]

/-- `refund.schema.json` -/
def refundSchema : Schema := .both
  (closedObject refundProperties
    ["event_name", "transaction_id", "original_transaction_id", "correction_target_record_id",
      "amount_unscaled", "amount_scale", "currency", "financial_status"])
  moneySchema

/-- The value of an attribute. -/
def attributeSchema : Schema :=
  .anyOf [.both (.type .string) (.maxLength 256), .type .number, .type .boolean, .type .null]

def conversionValueKey : String := "openmasu.conversion_value_updated"

def customEventProperties : List (String × Schema) := [
  ("event_name", .enum ["custom_event"]),
  ("installation_id", idSchema),
  ("event_key", .either (textSchema isParameterName) (.enum [conversionValueKey])),
  ("money", moneySchema),
  ("attributes", .all [.type .object, .maxProperties 20, .propertyNames isParameterName,
    .eachProperty attributeSchema])]

/-- `custom-event.schema.json` -/
def customEventSchema : Schema :=
  closedObject customEventProperties ["event_name", "installation_id", "event_key"]

def consentStates : List String := ["granted", "denied", "withdrawn", "not_required", "unknown"]

def consentChangedProperties : List (String × Schema) := [
  ("event_name", .enum ["consent_changed"]),
  ("consent_state", .enum consentStates),
  ("effective_at", textSchema (fitsForm "0000-00-00T00:00:00.000Z".toList)),
  ("consent_policy_version", .type .string),
  ("extensions", freeExtensionsSchema)]

/-- `consent-changed.schema.json` -/
def consentChangedSchema : Schema :=
  closedObject consentChangedProperties
    ["event_name", "consent_state", "effective_at", "consent_policy_version"]

section Money

variable {members : List (String × Option Json)} {amount currency : String} {scale : Int}

theorem scaleSchema_admits :
    scaleSchema.admits (Json.int scale) = true ↔ 0 ≤ scale ∧ scale ≤ 18 := by
  simp only [scaleSchema, Schema.admits_all, List.forall_mem_cons, List.not_mem_nil,
    false_imp_iff, implies_true, and_true, Schema.admits, Json.int, JsonSchema.JsonType.isOf,
    Rat.den_intCast, decide_true, true_and, decide_eq_true_eq, Int.cast_le]

/-- What the schema asks of money. -/
theorem moneySchema_admits (hnodup : (members.map Prod.fst).Nodup)
    (hamount : memberOf members "amount_unscaled" = some (.str amount))
    (hscale : memberOf members "amount_scale" = some (Json.int scale))
    (hcurrency : memberOf members "currency" = some (.str currency)) :
    moneySchema.admits (Json.object members) = true ↔
      isDigitsText amount.toList = true ∧ (0 ≤ scale ∧ scale ≤ 18) ∧
        isCurrencyText currency.toList = true := by
  have htype : (Schema.type .object).admits (Json.object members) = true := rfl
  simp only [moneySchema, Schema.admits_all, List.forall_mem_cons, List.not_mem_nil,
    false_imp_iff, implies_true, and_true, htype, true_and, admits_required hnodup,
    admits_property hnodup, hamount, hscale, hcurrency, Option.isSome_some, Option.all_some,
    textSchema_admits, scaleSchema_admits]

end Money

end OpenMasu
