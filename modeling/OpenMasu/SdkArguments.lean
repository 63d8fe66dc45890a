import OpenMasu.RevenueSchemas
import OpenMasu.SdkDevice

/-!
# Arguments of the SDK calls

An application reports events by calls whose arguments the SDK checks before it
puts a payload into its queue.  The server checks the payload again, by the schema
of the event, after the device has forgotten it.

* `Attributes` — the attributes of a custom event, as the JSON library takes them;
* `ApplicationCall`, `ApplicationCall.enqueue` — the calls of both SDKs, and what they put into
  the queue;
* `QueuedPayload.passes` — the schema of the event admits the payload;
* `negative_purchase_queued` — a payload that is refused later;
* `ApplicationCall.passes_iff` — the calls whose payloads pass.
-/

namespace OpenMasu

open JsonSchema (Schema MemberFits memberOf)

section Calls

/-- The attributes of a custom event; a value has no JSON form where the JSON
library of the platform refuses it. -/
structure Attributes where
  entries : List (String × Option Json)
  distinct : (entries.map Prod.fst).Nodup

/-- The attributes as a JSON object, where every value has a JSON form. -/
def Attributes.json? (attributes : Attributes) : Option (List (String × Json)) :=
  attributes.entries.mapM fun m => m.2.map fun v => (m.1, v)

/-- What a call puts into the queue: the event and its payload. -/
structure QueuedPayload where
  eventName : String
  processingPurposeId : String
  payload : Json

/-- What a call throws. -/
inductive SdkError where
  | invalidEventKey
  | invalidAttributes
  | invalidMoney
  | illegalArgument (message : String)
  deriving DecidableEq

/-- What a call finds on the device: the switch of the collection, the
installation id and the clock. -/
structure ApplicationDevice where
  collectionEnabled : Bool
  installationId : ControlIdentifier
  canonicalNow : Timestamp

/-- `^-?[0-9]+$` -/
def isSignedDigitsText : List Char → Bool
  | '-' :: cs => isDigitsText cs
  | cs => isDigitsText cs

variable (device : ApplicationDevice)

/-- The payload of a custom event. -/
def customPayload (eventKey : String) (attributes : List (String × Json)) : Json := Json.object [
  ("event_name", some (.str "custom_event")),
  ("installation_id", some (.str device.installationId.text)),
  ("event_key", some (.str eventKey)),
  ("attributes", some (.obj attributes))]

/-- The payload of a change of consent. -/
def consentPayload (state policyVersion : String) : Json := Json.object [
  ("event_name", some (.str "consent_changed")),
  ("consent_state", some (.str state)),
  ("effective_at", some (.str device.canonicalNow.text)),
  ("consent_policy_version", some (.str policyVersion))]

/-- The members of a purchase; those without a value are left out. -/
def purchaseMembers (transactionId amountUnscaled : String) (amountScale : Int)
    (currency financialStatus : String) : List (String × Option Json) := [
  ("event_name", some (.str "purchase")),
  ("transaction_id", some (.str transactionId)),
  ("amount_unscaled", some (.str amountUnscaled)),
  ("amount_scale", some (Json.int amountScale)),
  ("currency", some (.str currency)),
  ("financial_status", some (.str financialStatus))]

/-- The members of a refund; those without a value are left out. -/
def refundMembers (transactionId originalTransactionId correctionTargetRecordId
    amountUnscaled : String) (amountScale : Int) (currency : String) :
    List (String × Option Json) := [
  ("event_name", some (.str "refund")),
  ("transaction_id", some (.str transactionId)),
  ("original_transaction_id", some (.str originalTransactionId)),
  ("correction_target_record_id", some (.str correctionTargetRecordId)),
  ("amount_unscaled", some (.str amountUnscaled)),
  ("amount_scale", some (Json.int amountScale)),
  ("currency", some (.str currency)),
  ("financial_status", some (.str "reversed"))]

namespace IosCalls

def trackCustomEvent (eventKey : String) (attributes : Attributes) :
    Except SdkError (Option QueuedPayload) :=
  if !device.collectionEnabled then .ok none
  else if !matchesLine isParameterName eventKey.toList then .error .invalidEventKey
  else match attributes.json? with
    | some members =>
        if members.length ≤ 20 ∧ members.all fun m => matchesLine isParameterName m.1.toList then
          .ok (some ⟨"custom_event", "analytics", customPayload device eventKey members⟩)
        else .error .invalidAttributes
    | none => .error .invalidAttributes

/-- `validateMoney` -/
def validMoney (amountUnscaled : String) (amountScale : Int) (currency : String) : Bool :=
  matchesLine isSignedDigitsText amountUnscaled.toList && (0 ≤ amountScale && amountScale ≤ 18) &&
    matchesLine isCurrencyText currency.toList

def trackPurchase (transactionId amountUnscaled : String) (amountScale : Int)
    (currency financialStatus : String) : Except SdkError (Option QueuedPayload) :=
  if !device.collectionEnabled then .ok none
  else if !validMoney amountUnscaled amountScale currency then .error .invalidMoney
  else if financialStatus ∉ financialStatuses then .error .invalidMoney
  else .ok (some ⟨"purchase", "revenue_measurement", Json.object
    (purchaseMembers transactionId amountUnscaled amountScale currency financialStatus)⟩)

def trackRefund (transactionId originalTransactionId correctionTargetRecordId
    amountUnscaled : String) (amountScale : Int) (currency : String) :
    Except SdkError (Option QueuedPayload) :=
  if !device.collectionEnabled then .ok none
  else if !validMoney amountUnscaled amountScale currency then .error .invalidMoney
  else .ok (some ⟨"refund", "revenue_measurement", Json.object (refundMembers transactionId
    originalTransactionId correctionTargetRecordId amountUnscaled amountScale currency)⟩)

def recordConversionValueUpdate (schemaVersion : String) (fineValue : Int) (coarseValue : String)
    (lockPostback : Bool) : Except SdkError (Option QueuedPayload) :=
  if !device.collectionEnabled then .ok none
  else .ok (some ⟨"custom_event", "analytics", customPayload device conversionValueKey [
    ("schema_version", .str schemaVersion),
    ("fine_value", Json.int fineValue),
    ("coarse_value", .str coarseValue),
    ("lock_postback", .bool lockPostback)]⟩)

def updateConsent (state policyVersion : String) : Except SdkError (Option QueuedPayload) :=
  if state ∉ consentStates then .error .invalidAttributes
  else .ok (some ⟨"consent_changed", "fraud_prevention", consentPayload device state policyVersion⟩)

end IosCalls

namespace AndroidCalls

/-- A payload with a value that has no JSON form has no text, and is not enqueued. -/
def trackCustomEvent (eventKey : String) (attributes : Attributes) :
    Except SdkError (Option QueuedPayload) :=
  if !isParameterName eventKey.toList then .error (.illegalArgument "event_key_invalid")
  else if 20 < attributes.entries.length then .error (.illegalArgument "too_many_attributes")
  else if !device.collectionEnabled then .ok none
  else .ok (attributes.json?.map fun members =>
    ⟨"custom_event", "analytics", customPayload device eventKey members⟩)

def updateConsent (state policyVersion : String) : Except SdkError (Option QueuedPayload) :=
  if state ∉ consentStates then .error (.illegalArgument "Failed requirement.")
  else .ok (some ⟨"consent_changed", "fraud_prevention", consentPayload device state policyVersion⟩)

end AndroidCalls

/-- A call of an application. -/
inductive ApplicationCall where
  | iosCustomEvent (eventKey : String) (attributes : Attributes)
  | iosPurchase (transactionId amountUnscaled : String) (amountScale : Int)
      (currency financialStatus : String)
  | iosRefund (transactionId originalTransactionId correctionTargetRecordId amountUnscaled : String)
      (amountScale : Int) (currency : String)
  | iosConversionValue (schemaVersion : String) (fineValue : Int) (coarseValue : String)
      (lockPostback : Bool)
  | iosConsent (state policyVersion : String)
  | androidCustomEvent (eventKey : String) (attributes : Attributes)
  | androidConsent (state policyVersion : String)

/-- What a call puts into the queue, before anything is delivered. -/
def ApplicationCall.enqueue : ApplicationCall → Except SdkError (Option QueuedPayload)
  | iosCustomEvent eventKey attributes => IosCalls.trackCustomEvent device eventKey attributes
  | iosPurchase transactionId amountUnscaled amountScale currency financialStatus =>
      IosCalls.trackPurchase device transactionId amountUnscaled amountScale currency
        financialStatus
  | iosRefund transactionId originalTransactionId correctionTargetRecordId amountUnscaled
      amountScale currency =>
      IosCalls.trackRefund device transactionId originalTransactionId correctionTargetRecordId
        amountUnscaled amountScale currency
  | iosConversionValue schemaVersion fineValue coarseValue lockPostback =>
      IosCalls.recordConversionValueUpdate device schemaVersion fineValue coarseValue
        lockPostback
  | iosConsent state policyVersion => IosCalls.updateConsent device state policyVersion
  | androidCustomEvent eventKey attributes =>
      AndroidCalls.trackCustomEvent device eventKey attributes
  | androidConsent state policyVersion => AndroidCalls.updateConsent device state policyVersion

/-- The schemas of the events that these calls queue. -/
def sdkSchemas : List (String × Schema) := [
  ("custom_event", customEventSchema),
  ("purchase", purchaseSchema),
  ("refund", refundSchema),
  ("consent_changed", consentChangedSchema)]

/-- The payload passes the schema of its event. -/
def QueuedPayload.passes (p : QueuedPayload) : Bool :=
  (sdkSchemas.lookup p.eventName).any fun schema =>
    validateEventPayload schema p.eventName p.payload

/-- The call passes the checks of the SDK. -/
def ApplicationCall.Accepted : ApplicationCall → Prop
  | iosCustomEvent eventKey attributes => device.collectionEnabled = true ∧
      matchesLine isParameterName eventKey.toList = true ∧ attributes.entries.length ≤ 20 ∧
        ∀ m ∈ attributes.entries, matchesLine isParameterName m.1.toList = true ∧ m.2.isSome = true
  | iosPurchase _ amountUnscaled amountScale currency financialStatus =>
      device.collectionEnabled = true ∧
        IosCalls.validMoney amountUnscaled amountScale currency = true ∧
          financialStatus ∈ financialStatuses
  | iosRefund _ _ _ amountUnscaled amountScale currency =>
      device.collectionEnabled = true ∧
        IosCalls.validMoney amountUnscaled amountScale currency = true
  | iosConversionValue _ _ _ _ => device.collectionEnabled = true
  | iosConsent state _ => state ∈ consentStates
  | androidCustomEvent eventKey attributes => device.collectionEnabled = true ∧
      isParameterName eventKey.toList = true ∧ attributes.entries.length ≤ 20 ∧
        ∀ m ∈ attributes.entries, m.2.isSome = true
  | androidConsent state _ => state ∈ consentStates

/-- The text ends in a line end, before which `$` matches. -/
def EndsLine (s : String) : Prop := (beforeLineEnd s.toList).isSome = true

/-- A text of at most 256 characters, a number, a flag or null. -/
def isPlainValue : Json → Bool
  | .str s => s.length ≤ 256
  | .num _ => true
  | .bool _ => true
  | .null => true
  | _ => false

/-- A text without a sign or a line end. -/
structure PlainMoney (amountUnscaled currency : String) : Prop where
  unsigned : ∀ rest, amountUnscaled.toList ≠ '-' :: rest
  amountLine : ¬ EndsLine amountUnscaled
  currencyLine : ¬ EndsLine currency

/-- What the SDK does not check. -/
def ApplicationCall.Safe : ApplicationCall → Prop
  | iosCustomEvent eventKey attributes => ¬ EndsLine eventKey ∧ ∀ m ∈ attributes.entries,
      ¬ EndsLine m.1 ∧ ∀ v, m.2 = some v → isPlainValue v = true
  | iosPurchase transactionId amountUnscaled _ currency _ =>
      isIdText transactionId.toList = true ∧ PlainMoney amountUnscaled currency
  | iosRefund transactionId originalTransactionId correctionTargetRecordId amountUnscaled _
      currency => isIdText transactionId.toList = true ∧
        isIdText originalTransactionId.toList = true ∧
          isIdText correctionTargetRecordId.toList = true ∧ PlainMoney amountUnscaled currency
  | iosConversionValue schemaVersion _ coarseValue _ =>
      schemaVersion.length ≤ 256 ∧ coarseValue.length ≤ 256
  | iosConsent _ _ => True
  | androidCustomEvent _ attributes => ∀ m ∈ attributes.entries,
      isParameterName m.1.toList = true ∧ ∀ v, m.2 = some v → isPlainValue v = true
  | androidConsent _ _ => True

end Calls

section Lines

variable {s : String} {pattern : List Char → Bool}

/-- A text with a part before its line end has a line end. -/
theorem beforeLineEnd_eq_some {cs front : List Char} (h : beforeLineEnd cs = some front) :
    ∃ c ∈ cs, isLineEnd c = true := by
  unfold beforeLineEnd at h
  split at h
  · case h_1 rest hreverse =>
      refine ⟨'\n', List.mem_reverse.mp ?_, by decide⟩
      rw [hreverse]
      exact List.mem_cons_self
  · case h_2 c rest _ hreverse =>
      obtain ⟨hc, -⟩ := Option.ite_none_right_eq_some.mp h
      refine ⟨c, List.mem_reverse.mp ?_, hc⟩
      rw [hreverse]
      exact List.mem_cons_self
  · cases h

/-- A text that matches a pattern without line ends matches it to its end, if it has no
line end there. -/
theorem pattern_iff_of_matchesLine (hmatches : matchesLine pattern s.toList = true)
    (hpattern : ∀ cs, pattern cs = true → ∀ c ∈ cs, isLineEnd c = false) :
    pattern s.toList = true ↔ ¬ EndsLine s := by
  constructor
  · intro h hends
    obtain ⟨front, hfront⟩ := Option.isSome_iff_exists.mp hends
    obtain ⟨c, hc, hline⟩ := beforeLineEnd_eq_some hfront
    rw [hpattern _ h c hc] at hline
    cases hline
  · intro hends
    rw [EndsLine, Bool.not_eq_true, Option.isSome_eq_false_iff, Option.isNone_iff_eq_none] at hends
    rw [matchesLine, hends, Option.any_none, Bool.or_false] at hmatches
    exact hmatches

/-- A line end is no printable character. -/
theorem isLineEnd_of_printable {c : Char} (hlow : 33 ≤ c.toNat) (hhigh : c.toNat ≤ 126) :
    isLineEnd c = false := by
  rw [← Bool.not_eq_true]
  intro h
  simp only [isLineEnd, Bool.or_eq_true, Bool.and_eq_true, decide_eq_true_eq] at h
  omega

/-- A digit ends no line. -/
theorem isLineEnd_of_digit {c : Char} (h : c.isDigit = true) : isLineEnd c = false := by
  obtain ⟨hlow, hhigh⟩ := Char.isDigit_iff_toNat.mp h
  exact isLineEnd_of_printable (le_trans (by decide) hlow) (le_trans hhigh (by decide))

/-- A small letter ends no line. -/
theorem isLineEnd_of_lower {c : Char} (h : c.isLower = true) : isLineEnd c = false := by
  simp only [isLower_eq, Bool.and_eq_true, decide_eq_true_eq, ge_iff_le,
    UInt32.le_iff_toNat_le] at h
  exact isLineEnd_of_printable (le_trans (by decide) h.1) (le_trans h.2 (by decide))

/-- A capital letter ends no line. -/
theorem isLineEnd_of_upper {c : Char} (h : c.isUpper = true) : isLineEnd c = false := by
  simp only [isUpper_eq, decide_eq_true_eq, ge_iff_le, UInt32.le_iff_toNat_le] at h
  exact isLineEnd_of_printable (le_trans (by decide) h.1) (le_trans h.2 (by decide))

/-- So the name of a parameter, which the patterns of the SDKs accept with a
line end, has none where the schema accepts it. -/
theorem parameterName_lineEnd (cs : List Char) (h : isParameterName cs = true) :
    ∀ c ∈ cs, isLineEnd c = false := by
  cases cs with
  | nil => cases h
  | cons first rest =>
      rw [isParameterName, Bool.and_eq_true, ofClass, Bool.and_eq_true, List.all_eq_true] at h
      obtain ⟨hfirst, -, hrest⟩ := h
      intro c hc
      rcases List.mem_cons.mp hc with rfl | hc
      · exact isLineEnd_of_lower hfirst
      · have hclass := hrest c hc
        rw [Bool.or_eq_true, Bool.or_eq_true, decide_eq_true_eq] at hclass
        rcases hclass with (hlower | hdigit) | hunderscore
        · exact isLineEnd_of_lower hlower
        · exact isLineEnd_of_digit hdigit
        · rw [hunderscore]
          decide

/-- The same of a currency. -/
theorem currency_lineEnd (cs : List Char) (h : isCurrencyText cs = true) :
    ∀ c ∈ cs, isLineEnd c = false := by
  rw [isCurrencyText, ofClass, Bool.and_eq_true, List.all_eq_true] at h
  exact fun c hc => isLineEnd_of_upper (h.2 c hc)

/-- The same of a text of digits. -/
theorem digits_lineEnd (cs : List Char) (h : isDigitsText cs = true) :
    ∀ c ∈ cs, isLineEnd c = false := by
  rw [isDigitsText, Bool.and_eq_true, List.all_eq_true] at h
  exact fun c hc => isLineEnd_of_digit (h.2 c hc)

/-- The same of a text of digits with a sign. -/
theorem signedDigits_lineEnd (cs : List Char) (h : isSignedDigitsText cs = true) :
    ∀ c ∈ cs, isLineEnd c = false := by
  unfold isSignedDigitsText at h
  split at h
  · intro c hc
    rcases List.mem_cons.mp hc with rfl | hc
    · decide
    · exact digits_lineEnd _ h c hc
  · exact digits_lineEnd _ h

/-- Without a sign the digits are left. -/
theorem isDigitsText_iff (cs : List Char) (h : isSignedDigitsText cs = true) :
    isDigitsText cs = true ↔ ∀ rest, cs ≠ '-' :: rest := by
  constructor
  · intro hdigits rest hcs
    rw [hcs, isDigitsText, Bool.and_eq_true, List.all_eq_true] at hdigits
    exact absurd (hdigits.2 '-' List.mem_cons_self) (by decide)
  · intro hsign
    unfold isSignedDigitsText at h
    split at h
    · case h_1 rest => exact absurd rfl (hsign rest)
    · exact h

end Lines

section Payloads

variable {device : ApplicationDevice} {eventKey : String} {attributes : List (String × Json)}

/-- The schema of an attribute admits the plain values. -/
theorem attributeSchema_admits {v : Json} : attributeSchema.admits v = isPlainValue v := by
  cases v <;> simp [attributeSchema, Schema.anyOf, Schema.admits, JsonSchema.JsonType.isOf,
    isPlainValue]

/-- An enumeration admits its texts. -/
theorem enum_admits {texts : List String} {text : String} :
    (Schema.enum texts).admits (.str text) = true ↔ text ∈ texts := by
  rw [Schema.admits, List.contains_iff_mem]

/-- A payload that names its event is admitted by a closed schema if its members fit and
the required ones are there. -/
theorem closedPayload_admits {eventName : String} {members : List (String × Option Json)}
    {properties : List (String × Schema)} {required : List String}
    (hnodup : ((namedMembers eventName members).map Prod.fst).Nodup)
    (hdeclared : (properties.map Prod.fst).Nodup)
    (hname : ("event_name", .enum [eventName]) ∈ properties)
    (hevent : ∀ m ∈ members, m.1 = "event_name" → m.2 = some (.str eventName))
    (hrequired : ∀ name ∈ required, (memberOf (namedMembers eventName members) name).isSome) :
    validateEventPayload (JsonSchema.closedObject properties required) eventName
      (Json.object members) = true ↔ ∀ m ∈ members, MemberFits properties m := by
  rw [validateEventPayload_object, JsonSchema.admits_closedObject hnodup hdeclared,
    namedMembers_fit_iff hname hevent]
  exact and_iff_left hrequired

/-- What the schema asks of the key of a custom event. -/
theorem eventKeySchema_admits :
    (Schema.either (textSchema isParameterName) (.enum [conversionValueKey])).admits
        (.str eventKey) = true ↔
      isParameterName eventKey.toList = true ∨ eventKey = conversionValueKey := by
  rw [Schema.admits, Bool.or_eq_true, textSchema_admits, enum_admits, List.mem_singleton]

/-- The schema of the attributes admits at most twenty, with names and values
that fit. -/
theorem attributesSchema_admits :
    (Schema.all [.type .object, .maxProperties 20, .propertyNames isParameterName,
        .eachProperty attributeSchema]).admits (.obj attributes) = true ↔
      attributes.length ≤ 20 ∧
        ∀ m ∈ attributes, isParameterName m.1.toList = true ∧ isPlainValue m.2 = true := by
  simp only [Schema.admits_all, List.forall_mem_cons, List.not_mem_nil, false_imp_iff,
    implies_true, and_true, Schema.admits, JsonSchema.JsonType.isOf, true_and, decide_eq_true_eq,
    List.all_eq_true, attributeSchema_admits]
  exact and_congr_right fun _ => ⟨fun h m hm => ⟨h.1 m hm, h.2 m hm⟩,
    fun h => ⟨fun m hm => (h m hm).1, fun m hm => (h m hm).2⟩⟩

/-- What the schema asks of a custom event. -/
theorem customPayload_admits :
    validateEventPayload customEventSchema "custom_event"
        (customPayload device eventKey attributes) = true ↔
      (isParameterName eventKey.toList = true ∨ eventKey = conversionValueKey) ∧
        attributes.length ≤ 20 ∧
          ∀ m ∈ attributes, isParameterName m.1.toList = true ∧ isPlainValue m.2 = true := by
  have hdeclared : (customEventProperties.map Prod.fst).Nodup := by decide
  have hfit := @JsonSchema.memberFits_some_iff customEventProperties
  rw [customEventSchema, customPayload, closedPayload_admits (by simp [namedMembers]) hdeclared
    (by simp [customEventProperties]) (by simp)
    (by simp [namedMembers, memberOf])]
  simp only [List.forall_mem_cons, List.not_mem_nil, false_imp_iff, implies_true, and_true]
  rw [hfit (s := .enum ["custom_event"]) hdeclared (by simp [customEventProperties]),
    hfit (s := idSchema) hdeclared (by simp [customEventProperties]),
    hfit (s := .either (textSchema isParameterName) (.enum [conversionValueKey])) hdeclared
      (by simp [customEventProperties]),
    hfit (s := .all [.type .object, .maxProperties 20, .propertyNames isParameterName,
      .eachProperty attributeSchema]) hdeclared (by simp [customEventProperties]),
    eventKeySchema_admits, attributesSchema_admits, idSchema, textSchema_admits]
  exact ⟨fun h => ⟨h.2.2.1, h.2.2.2⟩, fun h => ⟨rfl, device.installationId.valid, h.1, h.2⟩⟩

/-- What the schema asks of a consent. -/
theorem consentPayload_admits {state policyVersion : String} :
    validateEventPayload consentChangedSchema "consent_changed"
        (consentPayload device state policyVersion) = true ↔ state ∈ consentStates := by
  have hdeclared : (consentChangedProperties.map Prod.fst).Nodup := by decide
  have hfit := @JsonSchema.memberFits_some_iff consentChangedProperties
  have hclock : fitsForm "0000-00-00T00:00:00.000Z".toList
      device.canonicalNow.text.toList = true := by
    rw [Timestamp.text]
    exact (congrArg _ String.toList_ofList).trans (fitsForm_clockChars _ _ _ _ _ _ _)
  rw [consentChangedSchema, consentPayload, closedPayload_admits (by simp [namedMembers]) hdeclared
    (by simp [consentChangedProperties]) (by simp)
    (by simp [namedMembers, memberOf])]
  simp only [List.forall_mem_cons, List.not_mem_nil, false_imp_iff, implies_true, and_true]
  rw [hfit (s := .enum ["consent_changed"]) hdeclared (by simp [consentChangedProperties]),
    hfit (s := .enum consentStates) hdeclared (by simp [consentChangedProperties]),
    hfit (s := textSchema (fitsForm "0000-00-00T00:00:00.000Z".toList)) hdeclared
      (by simp [consentChangedProperties]),
    hfit (s := .type .string) hdeclared (by simp [consentChangedProperties]),
    textSchema_admits, enum_admits, enum_admits]
  exact ⟨fun h => h.2.1, fun h => ⟨List.mem_singleton_self _, h, hclock, rfl⟩⟩

section Money

variable {transactionId originalTransactionId correctionTargetRecordId amountUnscaled currency
  financialStatus : String} {amountScale : Int}

/-- Money that the SDK lets through, as the schema wants it. -/
theorem money_of_validMoney (h : IosCalls.validMoney amountUnscaled amountScale currency = true) :
    (isDigitsText amountUnscaled.toList = true ∧ (0 ≤ amountScale ∧ amountScale ≤ 18) ∧
      isCurrencyText currency.toList = true) ↔ PlainMoney amountUnscaled currency := by
  simp only [IosCalls.validMoney, Bool.and_eq_true, decide_eq_true_eq] at h
  obtain ⟨⟨hamount, hscale⟩, hcurrency⟩ := h
  have hcurrencyLine := pattern_iff_of_matchesLine hcurrency currency_lineEnd
  have hamountLine := pattern_iff_of_matchesLine hamount signedDigits_lineEnd
  constructor
  · rintro ⟨hdigits, -, hletters⟩
    have hsigned : isSignedDigitsText amountUnscaled.toList = true := by
      unfold isSignedDigitsText
      split
      · case h_1 rest hcs =>
          rw [hcs, isDigitsText, Bool.and_eq_true, List.all_eq_true] at hdigits
          exact absurd (hdigits.2 '-' List.mem_cons_self) (by decide)
      · exact hdigits
    exact ⟨(isDigitsText_iff _ hsigned).mp hdigits, hamountLine.mp hsigned,
      hcurrencyLine.mp hletters⟩
  · intro hplain
    have hsigned := hamountLine.mpr hplain.amountLine
    exact ⟨(isDigitsText_iff _ hsigned).mpr hplain.unsigned, hscale,
      hcurrencyLine.mpr hplain.currencyLine⟩

/-- A closed schema with money asks for both. -/
theorem moneyPayload_admits {eventName : String} {members : List (String × Option Json)}
    {properties : List (String × Schema)} {required : List String}
    (hnodup : ((namedMembers eventName members).map Prod.fst).Nodup)
    (hamount : memberOf (namedMembers eventName members) "amount_unscaled" =
      some (.str amountUnscaled))
    (hscale : memberOf (namedMembers eventName members) "amount_scale" =
      some (Json.int amountScale))
    (hcurrency : memberOf (namedMembers eventName members) "currency" = some (.str currency))
    (h : IosCalls.validMoney amountUnscaled amountScale currency = true) :
    validateEventPayload (.both (JsonSchema.closedObject properties required) moneySchema) eventName
      (Json.object members) = true ↔
        validateEventPayload (JsonSchema.closedObject properties required) eventName
          (Json.object members) = true ∧ PlainMoney amountUnscaled currency := by
  rw [validateEventPayload_object, validateEventPayload_object, Schema.admits, Bool.and_eq_true,
    moneySchema_admits hnodup hamount hscale hcurrency, money_of_validMoney h]

/-- A purchase is admitted where the checks of its money and its status pass
and its identifiers fit. -/
theorem purchase_admits (hmoney : IosCalls.validMoney amountUnscaled amountScale currency = true)
    (hstatus : financialStatus ∈ financialStatuses) :
    validateEventPayload purchaseSchema "purchase" (Json.object (purchaseMembers transactionId
        amountUnscaled amountScale currency financialStatus)) = true ↔
      isIdText transactionId.toList = true ∧ PlainMoney amountUnscaled currency := by
  have hdeclared : (purchaseProperties.map Prod.fst).Nodup := by decide
  have hfit := @JsonSchema.memberFits_some_iff purchaseProperties
  have hnodup : ((namedMembers "purchase" (purchaseMembers transactionId amountUnscaled amountScale
      currency financialStatus)).map Prod.fst).Nodup := by simp [namedMembers, purchaseMembers]
  rw [purchaseSchema, moneyPayload_admits hnodup rfl rfl rfl hmoney,
    closedPayload_admits hnodup hdeclared (by simp [purchaseProperties])
      (by simp [purchaseMembers]) (by simp [namedMembers, memberOf, purchaseMembers])]
  simp only [purchaseMembers, List.forall_mem_cons, List.not_mem_nil, false_imp_iff, implies_true,
    and_true]
  rw [hfit (s := .enum ["purchase"]) hdeclared (by simp [purchaseProperties]),
    hfit (s := idSchema) hdeclared (by simp [purchaseProperties]),
    hfit (s := .any) hdeclared (by simp [purchaseProperties]),
    hfit (s := .any) hdeclared (by simp [purchaseProperties]),
    hfit (s := .any) hdeclared (by simp [purchaseProperties]),
    hfit (s := .enum financialStatuses) hdeclared (by simp [purchaseProperties]),
    idSchema, textSchema_admits, enum_admits, enum_admits]
  exact ⟨fun h => ⟨h.1.2.1, h.2⟩,
    fun h => ⟨⟨List.mem_singleton_self _, h.1, rfl, rfl, rfl, hstatus⟩, h.2⟩⟩

/-- A refund is admitted where the check of its money passes and its
identifiers fit. -/
theorem refund_admits (hmoney : IosCalls.validMoney amountUnscaled amountScale currency = true) :
    validateEventPayload refundSchema "refund" (Json.object
        (refundMembers transactionId originalTransactionId correctionTargetRecordId amountUnscaled
          amountScale currency)) = true ↔
      isIdText transactionId.toList = true ∧ isIdText originalTransactionId.toList = true ∧
        isIdText correctionTargetRecordId.toList = true ∧ PlainMoney amountUnscaled currency := by
  have hdeclared : (refundProperties.map Prod.fst).Nodup := by decide
  have hfit := @JsonSchema.memberFits_some_iff refundProperties
  have hnodup : ((namedMembers "refund" (refundMembers transactionId originalTransactionId
      correctionTargetRecordId amountUnscaled amountScale currency)).map Prod.fst).Nodup := by
    simp [namedMembers, refundMembers]
  rw [refundSchema, moneyPayload_admits hnodup rfl rfl rfl hmoney,
    closedPayload_admits hnodup hdeclared (by simp [refundProperties])
      (by simp [refundMembers]) (by simp [namedMembers, memberOf, refundMembers])]
  simp only [refundMembers, List.forall_mem_cons, List.not_mem_nil, false_imp_iff, implies_true,
    and_true]
  rw [hfit (s := .enum ["refund"]) hdeclared (by simp [refundProperties]),
    hfit (s := idSchema) hdeclared (by simp [refundProperties]),
    hfit (s := idSchema) hdeclared (by simp [refundProperties]),
    hfit (s := idSchema) hdeclared (by simp [refundProperties]),
    hfit (s := .any) hdeclared (by simp [refundProperties]),
    hfit (s := .any) hdeclared (by simp [refundProperties]),
    hfit (s := .any) hdeclared (by simp [refundProperties]),
    hfit (s := .enum financialStatuses) hdeclared (by simp [refundProperties]),
    idSchema, textSchema_admits, textSchema_admits, textSchema_admits, enum_admits, enum_admits]
  exact ⟨fun h => ⟨h.1.2.1, h.1.2.2.1, h.1.2.2.2.1, h.2⟩, fun h => ⟨⟨List.mem_singleton_self _,
    h.1, h.2.1, h.2.2.1, rfl, rfl, rfl, by decide⟩, h.2.2.2⟩⟩

end Money

end Payloads

section Checks

variable {device : ApplicationDevice} {call : ApplicationCall}

/-- Entries that all have a value are the members they make. -/
theorem mapM_present {entries : List (String × Option Json)} {members : List (String × Json)} :
    (entries.mapM fun m => m.2.map fun v => (m.1, v)) = some members ↔
      entries = members.map fun m => (m.1, some m.2) := by
  induction entries generalizing members with
  | nil =>
      rw [List.mapM_nil]
      cases members with
      | nil => simp
      | cons m members => simp
  | cons entry entries ih =>
      rw [List.mapM_cons]
      obtain ⟨name, value⟩ := entry
      cases value with
      | none =>
          cases members with
          | nil => simp
          | cons m members => simp
      | some v =>
          cases members with
          | nil => simp [Option.bind_eq_some_iff]
          | cons m members =>
              obtain ⟨name', v'⟩ := m
              simp [Option.bind_eq_some_iff, ih, and_comm, and_assoc]

/-- Attributes have a JSON object where every value has a JSON form. -/
theorem Attributes.json_cases (attributes : Attributes) :
    (∃ members, attributes.json? = some members ∧
      attributes.entries = members.map fun m => (m.1, some m.2)) ∨
    (attributes.json? = none ∧ ¬ ∀ m ∈ attributes.entries, m.2.isSome = true) := by
  cases hjson : attributes.json? with
  | some members => exact .inl ⟨members, rfl, mapM_present.mp hjson⟩
  | none =>
      refine .inr ⟨rfl, fun hpresent => ?_⟩
      obtain ⟨members, hmembers⟩ : ∃ members : List (String × Json),
          attributes.entries = members.map fun m => (m.1, some m.2) := by
        have hall := hpresent
        generalize attributes.entries = entries at hall
        induction entries with
        | nil => exact ⟨[], rfl⟩
        | cons entry entries ih =>
            obtain ⟨members, hmembers⟩ := ih fun m hm => hall m (List.mem_cons_of_mem _ hm)
            obtain ⟨v, hv⟩ := Option.isSome_iff_exists.mp (hall entry List.mem_cons_self)
            exact ⟨(entry.1, v) :: members, by rw [hmembers, List.map_cons, ← hv]⟩
      rw [Attributes.json?, mapM_present.mpr hmembers] at hjson
      cases hjson

/-- What becomes of a call: a payload that passes if the call is safe, or none. -/
def ApplicationCall.Settled (device : ApplicationDevice) (call : ApplicationCall) : Prop :=
  (call.Accepted device ∧ ∃ p, call.enqueue device = .ok (some p) ∧ (p.passes = true ↔ call.Safe)) ∨
  (¬ call.Accepted device ∧ ∀ p, call.enqueue device ≠ .ok (some p))

/-- **Consent.**  Both calls pass exactly where the condition says. -/
theorem consent_settled (state policyVersion : String) :
    (ApplicationCall.iosConsent state policyVersion).Settled device ∧
      (ApplicationCall.androidConsent state policyVersion).Settled device := by
  by_cases hstate : state ∈ consentStates
  · have hpasses : (QueuedPayload.mk "consent_changed" "fraud_prevention"
        (consentPayload device state policyVersion)).passes = true :=
      consentPayload_admits.mpr hstate
    refine ⟨.inl ⟨hstate, _, if_neg (not_not.mpr hstate), ?_⟩,
      .inl ⟨hstate, _, if_neg (not_not.mpr hstate), ?_⟩⟩
    · exact iff_of_true hpasses trivial
    · exact iff_of_true hpasses trivial
  · refine ⟨.inr ⟨hstate, fun p hp => ?_⟩, .inr ⟨hstate, fun p hp => ?_⟩⟩
    · rw [ApplicationCall.enqueue, IosCalls.updateConsent, if_pos hstate] at hp
      cases hp
    · rw [ApplicationCall.enqueue, AndroidCalls.updateConsent, if_pos hstate] at hp
      cases hp

/-- **Purchases.**  So does the call for a purchase. -/
theorem purchase_settled (transactionId amountUnscaled : String) (amountScale : Int)
    (currency financialStatus : String) :
    (ApplicationCall.iosPurchase transactionId amountUnscaled amountScale currency
      financialStatus).Settled device := by
  rw [ApplicationCall.Settled, ApplicationCall.Accepted, ApplicationCall.enqueue,
    IosCalls.trackPurchase]
  cases hcollection : device.collectionEnabled with
  | false => exact .inr ⟨fun h => Bool.false_ne_true h.1, nofun⟩
  | true =>
      cases hmoney : IosCalls.validMoney amountUnscaled amountScale currency with
      | false => exact .inr ⟨fun h => Bool.false_ne_true h.2.1, nofun⟩
      | true =>
          by_cases hstatus : financialStatus ∈ financialStatuses
          · refine .inl ⟨⟨rfl, rfl, hstatus⟩, _, if_neg (not_not.mpr hstatus), ?_⟩
            exact purchase_admits hmoney hstatus
          · refine .inr ⟨fun h => hstatus h.2.2, fun p hp => ?_⟩
            rw [Bool.not_true, if_neg Bool.false_ne_true, if_neg Bool.false_ne_true,
              if_pos hstatus] at hp
            cases hp

/-- **Refunds.**  So does the call for a refund. -/
theorem refund_settled (transactionId originalTransactionId correctionTargetRecordId
    amountUnscaled : String) (amountScale : Int) (currency : String) :
    (ApplicationCall.iosRefund transactionId originalTransactionId correctionTargetRecordId
      amountUnscaled amountScale currency).Settled device := by
  rw [ApplicationCall.Settled, ApplicationCall.Accepted, ApplicationCall.enqueue,
    IosCalls.trackRefund]
  cases hcollection : device.collectionEnabled with
  | false => exact .inr ⟨fun h => Bool.false_ne_true h.1, nofun⟩
  | true =>
      cases hmoney : IosCalls.validMoney amountUnscaled amountScale currency with
      | false => exact .inr ⟨fun h => Bool.false_ne_true h.2, nofun⟩
      | true => exact .inl ⟨⟨rfl, rfl⟩, _, rfl, refund_admits hmoney⟩

/-- **Conversion values.**  So does the call for a conversion value. -/
theorem conversionValue_settled (schemaVersion : String) (fineValue : Int) (coarseValue : String)
    (lockPostback : Bool) : (ApplicationCall.iosConversionValue schemaVersion fineValue coarseValue
      lockPostback).Settled device := by
  rw [ApplicationCall.Settled, ApplicationCall.Accepted, ApplicationCall.enqueue,
    IosCalls.recordConversionValueUpdate]
  cases hcollection : device.collectionEnabled with
  | false => exact .inr ⟨Bool.false_ne_true, nofun⟩
  | true =>
      refine .inl ⟨rfl, _, rfl, customPayload_admits.trans ?_⟩
      constructor
      · rintro ⟨-, -, hvalues⟩
        exact ⟨by simpa [isPlainValue] using (hvalues ("schema_version", .str schemaVersion)
          (by simp)).2, by simpa [isPlainValue] using (hvalues ("coarse_value", .str coarseValue)
            (by simp)).2⟩
      · rintro ⟨hschema, hcoarse⟩
        refine ⟨.inr rfl, by simp, ?_⟩
        simp only [List.forall_mem_cons, List.not_mem_nil, false_imp_iff, implies_true, and_true]
        refine ⟨⟨by decide, ?_⟩, ⟨by decide, rfl⟩, ⟨by decide, ?_⟩, by decide, rfl⟩
        · simpa [isPlainValue] using hschema
        · simpa [isPlainValue] using hcoarse

/-- The key of a conversion update is no name an application may give. -/
theorem ne_conversionValueKey {eventKey : String}
    (hkey : matchesLine isParameterName eventKey.toList = true) :
    eventKey ≠ conversionValueKey := by
  intro h
  have hunnamed : matchesLine isParameterName conversionValueKey.toList = false := by
    decide +kernel
  rw [h, hunnamed] at hkey
  cases hkey

/-- What holds of every entry holds of every member the entries make. -/
theorem forall_entries {attributes : Attributes} {members : List (String × Json)}
    (hentries : attributes.entries = members.map fun m => (m.1, some m.2))
    {P : String × Option Json → Prop} :
    (∀ m ∈ attributes.entries, P m) ↔ ∀ m ∈ members, P (m.1, some m.2) := by
  rw [hentries]
  exact List.forall_mem_map

/-- There are as many entries as members. -/
theorem length_entries {attributes : Attributes} {members : List (String × Json)}
    (hentries : attributes.entries = members.map fun m => (m.1, some m.2)) :
    attributes.entries.length = members.length := by
  rw [hentries, List.length_map]

/-- **Custom events.**  So does the call of the iOS SDK. -/
theorem iosCustomEvent_settled (eventKey : String) (attributes : Attributes) :
    (ApplicationCall.iosCustomEvent eventKey attributes).Settled device := by
  rw [ApplicationCall.Settled, ApplicationCall.Accepted, ApplicationCall.enqueue,
    IosCalls.trackCustomEvent]
  cases hcollection : device.collectionEnabled with
  | false => exact .inr ⟨fun h => Bool.false_ne_true h.1, nofun⟩
  | true =>
      cases hkey : matchesLine isParameterName eventKey.toList with
      | false => exact .inr ⟨fun h => Bool.false_ne_true h.2.1, nofun⟩
      | true =>
          rcases attributes.json_cases with ⟨members, hjson, hentries⟩ | ⟨hjson, habsent⟩
          · rw [hjson, forall_entries hentries, length_entries hentries]
            have hnames : (members.all fun m => matchesLine isParameterName m.1.toList) = true ↔
                ∀ m ∈ members, matchesLine isParameterName m.1.toList = true ∧
                  (some m.2).isSome = true := by
              rw [List.all_eq_true]
              exact forall₂_congr fun m _ => (and_iff_left rfl).symm
            by_cases hfits : members.length ≤ 20 ∧
                (members.all fun m => matchesLine isParameterName m.1.toList) = true
            · have hmatches := hnames.mp hfits.2
              refine .inl ⟨⟨rfl, rfl, hfits.1, hmatches⟩, _, if_pos hfits, ?_⟩
              refine customPayload_admits.trans ?_
              rw [or_iff_left (ne_conversionValueKey hkey), and_iff_right hfits.1,
                pattern_iff_of_matchesLine hkey parameterName_lineEnd, ApplicationCall.Safe,
                forall_entries hentries]
              refine and_congr_right fun _ => forall₂_congr fun m hm => ?_
              rw [pattern_iff_of_matchesLine (hmatches m hm).1 parameterName_lineEnd]
              refine and_congr_right fun _ => ?_
              exact ⟨fun h v hv => Option.some.inj hv ▸ h, fun h => h _ rfl⟩
            · refine .inr ⟨fun h => hfits ⟨h.2.2.1, hnames.mpr h.2.2.2⟩, fun p hp => ?_⟩
              dsimp only at hp
              rw [Bool.not_true, if_neg Bool.false_ne_true, if_neg Bool.false_ne_true,
                if_neg hfits] at hp
              cases hp
          · rw [hjson]
            exact .inr ⟨fun h => habsent fun m hm => (h.2.2.2 m hm).2, nofun⟩

/-- And the call of the Android SDK, whose pattern and attributes are others.
-/
theorem androidCustomEvent_settled (eventKey : String) (attributes : Attributes) :
    (ApplicationCall.androidCustomEvent eventKey attributes).Settled device := by
  rw [ApplicationCall.Settled, ApplicationCall.Accepted, ApplicationCall.enqueue,
    AndroidCalls.trackCustomEvent]
  cases hkey : isParameterName eventKey.toList with
  | false => exact .inr ⟨fun h => Bool.false_ne_true h.2.1, nofun⟩
  | true =>
      by_cases hcount : 20 < attributes.entries.length
      · refine .inr ⟨fun h => absurd h.2.2.1 (Nat.not_le_of_lt hcount), fun p hp => ?_⟩
        rw [Bool.not_true, if_neg Bool.false_ne_true, if_pos hcount] at hp
        cases hp
      · rw [Bool.not_true, if_neg Bool.false_ne_true, if_neg hcount]
        cases hcollection : device.collectionEnabled with
        | false => exact .inr ⟨fun h => Bool.false_ne_true h.1, nofun⟩
        | true =>
            rw [Bool.not_true, if_neg Bool.false_ne_true]
            rcases attributes.json_cases with ⟨members, hjson, hentries⟩ | ⟨hjson, habsent⟩
            · have hlength := Nat.le_of_not_lt hcount
              have hpresent : ∀ m ∈ attributes.entries, m.2.isSome = true := by
                rw [forall_entries hentries]
                exact fun _ _ => rfl
              refine .inl ⟨⟨rfl, rfl, hlength, hpresent⟩, _, by rw [hjson]; rfl, ?_⟩
              refine customPayload_admits.trans ?_
              rw [length_entries hentries] at hlength
              rw [and_iff_right (.inl hkey), and_iff_right hlength, ApplicationCall.Safe,
                forall_entries hentries]
              refine forall₂_congr fun m hm => and_congr_right fun _ => ?_
              exact ⟨fun h v hv => Option.some.inj hv ▸ h, fun h => h _ rfl⟩
            · rw [hjson]
              exact .inr ⟨fun h => habsent h.2.2.2, nofun⟩

/-- Every call passes exactly where the condition says, one kind after another.
-/
theorem ApplicationCall.settled (device : ApplicationDevice) (call : ApplicationCall) :
    call.Settled device := by
  cases call with
  | iosCustomEvent eventKey attributes => exact iosCustomEvent_settled eventKey attributes
  | iosPurchase transactionId amountUnscaled amountScale currency financialStatus =>
      exact purchase_settled transactionId amountUnscaled amountScale currency financialStatus
  | iosRefund transactionId originalTransactionId correctionTargetRecordId amountUnscaled
      amountScale currency =>
      exact refund_settled transactionId originalTransactionId correctionTargetRecordId
        amountUnscaled amountScale currency
  | iosConversionValue schemaVersion fineValue coarseValue lockPostback =>
      exact conversionValue_settled schemaVersion fineValue coarseValue lockPostback
  | iosConsent state policyVersion => exact (consent_settled state policyVersion).1
  | androidCustomEvent eventKey attributes => exact androidCustomEvent_settled eventKey attributes
  | androidConsent state policyVersion => exact (consent_settled state policyVersion).2

/-- **The calls whose payloads pass.**  A payload that the checks of the SDK let into the
queue passes the schema of its event exactly if the call is safe in what the SDK does not
check. -/
theorem ApplicationCall.passes_iff (device : ApplicationDevice) (call : ApplicationCall) :
    (∀ p, call.enqueue device = .ok (some p) → p.passes = true) ↔
      (call.Accepted device → call.Safe) := by
  rcases call.settled device with ⟨haccepted, p, hp, hpasses⟩ | ⟨hrefused, hnone⟩
  · constructor
    · intro h _
      exact hpasses.mp (h p hp)
    · intro h q hq
      cases hp.symm.trans hq
      exact hpasses.mpr (h haccepted)
  · exact ⟨fun _ haccepted => absurd haccepted hrefused, fun _ p hp => absurd hp (hnone p)⟩

/-- A device as the application finds it. -/
def sampleContext : ApplicationDevice where
  collectionEnabled := true
  installationId := ⟨"installation:0198c5d2-7a30-7c1e-9f4e-2b8d6a1c5e07", by decide +kernel⟩
  canonicalNow := ⟨2026, 7, 1, 9, 30, 0, 0⟩

/-- A negative amount is let into the queue, and refused by the schema: the
device checks that an amount is a number, and not its sign. -/
theorem negative_purchase_queued :
    ∃ p, (ApplicationCall.iosPurchase "order-1" "-100" 2 "USD" "settled").enqueue sampleContext =
      .ok (some p) ∧ p.passes = false := by
  have hmoney : IosCalls.validMoney "-100" 2 "USD" = true := by decide +kernel
  have hstatus : "settled" ∈ financialStatuses := by decide
  refine ⟨⟨"purchase", "revenue_measurement",
    Json.object (purchaseMembers "order-1" "-100" 2 "USD" "settled")⟩, ?_, by decide +kernel⟩
  rw [ApplicationCall.enqueue, IosCalls.trackPurchase, hmoney, if_neg (not_not.mpr hstatus)]
  rfl

end Checks

end OpenMasu
