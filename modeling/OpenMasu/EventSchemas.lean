import OpenMasu.JsonSchema
import OpenMasu.Ledger

/-!
# Event schemas

The closed schemas the payloads of clicks, installs and deep-link opens are
validated by, and the texts they admit.

* `isIdText`, `isClickIdText`, `isDeepLinkPath`, `isDateTimeText` — the texts;
* `clickSchema`, `installSchema`, `deepLinkOpenSchema` — the schemas;
* `validateEventPayload` — a payload against the schema of its event;
* `validateEventPayload_object` — an object, with its event name;
* `isDateTimeText_text` — the text of a calendar timestamp is a date-time.
-/

namespace OpenMasu

open JsonSchema (Schema MemberFits closedObject memberOf)

section Texts

/-- A text of a class of characters, within bounds. -/
def ofClass (accepts : Char → Bool) (least most : Nat) (cs : List Char) : Bool :=
  least ≤ cs.length && cs.length ≤ most && cs.all accepts

/-- `^[A-Za-z0-9._:-]{1,128}$` -/
def isIdText : List Char → Bool := ofClass isIdChar 1 128

def isSlugChar (c : Char) : Bool := c.isAlphanum || c = '_' || c = '-'

/-- `^[A-Za-z0-9_-]{22,128}$` -/
def isClickIdText : List Char → Bool := ofClass isSlugChar 22 128

def isUrlChar (c : Char) : Bool := c.isAlphanum || c = '.' || c = '_' || c = '~' || c = '-'

/-- The parts of a text between slashes. -/
def slashParts : List Char → List (List Char)
  | [] => [[]]
  | c :: cs =>
      if c = '/' then [] :: slashParts cs
      else match slashParts cs with
        | [] => [[c]]
        | part :: parts => (c :: part) :: parts

/-- `^(/[A-Za-z0-9._~-]{1,64}){1,8}$` -/
def isDeepLinkPath : List Char → Bool
  | '/' :: cs => (slashParts cs).length ≤ 8 && (slashParts cs).all (ofClass isUrlChar 1 64)
  | _ => false

/-- A capital letter, by its code. -/
theorem isUpper_eq (c : Char) :
    c.isUpper = Decidable.decide (c.val ≥ 'A'.val ∧ c.val ≤ 'Z'.val) := rfl

/-- A small letter, by its code. -/
theorem isLower_eq (c : Char) :
    c.isLower = (Decidable.decide (c.val ≥ 'a'.val) && Decidable.decide (c.val ≤ 'z'.val)) := rfl

/-- A letter is a capital or a small one. -/
theorem isAlpha_eq (c : Char) : c.isAlpha = (c.isUpper || c.isLower) := rfl

/-- `^[A-Z]{2}$` -/
def isCountryText : List Char → Bool := ofClass Char.isUpper 2 2

/-- `^[0-9]+$` -/
def isDigitsText (cs : List Char) : Bool := !cs.isEmpty && cs.all Char.isDigit

/-- `^[a-z][a-z0-9_]{0,63}$` -/
def isParameterName : List Char → Bool
  | c :: cs => c.isLower && ofClass (fun c => c.isLower || c.isDigit || c = '_') 0 63 cs
  | [] => false

/-- The number a text of digits writes. -/
def readDigits (cs : List Char) : Nat := cs.foldl (fun n c => 10 * n + (c.toNat - 48)) 0

/-- The date of a text of the canonical form exists, and its time does; the
validator also admits the leap second of a day. -/
def isDateTimeText (cs : List Char) : Bool :=
  let month := readDigits ((cs.drop 5).take 2)
  let day := readDigits ((cs.drop 8).take 2)
  let hour := readDigits ((cs.drop 11).take 2)
  let minute := readDigits ((cs.drop 14).take 2)
  let second := readDigits ((cs.drop 17).take 2)
  fitsForm "0000-00-00T00:00:00.000Z".toList cs &&
    1 ≤ month && month ≤ 12 && 1 ≤ day && day ≤ daysInMonth (readDigits (cs.take 4)) month &&
    ((hour < 24 && minute < 60 && second < 60) || (hour = 23 && minute = 59 && second = 60))

/-- The reserved beginnings of extension names. -/
def isReservedExtension (cs : List Char) : Bool :=
  ["import", "imported", "provider"].any fun word =>
    cs = word.toList || (word.toList ++ ['_']).isPrefixOf cs

end Texts

section Common

def textSchema (accepts : List Char → Bool) : Schema := .both (.type .string) (.pattern accepts)

def idSchema : Schema := textSchema isIdText

def clickIdSchema : Schema := .both idSchema (textSchema isClickIdText)

def dateTimeSchema : Schema := textSchema isDateTimeText

/-- A text of bounded length. -/
def boundedText (least most : Nat) : Schema :=
  .all [.type .string, .minLength least, .maxLength most]

def countrySchema : Schema := textSchema isCountryText

def deepLinkValueSchema : Schema :=
  .all [.type .string, .maxLength 256, .pattern isDeepLinkPath]

/-- The member has the constant text. -/
def memberIs (name text : String) : Schema :=
  .both (.property name (.enum [text])) (.required name)

/-- The member has one of the texts. -/
def memberAmong (name : String) (texts : List String) : Schema :=
  .both (.property name (.enum texts)) (.required name)

def extensionsSchema : Schema :=
  .both (.type .object) (.propertyNames fun cs => !isReservedExtension cs)

def importContextSchema : Schema := .both
  (closedObject [
    ("provider", textSchema (ofClass (fun c => c.isLower || c.isDigit || c = '-') 1 64)),
    ("provider_attributed", .type .boolean),
    ("provider_attribution_strategy", .enum ["click_through", "view_through", "modeled",
      "self_attributed_network", "organic", "unattributed"]),
    ("provider_install_ref", boundedText 1 256),
    ("provider_click_ref", boundedText 1 256),
    ("provider_campaign_ref", boundedText 1 256),
    ("provider_adgroup_ref", boundedText 1 256),
    ("provider_creative_ref", boundedText 1 256),
    ("provider_network", boundedText 1 128),
    ("provider_site_ref", boundedText 1 256),
    ("provider_country", countrySchema),
    ("provider_confirmed_at", dateTimeSchema)]
    ["provider", "provider_attributed", "provider_attribution_strategy"])
  (.ifThenElse
    (.both (.property "provider_attributed" (.flag true)) (.required "provider_attributed"))
    (.property "provider_attribution_strategy"
      (.enum ["click_through", "view_through", "modeled", "self_attributed_network"]))
    (.property "provider_attribution_strategy" (.enum ["organic", "unattributed"])))

end Common

/-- The members of a click. -/
def clickProperties : List (String × Schema) := [
  ("event_name", .enum ["click"]),
  ("click_id", clickIdSchema),
  ("tracking_link_id", idSchema),
  ("campaign_id", idSchema),
  ("ad_group_id", idSchema),
  ("creative_id", idSchema),
  ("network", boundedText 1 128),
  ("country", countrySchema),
  ("site_id", boundedText 1 256),
  ("remote_click_ref", boundedText 1 256),
  ("redirector_click_at", dateTimeSchema),
  ("redirector_time_status", .enum ["available", "missing", "invalid"]),
  ("bot_prefetch", .type .boolean),
  ("replay_suspected", .type .boolean),
  ("source_rate_class", .enum ["normal", "elevated", "saturated"]),
  ("client_class", .enum ["mobile_app_eligible", "bot", "other"]),
  ("deep_link_value", deepLinkValueSchema),
  ("deferred_deep_link_status",
    .enum ["carried", "omitted_length", "omitted_platform", "not_configured"]),
  ("import_context", importContextSchema),
  ("extensions", extensionsSchema)]

/-- `click.schema.json` -/
def clickSchema : Schema := .both
  (closedObject clickProperties
    ["event_name", "tracking_link_id", "campaign_id", "redirector_time_status"])
  (.ifThenElse
    (.all [.property "bot_prefetch" (.flag true), .property "client_class" (.enum ["bot"]),
      .required "bot_prefetch", .required "client_class"])
    .any
    (.required "click_id"))

/-- The members of the context of a Meta referrer. -/
def metaContextProperties : List (String × Schema) := [
  ("attribution_model", .enum ["last_click", "view_through"]),
  ("campaign_group_id", boundedText 1 128),
  ("campaign_id", boundedText 1 128),
  ("adgroup_id", boundedText 1 128),
  ("ad_id", boundedText 1 128),
  ("account_id", boundedText 1 128),
  ("ad_objective_name", boundedText 1 128),
  ("is_instagram", .type .boolean),
  ("publisher_platform", boundedText 1 64),
  ("platform_position", boundedText 1 128)]

def metaReferrerContextSchema : Schema :=
  closedObject metaContextProperties ["attribution_model"]

def adservicesContextSchema : Schema := .all [
  closedObject [
    ("status", .enum ["attributed", "token_expired", "not_attributed", "lookup_unavailable"]),
    ("attribution", .type .boolean),
    ("org_id", textSchema isDigitsText),
    ("campaign_id", textSchema isDigitsText),
    ("ad_group_id", textSchema isDigitsText),
    ("keyword_id", textSchema isDigitsText),
    ("ad_id", textSchema isDigitsText),
    ("conversion_type", .enum ["Download", "Redownload", "PreOrder"]),
    ("claim_type", .enum ["Click", "Impression"]),
    ("country_or_region", countrySchema),
    ("supply_placement", boundedText 1 128),
    ("click_date", dateTimeSchema),
    ("impression_date", dateTimeSchema)]
    ["status", "attribution"],
  .ifThen (memberIs "status" "attributed") (.property "attribution" (.flag true)),
  .ifThen (memberIs "status" "token_expired") (.property "attribution" (.flag false)),
  .ifThen (memberAmong "status" ["not_attributed", "lookup_unavailable"])
    (.property "attribution" (.flag false))]

/-- The members of an install. -/
def installProperties : List (String × Schema) := [
  ("event_name", .enum ["install"]),
  ("installation_id", idSchema),
  ("prior_installation_id", idSchema),
  ("install_type", .enum ["first_install", "reinstall", "redownload"]),
  ("install_origin", .enum ["play_first_launch", "ios_first_launch", "identifier_reset"]),
  ("click_id", clickIdSchema),
  ("referrer_status", .enum ["available", "third_party", "none", "unsupported", "unavailable",
    "not_applicable"]),
  ("third_party_referrer_classification", .enum ["play_organic_marker", "foreign"]),
  ("referrer_client_response", .enum ["ok", "service_unavailable", "feature_not_supported",
    "developer_error", "service_disconnected", "permission_error"]),
  ("protected_referrer_evidence_ref", .type .string),
  ("referrer_click_at_device", dateTimeSchema),
  ("referrer_click_at_server", dateTimeSchema),
  ("referrer_click_at_server_status", .enum ["available", "missing", "invalid"]),
  ("install_begin_at_device", dateTimeSchema),
  ("install_begin_at_server", textSchema (fitsForm "0000-00-00T00:00:00.000Z".toList)),
  ("install_begin_at_server_status", .enum ["available", "missing", "invalid"]),
  ("referrer_read_at", dateTimeSchema),
  ("occurred_at_device", dateTimeSchema),
  ("country", countrySchema),
  ("app_version", boundedText 1 128),
  ("os_version", boundedText 1 128),
  ("sdk_version", boundedText 1 128),
  ("ad_tracking_limited", .type .boolean),
  ("deferred_deep_link_status",
    .enum ["not_applicable", "absent", "delivered", "expired", "rejected"]),
  ("attribution_confirmed_at", dateTimeSchema),
  ("meta_referrer_status", .enum ["provider_unavailable", "app_version_unsupported",
    "no_campaign_data", "decrypt_failed", "auth_failed", "decrypted"]),
  ("is_ct", .all [.type .integer, .minimum 0, .maximum 1]),
  ("actual_timestamp", .all [.type .integer, .minimum 0]),
  ("meta_referrer_context", metaReferrerContextSchema),
  ("adservices_context", adservicesContextSchema),
  ("import_context", importContextSchema),
  ("extensions", extensionsSchema)]

/-- `install.schema.json` -/
def installSchema : Schema := .all [
  closedObject installProperties
    ["event_name", "installation_id", "referrer_status", "install_type"],
  .ifThen (memberAmong "install_type" ["reinstall", "redownload"])
    (.required "prior_installation_id"),
  .ifThen (memberIs "install_type" "first_install") (.negation (.required "prior_installation_id")),
  .ifThen (memberIs "referrer_click_at_server_status" "available")
    (.both (.property "referrer_click_at_server" dateTimeSchema)
      (.required "referrer_click_at_server")),
  .ifThen (memberIs "install_begin_at_server_status" "available")
    (.both (.property "install_begin_at_server" dateTimeSchema)
      (.required "install_begin_at_server")),
  .ifThen (memberIs "meta_referrer_status" "decrypted") (.required "meta_referrer_context"),
  .ifThen (memberAmong "meta_referrer_status" ["provider_unavailable", "app_version_unsupported",
      "no_campaign_data", "decrypt_failed", "auth_failed"])
    (.negation (.anyOf [.required "meta_referrer_context", .required "is_ct",
      .required "actual_timestamp"])),
  .ifThenElse (memberIs "referrer_status" "third_party")
    (.both (.required "third_party_referrer_classification") (.negation (.required "click_id")))
    (.negation (.required "third_party_referrer_classification"))]

/-- The members of a deep-link open. -/
def deepLinkOpenProperties : List (String × Schema) := [
  ("event_name", .enum ["deep_link_open"]),
  ("installation_id", idSchema),
  ("session_id", idSchema),
  ("open_source", .enum ["android_app_link", "ios_universal_link", "custom_scheme",
    "android_deferred_referrer"]),
  ("link_slug", textSchema (ofClass isSlugChar 8 64)),
  ("click_id", clickIdSchema),
  ("deep_link_value", deepLinkValueSchema),
  ("deep_link_params", .all [.type .object, .maxProperties 10, .propertyNames isParameterName,
    .eachProperty (.anyOf [.both (.type .string) (.maxLength 256), .type .number, .type .boolean,
      .type .null])]),
  ("destination_status", .enum ["delivered", "absent", "expired", "rejected"]),
  ("opened_at_device", dateTimeSchema),
  ("extensions", extensionsSchema)]

/-- `deep-link-open.schema.json` -/
def deepLinkOpenSchema : Schema := .both
  (closedObject deepLinkOpenProperties
    ["event_name", "installation_id", "open_source", "destination_status"])
  (.ifThenElse (memberIs "open_source" "android_deferred_referrer")
    (.both (.required "click_id") (.negation (.required "link_slug")))
    (.both (.required "link_slug") (.negation (.required "click_id"))))

/-- `validateEventPayload`: the payload, with the name of its event, fits the
schema of the event. -/
def validateEventPayload (schema : Schema) (eventName : String) : Json → Bool
  | .obj members => schema.admits (.obj
      (members.filter (fun m => m.1 ≠ "event_name") ++ [("event_name", .str eventName)]))
  | _ => false

/-- The members of a payload, with the name of its event. -/
def namedMembers (eventName : String) (members : List (String × Option Json)) :
    List (String × Option Json) :=
  members.filter (fun m => m.1 ≠ "event_name") ++ [("event_name", some (.str eventName))]

/-- The name of the event fits, and so do the members of the payload. -/
theorem namedMembers_fit {eventName : String} {members : List (String × Option Json)}
    {properties : List (String × Schema)} (hname : ("event_name", .enum [eventName]) ∈ properties)
    (hfit : ∀ m ∈ members, MemberFits properties m) :
    ∀ m ∈ namedMembers eventName members, MemberFits properties m := by
  intro m hm
  rcases List.mem_append.mp hm with hmember | hnamed
  · exact hfit m (List.mem_filter.mp hmember).1
  · rw [List.mem_singleton.mp hnamed]
    refine .present hname ?_
    simp [Schema.admits]

/-- A payload that names its event fits with the name and without. -/
theorem namedMembers_fit_iff {eventName : String} {members : List (String × Option Json)}
    {properties : List (String × Schema)} (hname : ("event_name", .enum [eventName]) ∈ properties)
    (hevent : ∀ m ∈ members, m.1 = "event_name" → m.2 = some (.str eventName)) :
    (∀ m ∈ namedMembers eventName members, MemberFits properties m) ↔
      ∀ m ∈ members, MemberFits properties m := by
  refine ⟨fun h m hm => ?_, namedMembers_fit hname⟩
  by_cases hm' : m.1 = "event_name"
  · have hnamed := h ("event_name", some (.str eventName)) (List.mem_append.mpr (.inr (by simp)))
    rw [← hm', ← hevent m hm hm'] at hnamed
    exact hnamed
  · exact h m (List.mem_append.mpr (.inl (List.mem_filter.mpr ⟨hm, by simpa using hm'⟩)))

/-- A payload is validated with the name of its event beside its members. -/
theorem validateEventPayload_object (schema : Schema) (eventName : String)
    (members : List (String × Option Json)) :
    validateEventPayload schema eventName (Json.object members)
      = schema.admits (Json.object (namedMembers eventName members)) := by
  have hfilter : (members.filterMap (fun m => m.2.map (fun v => (m.1, v)))).filter
      (fun m => m.1 ≠ "event_name")
        = (members.filter (fun m => m.1 ≠ "event_name")).filterMap
          (fun m => m.2.map (fun v => (m.1, v))) := by
    induction members with
    | nil => rfl
    | cons m rest ih =>
        obtain ⟨name, value⟩ := m
        cases value with
        | none =>
            by_cases hname : name = "event_name"
            · simpa [hname] using ih
            · simpa [hname] using ih
        | some v =>
            by_cases hname : name = "event_name"
            · simpa [hname] using ih
            · simpa [hname] using ih
  rw [Json.object, validateEventPayload, hfilter, namedMembers, Json.object, List.filterMap_append]
  rfl

section Conditions

variable {members : List (String × Option Json)} (hnodup : (members.map Prod.fst).Nodup)
include hnodup

/-- A member is among some texts where it is one of them. -/
theorem memberAmong_admits {name : String} {texts : List String} :
    (memberAmong name texts).admits (Json.object members) = true ↔
      ∃ text ∈ texts, memberOf members name = some (.str text) := by
  rw [memberAmong, Schema.admits, Bool.and_eq_true, JsonSchema.admits_property hnodup,
    JsonSchema.admits_required hnodup]
  cases memberOf members name with
  | none => simp
  | some v =>
      cases v with
      | str s => simp [Schema.admits]
      | _ => simp [Schema.admits]

/-- A member is a text where it is there and is that text. -/
theorem memberIs_admits {name text : String} :
    (memberIs name text).admits (Json.object members) = true ↔
      memberOf members name = some (.str text) := by
  change (memberAmong name [text]).admits (Json.object members) = true ↔ _
  rw [memberAmong_admits hnodup]
  simp

end Conditions

section DateTimes

/-- The digits of a number are read back up to their width. -/
theorem readDigits_digits (width n : Nat) : readDigits (digits width n) = n % 10 ^ width := by
  have hchar : ∀ d < 10, (Char.ofNat (48 + d)).toNat - 48 = d := by decide
  induction width generalizing n with
  | zero => rw [Nat.pow_zero, Nat.mod_one]; rfl
  | succ width ih =>
      rw [digits, readDigits, List.foldl_append]
      change 10 * readDigits (digits width (n / 10)) + ((digitChar n).toNat - 48) = _
      rw [ih, digitChar, hchar _ (Nat.mod_lt _ (by decide)), Nat.pow_succ, Nat.mul_comm (10 ^ width),
        Nat.mod_mul, Nat.add_comm]

/-- The character of a digit is one. -/
theorem isDigit_digitChar (n : Nat) : (digitChar n).isDigit = true := by
  have hdigits : ∀ d < 10, (Char.ofNat (48 + d)).isDigit = true := by decide
  exact hdigits (n % 10) (Nat.mod_lt n (by decide))

/-- Digits fit as many zeros. -/
theorem fitsForm_digits (width n : Nat) (ps cs : List Char) :
    fitsForm (List.replicate width '0' ++ ps) (digits width n ++ cs) = fitsForm ps cs := by
  induction width generalizing n cs ps with
  | zero => rfl
  | succ width ih =>
      have hform : List.replicate (width + 1) '0' ++ ps = List.replicate width '0' ++ ('0' :: ps) := by
        rw [List.replicate_succ', List.append_assoc]
        rfl
      rw [hform, digits, List.append_assoc, ih, List.singleton_append, fitsForm, if_pos rfl,
        isDigit_digitChar, Bool.true_and]

/-- The characters of a timestamp fit the canonical form. -/
theorem fitsForm_clockChars (year month day hour minute second millisecond : Nat) :
    fitsForm "0000-00-00T00:00:00.000Z".toList
      (digits 4 year ++ clockChars month day hour minute second millisecond) = true := by
  have hform : "0000-00-00T00:00:00.000Z".toList = List.replicate 4 '0' ++ ('-' ::
      (List.replicate 2 '0' ++ ('-' :: (List.replicate 2 '0' ++ ('T' ::
        (List.replicate 2 '0' ++ (':' :: (List.replicate 2 '0' ++ (':' ::
          (List.replicate 2 '0' ++ ('.' :: (List.replicate 3 '0' ++ ['Z'])))))))))))) := by decide
  rw [hform, fitsForm_digits, clockChars]
  simp only [List.cons_append, List.append_assoc, fitsForm, fitsForm_digits]
  decide

/-- The text of a calendar timestamp is a date-time. -/
theorem isDateTimeText_text {t : Timestamp} (h : t.isCalendar = true) :
    isDateTimeText t.text.toList = true := by
  have hread : ∀ width n, n < 10 ^ width → readDigits (digits width n) = n := by
    intro width n hn
    rw [readDigits_digits, Nat.mod_eq_of_lt hn]
  rw [Timestamp.text, String.toList_ofList]
  have hyear : readDigits ((digits 4 t.year ++ clockChars t.month t.day t.hour t.minute t.second
      t.millisecond).take 4) = t.year := hread 4 t.year t.year.isLt
  have hmonth : readDigits (((digits 4 t.year ++ clockChars t.month t.day t.hour t.minute t.second
      t.millisecond).drop 5).take 2) = t.month := hread 2 t.month t.month.isLt
  have hday : readDigits (((digits 4 t.year ++ clockChars t.month t.day t.hour t.minute t.second
      t.millisecond).drop 8).take 2) = t.day := hread 2 t.day t.day.isLt
  have hhour : readDigits (((digits 4 t.year ++ clockChars t.month t.day t.hour t.minute t.second
      t.millisecond).drop 11).take 2) = t.hour := hread 2 t.hour t.hour.isLt
  have hminute : readDigits (((digits 4 t.year ++ clockChars t.month t.day t.hour t.minute t.second
      t.millisecond).drop 14).take 2) = t.minute := hread 2 t.minute t.minute.isLt
  have hsecond : readDigits (((digits 4 t.year ++ clockChars t.month t.day t.hour t.minute t.second
      t.millisecond).drop 17).take 2) = t.second := hread 2 t.second t.second.isLt
  simp only [Timestamp.isCalendar, Bool.and_eq_true, decide_eq_true_eq] at h
  obtain ⟨⟨⟨⟨⟨⟨hmonthLow, hmonthHigh⟩, hdayLow⟩, hdayHigh⟩, hhourHigh⟩, hminuteHigh⟩, hsecondHigh⟩ := h
  simp only [isDateTimeText, hyear, hmonth, hday, hhour, hminute, hsecond, fitsForm_clockChars,
    hmonthLow, hmonthHigh, hdayLow, hdayHigh, hhourHigh, hminuteHigh, hsecondHigh]
  simp

end DateTimes

end OpenMasu
