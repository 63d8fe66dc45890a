import OpenMasu.ApplePostback

/-!
# The receiver of Apple postbacks

The receiver checks the form of a postback's fields and brings them under the
names of the event contract.

* `PostbackRequestError`, the field checks;
* `normalizedSkan`, `normalizedAak` — the two payloads;
* `normalizedPayload` — the payload of a postback.
-/

namespace OpenMasu

namespace PostbackReceiver

open ApplePostback (VerificationResult SigningKeyEnvironment)

/-- An error the receiver answers with a status. -/
structure PostbackRequestError where
  statusCode : Nat
  message : String
  deriving DecidableEq

inductive ApplePostbackKind where
  | skadnetwork
  | adattributionkit
  deriving DecidableEq

section Checks

/-- The error of a field. -/
def invalid (name : String) : PostbackRequestError := ⟨400, name ++ "_invalid"⟩

def requiredString (value : Option Json) (name : String) : Except PostbackRequestError String :=
  match value with
  | some (.str s) =>
      if 1 ≤ (codeUnits s).length ∧ (codeUnits s).length ≤ 2048 then .ok s
      else .error (invalid name)
  | _ => .error (invalid name)

def patternedString (pattern : List Char → Bool) (maximumLength : Nat) (value : Option Json)
    (name : String) : Except PostbackRequestError Json := do
  let rendered ← requiredString value name
  if (codeUnits rendered).length > maximumLength || !pattern rendered.toList then
    throw (invalid name)
  return .str rendered

/-- `Number.isSafeInteger`, and not negative. -/
def requiredInteger (value : Option Json) (name : String) : Except PostbackRequestError Json :=
  match value with
  | some (.num q) =>
      if q.den = 1 ∧ 0 ≤ q.num ∧ q.num ≤ 2 ^ 53 - 1 then .ok (.num q) else .error (invalid name)
  | _ => .error (invalid name)

def rangedInteger (minimum maximum : Rat) (value : Option Json) (name : String) :
    Except PostbackRequestError Json := do
  let rendered ← requiredInteger value name
  match rendered with
  | .num q => if q < minimum || maximum < q then throw (invalid name) else return rendered
  | _ => throw (invalid name)

def requiredBoolean (value : Option Json) (name : String) : Except PostbackRequestError Json :=
  match value with
  | some (.bool b) => .ok (.bool b)
  | _ => .error (invalid name)

def enumeratedString (allowed : List String) (value : Option Json) (name : String) :
    Except PostbackRequestError Json := do
  let rendered ← requiredString value name
  if !allowed.contains rendered then throw (invalid name)
  return .str rendered

/-- A field that a payload takes over where it is there. -/
structure OptionalField where
  sourceName : String
  targetName : String
  parser : Option Json → String → Except PostbackRequestError Json

/-- `pickOptional`, for one field. -/
def pickField (source : JsonObject) (f : OptionalField) :
    Except PostbackRequestError (List (String × Json)) :=
  match source.get f.sourceName with
  | none => .ok []
  | some value => (f.parser (some value) f.targetName).map (fun v => [(f.targetName, v)])

/-- `pickOptional`. -/
def pickOptional (source : JsonObject) :
    List OptionalField → Except PostbackRequestError (List (String × Json))
  | [] => .ok []
  | f :: rest => do
      let first ← pickField source f
      let others ← pickOptional source rest
      return first ++ others

end Checks

section Patterns

def isDigitChar (c : Char) : Bool := '0' ≤ c && c ≤ '9'

/-- `[A-Za-z0-9.-]`. -/
def isNameChar (c : Char) : Bool :=
  ('A' ≤ c && c ≤ 'Z') || ('a' ≤ c && c ≤ 'z') || isDigitChar c || c = '.' || c = '-'

/-- `^(3|4)\.[0-9]+$`. -/
def isVersion : List Char → Bool
  | c :: '.' :: rest => (c = '3' || c = '4') && !rest.isEmpty && rest.all isDigitChar
  | _ => false

/-- `^[A-Za-z0-9.-]+$`. -/
def isName (text : List Char) : Bool := !text.isEmpty && text.all isNameChar

/-- `^[A-Za-z0-9._:-]{1,120}$`. -/
def isTransaction (text : List Char) : Bool :=
  1 ≤ text.length && text.length ≤ 120 && text.all (fun c => isNameChar c || c = '_' || c = ':')

/-- `^[0-9]{2,4}$`. -/
def isSourceIdentifier (text : List Char) : Bool :=
  2 ≤ text.length && text.length ≤ 4 && text.all isDigitChar

/-- `^[A-Z]{2}$`. -/
def isCountry (text : List Char) : Bool :=
  text.length = 2 && text.all (fun c => 'A' ≤ c && c ≤ 'Z')

end Patterns

section Payloads

/-- A member of a payload. -/
def memberOf (payload : List (String × Json)) (name : String) : Option Json :=
  (payload.find? (fun m => m.1 = name)).map Prod.snd

/-- The signature's status, and the fields outside of it in order. -/
def evidenceBoundary (verified : Bool) (unsigned : JsonObject) : Json :=
  .obj [("apple_signature_status", .str (if verified then "verified" else "unverified")),
    ("unsigned_observation_fields",
      .arr ((KeyedSort.sortOn codeUnits unsigned.names).map Json.str))]

/-- The result says that the signature was verified. -/
def isVerified : VerificationResult → Bool
  | .verified .. => true
  | .unverified .. => false

/-- The observations outside the signature. -/
def unsignedOf : VerificationResult → JsonObject
  | .verified _ unsigned _ => unsigned
  | .unverified _ unsigned _ _ => unsigned

/-- `resolvedEvidence`. -/
def resolvedEvidence : VerificationResult → JsonObject
  | .verified authenticated _ _ => authenticated
  | .unverified _ _ _ (some claims) => claims
  | .unverified _ _ _ none => ⟨[], List.nodup_nil⟩

/-- The optional fields of a SKAdNetwork postback. -/
def skanOptionalFields : List OptionalField := [
  ⟨"source-identifier", "source_identifier", patternedString isSourceIdentifier 128⟩,
  ⟨"campaign-id", "campaign_id", rangedInteger 1 100⟩,
  ⟨"source-app-id", "source_app_id", requiredInteger⟩,
  ⟨"source-domain", "source_domain", patternedString isName 253⟩,
  ⟨"conversion-value", "conversion_value", rangedInteger 0 63⟩,
  ⟨"coarse-conversion-value", "coarse_conversion_value",
    enumeratedString ["low", "medium", "high"]⟩,
  ⟨"postback-sequence-index", "postback_sequence_index", rangedInteger 0 2⟩,
  ⟨"redownload", "redownload", requiredBoolean⟩,
  ⟨"country-code", "country_code", patternedString isCountry 2⟩,
  ⟨"fidelity-type", "fidelity_type", rangedInteger 0 1⟩]

/-- A fine value beside a coarse one. -/
def isAmbiguousValue (payload : List (String × Json)) : Bool :=
  (memberOf payload "conversion_value").isSome &&
    (memberOf payload "coarse_conversion_value").isSome

/-- A fine value in a later window. -/
def isLateFineValue (payload : List (String × Json)) : Bool :=
  match memberOf payload "postback_sequence_index", memberOf payload "conversion_value" with
  | some (.num q), some _ => 0 < q
  | _, _ => false

/-- The constraints between the fields of a SKAdNetwork payload. -/
def skanConstraints (major : Char) (payload : List (String × Json)) :
    Except PostbackRequestError Unit :=
  let has := fun name => (memberOf payload name).isSome
  if isAmbiguousValue payload then .error ⟨400, "conversion_value_ambiguous"⟩
  else if major = '3' && (!has "campaign_id" || has "source_identifier" ||
      has "postback_sequence_index" || has "coarse_conversion_value") then
    .error ⟨400, "skan_version_fields_invalid"⟩
  else if major = '4' && (!has "source_identifier" || !has "postback_sequence_index" ||
      has "campaign_id") then
    .error ⟨400, "skan_version_fields_invalid"⟩
  else if isLateFineValue payload then .error ⟨400, "skan_fine_value_window_invalid"⟩
  else .ok ()

/-- The major of a version that has its form. -/
def majorOf : Json → Char
  | .str s => s.toList.headD '0'
  | _ => '0'

/-- `normalizedPayload`, for a SKAdNetwork postback. -/
def normalizedSkan (body : JsonObject) (verification : VerificationResult) :
    Except PostbackRequestError (List (String × Json)) := do
  let version ← patternedString isVersion 16 (body.get "version") "version"
  let adNetworkId ← patternedString isName 128 (body.get "ad-network-id") "ad_network_id"
  let appId ← requiredInteger (body.get "app-id") "app_id"
  let transactionId ← patternedString isTransaction 128 (body.get "transaction-id")
    "transaction_id"
  let signature ← requiredString (body.get "attribution-signature") "attribution_signature"
  let didWin ← requiredBoolean (body.get "did-win") "did_win"
  let optionals ← pickOptional body skanOptionalFields
  let payload := [("event_name", Json.str "skan_postback"), ("version", version),
    ("ad_network_id", adNetworkId), ("app_id", appId), ("transaction_id", transactionId),
    ("attribution_signature", .str signature),
    ("signature_verified", .bool (isVerified verification)), ("did_win", didWin),
    ("extensions", evidenceBoundary (isVerified verification) (unsignedOf verification))] ++
      optionals
  skanConstraints (majorOf version) payload
  return payload

/-- The optional claims of an AdAttributionKit postback. -/
def aakOptionalClaims : List OptionalField := [
  ⟨"source-identifier", "source_identifier", patternedString isSourceIdentifier 128⟩,
  ⟨"publisher-item-identifier", "publisher_item_identifier", requiredInteger⟩,
  ⟨"marketplace-identifier", "marketplace_identifier", patternedString isName 253⟩]

/-- The optional fields beside the claims. -/
def aakOptionalFields : List OptionalField := [
  ⟨"conversion-value", "conversion_value", rangedInteger 0 63⟩,
  ⟨"coarse-conversion-value", "coarse_conversion_value",
    enumeratedString ["low", "medium", "high"]⟩,
  ⟨"ad-interaction-type", "ad_interaction_type", enumeratedString ["view", "click"]⟩,
  ⟨"country-code", "country_code", patternedString isCountry 2⟩]

/-- The environment of the key that signed a verified postback. -/
def signingKeyEnvironment : VerificationResult → List (String × Json)
  | .verified _ _ .production => [("signing_key_environment", .str "production")]
  | .verified _ _ .development => [("signing_key_environment", .str "development")]
  | .unverified .. => []

/-- `normalizedPayload`, for an AdAttributionKit postback. -/
def normalizedAak (body : JsonObject) (verification : VerificationResult) :
    Except PostbackRequestError (List (String × Json)) := do
  let claims := resolvedEvidence verification
  let jws ← requiredString (body.get "jws-string") "jws_string"
  let postbackIdentifier ← patternedString isTransaction 128 (claims.get "postback-identifier")
    "postback_identifier"
  let advertised ← requiredInteger (claims.get "advertised-item-identifier")
    "advertised_item_identifier"
  let conversionType ← enumeratedString ["download", "redownload"] (claims.get "conversion-type")
    "conversion_type"
  let adNetwork ← patternedString isName 128 (claims.get "ad-network-identifier")
    "ad_network_identifier"
  let impressionType ← enumeratedString ["app-impression"] (claims.get "impression-type")
    "impression_type"
  let sequenceIndex ← rangedInteger 0 2 (claims.get "postback-sequence-index")
    "postback_sequence_index"
  let didWin ← requiredBoolean (claims.get "did-win") "did_win"
  let optionalClaims ← pickOptional claims aakOptionalClaims
  let optionals ← pickOptional body aakOptionalFields
  let payload := [("event_name", Json.str "adattributionkit_postback"), ("jws_string", .str jws),
    ("signature_verified", .bool (isVerified verification)),
    ("postback_identifier", postbackIdentifier), ("advertised_item_identifier", advertised),
    ("conversion_type", conversionType), ("ad_network_identifier", adNetwork),
    ("impression_type", impressionType), ("postback_sequence_index", sequenceIndex),
    ("did_win", didWin),
    ("extensions", evidenceBoundary (isVerified verification) (unsignedOf verification))] ++
      signingKeyEnvironment verification ++ optionalClaims ++ optionals
  if isAmbiguousValue payload then throw ⟨400, "conversion_value_ambiguous"⟩
  return payload

/-- `normalizedPayload`. -/
def normalizedPayload (kind : ApplePostbackKind) (body : JsonObject)
    (verification : VerificationResult) : Except PostbackRequestError (List (String × Json)) :=
  match kind with
  | .skadnetwork => normalizedSkan body verification
  | .adattributionkit => normalizedAak body verification

end Payloads

end PostbackReceiver

end OpenMasu
