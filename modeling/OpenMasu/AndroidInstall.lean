import OpenMasu.CivilDates
import OpenMasu.InsertionMap
import OpenMasu.Redirector

/-!
# The install of an Android device

On its first start the SDK reads the Play install referrer and the evidence of
Meta, and writes an install and, for a deferred deep link, its opening.  The
worker prepares the install before it is validated.

* `PlayReferrerReader.details`, `readReferrer` — the evidence of the referrer;
* `normalizeDeferred` — a deferred deep link expires;
* `installPayload`, `deepLinkPayload` — the payloads of the two events;
* `prepareMetaRecord` — the evidence of Meta is opened;
* `preparedInstall` — the payload that is validated.
-/

namespace OpenMasu

section Evidence

/-- The last second that `Instant.ofEpochSecond` takes. -/
def lastInstantSecond : Int := 31556889864403199

/-- An instant after 1970, in whole seconds. -/
structure DeviceInstant where
  seconds : Int
  positive : 0 < seconds
  inRange : seconds ≤ lastInstantSecond

/-- The characters of a year as the instant formatter writes it. -/
def instantYear (year : Int) : List Char :=
  if fourDigitYear year then digits 4 year.toNat else '+' :: (toString year.toNat).toList

/-- `DateTimeFormatterBuilder().appendInstant(3)`. -/
def DeviceInstant.text (i : DeviceInstant) : String :=
  let (year, month, day) := civilFromDays (i.seconds / 86400)
  let clock := (i.seconds % 86400).toNat
  String.ofList (instantYear year ++ clockChars month day (clock / 3600) (clock / 60 % 60)
    (clock % 60) 0)

inductive ClientResponse where
  | ok
  | serviceUnavailable
  | featureNotSupported
  | developerError
  | serviceDisconnected
  deriving DecidableEq

def ClientResponse.text : ClientResponse → String
  | ok => "ok"
  | serviceUnavailable => "service_unavailable"
  | featureNotSupported => "feature_not_supported"
  | developerError => "developer_error"
  | serviceDisconnected => "service_disconnected"

inductive DeferredOutcome where
  | absent
  | delivered
  | expired
  | rejected
  deriving DecidableEq

def DeferredOutcome.text : DeferredOutcome → String
  | absent => "absent"
  | delivered => "delivered"
  | expired => "expired"
  | rejected => "rejected"

structure PlayReferrerEvidence where
  status : ReferrerStatus
  clientResponse : ClientResponse
  clickId : Option String
  referrer : Option String
  referrerClickAtDevice : Option DeviceInstant
  referrerClickAtServer : Option DeviceInstant
  installBeginAtDevice : Option DeviceInstant
  installBeginAtServer : Option DeviceInstant
  installVersion : Option String
  deepLinkValue : Option String
  deepLinkParameters : List (String × String)
  deferredDeepLinkStatus : Option DeferredOutcome
  shouldRetry : Bool

/-- The evidence of a read that brought no details. -/
def withoutDetails (status : ReferrerStatus) (response : ClientResponse) (shouldRetry : Bool) :
    PlayReferrerEvidence where
  status := status
  clientResponse := response
  clickId := none
  referrer := none
  referrerClickAtDevice := none
  referrerClickAtServer := none
  installBeginAtDevice := none
  installBeginAtServer := none
  installVersion := none
  deepLinkValue := none
  deepLinkParameters := []
  deferredDeepLinkStatus := none
  shouldRetry := shouldRetry

/-- What the Play service answers. -/
structure ReferrerDetails where
  installReferrer : String
  referrerClickTimestampSeconds : Int
  installBeginTimestampSeconds : Int
  googlePlayInstantParam : Bool
  referrerClickTimestampServerSeconds : Int
  installBeginTimestampServerSeconds : Int
  installVersion : Option String

/-- `epochSeconds`; none when the instant is out of range. -/
def epochSeconds (value : Int) : Option (Option DeviceInstant) :=
  if hpositive : value ≤ 0 then some none
  else if hrange : value ≤ lastInstantSecond then some (some ⟨value, by omega, hrange⟩)
  else none

/-- A character `isBlank` looks through. -/
def isBlankChar (c : Char) : Bool :=
  (9 ≤ c.toNat && c.toNat ≤ 13) || (28 ≤ c.toNat && c.toNat ≤ 32) || c.toNat = 0xa0 ||
    c.toNat = 0x1680 || (0x2000 ≤ c.toNat && c.toNat ≤ 0x200a) || c.toNat = 0x2028 ||
    c.toNat = 0x2029 || c.toNat = 0x202f || c.toNat = 0x205f || c.toNat = 0x3000

def isBlank (s : String) : Bool := s.toList.all isBlankChar

/-- `^dlp_[a-z][a-z0-9_]{0,63}$`; the name behind the mark. -/
def parameterName (name : String) : Option String :=
  match name.toList with
  | 'd' :: 'l' :: 'p' :: '_' :: rest =>
      if isParameterName rest then some (String.ofList rest) else none
  | _ => none

/-- A field that is a deep-link parameter. -/
def isParameterField (field : String × String) : Bool :=
  (parameterName field.1).isSome && ofClass isUrlChar 1 64 field.2.toList

/-- The order of the names of fields. -/
def fieldOrder (field : String × String) : List Nat := field.1.toList.map Char.toNat

/-- The deep-link parameters of the fields of a referrer: ten at most. -/
def deepLinkParameters (fields : List (String × String)) : List (String × String) :=
  ((KeyedSort.sortOn fieldOrder (fields.filter isParameterField)).take 10).map
    fun field => (String.ofList (field.1.toList.drop 4), field.2)

/-- A deep-link value the device takes. -/
def isDeepLinkValue (value : String) : Bool :=
  value.length ≤ 256 && isDeepLinkPath value.toList &&
    !(slashParts value.toList).tail.any (fun segment => segment = ['.'] || segment = ['.', '.'])

/-- The fields of a referrer, the last value of each. -/
def referrerFields (D : FormEncoding.Decoder) (referrer : String) :
    Option (InsertionMap String String) :=
  (FormEncoding.fields D referrer.toList).map InsertionMap.ofList

/-- The evidence of a referrer that was read. -/
def referrerEvidence (value : ReferrerDetails) (fields : InsertionMap String String)
    (clickDevice clickServer installDevice installServer : Option DeviceInstant) :
    PlayReferrerEvidence where
  status := if isBlank value.installReferrer then .none
    else if (fields.get "cid").isNone then .thirdParty else .available
  clientResponse := .ok
  clickId := fields.get "cid"
  referrer := if isBlank value.installReferrer then none else some value.installReferrer
  referrerClickAtDevice := clickDevice
  referrerClickAtServer := clickServer
  installBeginAtDevice := installDevice
  installBeginAtServer := installServer
  installVersion := some (value.installVersion.getD "null" ++
    if value.googlePlayInstantParam then "+instant" else "")
  deepLinkValue := (fields.get "dl").filter isDeepLinkValue
  deepLinkParameters := deepLinkParameters fields.entries
  deferredDeepLinkStatus := some (match fields.get "dl" with
    | none => .absent
    | some value => if isDeepLinkValue value then .delivered else .rejected)
  shouldRetry := false

/-- `GooglePlayReferrerReader.details`; none when it throws. -/
def referrerDetails (D : FormEncoding.Decoder) (value : ReferrerDetails) :
    Option PlayReferrerEvidence := do
  let fields ← referrerFields D value.installReferrer
  let clickDevice ← epochSeconds value.referrerClickTimestampSeconds
  let clickServer ← epochSeconds value.referrerClickTimestampServerSeconds
  let installDevice ← epochSeconds value.installBeginTimestampSeconds
  let installServer ← epochSeconds value.installBeginTimestampServerSeconds
  return referrerEvidence value fields clickDevice clickServer installDevice installServer

/-- How the connection to the Play service ends. -/
inductive SetupResponse where
  | ok (details : Option ReferrerDetails)
  | featureNotSupported
  | serviceUnavailable
  | developerError
  | serviceDisconnected
  | other
  | timedOut

/-- `GooglePlayReferrerReader.read`. -/
def readReferrer (D : FormEncoding.Decoder) : SetupResponse → PlayReferrerEvidence
  | .ok details =>
      (details.bind (referrerDetails D)).getD (withoutDetails .unavailable .serviceUnavailable true)
  | .featureNotSupported => withoutDetails .unsupported .featureNotSupported false
  | .serviceUnavailable => withoutDetails .unavailable .serviceUnavailable true
  | .developerError => withoutDetails .unavailable .developerError false
  | .serviceDisconnected => withoutDetails .unavailable .serviceDisconnected true
  | .other => withoutDetails .unavailable .serviceUnavailable true
  | .timedOut => withoutDetails .unavailable .serviceDisconnected true

/-- `normalizeDeferred`: a deep link that was clicked too long ago expires. -/
def normalizeDeferred (nowMs ttlSeconds : Int) (value : PlayReferrerEvidence) :
    PlayReferrerEvidence :=
  if value.deepLinkValue.isNone then
    { value with deferredDeepLinkStatus := some (value.deferredDeepLinkStatus.getD .absent) }
  else if value.referrerClickAtServer.any (fun clicked => ttlSeconds < nowMs / 1000 - clicked.seconds) then
    { value with deferredDeepLinkStatus := some .expired }
  else
    { value with deferredDeepLinkStatus := some (value.deferredDeepLinkStatus.getD .delivered) }

end Evidence

section Meta

inductive MetaReadStatus where
  | providerUnavailable
  | noCampaignData
  | decryptPending
  deriving DecidableEq

/-- The evidence `MetaInstallReferrerReader.read` brings. -/
structure MetaReferrerEvidence where
  status : MetaReadStatus
  installReferrer : Option String
  isCt : Option Bool
  actualTimestamp : Option Nat
  providerAuthority : Option String

/-- The members of a plaintext that a context takes over. -/
def metaFields : List String :=
  ["campaign_group_id", "campaign_id", "adgroup_id", "ad_id", "account_id", "ad_objective_name",
    "is_instagram", "publisher_platform", "platform_position"]

/-- A JSON object, as a parsed text gives it. -/
structure ParsedObject where
  members : List (String × Json)
  nodup : (members.map Prod.fst).Nodup

/-- What the protected referrer of Meta opens to under the keys. -/
inductive MetaUnsealed where
  | absent
  | malformed
  | authFailed
  | opened (keyId : String) (plaintext : Option ParsedObject)

def isTextOrFlag : Json → Bool
  | .str _ => true
  | .bool _ => true
  | _ => false

/-- The members of a plaintext that belong to the context. -/
def contextMembers (plaintext : ParsedObject) : List (String × Json) :=
  plaintext.members.filter fun m => metaFields.contains m.1

/-- `parsePlaintext`: the context, if it has members and all are texts or
flags. -/
def parsePlaintext (plaintext : ParsedObject) : Option (List (String × Json)) :=
  if (contextMembers plaintext).all (fun m => isTextOrFlag m.2) ∧ contextMembers plaintext ≠ [] then
    some (contextMembers plaintext)
  else none

end Meta

section Payloads

/-- The extensions of an install. -/
structure InstallExtensions where
  metaInstallReferrer : Option String
  metaIsCt : Option Bool
  metaActualTimestamp : Option Nat
  metaProviderAuthority : Option String
  playInstallReferrer : Option String
  installVersion : Option String
  metaDecryptionKeyId : Option String

/-- The payload of an install. -/
structure InstallPayload where
  installationId : ControlIdentifier
  installOrigin : String
  play : PlayReferrerEvidence
  sdkVersion : String
  metaReferrerStatus : MetaReferrerStatus
  protectedReferrerEvidenceRef : Option String
  metaReferrerContext : Option (List (String × Json))
  isCt : Option Bool
  actualTimestamp : Option Nat
  extensions : InstallExtensions

/-- `EventFactory.install`. -/
def installPayload (installationId : ControlIdentifier) (sdkVersion : String)
    (play : PlayReferrerEvidence) (evidence : MetaReferrerEvidence) (origin : String) :
    InstallPayload where
  installationId := installationId
  installOrigin := origin
  play := play
  sdkVersion := sdkVersion
  metaReferrerStatus := match evidence.status with
    | .providerUnavailable => .providerUnavailable
    | .noCampaignData => .noCampaignData
    | .decryptPending => .decryptFailed
  protectedReferrerEvidenceRef := none
  metaReferrerContext := none
  isCt := none
  actualTimestamp := none
  extensions := {
    metaInstallReferrer := evidence.installReferrer
    metaIsCt := evidence.isCt
    metaActualTimestamp := evidence.actualTimestamp
    metaProviderAuthority := evidence.providerAuthority
    playInstallReferrer := play.referrer
    installVersion := play.installVersion
    metaDecryptionKeyId := none }

/-- A flag as the number it is sent as. -/
def flagNumber (b : Bool) : Json := .num (if b then 1 else 0)

def InstallExtensions.members (e : InstallExtensions) : List (String × Option Json) := [
  ("meta_install_referrer_protected", e.metaInstallReferrer.map .str),
  ("meta_is_ct_unverified", e.metaIsCt.map flagNumber),
  ("meta_actual_timestamp_unverified", e.metaActualTimestamp.map fun n : Nat => .num (n : Rat)),
  ("meta_provider_authority", e.metaProviderAuthority.map .str),
  ("play_install_referrer_protected", e.playInstallReferrer.map .str),
  ("install_version", e.installVersion.map .str),
  ("meta_decryption_key_id", e.metaDecryptionKeyId.map .str)]

/-- The members of the payload of an install. -/
def InstallPayload.members (p : InstallPayload) : List (String × Option Json) := [
  ("event_name", some (.str "install")),
  ("installation_id", some (.str p.installationId.text)),
  ("install_type", some (.str "first_install")),
  ("install_origin", some (.str p.installOrigin)),
  ("referrer_status", some (.str p.play.status.text)),
  ("referrer_client_response", some (.str p.play.clientResponse.text)),
  ("install_begin_at_server_status",
    some (.str (if p.play.installBeginAtServer.isNone then "missing" else "available"))),
  ("sdk_version", some (.str p.sdkVersion)),
  ("deferred_deep_link_status",
    some (.str (p.play.deferredDeepLinkStatus.elim "not_applicable" DeferredOutcome.text))),
  ("click_id", p.play.clickId.map .str),
  ("referrer_click_at_device", p.play.referrerClickAtDevice.map fun i => .str i.text),
  ("referrer_click_at_server", p.play.referrerClickAtServer.map fun i => .str i.text),
  ("install_begin_at_device", p.play.installBeginAtDevice.map fun i => .str i.text),
  ("install_begin_at_server", p.play.installBeginAtServer.map fun i => .str i.text),
  ("meta_referrer_status", some (.str p.metaReferrerStatus.text)),
  ("protected_referrer_evidence_ref", p.protectedReferrerEvidenceRef.map .str),
  ("meta_referrer_context", p.metaReferrerContext.map .obj),
  ("is_ct", p.isCt.map flagNumber),
  ("actual_timestamp", p.actualTimestamp.map fun n : Nat => .num (n : Rat)),
  ("extensions", some (Json.object p.extensions.members))]

/-- The deep link of a deferred referrer. -/
structure OpenMasuDeepLink where
  value : String
  parameters : List (String × String)
  clickId : Option String

/-- `DeepLinkParser.fromReferrer`. -/
def deepLinkFromReferrer (evidence : PlayReferrerEvidence) : Option OpenMasuDeepLink :=
  if evidence.deferredDeepLinkStatus = some .delivered then
    evidence.deepLinkValue.map fun value => {
      value := value
      parameters := evidence.deepLinkParameters
      clickId := evidence.clickId }
  else none

/-- `EventFactory.deepLink`, of a deferred referrer. -/
def deepLinkPayload (installationId : ControlIdentifier) (link : OpenMasuDeepLink) :
    List (String × Option Json) := [
  ("event_name", some (.str "deep_link_open")),
  ("installation_id", some (.str installationId.text)),
  ("open_source", some (.str "android_deferred_referrer")),
  ("destination_status", some (.str "delivered")),
  ("click_id", link.clickId.map .str),
  ("deep_link_value", some (.str link.value)),
  ("deep_link_params", some (.obj (link.parameters.map fun p => (p.1, .str p.2))))]

end Payloads

section Preparation

/-- `Number.MAX_SAFE_INTEGER`, the bound on the timestamp of Meta. -/
def metaTimestampLimit : Nat := 9007199254740991

/-- `prepareMetaRecord`: the protected referrer of Meta is opened and taken out
of the extensions. -/
def prepareMetaRecord (openMeta : String → MetaUnsealed) (bodyRef : String) (p : InstallPayload) :
    InstallPayload :=
  match p.extensions.metaInstallReferrer with
  | none => p
  | some raw =>
      let stripped : InstallPayload := { p with
        protectedReferrerEvidenceRef := some ("payload:" ++ bodyRef)
        extensions := { p.extensions with
          metaInstallReferrer := none
          metaIsCt := none
          metaActualTimestamp := none } }
      match openMeta raw with
      | .absent => { stripped with metaReferrerStatus := .noCampaignData }
      | .malformed => { stripped with metaReferrerStatus := .decryptFailed }
      | .authFailed => { stripped with metaReferrerStatus := .authFailed }
      | .opened keyId plaintext =>
          match plaintext.bind parsePlaintext with
          | none => { stripped with metaReferrerStatus := .decryptFailed }
          | some context => { stripped with
              metaReferrerStatus := .decrypted
              metaReferrerContext := some (("attribution_model",
                .str (if p.extensions.metaIsCt = some true then "last_click" else "view_through"))
                  :: context)
              isCt := p.extensions.metaIsCt
              actualTimestamp := p.extensions.metaActualTimestamp.filter (· ≤ metaTimestampLimit)
              extensions := { stripped.extensions with metaDecryptionKeyId := some keyId } }

end Preparation

section Devices

/-- A first start of the SDK, and the worker that prepares its install. -/
structure FirstStart where
  decoder : FormEncoding.Decoder
  installationId : ControlIdentifier
  sdkVersion : String
  response : SetupResponse
  metaEvidence : MetaReferrerEvidence
  nowMs : Int
  ttlSeconds : Int
  openMeta : String → MetaUnsealed
  bodyRef : String

/-- The evidence of the referrer that the events are written from. -/
def FirstStart.play (s : FirstStart) : PlayReferrerEvidence :=
  normalizeDeferred s.nowMs s.ttlSeconds (readReferrer s.decoder s.response)

/-- The install, as the worker validates it. -/
def FirstStart.preparedInstall (s : FirstStart) : InstallPayload :=
  prepareMetaRecord s.openMeta s.bodyRef
    (installPayload s.installationId s.sdkVersion s.play s.metaEvidence "play_first_launch")

/-- The deferred deep link of the start. -/
def FirstStart.deferredLink (s : FirstStart) : Option OpenMasuDeepLink := deepLinkFromReferrer s.play

end Devices

end OpenMasu
