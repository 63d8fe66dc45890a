import OpenMasu.Instant

/-!
# The contract's data

The records, server contexts and policies an evaluation reads, as the
contract's schemas shape them.  A member the schema leaves optional is an
`Option`; identifiers are never empty, so a test for their presence and a
test for their truth are the same.

* `Identifier`, `Producer`, `EventName` — identities and enumerations;
* `Payload` — the members of an event payload the evaluator reads;
* `Record`, `ServerContext`, `Attempt` — one delivered record with the
  context of its authenticated ingress.
-/

namespace OpenMasu

/-- A non-empty text. -/
structure Identifier where
  text : String
  nonempty : text ≠ ""
  deriving DecidableEq

/-- The identifier of a text.  The runs name their records by it; an empty text
has none of its own. -/
def Identifier.named (text : String) : Identifier :=
  if h : text = "" then ⟨"unnamed", by decide⟩ else ⟨text, h⟩

/-- An identifier is its text. -/
theorem Identifier.text_injective : Function.Injective Identifier.text := by
  rintro ⟨text, hne⟩ ⟨text', hne'⟩ rfl
  rfl

instance : Encode Identifier := ⟨fun i => .str i.text⟩

instance : Encode String := ⟨.str⟩

instance : Encode Bool := ⟨.bool⟩

instance : Encode Json := ⟨id⟩

/-- A required member of an object. -/
def member {α : Type} [Encode α] (name : String) (value : α) : String × Option Json :=
  (name, some (toJson value))

/-- An optional member of an object. -/
def optional {α : Type} [Encode α] (name : String) (value : Option α) : String × Option Json :=
  (name, value.map toJson)

instance {α : Type} [Encode α] : Encode (List α) := ⟨fun l => .arr (l.map toJson)⟩

instance : Encode Nat := ⟨fun n => .int n⟩

instance : Encode Rat := ⟨.num⟩

/-- The name behind a producer's prefix.  The contract allows lower-case
letters, digits and hyphens; that no colon occurs is what keeps the ids built
from producers apart. -/
structure ProducerName where
  text : String
  noColon : ':' ∉ text.toList
  deriving DecidableEq

/-- The authenticated producers of records. -/
inductive Producer where
  | sdkAndroid
  | sdkIos
  | redirector
  | «import» (provider : ProducerName)
  | adapter (name : ProducerName)
  | postback (name : ProducerName)
  deriving DecidableEq

def Producer.text : Producer → String
  | sdkAndroid => "sdk-android"
  | sdkIos => "sdk-ios"
  | redirector => "redirector"
  | .import provider => "import:" ++ provider.text
  | adapter name => "adapter:" ++ name.text
  | postback name => "postback:" ++ name.text

instance : Encode Producer := ⟨fun p => .str p.text⟩

/-- The producer is an importer. -/
def Producer.isImport : Producer → Bool
  | .import _ => true
  | _ => false

/-- The producer is a server-to-server postback endpoint. -/
def Producer.isPostback : Producer → Bool
  | postback _ => true
  | _ => false

inductive EventName where
  | click
  | install
  | sessionStart
  | adImpression
  | adView
  | adRevenue
  | purchase
  | refund
  | consentChanged
  | privacyControl
  | customEvent
  | skanPostback
  | adattributionkitPostback
  | deepLinkOpen
  deriving DecidableEq

def EventName.text : EventName → String
  | click => "click"
  | install => "install"
  | sessionStart => "session_start"
  | adImpression => "ad_impression"
  | adView => "ad_view"
  | adRevenue => "ad_revenue"
  | purchase => "purchase"
  | refund => "refund"
  | consentChanged => "consent_changed"
  | privacyControl => "privacy_control"
  | customEvent => "custom_event"
  | skanPostback => "skan_postback"
  | adattributionkitPostback => "adattributionkit_postback"
  | deepLinkOpen => "deep_link_open"

instance : Encode EventName := ⟨fun e => .str e.text⟩

inductive ProcessingPurpose where
  | attribution
  | fraudPrevention
  | analytics
  | revenueMeasurement
  deriving DecidableEq

def ProcessingPurpose.text : ProcessingPurpose → String
  | attribution => "attribution"
  | fraudPrevention => "fraud_prevention"
  | analytics => "analytics"
  | revenueMeasurement => "revenue_measurement"

instance : Encode ProcessingPurpose := ⟨fun p => .str p.text⟩

inductive SubjectScope where
  | installationLevel
  | aggregate
  | engagementLevel
  deriving DecidableEq

def SubjectScope.text : SubjectScope → String
  | installationLevel => "installation_level"
  | aggregate => "aggregate"
  | engagementLevel => "engagement_level"

instance : Encode SubjectScope := ⟨fun s => .str s.text⟩

/-- The state of a time the platform or the redirector vouches for. -/
inductive TimeStatus where
  | available
  | missing
  | invalid
  deriving DecidableEq

def TimeStatus.text : TimeStatus → String
  | available => "available"
  | missing => "missing"
  | invalid => "invalid"

instance : Encode TimeStatus := ⟨fun s => .str s.text⟩

inductive InstallType where
  | firstInstall
  | reinstall
  | redownload
  deriving DecidableEq

def InstallType.text : InstallType → String
  | firstInstall => "first_install"
  | reinstall => "reinstall"
  | redownload => "redownload"

instance : Encode InstallType := ⟨fun t => .str t.text⟩

inductive ReferrerStatus where
  | available
  | thirdParty
  | none
  | unsupported
  | unavailable
  | notApplicable
  deriving DecidableEq

def ReferrerStatus.text : ReferrerStatus → String
  | available => "available"
  | thirdParty => "third_party"
  | none => "none"
  | unsupported => "unsupported"
  | unavailable => "unavailable"
  | notApplicable => "not_applicable"

instance : Encode ReferrerStatus := ⟨fun s => .str s.text⟩

inductive ThirdPartyReferrer where
  | playOrganicMarker
  | foreign
  deriving DecidableEq

def ThirdPartyReferrer.text : ThirdPartyReferrer → String
  | playOrganicMarker => "play_organic_marker"
  | foreign => "foreign"

instance : Encode ThirdPartyReferrer := ⟨fun c => .str c.text⟩

inductive MetaReferrerStatus where
  | providerUnavailable
  | appVersionUnsupported
  | noCampaignData
  | decryptFailed
  | authFailed
  | decrypted
  deriving DecidableEq

def MetaReferrerStatus.text : MetaReferrerStatus → String
  | providerUnavailable => "provider_unavailable"
  | appVersionUnsupported => "app_version_unsupported"
  | noCampaignData => "no_campaign_data"
  | decryptFailed => "decrypt_failed"
  | authFailed => "auth_failed"
  | decrypted => "decrypted"

instance : Encode MetaReferrerStatus := ⟨fun s => .str s.text⟩

inductive AdservicesStatus where
  | attributed
  | tokenExpired
  | notAttributed
  | lookupUnavailable
  deriving DecidableEq

def AdservicesStatus.text : AdservicesStatus → String
  | attributed => "attributed"
  | tokenExpired => "token_expired"
  | notAttributed => "not_attributed"
  | lookupUnavailable => "lookup_unavailable"

instance : Encode AdservicesStatus := ⟨fun s => .str s.text⟩

/-- The models an attribution may rest on. -/
inductive AttributionModel where
  | none
  | lastClick
  | viewThrough
  | providerReported
  | aggregate
  deriving DecidableEq

def AttributionModel.text : AttributionModel → String
  | none => "none"
  | lastClick => "last_click"
  | viewThrough => "view_through"
  | providerReported => "provider_reported"
  | aggregate => "aggregate"

instance : Encode AttributionModel := ⟨fun m => .str m.text⟩

inductive ProviderStrategy where
  | clickThrough
  | viewThrough
  | modeled
  | selfAttributedNetwork
  | organic
  | unattributed
  deriving DecidableEq

def ProviderStrategy.text : ProviderStrategy → String
  | clickThrough => "click_through"
  | viewThrough => "view_through"
  | modeled => "modeled"
  | selfAttributedNetwork => "self_attributed_network"
  | organic => "organic"
  | unattributed => "unattributed"

instance : Encode ProviderStrategy := ⟨fun s => .str s.text⟩

inductive OpenSource where
  | androidAppLink
  | iosUniversalLink
  | customScheme
  | androidDeferredReferrer
  deriving DecidableEq

def OpenSource.text : OpenSource → String
  | androidAppLink => "android_app_link"
  | iosUniversalLink => "ios_universal_link"
  | customScheme => "custom_scheme"
  | androidDeferredReferrer => "android_deferred_referrer"

instance : Encode OpenSource := ⟨fun s => .str s.text⟩

inductive CoarseConversionValue where
  | low
  | medium
  | high
  deriving DecidableEq

def CoarseConversionValue.text : CoarseConversionValue → String
  | low => "low"
  | medium => "medium"
  | high => "high"

instance : Encode CoarseConversionValue := ⟨fun v => .str v.text⟩

/-- What an imported record says about its provider. -/
structure ImportContext where
  provider : String
  providerAttributed : Bool
  providerAttributionStrategy : ProviderStrategy
  providerInstallRef : Option Identifier
  providerClickRef : Option Identifier
  providerCampaignRef : Option Identifier
  providerNetwork : Option Identifier
  providerCountry : Option Identifier
  providerConfirmedAt : Option Timestamp
  other : List (String × Json)

instance : Encode ImportContext := ⟨fun c => .object ([
  member "provider" c.provider,
  member "provider_attributed" c.providerAttributed,
  member "provider_attribution_strategy" c.providerAttributionStrategy,
  optional "provider_install_ref" c.providerInstallRef,
  optional "provider_click_ref" c.providerClickRef,
  optional "provider_campaign_ref" c.providerCampaignRef,
  optional "provider_network" c.providerNetwork,
  optional "provider_country" c.providerCountry,
  optional "provider_confirmed_at" c.providerConfirmedAt]
  ++ c.other.map (fun m => (m.1, some m.2)))⟩

/-- The Meta install referrer after decryption. -/
structure MetaReferrerContext where
  attributionModel : AttributionModel
  other : List (String × Json)

instance : Encode MetaReferrerContext := ⟨fun c => .object (
  member "attribution_model" c.attributionModel :: c.other.map (fun m => (m.1, some m.2)))⟩

/-- The AdServices lookup of an install. -/
structure AdservicesContext where
  status : AdservicesStatus
  other : List (String × Json)

instance : Encode AdservicesContext := ⟨fun c => .object (
  member "status" c.status :: c.other.map (fun m => (m.1, some m.2)))⟩

inductive ConsentState where
  | granted
  | denied
  | withdrawn
  | notRequired
  | unknown
  deriving DecidableEq

def ConsentState.text : ConsentState → String
  | granted => "granted"
  | denied => "denied"
  | withdrawn => "withdrawn"
  | notRequired => "not_required"
  | unknown => "unknown"

instance : Encode ConsentState := ⟨fun s => .str s.text⟩

/-- The decimal digits of an amount, as the contract writes amounts. -/
structure Digits where
  digits : List (Fin 10)

/-- The number written by decimal digits. -/
def Digits.value (d : Digits) : Nat := d.digits.foldl (fun n c => 10 * n + c) 0

instance : Encode Digits :=
  ⟨fun d => .str (String.ofList (d.digits.map (fun c => digitChar c)))⟩

/-- An amount of money. -/
structure Money where
  amountUnscaled : Digits
  amountScale : Nat
  currency : String

/-- The members of an amount inside the object that carries it. -/
def Money.members (m : Money) : List (String × Option Json) := [
  member "amount_unscaled" m.amountUnscaled,
  member "amount_scale" m.amountScale,
  member "currency" m.currency]

/-- An event payload: the members some rule reads, and under `other` the
rest, which only the digests see. -/
structure Payload where
  eventName : EventName
  installationId : Option Identifier := none
  priorInstallationId : Option Identifier := none
  installType : Option InstallType := none
  clickId : Option Identifier := none
  campaignId : Option Identifier := none
  network : Option Identifier := none
  adNetwork : Option String := none
  country : Option Identifier := none
  remoteClickRef : Option Identifier := none
  redirectorClickAt : Option Timestamp := none
  redirectorTimeStatus : Option TimeStatus := none
  botPrefetch : Option Bool := none
  replaySuspected : Option Bool := none
  referrerStatus : Option ReferrerStatus := none
  thirdPartyReferrerClassification : Option ThirdPartyReferrer := none
  referrerClickAtServer : Option Timestamp := none
  referrerClickAtServerStatus : Option TimeStatus := none
  installBeginAtServer : Option Timestamp := none
  installBeginAtServerStatus : Option TimeStatus := none
  metaReferrerStatus : Option MetaReferrerStatus := none
  metaReferrerContext : Option MetaReferrerContext := none
  adservicesContext : Option AdservicesContext := none
  importContext : Option ImportContext := none
  subjectScope : Option SubjectScope := none
  money : Option Money := none
  anchorSource : Option String := none
  correctionTargetRecordId : Option Identifier := none
  signatureVerified : Option Bool := none
  didWin : Option Bool := none
  sourceIdentifier : Option String := none
  conversionValue : Option Nat := none
  coarseConversionValue : Option CoarseConversionValue := none
  openSource : Option OpenSource := none
  linkSlug : Option Identifier := none
  consentState : Option ConsentState := none
  other : List (String × Json) := []

instance : Encode Payload := ⟨fun p => .object ([
  member "event_name" p.eventName,
  optional "installation_id" p.installationId,
  optional "prior_installation_id" p.priorInstallationId,
  optional "install_type" p.installType,
  optional "click_id" p.clickId,
  optional "campaign_id" p.campaignId,
  optional "network" p.network,
  optional "ad_network" p.adNetwork,
  optional "country" p.country,
  optional "remote_click_ref" p.remoteClickRef,
  optional "redirector_click_at" p.redirectorClickAt,
  optional "redirector_time_status" p.redirectorTimeStatus,
  optional "bot_prefetch" p.botPrefetch,
  optional "replay_suspected" p.replaySuspected,
  optional "referrer_status" p.referrerStatus,
  optional "third_party_referrer_classification" p.thirdPartyReferrerClassification,
  optional "referrer_click_at_server" p.referrerClickAtServer,
  optional "referrer_click_at_server_status" p.referrerClickAtServerStatus,
  optional "install_begin_at_server" p.installBeginAtServer,
  optional "install_begin_at_server_status" p.installBeginAtServerStatus,
  optional "meta_referrer_status" p.metaReferrerStatus,
  optional "meta_referrer_context" p.metaReferrerContext,
  optional "adservices_context" p.adservicesContext,
  optional "import_context" p.importContext,
  optional "subject_scope" p.subjectScope,
  optional "anchor_source" p.anchorSource,
  optional "correction_target_record_id" p.correctionTargetRecordId,
  optional "signature_verified" p.signatureVerified,
  optional "did_win" p.didWin,
  optional "source_identifier" p.sourceIdentifier,
  optional "conversion_value" p.conversionValue,
  optional "coarse_conversion_value" p.coarseConversionValue,
  optional "open_source" p.openSource,
  optional "link_slug" p.linkSlug,
  optional "consent_state" p.consentState]
  ++ (p.money.elim [] Money.members) ++ p.other.map (fun m => (m.1, some m.2)))⟩

/-- A delivered record.  Its event name is the one of its payload: the
contract selects the payload's schema by it. -/
structure Record where
  recordId : Identifier
  deliveryId : Identifier
  tenantId : Identifier
  appId : Identifier
  producer : Producer
  producerVersion : String
  producerVariant : Option Identifier := none
  wrapperVersion : Option Identifier := none
  eventId : Identifier
  schemaVersion : String
  occurredAt : Timestamp
  occurredAtSource : String
  receivedAt : Timestamp
  payload : Payload
  late : Option Bool := none
  subjectScope : Option SubjectScope := none
  processingPurposeId : Option ProcessingPurpose := none
  processingSequence : Nat
  integrityVerdict : Option Json := none
  alternativeLegalBasisId : Option Identifier := none

def contractVersion : String := "0.4.0"

def Record.eventName (r : Record) : EventName := r.payload.eventName

instance : Encode Record := ⟨fun r => .object [
  member "contract_version" contractVersion,
  member "record_id" r.recordId,
  member "delivery_id" r.deliveryId,
  member "tenant_id" r.tenantId,
  member "app_id" r.appId,
  member "producer" r.producer,
  member "producer_version" r.producerVersion,
  optional "producer_variant" r.producerVariant,
  optional "wrapper_version" r.wrapperVersion,
  member "event_id" r.eventId,
  member "event_name" r.eventName,
  member "schema_version" r.schemaVersion,
  member "occurred_at" r.occurredAt,
  member "occurred_at_source" r.occurredAtSource,
  member "received_at" r.receivedAt,
  member "payload" r.payload,
  optional "late" r.late,
  optional "subject_scope" r.subjectScope,
  optional "processing_purpose_id" r.processingPurposeId,
  member "processing_sequence" r.processingSequence,
  optional "integrity_verdict" r.integrityVerdict,
  optional "alternative_legal_basis_id" r.alternativeLegalBasisId]⟩

/-- A truth test of an optional flag. -/
def truthy (flag : Option Bool) : Bool := flag = some true

structure ProcessingPurposePolicy where
  processingPurposeId : ProcessingPurpose
  consentRequired : Bool
  policyVersion : String

structure Withdrawal where
  processingPurposeId : ProcessingPurpose
  withdrawalRecognizedAt : Timestamp
  withdrawalRecognizedSequence : Nat

structure AlternativeLegalBasis where
  alternativeLegalBasisId : Identifier
  processingPurposeId : ProcessingPurpose
  policyVersion : String
  effectiveAt : Timestamp

structure TimestampStalePolicy where
  before : Timestamp
  authority : String
  policyVersion : String
  policyDigest : String

structure ClickInjectionPolicy where
  thresholdSeconds : Rat
  authority : String
  policyVersion : String
  policyDigest : String

inductive LinkStatus where
  | active
  | inactive
  | unknown
  deriving DecidableEq

structure DeepLinkResolution where
  status : LinkStatus
  trackingLinkId : Option Identifier := none
  campaignId : Option Identifier := none
  installAttributionClickId : Option Identifier := none

inductive FraudAction where
  | allow
  | flag
  | exclude
  | quarantine
  deriving DecidableEq

def FraudAction.text : FraudAction → String
  | allow => "allow"
  | flag => "flag"
  | exclude => "exclude"
  | quarantine => "quarantine"

instance : Encode FraudAction := ⟨fun a => .str a.text⟩

structure FraudRule where
  id : String
  inputs : List String
  action : FraudAction

instance : Encode FraudRule := ⟨fun r => .object [
  member "id" r.id, member "inputs" r.inputs, member "action" r.action]⟩

/-- A parameter of a rule bundle's layer. -/
inductive FraudParameter where
  | text (value : String)
  | number (value : Rat)
  | flag (value : Bool)

instance : Encode FraudParameter := ⟨fun
  | .text s => .str s
  | .number q => .num q
  | .flag b => .bool b⟩

structure FraudLayers where
  base : List (String × FraudParameter)
  operator : Option (List (String × FraudParameter)) := none
  privateDigest : Option String := none

def encodeLayer (layer : List (String × FraudParameter)) : Json :=
  .obj (layer.map (fun p => (p.1, toJson p.2)))

instance : Encode FraudLayers := ⟨fun l => .object [
  ("base", some (encodeLayer l.base)),
  ("operator", l.operator.map encodeLayer),
  ("private", l.privateDigest.map (fun d => .object [member "digest" d]))]⟩

/-- A rule bundle.  The digest of its definition and the hash of its
canonical fields are taken over the same four members. -/
structure FraudBundle where
  id : Identifier
  version : Identifier
  layers : FraudLayers
  rules : List FraudRule

instance : Encode FraudBundle := ⟨fun b => .object [
  member "id" b.id, member "version" b.version, member "layers" b.layers,
  member "rules" b.rules]⟩

/-- A registered bundle as the ingress binds it to a server context. -/
structure FraudRuleBundleContext where
  ruleBundleId : Identifier
  ruleBundleVersion : Identifier
  ruleBundleHash : String
  definitionDigest : String
  definition : FraudBundle

/-- The context the authenticated ingress attaches to a record. -/
structure ServerContext where
  tenantId : Identifier
  appId : Identifier
  receivedAt : Timestamp
  policyDigest : String
  deepLinkResolution : Option DeepLinkResolution := none
  processingPurposes : List ProcessingPurposePolicy := []
  withdrawals : List Withdrawal := []
  alternativeLegalBases : List AlternativeLegalBasis := []
  timestampStalePolicy : Option TimestampStalePolicy := none
  clickInjectionPolicy : Option ClickInjectionPolicy := none
  fraudEnabled : Option Bool := none
  fraudRuleBundle : Option FraudRuleBundleContext := none
  fraudActionsEnabled : Option Bool := none

/-- One delivery: a record, the context of its ingress and the batch it
came in. -/
structure Attempt where
  server : ServerContext
  record : Record
  batchId : Identifier

/-- A tenant and one of its apps. -/
structure Scope where
  tenantId : Identifier
  appId : Identifier
  deriving DecidableEq

/-- The authenticated scope of a delivery. -/
def Attempt.scope (a : Attempt) : Scope := ⟨a.server.tenantId, a.server.appId⟩

/-- A record inside a scope. -/
structure EvidenceKey where
  scope : Scope
  recordId : Identifier
  deriving DecidableEq

/-- `attemptEvidenceKey`. -/
def Attempt.evidenceKey (a : Attempt) : EvidenceKey := ⟨a.scope, a.record.recordId⟩

/-- The logical identity of an event: its authenticated scope, its producer
and the producer's event id. -/
structure LogicalKey where
  scope : Scope
  producer : Producer
  eventId : Identifier
  deriving DecidableEq

/-- `scopeKey`: the logical key of a delivery. -/
def scopeKey (a : Attempt) : LogicalKey := ⟨a.scope, a.record.producer, a.record.eventId⟩

end OpenMasu
