import OpenMasu.InputChecks

/-!
# Initial attributions

Accepted installs, Apple postbacks and deep-link opens receive an attribution
each.  An install is credited by the first source that speaks for it: the
importing provider, the Meta referrer, AdServices, the referrer status, and
last the click it names.

* `makeAttribution` — of an install;
* `makeAggregatePostbackAttribution` — of an Apple postback;
* `makeDeepLinkAttribution` — of a deep-link open;
* `initialAttributions` — all of them, ordered.
-/

namespace OpenMasu

variable [Digest]

inductive AttributionMethod where
  | installReferrer
  | imported
  | skadnetwork
  | adattributionkit
  | metaInstallReferrer
  | appleAdservices
  | deepLink
  | none
  deriving DecidableEq

def AttributionMethod.text : AttributionMethod → String
  | installReferrer => "install_referrer"
  | imported => "imported"
  | skadnetwork => "skadnetwork"
  | adattributionkit => "adattributionkit"
  | metaInstallReferrer => "meta_install_referrer"
  | appleAdservices => "apple_adservices"
  | deepLink => "deep_link"
  | none => "none"

instance : Encode AttributionMethod := ⟨fun m => .str m.text⟩

inductive AttributionReason where
  | validInstallReferrer
  | noReferrer
  | noFirstPartyReferrer
  | foreignReferrerUnresolved
  | unknownClickId
  | ambiguousClickId
  | botPrefetch
  | windowExpired
  | authoritativeTimeMissing
  | authoritativeTimeInvalid
  | installReferrerUnsupported
  | installReferrerUnavailable
  | platformReferrerNotAvailable
  | providerUnattributed
  | providerModeledConversion
  | providerTimeAuthorityUnavailable
  | providerAttributed
  | providerOrganic
  | metaReferrerDecrypted
  | metaReferrerDecryptFailed
  | adservicesAttributed
  | adservicesTokenExpired
  | adservicesNotAttributed
  | adservicesLookupUnavailable
  | skanPostbackVerified
  | skanSignatureInvalid
  | postbackNotWinner
  | crowdAnonymitySuppressed
  | conversionValueNull
  | deepLinkInstallClickReused
  | deepLinkOpenAttributed
  | deepLinkLinkInactive
  | deepLinkUnknownLink
  | fraudExcluded
  deriving DecidableEq

def AttributionReason.text : AttributionReason → String
  | validInstallReferrer => "valid_install_referrer"
  | noReferrer => "no_referrer"
  | noFirstPartyReferrer => "no_first_party_referrer"
  | foreignReferrerUnresolved => "foreign_referrer_unresolved"
  | unknownClickId => "unknown_click_id"
  | ambiguousClickId => "ambiguous_click_id"
  | botPrefetch => "bot_prefetch"
  | windowExpired => "window_expired"
  | authoritativeTimeMissing => "authoritative_time_missing"
  | authoritativeTimeInvalid => "authoritative_time_invalid"
  | installReferrerUnsupported => "install_referrer_unsupported"
  | installReferrerUnavailable => "install_referrer_unavailable"
  | platformReferrerNotAvailable => "platform_referrer_not_available"
  | providerUnattributed => "provider_unattributed"
  | providerModeledConversion => "provider_modeled_conversion"
  | providerTimeAuthorityUnavailable => "provider_time_authority_unavailable"
  | providerAttributed => "provider_attributed"
  | providerOrganic => "provider_organic"
  | metaReferrerDecrypted => "meta_referrer_decrypted"
  | metaReferrerDecryptFailed => "meta_referrer_decrypt_failed"
  | adservicesAttributed => "adservices_attributed"
  | adservicesTokenExpired => "adservices_token_expired"
  | adservicesNotAttributed => "adservices_not_attributed"
  | adservicesLookupUnavailable => "adservices_lookup_unavailable"
  | skanPostbackVerified => "skan_postback_verified"
  | skanSignatureInvalid => "skan_signature_invalid"
  | postbackNotWinner => "postback_not_winner"
  | crowdAnonymitySuppressed => "crowd_anonymity_suppressed"
  | conversionValueNull => "conversion_value_null"
  | deepLinkInstallClickReused => "deep_link_install_click_reused"
  | deepLinkOpenAttributed => "deep_link_open_attributed"
  | deepLinkLinkInactive => "deep_link_link_inactive"
  | deepLinkUnknownLink => "deep_link_unknown_link"
  | fraudExcluded => "fraud_excluded"

instance : Encode AttributionReason := ⟨fun r => .str r.text⟩

inductive Finality where
  | provisional
  | final
  | superseded
  deriving DecidableEq

def Finality.text : Finality → String
  | provisional => "provisional"
  | final => "final"
  | superseded => "superseded"

instance : Encode Finality := ⟨fun f => .str f.text⟩

structure EvidenceRef where
  tenantId : Identifier
  appId : Identifier
  ref : Identifier
  lifecycleStatus : LifecycleStatus

instance : Encode EvidenceRef := ⟨fun e => .object [
  member "tenant_id" e.tenantId,
  member "app_id" e.appId,
  member "ref" e.ref,
  member "lifecycle_status" e.lifecycleStatus,
  member "access_class" "protected"]⟩

structure Attribution where
  attributionId : String
  tenantId : Identifier
  appId : Identifier
  subjectScope : SubjectScope
  subjectRef : Option String
  status : AttributionStatus
  method : AttributionMethod
  model : AttributionModel
  reasonCode : AttributionReason
  evidenceRefs : List EvidenceRef
  effectiveAt : Timestamp
  decidedAt : Timestamp
  inputCutoffAt : Timestamp
  finality : Finality
  ruleBundleId : String
  ruleBundleVersion : String
  ruleBundleHash : String
  fraudDecisionRef : Option String := none
  supersedesAttributionId : Option String := none

def Attribution.scope (a : Attribution) : Scope := ⟨a.tenantId, a.appId⟩

instance : Encode Attribution := ⟨fun a => .object [
  member "attribution_id" a.attributionId,
  member "tenant_id" a.tenantId,
  member "app_id" a.appId,
  member "subject_scope" a.subjectScope,
  optional "subject_ref" a.subjectRef,
  member "status" a.status,
  member "method" a.method,
  member "model" a.model,
  member "reason_code" a.reasonCode,
  member "reason_code_version" contractVersion,
  member "evidence_refs" a.evidenceRefs,
  member "effective_at" a.effectiveAt,
  member "decided_at" a.decidedAt,
  member "input_cutoff_at" a.inputCutoffAt,
  member "finality" a.finality,
  member "rule_bundle_id" a.ruleBundleId,
  member "rule_bundle_version" a.ruleBundleVersion,
  member "rule_bundle_hash" a.ruleBundleHash,
  optional "fraud_decision_ref" a.fraudDecisionRef,
  optional "supersedes_attribution_id" a.supersedesAttributionId]⟩

/-- Rule bundles and metric definitions keep their own version. -/
def referenceRuleVersion : String := "0.3.0"

/-- The placeholder hash of the built-in rules. -/
def zeroHash : String := "0000000000000000000000000000000000000000000000000000000000000000"

/-- Evidence inside a scope, with its lifecycle status. -/
def evidenceRef (lifecycle : Lifecycle) (scope : Scope) (ref : Identifier) : EvidenceRef where
  tenantId := scope.tenantId
  appId := scope.appId
  ref := ref
  lifecycleStatus := lifecycleStatus lifecycle ⟨scope, ref⟩

/-- The verdict of one attribution branch. -/
structure Verdict where
  status : AttributionStatus
  method : AttributionMethod
  model : AttributionModel
  reasonCode : AttributionReason
  evidence : Option (List Identifier) := none

/-- `result`: the attribution of an install under a verdict.  When some
evidence is no longer available the attribution is a recalculation of the
one it supersedes. -/
def installAttribution (lifecycle : Lifecycle) (a : Attempt) (v : Verdict) : Attribution :=
  let base := "attr:" ++ a.record.recordId.text
  let evidenceRefs := (v.evidence.getD [a.record.recordId]).map (evidenceRef lifecycle a.scope)
  let recalculated := evidenceRefs.any (fun e => e.lifecycleStatus ≠ .available)
  { attributionId := if recalculated then base ++ ":recalculated" else base
    tenantId := a.server.tenantId
    appId := a.server.appId
    subjectScope := .installationLevel
    subjectRef := a.record.payload.installationId.map (·.text)
    status := v.status
    method := v.method
    model := v.model
    reasonCode := v.reasonCode
    evidenceRefs := evidenceRefs
    effectiveAt := a.record.occurredAt
    decidedAt := a.server.receivedAt
    inputCutoffAt := a.server.receivedAt
    finality := if recalculated then .superseded else .final
    ruleBundleId := "attribution-default"
    ruleBundleVersion := referenceRuleVersion
    ruleBundleHash := zeroHash
    supersedesAttributionId := if recalculated then some base else none }

/-- The accepted redirector clicks an import refers to. -/
def referencedClicks (candidates : CandidateProvider) (decisions : Decisions) (a : Attempt)
    (clickRef : Identifier) : List Attempt :=
  candidates.all.filter (fun c =>
    c.scope = a.scope && c.record.eventName = .click && c.record.producer = .redirector &&
    c.record.payload.remoteClickRef = some clickRef && isAcceptedUnique decisions c)

/-- The verdict on an imported install. -/
def importedVerdict (candidates : CandidateProvider) (decisions : Decisions) (a : Attempt) :
    Option ImportContext → Verdict
  | none => ⟨.unattributed, .imported, .providerReported, .providerUnattributed, none⟩
  | some imported =>
      let clicks := imported.providerClickRef.elim [] (referencedClicks candidates decisions a)
      let evidence := match clicks with
        | [click] => some [click.record.recordId, a.record.recordId]
        | _ => none
      if imported.providerAttributed then
        if imported.providerAttributionStrategy = .modeled then
          ⟨.nonOrganic, .imported, .providerReported, .providerModeledConversion, evidence⟩
        else if imported.providerConfirmedAt.isNone then
          ⟨.nonOrganic, .imported, .providerReported, .providerTimeAuthorityUnavailable, evidence⟩
        else ⟨.nonOrganic, .imported, .providerReported, .providerAttributed, evidence⟩
      else if imported.providerAttributionStrategy = .organic then
        ⟨.organic, .imported, .providerReported, .providerOrganic, none⟩
      else ⟨.unattributed, .imported, .providerReported, .providerUnattributed, none⟩

/-- The accepted clicks an install names. -/
def acceptedClicks (candidates : CandidateProvider) (decisions : Decisions) (a : Attempt) :
    List Attempt :=
  (candidates.clickCandidates a.scope a.record.payload.clickId).filter
    (isAcceptedUnique decisions)

/-- Seven days, the attribution window of a click. -/
def clickWindowMs : Int := 7 * dayMs

/-- The verdict on an install that names one accepted click. -/
def clickVerdict (a click : Attempt) : Except Failure Verdict :=
  let payload := a.record.payload
  let evidence := some [click.record.recordId, a.record.recordId]
  let clickStatus := click.record.payload.redirectorTimeStatus.getD .available
  let installStatus := payload.installBeginAtServerStatus.getD
    (if payload.installBeginAtServer.isSome then .available else .missing)
  if truthy click.record.payload.botPrefetch then
    .ok ⟨.unattributed, .none, .none, .botPrefetch, evidence⟩
  else if clickStatus = .invalid ∨ installStatus = .invalid then
    .ok ⟨.unattributed, .none, .none, .authoritativeTimeInvalid, none⟩
  else if clickStatus ≠ .available ∨ installStatus ≠ .available then
    .ok ⟨.unattributed, .none, .none, .authoritativeTimeMissing, none⟩
  else match click.record.payload.redirectorClickAt, payload.installBeginAtServer with
    | some clickAt, some installAt => do
        let begun ← time installAt "install_begin_at_server"
        let clicked ← time clickAt "redirector_click_at"
        if begun - clicked < 0 ∨ begun - clicked ≥ clickWindowMs then
          return ⟨.unattributed, .none, .none, .windowExpired, none⟩
        else
          return ⟨.nonOrganic, .installReferrer, .lastClick, .validInstallReferrer, evidence⟩
    | _, _ => .ok ⟨.unattributed, .none, .none, .authoritativeTimeMissing, none⟩

/-- The verdict a referrer status settles by itself. -/
def referrerVerdict (p : Payload) : Option Verdict :=
  match p.referrerStatus with
  | some .none => some ⟨.organic, .none, .none, .noReferrer, none⟩
  | some .thirdParty =>
      if p.thirdPartyReferrerClassification = some .playOrganicMarker then
        some ⟨.organic, .none, .none, .noFirstPartyReferrer, none⟩
      else some ⟨.unattributed, .none, .none, .foreignReferrerUnresolved, none⟩
  | some .unsupported => some ⟨.unattributed, .none, .none, .installReferrerUnsupported, none⟩
  | some .unavailable => some ⟨.unattributed, .none, .none, .installReferrerUnavailable, none⟩
  | some .notApplicable =>
      some ⟨.unattributed, .none, .none, .platformReferrerNotAvailable, none⟩
  | _ => none

/-- The verdict of an AdServices lookup. -/
def adservicesVerdict : AdservicesStatus → Verdict
  | .attributed => ⟨.nonOrganic, .appleAdservices, .lastClick, .adservicesAttributed, none⟩
  | .tokenExpired => ⟨.unattributed, .appleAdservices, .lastClick, .adservicesTokenExpired, none⟩
  | .notAttributed => ⟨.unattributed, .appleAdservices, .lastClick, .adservicesNotAttributed, none⟩
  | .lookupUnavailable =>
      ⟨.unattributed, .appleAdservices, .lastClick, .adservicesLookupUnavailable, none⟩

/-- The verdict of the click an install names. -/
def referrerClickVerdict (candidates : CandidateProvider) (decisions : Decisions) (a : Attempt) :
    Except Failure Verdict :=
  match acceptedClicks candidates decisions a with
  | [] => .ok ⟨.unattributed, .none, .none, .unknownClickId, none⟩
  | [click] => clickVerdict a click
  | _ => .ok ⟨.unattributed, .none, .none, .ambiguousClickId, none⟩

/-- The verdict on an install, from the first source that speaks for it. -/
def installVerdict (candidates : CandidateProvider) (decisions : Decisions) (a : Attempt) :
    Except Failure Verdict :=
  let payload := a.record.payload
  if a.record.producer.isImport then
    .ok (importedVerdict candidates decisions a payload.importContext)
  else match payload.metaReferrerStatus with
    | some .decrypted =>
        match payload.metaReferrerContext with
        | some context => .ok ⟨.nonOrganic, .metaInstallReferrer, context.attributionModel,
            .metaReferrerDecrypted, none⟩
        | none => .error (.error "Cannot read properties of undefined (reading 'attribution_model')")
    | some .decryptFailed | some .authFailed =>
        .ok ⟨.unattributed, .metaInstallReferrer,
          payload.metaReferrerContext.elim .lastClick (·.attributionModel),
          .metaReferrerDecryptFailed, none⟩
    | _ =>
        match payload.adservicesContext with
        | some context => .ok (adservicesVerdict context.status)
        | none =>
            match referrerVerdict payload with
            | some verdict => .ok verdict
            | none => referrerClickVerdict candidates decisions a

/-- `makeAttribution`: the attribution of an accepted install. -/
def makeAttribution (candidates : CandidateProvider) (decisions : Decisions)
    (lifecycle : Lifecycle) (a : Attempt) : Except Failure Attribution := do
  return installAttribution lifecycle a (← installVerdict candidates decisions a)

/-- Status and reason of an Apple postback. -/
def postbackVerdict (p : Payload) : AttributionStatus × AttributionReason :=
  if !truthy p.signatureVerified then (.unattributed, .skanSignatureInvalid)
  else if !truthy p.didWin then (.unattributed, .postbackNotWinner)
  else if p.sourceIdentifier.isNone then (.unattributed, .crowdAnonymitySuppressed)
  else if p.conversionValue.isNone && p.coarseConversionValue.isNone then
    (.unattributed, .conversionValueNull)
  else (.nonOrganic, .skanPostbackVerified)

/-- `makeAggregatePostbackAttribution`. -/
def makeAggregatePostbackAttribution (lifecycle : Lifecycle) (a : Attempt) : Attribution :=
  let method : AttributionMethod :=
    if a.record.eventName = .skanPostback then .skadnetwork else .adattributionkit
  { attributionId := "attr:" ++ a.record.recordId.text
    tenantId := a.server.tenantId
    appId := a.server.appId
    subjectScope := .aggregate
    subjectRef := some ("aggregate:" ++ method.text ++ ":" ++ a.record.recordId.text)
    status := (postbackVerdict a.record.payload).1
    method := method
    model := .aggregate
    reasonCode := (postbackVerdict a.record.payload).2
    evidenceRefs := [evidenceRef lifecycle a.scope a.record.recordId]
    effectiveAt := a.record.occurredAt
    decidedAt := a.server.receivedAt
    inputCutoffAt := a.server.receivedAt
    finality := .final
    ruleBundleId := "apple-postback-default"
    ruleBundleVersion := referenceRuleVersion
    ruleBundleHash := zeroHash }

/-- The open names the click that already credited the install. -/
def reusedInstallClick (a : Attempt) : Bool :=
  a.record.payload.openSource = some .androidDeferredReferrer &&
    (a.server.deepLinkResolution.bind (·.installAttributionClickId)) = a.record.payload.clickId

/-- The status of the link an open resolved to. -/
def linkStatus (a : Attempt) : LinkStatus :=
  a.server.deepLinkResolution.elim .unknown (·.status)

/-- The reason given for a deep-link open. -/
def deepLinkReason (a : Attempt) : AttributionReason :=
  if reusedInstallClick a then .deepLinkInstallClickReused
  else match linkStatus a with
    | .active => .deepLinkOpenAttributed
    | .inactive => .deepLinkLinkInactive
    | .unknown => .deepLinkUnknownLink

/-- `makeDeepLinkAttribution`. -/
def makeDeepLinkAttribution (lifecycle : Lifecycle) (a : Attempt) : Attribution where
  attributionId := "attr:engagement:" ++ a.record.recordId.text
  tenantId := a.server.tenantId
  appId := a.server.appId
  subjectScope := .engagementLevel
  subjectRef := some ("engagement:" ++ a.record.recordId.text)
  status := if linkStatus a = .active && !reusedInstallClick a then .nonOrganic
    else .unattributed
  method := .deepLink
  model := .lastClick
  reasonCode := deepLinkReason a
  evidenceRefs := [evidenceRef lifecycle a.scope a.record.recordId]
  effectiveAt := a.record.occurredAt
  decidedAt := a.server.receivedAt
  inputCutoffAt := a.server.receivedAt
  finality := .final
  ruleBundleId := "attribution-default"
  ruleBundleVersion := referenceRuleVersion
  ruleBundleHash := zeroHash

/-- The event is an Apple postback. -/
def isApplePostback (e : EventName) : Bool := e = .skanPostback || e = .adattributionkitPostback

/-- The order attributions are reported in. -/
def sortAttributions (l : List Attribution) : List Attribution :=
  sortByKey l (fun a => [a.attributionId, a.tenantId.text, a.appId.text])

/-- The attributions before any fraud decision. -/
def initialAttributions (candidates : CandidateProvider) (decisions : Decisions)
    (lifecycle : Lifecycle) (accepted : List Attempt) : Except Failure (List Attribution) := do
  let installs ← PartialList.traverse (makeAttribution candidates decisions lifecycle)
    (accepted.filter (fun a => a.record.eventName = .install))
  return sortAttributions (installs ++
    (accepted.filter (fun a => isApplePostback a.record.eventName)).map
      (makeAggregatePostbackAttribution lifecycle) ++
    (accepted.filter (fun a => a.record.eventName = .deepLinkOpen)).map
      (makeDeepLinkAttribution lifecycle))

end OpenMasu
