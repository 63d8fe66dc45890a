import OpenMasu.CandidateOrder
import OpenMasu.PartialList

/-!
# The ingestion decision of a delivery

Each delivery is accepted or rejected on its own checks — authenticated
scope, record identity, consent, staleness, the aggregate join — and
classified against the first delivery of its logical key.  A timestamp that
cannot be read ends the decision with a failure, which the caller turns into
a rejection.

* `consentDecision` — does consent let the record pass;
* `duplicateResolution` — unique, duplicate, conflict or collision;
* `decide` — the decision, or a failure;
* `decisionsOf` — the decisions of all deliveries, with unreadable
  timestamps caught;
* `decisionFor` — the decision looked up again for a delivery.
-/

namespace OpenMasu

variable [Digest]

inductive IngestionStatus where
  | accepted
  | rejected
  deriving DecidableEq

def IngestionStatus.text : IngestionStatus → String
  | accepted => "accepted"
  | rejected => "rejected"

instance : Encode IngestionStatus := ⟨fun s => .str s.text⟩

inductive DuplicateResolution where
  | unique
  | duplicateDelivery
  | eventIdConflict
  | recordIdCollision
  deriving DecidableEq

def DuplicateResolution.text : DuplicateResolution → String
  | unique => "unique"
  | duplicateDelivery => "duplicate_delivery"
  | eventIdConflict => "event_id_conflict"
  | recordIdCollision => "record_id_collision"

instance : Encode DuplicateResolution := ⟨fun r => .str r.text⟩

inductive RejectionReason where
  | clientScopeMismatch
  | recordIdCollision
  | consentWithdrawn
  | timestampStale
  | aggregateInstallationJoinForbidden
  | eventIdConflict
  | timestampInvalid
  | payloadSchemaInvalid
  deriving DecidableEq

def RejectionReason.text : RejectionReason → String
  | clientScopeMismatch => "client_scope_mismatch"
  | recordIdCollision => "record_id_collision"
  | consentWithdrawn => "consent_withdrawn"
  | timestampStale => "timestamp_stale"
  | aggregateInstallationJoinForbidden => "aggregate_installation_join_forbidden"
  | eventIdConflict => "event_id_conflict"
  | timestampInvalid => "timestamp_invalid"
  | payloadSchemaInvalid => "payload_schema_invalid"

instance : Encode RejectionReason := ⟨fun r => .str r.text⟩

inductive Timeliness where
  | onTime
  | late
  deriving DecidableEq

def Timeliness.text : Timeliness → String
  | onTime => "on_time"
  | late => "late"

instance : Encode Timeliness := ⟨fun t => .str t.text⟩

inductive PayloadDisposition where
  | discarded
  | «protected»
  deriving DecidableEq

def PayloadDisposition.text : PayloadDisposition → String
  | discarded => "discarded"
  | .protected => "protected"

instance : Encode PayloadDisposition := ⟨fun d => .str d.text⟩

/-- What a decision records about consent. -/
structure ConsentFields where
  processingPurposeId : Option ProcessingPurpose
  consentEvaluationPolicyVersion : String
  withdrawalRecognizedAt : Option Timestamp := none
  consentDecisionReasonCode : ConsentReason
  alternativeLegalBasis : Option (Identifier × String) := none

structure ConsentDecision where
  allowed : Bool
  fields : ConsentFields

/-- The policy a stale delivery was turned away under. -/
structure Staleness where
  policyVersion : String
  policyDigest : String
  authority : String

structure Decision where
  recordId : Identifier
  canonicalRecordId : Option Identifier := none
  deliveryId : Identifier
  tenantId : Identifier
  appId : Identifier
  ingestionStatus : IngestionStatus
  duplicateResolution : DuplicateResolution
  timeliness : Timeliness
  clockSkewSuspected : Bool
  payloadDisposition : PayloadDisposition
  consent : ConsentFields
  staleness : Option Staleness := none
  reasonCode : Option RejectionReason := none

/-- The key decisions are stored under: the whole delivery, by its ids and
the digest of its record. -/
structure DecisionKey where
  batchId : Identifier
  scope : Scope
  deliveryId : Identifier
  recordId : Identifier
  schemaVersion : String
  digest : String
  deriving DecidableEq

/-- `attemptDecisionKey`. -/
def attemptDecisionKey (a : Attempt) : DecisionKey :=
  ⟨a.batchId, a.scope, a.record.deliveryId, a.record.recordId, a.record.schemaVersion,
   sha256 (toJson a.record)⟩

/-- `isControlEvent`: consent and privacy events are never held back. -/
def isControlEvent (r : Record) : Bool :=
  r.eventName = .consentChanged || r.eventName = .privacyControl

/-- The purpose policy of a record in its server context. -/
def purposePolicy (a : Attempt) : Option ProcessingPurposePolicy :=
  a.server.processingPurposes.find? (fun p => some p.processingPurposeId = a.record.processingPurposeId)

/-- The withdrawal a record's purpose is under. -/
def withdrawalOf (a : Attempt) : Option Withdrawal :=
  a.server.withdrawals.find? (fun w => some w.processingPurposeId = a.record.processingPurposeId)

/-- The record's purpose needs consent. -/
def consentRequired (a : Attempt) : Bool :=
  a.record.processingPurposeId.isSome && ((purposePolicy a).elim false (·.consentRequired)) &&
    !isControlEvent a.record

/-- The record comes before the withdrawal of its purpose, or there is
none. -/
def beforeWithdrawal (a : Attempt) : Bool :=
  (withdrawalOf a).elim true
    (fun w => a.record.processingSequence < w.withdrawalRecognizedSequence)

/-- A configured legal basis covers the record. -/
def basisApplies (a : Attempt) (entry : AlternativeLegalBasis) : Except Failure Bool :=
  if some entry.alternativeLegalBasisId = a.record.alternativeLegalBasisId ∧
      some entry.processingPurposeId = a.record.processingPurposeId then do
    let effective ← time entry.effectiveAt "effective_at"
    let received ← time a.record.receivedAt "received_at"
    return effective ≤ received
  else .ok false

/-- What every consent decision records. -/
def consentBase (a : Attempt) (reason : ConsentReason) : ConsentFields where
  processingPurposeId := a.record.processingPurposeId
  consentEvaluationPolicyVersion := (purposePolicy a).elim "not-applicable" (·.policyVersion)
  withdrawalRecognizedAt := (withdrawalOf a).map (·.withdrawalRecognizedAt)
  consentDecisionReasonCode := reason

/-- `consentDecision`: does consent let the record pass, and why. -/
def consentDecision (a : Attempt) : Except Failure ConsentDecision :=
  if !consentRequired a then .ok ⟨true, consentBase a .consentNotRequired⟩
  else if beforeWithdrawal a then .ok ⟨true, consentBase a .consentValidBeforeWithdrawal⟩
  else do
    match ← PartialList.search (basisApplies a) a.server.alternativeLegalBases with
    | some basis =>
        return ⟨true, { consentBase a .documentedAlternativeLegalBasis with
          alternativeLegalBasis := some (basis.alternativeLegalBasisId, basis.policyVersion) }⟩
    | none => return ⟨false, consentBase a .consentWithdrawn⟩

def timeliness (r : Record) : Timeliness := if truthy r.late then .late else .onTime

/-- `timestampInvalidDecision`: the rejection of a delivery whose decision
met a timestamp it could not read. -/
def timestampInvalidDecision (a : Attempt) : Decision where
  recordId := a.record.recordId
  deliveryId := a.record.deliveryId
  tenantId := a.server.tenantId
  appId := a.server.appId
  ingestionStatus := .rejected
  duplicateResolution := .unique
  timeliness := .onTime
  clockSkewSuspected := false
  payloadDisposition := .discarded
  consent := consentBase a
    (if !consentRequired a then .consentNotRequired
     else if beforeWithdrawal a then .consentValidBeforeWithdrawal
     else .consentWithdrawn)
  reasonCode := some .timestampInvalid

/-- `preIngestionDecision`. -/
def preIngestionDecision (item : PreIngestionRejection) : Decision where
  recordId := item.recordId
  deliveryId := item.deliveryId
  tenantId := item.tenantId
  appId := item.appId
  ingestionStatus := .rejected
  duplicateResolution := .unique
  timeliness := .onTime
  clockSkewSuspected := false
  payloadDisposition := .discarded
  consent := {
    processingPurposeId := item.processingPurposeId
    consentEvaluationPolicyVersion := item.consentEvaluationPolicyVersion
    consentDecisionReasonCode := item.consentDecisionReasonCode }
  reasonCode := some .payloadSchemaInvalid

/-- The canonical fields of a staleness policy. -/
def stalePolicyJson (p : TimestampStalePolicy) : Json := .object [
  member "before" p.before, member "authority" p.authority,
  member "policy_version" p.policyVersion]

/-- The canonical fields of a click-injection policy. -/
def injectionPolicyJson (thresholdSeconds : Rat) (authority policyVersion : String) : Json :=
  .object [member "threshold_seconds" thresholdSeconds, member "authority" authority,
    member "policy_version" policyVersion]

/-- `clickInjectionPolicyDigest`. -/
def clickInjectionPolicyDigest (thresholdSeconds : Rat) (authority policyVersion : String) :
    String :=
  sha256 (injectionPolicyJson thresholdSeconds authority policyVersion)

/-- The digest of the staleness policy matches its canonical fields. -/
def checkStalePolicy : Option TimestampStalePolicy → Except Failure Unit
  | none => .ok ()
  | some p =>
      if p.policyDigest = sha256 (stalePolicyJson p) then .ok ()
      else .error (.error
        "timestamp_stale_policy.policy_digest does not match its canonical policy fields")

/-- The digest of the click-injection policy matches its canonical fields. -/
def checkInjectionPolicy : Option ClickInjectionPolicy → Except Failure Unit
  | none => .ok ()
  | some p =>
      if p.policyDigest = clickInjectionPolicyDigest p.thresholdSeconds p.authority p.policyVersion
      then .ok ()
      else .error (.error
        "click_injection_policy.policy_digest does not match its canonical policy fields")

/-- The digests of a context's policies match their canonical fields. -/
def checkPolicies (server : ServerContext) : Except Failure Unit := do
  checkStalePolicy server.timestampStalePolicy
  checkInjectionPolicy server.clickInjectionPolicy

/-- The first delivery of the logical key.  A delivery is among those of its
own key, so the lookup never comes back empty. -/
def firstOf (candidates : CandidateProvider) (a : Attempt) : Attempt :=
  (candidates.byLogicalScope a).head?.getD a

/-- The classification of a delivery against its record id and against the
first delivery of its logical key. -/
def duplicateResolution (candidates : CandidateProvider) (a : Attempt) : DuplicateResolution :=
  let first := firstOf candidates a
  if (candidates.byRecordId a.record.recordId).length > 1 then .recordIdCollision
  else if attemptDecisionKey first = attemptDecisionKey a then .unique
  else if sha256 (toJson first.record.payload) = sha256 (toJson a.record.payload)
    then .duplicateDelivery
  else .eventIdConflict

/-- The record names the scope its ingress authenticated. -/
def scopeMatches (a : Attempt) : Bool :=
  a.record.tenantId = a.server.tenantId && a.record.appId = a.server.appId

/-- The record is older than the context's staleness bound. -/
def isStale (a : Attempt) : Except Failure Bool :=
  match a.server.timestampStalePolicy with
  | none => .ok false
  | some p => do
      let occurred ← time a.record.occurredAt "occurred_at"
      let before ← time p.before "timestamp_stale_policy.before"
      return occurred < before

/-- An aggregate record that names an installation. -/
def isAggregateJoin (r : Record) : Bool :=
  r.subjectScope = some .aggregate && r.payload.installationId.isSome

/-- The first check a delivery fails, if any. -/
def rejectionReason (a : Attempt) (resolution : DuplicateResolution) (consentAllowed : Bool) :
    Except Failure (Option RejectionReason) :=
  if !scopeMatches a then .ok (some .clientScopeMismatch)
  else if resolution = .recordIdCollision then .ok (some .recordIdCollision)
  else if !consentAllowed then .ok (some .consentWithdrawn)
  else do
    if ← isStale a then return some .timestampStale
    else if isAggregateJoin a.record then return some .aggregateInstallationJoinForbidden
    else if resolution = .eventIdConflict then return some .eventIdConflict
    else return none

/-- The record occurred more than five minutes after its receipt. -/
def clockSkewSuspected (r : Record) : Except Failure Bool := do
  let occurred ← time r.occurredAt "occurred_at"
  let received ← time r.receivedAt "received_at"
  return occurred > received + 300000

/-- The record a delivery counts as: its own, or the first one's. -/
def canonicalRecordId (candidates : CandidateProvider) (a : Attempt) : Option Identifier :=
  match duplicateResolution candidates a with
  | .recordIdCollision => none
  | .unique => some a.record.recordId
  | _ => some (firstOf candidates a).record.recordId

/-- The decision returned for the outcome of the checks. -/
def decisionRecord (candidates : CandidateProvider) (a : Attempt) (consent : ConsentFields)
    (reason : Option RejectionReason) (skew : Bool) : Decision where
  recordId := a.record.recordId
  canonicalRecordId := canonicalRecordId candidates a
  deliveryId := a.record.deliveryId
  tenantId := a.server.tenantId
  appId := a.server.appId
  ingestionStatus := if reason.isSome then .rejected else .accepted
  duplicateResolution := duplicateResolution candidates a
  timeliness := timeliness a.record
  clockSkewSuspected := skew
  payloadDisposition :=
    if reason.isSome && reason != some .eventIdConflict then .discarded else .protected
  consent := consent
  staleness := if reason = some .timestampStale then
      a.server.timestampStalePolicy.map
        (fun p => ⟨p.policyVersion, p.policyDigest, p.authority⟩)
    else none
  reasonCode := reason

/-- `decide`: the ingestion decision of a delivery. -/
def decide (a : Attempt) (candidates : CandidateProvider) : Except Failure Decision := do
  checkPolicies a.server
  let consent ← consentDecision a
  let reason ← rejectionReason a (duplicateResolution candidates a) consent.allowed
  let skew ← clockSkewSuspected a.record
  return decisionRecord candidates a consent.fields reason skew

/-- A decision with unreadable timestamps turned into a rejection. -/
def decideOrReject (candidates : CandidateProvider) (a : Attempt) : Except Failure Decision :=
  match decide a candidates with
  | .error (.timestampInvalid _ _) => .ok (timestampInvalidDecision a)
  | other => other

/-- The decisions of all deliveries, in order. -/
def decisionsOf (all : List Attempt) (candidates : CandidateProvider) :
    Except Failure (List Decision) :=
  PartialList.traverse (decideOrReject candidates) all

/-- Decisions by delivery. -/
abbrev Decisions := InsertionMap DecisionKey Decision

/-- The map decisions are read back from. -/
def decisionMap (all : List Attempt) (list : List Decision) : Decisions :=
  .ofList ((all.map attemptDecisionKey).zip list)

/-- `decisionFor`: the decision of a delivery.  Every delivery has one
(`decisionFor_isSome`), so the source's `missing decision` never happens. -/
def decisionFor (decisions : Decisions) (a : Attempt) : Option Decision :=
  decisions.get (attemptDecisionKey a)

/-- The delivery was accepted. -/
def isAccepted (decisions : Decisions) (a : Attempt) : Bool :=
  (decisionFor decisions a).any (·.ingestionStatus = .accepted)

/-- The delivery was accepted as the first of its logical key. -/
def isAcceptedUnique (decisions : Decisions) (a : Attempt) : Bool :=
  (decisionFor decisions a).any
    (fun d => d.ingestionStatus = .accepted && d.duplicateResolution = .unique)

end OpenMasu
