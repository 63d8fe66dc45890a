import OpenMasu.Decision

/-!
# What an evaluation reports about ingestion

From the decisions follow the delivery rows, the rejections, the raw records
kept as evidence, the logical events, the corrections and the tombstones of
completed privacy requests.

* `privacyIndex` — the lifecycle changes, by record;
* `acceptedUnique` — the deliveries every later stage works on;
* `deliveries`, `rejections`, `rawRecords`, `logicalEvents`, `corrections`,
  `privacyTombstones` — the reported rows.
-/

namespace OpenMasu

variable [Digest]

/-- Lifecycle changes by record. -/
abbrev Lifecycle := InsertionMap EvidenceKey LifecycleStatus

/-- The pairs of completed privacy requests and their affected records. -/
def completedRedactions (input : EvaluatorInput) : List (PrivacyRequest × AffectedRecord) :=
  (input.privacyRequests.filter (fun r => r.status = .completed)).flatMap
    (fun r => r.affectedRecords.map (fun affected => (r, affected)))

/-- `privacyIndex`: retention expirations overwrite privacy requests, later
entries overwrite earlier ones. -/
def privacyIndex (input : EvaluatorInput) : Lifecycle :=
  .ofList (
    (completedRedactions input).map
      (fun e => (⟨e.1.scope, e.2.recordId⟩, e.2.lifecycleStatus)) ++
    input.retentionExpirations.map (fun e => (⟨e.scope, e.recordId⟩, .purged)))

/-- The lifecycle status of a record; one without an entry is available. -/
def lifecycleStatus (lifecycle : Lifecycle) (key : EvidenceKey) : LifecycleStatus :=
  (lifecycle.get key).getD .available

/-- The record has no lifecycle entry. -/
def isUntouched (lifecycle : Lifecycle) (a : Attempt) : Bool :=
  (lifecycle.get a.evidenceKey).isNone

/-- The deliveries accepted as the first of their logical key. -/
def acceptedUnique (decisions : Decisions) (all : List Attempt) : List Attempt :=
  all.filter (isAcceptedUnique decisions)

/-- The conflicting deliveries, kept as evidence. -/
def conflictEvidence (decisions : Decisions) (all : List Attempt) : List Attempt :=
  all.filter (fun a =>
    (decisionFor decisions a).any (fun d => d.reasonCode = some .eventIdConflict))

structure RawRecord where
  recordId : Identifier
  tenantId : Identifier
  appId : Identifier
  producer : Producer
  producerVersion : String
  producerVariant : Option Identifier
  wrapperVersion : Option Identifier
  eventId : Identifier
  deliveryId : Identifier
  eventName : EventName
  schemaVersion : String
  payloadSha256 : String
  occurredAt : Timestamp
  occurredAtSource : String
  receivedAt : Timestamp
  payloadLifecycleStatus : LifecycleStatus
  rawPayloadRef : String
  integrityVerdict : Option Json
  consent : ConsentFields

/-- The consent members of a reported row. -/
def ConsentFields.members (c : ConsentFields) : List (String × Option Json) := [
  optional "processing_purpose_id" c.processingPurposeId,
  member "consent_evaluation_policy_version" c.consentEvaluationPolicyVersion,
  member "consent_decision_reason_code" c.consentDecisionReasonCode,
  optional "withdrawal_recognized_at" c.withdrawalRecognizedAt,
  optional "alternative_legal_basis_id" (c.alternativeLegalBasis.map (·.1)),
  optional "alternative_legal_basis_policy_version" (c.alternativeLegalBasis.map (·.2))]

instance : Encode RawRecord := ⟨fun r => .object ([
  member "contract_version" contractVersion,
  member "record_id" r.recordId,
  member "tenant_id" r.tenantId,
  member "app_id" r.appId,
  member "producer" r.producer,
  member "producer_version" r.producerVersion,
  optional "producer_variant" r.producerVariant,
  optional "wrapper_version" r.wrapperVersion,
  member "event_id" r.eventId,
  member "delivery_id" r.deliveryId,
  member "event_name" r.eventName,
  member "schema_version" r.schemaVersion,
  member "payload_sha256" r.payloadSha256,
  member "occurred_at" r.occurredAt,
  member "occurred_at_source" r.occurredAtSource,
  member "received_at" r.receivedAt,
  member "payload_lifecycle_status" r.payloadLifecycleStatus,
  member "raw_payload_ref" r.rawPayloadRef,
  optional "integrity_verdict" r.integrityVerdict]
  ++ r.consent.members)⟩

/-- `makeRawRecord`. -/
def makeRawRecord (lifecycle : LifecycleStatus) (a : Attempt) : Except Failure RawRecord := do
  let consent ← consentDecision a
  let r := a.record
  return {
    recordId := r.recordId
    tenantId := a.server.tenantId
    appId := a.server.appId
    producer := r.producer
    producerVersion := r.producerVersion
    producerVariant := r.producerVariant
    wrapperVersion := r.wrapperVersion
    eventId := r.eventId
    deliveryId := r.deliveryId
    eventName := r.eventName
    schemaVersion := r.schemaVersion
    payloadSha256 := sha256 (toJson r.payload)
    occurredAt := r.occurredAt
    occurredAtSource := r.occurredAtSource
    receivedAt := r.receivedAt
    payloadLifecycleStatus := lifecycle
    rawPayloadRef :=
      (if lifecycle = .available then "protected:" else "tombstone:") ++ r.recordId.text
    integrityVerdict := r.integrityVerdict
    consent := consent.fields }

/-- The raw records kept: accepted unique deliveries and conflicts whose
record has no lifecycle entry. -/
def rawRecords (decisions : Decisions) (lifecycle : Lifecycle) (all : List Attempt) :
    Except Failure (List RawRecord) := do
  let evidence := (acceptedUnique decisions all ++ conflictEvidence decisions all).filter
    (isUntouched lifecycle)
  let rows ← PartialList.traverse (makeRawRecord .available) evidence
  return sortByKey rows
    (fun r => [r.recordId.text, r.tenantId.text, r.appId.text, r.deliveryId.text])

structure Delivery where
  deliveryId : Identifier
  recordId : Identifier
  canonicalRecordId : Option Identifier
  tenantId : Identifier
  appId : Identifier
  receivedAt : Timestamp
  ingestionStatus : IngestionStatus
  duplicateResolution : DuplicateResolution
  timeliness : Timeliness
  clockSkewSuspected : Bool
  payloadDisposition : PayloadDisposition
  consent : ConsentFields
  reasonCode : Option RejectionReason
  staleness : Option Staleness

/-- The staleness members of a reported row. -/
def stalenessMembers (s : Option Staleness) : List (String × Option Json) := [
  optional "staleness_policy_version" (s.map (·.policyVersion)),
  optional "staleness_policy_digest" (s.map (·.policyDigest)),
  optional "staleness_authority" (s.map (·.authority))]

instance : Encode Delivery := ⟨fun d => .object ([
  member "contract_version" contractVersion,
  member "delivery_id" d.deliveryId,
  member "record_id" d.recordId,
  optional "canonical_record_id" d.canonicalRecordId,
  member "tenant_id" d.tenantId,
  member "app_id" d.appId,
  member "received_at" d.receivedAt,
  member "ingestion_status" d.ingestionStatus,
  member "duplicate_resolution" d.duplicateResolution,
  member "timeliness" d.timeliness,
  member "clock_skew_suspected" d.clockSkewSuspected,
  member "payload_disposition" d.payloadDisposition]
  ++ d.consent.members ++ [optional "reason_code" d.reasonCode] ++ stalenessMembers d.staleness)⟩

/-- The delivery row of a decision. -/
def deliveryRow (receivedAt : Timestamp) (d : Decision) : Delivery where
  deliveryId := d.deliveryId
  recordId := d.recordId
  canonicalRecordId := d.canonicalRecordId
  tenantId := d.tenantId
  appId := d.appId
  receivedAt := receivedAt
  ingestionStatus := d.ingestionStatus
  duplicateResolution := d.duplicateResolution
  timeliness := d.timeliness
  clockSkewSuspected := d.clockSkewSuspected
  payloadDisposition := d.payloadDisposition
  consent := d.consent
  reasonCode := d.reasonCode
  staleness := d.staleness

/-- The delivery row of an attempt. -/
def delivery (decisions : Decisions) (a : Attempt) : Except Failure Delivery :=
  match decisionFor decisions a with
  | some d => .ok (deliveryRow a.record.receivedAt d)
  | none => .error (.error ("missing decision: " ++ a.record.deliveryId.text))

/-- The delivery rows, those turned away before ingestion included. -/
def deliveries (input : EvaluatorInput) (decisions : Decisions) (all : List Attempt) :
    Except Failure (List Delivery) := do
  let rows ← PartialList.traverse (delivery decisions) all
  return sortByKey
    (rows ++ input.preIngestionRejections.map
      (fun item => deliveryRow item.receivedAt (preIngestionDecision item)))
    (fun d => [d.deliveryId.text, d.recordId.text, d.tenantId.text, d.appId.text])

structure LogicalEvent where
  logicalEventId : String
  recordId : Identifier
  tenantId : Identifier
  appId : Identifier
  producer : Producer
  eventId : Identifier
  eventName : EventName
  timeliness : Timeliness

instance : Encode LogicalEvent := ⟨fun e => .object [
  member "contract_version" contractVersion,
  member "logical_event_id" e.logicalEventId,
  member "record_id" e.recordId,
  member "tenant_id" e.tenantId,
  member "app_id" e.appId,
  member "producer" e.producer,
  member "event_id" e.eventId,
  member "event_name" e.eventName,
  member "record_lifecycle" "active",
  member "timeliness" e.timeliness]⟩

/-- The logical key a logical event stands for. -/
def LogicalEvent.key (e : LogicalEvent) : LogicalKey :=
  ⟨⟨e.tenantId, e.appId⟩, e.producer, e.eventId⟩

/-- The logical event of an accepted delivery. -/
def logicalEvent (a : Attempt) : LogicalEvent where
  logicalEventId := "logical:" ++ a.server.tenantId.text ++ ":" ++ a.server.appId.text ++ ":" ++
    a.record.producer.text ++ ":" ++ a.record.eventId.text
  recordId := a.record.recordId
  tenantId := a.server.tenantId
  appId := a.server.appId
  producer := a.record.producer
  eventId := a.record.eventId
  eventName := a.record.eventName
  timeliness := timeliness a.record

/-- The logical events: accepted unique deliveries without a lifecycle
entry. -/
def logicalEvents (decisions : Decisions) (lifecycle : Lifecycle) (all : List Attempt) :
    List LogicalEvent :=
  sortByKey (((acceptedUnique decisions all).filter (isUntouched lifecycle)).map logicalEvent)
    (fun e => [e.logicalEventId, e.tenantId.text, e.appId.text])

/-- The correction a refund makes. -/
def refundCorrection (a : Attempt) : Correction where
  tenantId := a.server.tenantId
  appId := a.server.appId
  correctionId := "correction:" ++ a.record.recordId.text
  correctsRecordId := a.record.payload.correctionTargetRecordId
  correctionType := "correction"
  correctionReason := "refund"
  effectiveAt := some a.record.occurredAt

/-- The correction a completed privacy request makes. -/
def redactionCorrection (e : PrivacyRequest × AffectedRecord) : Correction where
  tenantId := e.1.tenantId
  appId := e.1.appId
  correctionId := "correction:" ++ e.1.privacyRequestId.text ++ ":" ++ e.2.recordId.text
  correctsRecordId := some e.2.recordId
  correctionType := "redaction"
  correctionReason := e.1.reasonCode
  effectiveAt := e.1.completedAt

/-- The corrections: those of the input, refunds, redactions. -/
def corrections (input : EvaluatorInput) (decisions : Decisions) (all : List Attempt) :
    List Correction :=
  sortByKey (input.correctionInputs ++
      ((acceptedUnique decisions all).filter (fun a => a.record.eventName = .refund)).map
        refundCorrection ++
      (completedRedactions input).map redactionCorrection)
    (fun c => [c.correctionId, c.tenantId.text, c.appId.text])

/-- The privacy requests as reported. -/
def privacyRequests (input : EvaluatorInput) : List PrivacyRequest :=
  sortByKey input.privacyRequests
    (fun r => [r.privacyRequestId.text, r.tenantId.text, r.appId.text])

structure PrivacyTombstone where
  tenantId : Identifier
  appId : Identifier
  privacyRequestId : Identifier
  recordId : Identifier
  lifecycleStatus : LifecycleStatus
  reasonCode : String
  policyVersion : String
  provenanceDigest : String
  createdAt : Option Timestamp

instance : Encode PrivacyTombstone := ⟨fun t => .object [
  member "contract_version" contractVersion,
  member "tenant_id" t.tenantId,
  member "app_id" t.appId,
  member "privacy_request_id" t.privacyRequestId,
  member "record_id" t.recordId,
  member "lifecycle_status" t.lifecycleStatus,
  member "reason_code" t.reasonCode,
  member "policy_version" t.policyVersion,
  member "provenance_digest" t.provenanceDigest,
  optional "created_at" t.createdAt]⟩

/-- The tombstone of a record a completed request names. -/
def privacyTombstone (e : PrivacyRequest × AffectedRecord) : PrivacyTombstone where
  tenantId := e.1.tenantId
  appId := e.1.appId
  privacyRequestId := e.1.privacyRequestId
  recordId := e.2.recordId
  lifecycleStatus := e.2.lifecycleStatus
  reasonCode := e.1.reasonCode
  policyVersion := e.1.policyVersion
  provenanceDigest := sha256 (.arr [toJson e.1.tenantId, toJson e.1.appId,
    toJson e.1.privacyRequestId, toJson e.2.recordId, e.1.completedAt.elim .null toJson])
  createdAt := e.1.completedAt

def privacyTombstones (input : EvaluatorInput) : List PrivacyTombstone :=
  sortByKey ((completedRedactions input).map privacyTombstone)
    (fun t => [t.privacyRequestId.text, t.recordId.text, t.tenantId.text, t.appId.text])

structure Rejection where
  deliveryId : Identifier
  recordId : Identifier
  tenantId : Identifier
  appId : Identifier
  reasonCode : Option RejectionReason
  payloadDisposition : PayloadDisposition
  retained : String
  processingPurposeId : Option ProcessingPurpose
  consentEvaluationPolicyVersion : String
  consentDecisionReasonCode : ConsentReason
  withdrawalRecognizedAt : Option Timestamp
  staleness : Option Staleness

instance : Encode Rejection := ⟨fun r => .object ([
  member "contract_version" contractVersion,
  member "delivery_id" r.deliveryId,
  member "record_id" r.recordId,
  member "tenant_id" r.tenantId,
  member "app_id" r.appId,
  optional "reason_code" r.reasonCode,
  member "reason_code_version" contractVersion,
  member "payload_disposition" r.payloadDisposition,
  member "retained" r.retained,
  optional "processing_purpose_id" r.processingPurposeId,
  member "consent_evaluation_policy_version" r.consentEvaluationPolicyVersion,
  member "consent_decision_reason_code" r.consentDecisionReasonCode,
  optional "withdrawal_recognized_at" r.withdrawalRecognizedAt]
  ++ stalenessMembers r.staleness)⟩

/-- The rejection row of a decision. -/
def rejectionRow (d : Decision) : Rejection where
  deliveryId := d.deliveryId
  recordId := d.recordId
  tenantId := d.tenantId
  appId := d.appId
  reasonCode := d.reasonCode
  payloadDisposition := d.payloadDisposition
  retained := if d.reasonCode = some .eventIdConflict then "protected_conflict_evidence"
    else "non_identifying_metadata"
  processingPurposeId := d.consent.processingPurposeId
  consentEvaluationPolicyVersion := d.consent.consentEvaluationPolicyVersion
  consentDecisionReasonCode := d.consent.consentDecisionReasonCode
  withdrawalRecognizedAt := d.consent.withdrawalRecognizedAt
  staleness := d.staleness

/-- The rejections, read off the decisions in order. -/
def rejections (input : EvaluatorInput) (decisionsList : List Decision) : List Rejection :=
  sortByKey
    (((decisionsList ++ input.preIngestionRejections.map preIngestionDecision).filter
      (fun d => d.ingestionStatus = .rejected)).map rejectionRow)
    (fun r => [r.deliveryId.text, r.recordId.text, r.tenantId.text, r.appId.text])

end OpenMasu
