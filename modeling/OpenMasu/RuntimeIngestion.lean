import OpenMasu.DecisionFacts
import OpenMasu.Ledger

/-!
# Runtime ingestion

A call evaluates the attempts of its batch together with the historical ones
its caller loaded and appends what the evaluation says about the batch.

* `bindFraudBundle`, `resolveDeepLinkAttempt` — what the call adds to the
  server contexts;
* `schemaInvalidDelivery` — attempts whose payload breaks its schema;
* `evaluatedAttempts`, `select` — the evaluation and the selection of its
  artifacts;
* `attemptTransaction`, `bulkTransaction` — how they are persisted;
* `ingestRuntimeBatch` — the call, scope by scope.
-/

namespace OpenMasu

/-- The contract's payload schemas.  A deferred deep-link open has to name its
click. -/
class PayloadSchemas where
  validateEventPayload : Payload → Bool
  deferredOpenNamesClick : ∀ p, validateEventPayload p = true → p.eventName = .deepLinkOpen →
    p.openSource = some .androidDeferredReferrer → p.clickId.isSome

export PayloadSchemas (validateEventPayload)

/-- Some of the members the schemas require. -/
def hasRequiredMembers (p : Payload) : Bool :=
  match p.eventName with
  | .install | .sessionStart => p.installationId.isSome
  | .consentChanged => p.consentState.isSome
  | .deepLinkOpen => p.openSource ≠ some .androidDeferredReferrer ||
      (p.clickId.isSome && p.installationId.isSome)
  | _ => true

/-- Schemas that can be evaluated.  Runs on concrete inputs use them, no
general statement does. -/
@[reducible] def memberSchemas : PayloadSchemas where
  validateEventPayload := hasRequiredMembers
  deferredOpenNamesClick p hp hopen hdeferred := by
    simp only [hasRequiredMembers, hopen, hdeferred, ne_eq, not_true_eq_false, decide_false,
      Bool.false_or, Bool.and_eq_true] at hp
    exact hp.1

/-- A row of `tracking_links_current`. -/
structure TrackingLink where
  campaignId : Option Identifier
  active : Bool
  trackingLinkId : Option Identifier := none

/-- What a call finds in the control tables, and whether its connection is
lost while it persists. -/
structure CallContext where
  activeRevision : Option FraudRuleBundleContext
  trackingLink : Attempt → Option TrackingLink
  fault : Option Nat
  clickTrackingLink : Attempt → Option Identifier := fun _ => none

variable [Digest]

/-- `bind`: the active fraud bundle and the click-injection policy it
implies. -/
def bindFraudBundle (revision : Option FraudRuleBundleContext) (a : Attempt) : Attempt :=
  match revision with
  | some active =>
      if a.server.fraudEnabled = some false then
        { a with server := { a.server with fraudEnabled := some false } }
      else
        let threshold := fraudNumberParameter active.definition "ctit_lower_bound_seconds" 10
        let version := active.ruleBundleId.text ++ ":" ++ active.ruleBundleVersion.text
        { a with server := { a.server with
            fraudEnabled := some true
            fraudRuleBundle := some active
            clickInjectionPolicy := some ⟨threshold, "server", version,
              clickInjectionPolicyDigest threshold "server" version⟩ } }
  | none => { a with server := { a.server with fraudEnabled := some false } }

/-- The click that the install of an open's installation names, by the latest
install fact. -/
def installClickId (l : Ledger) (a : Attempt) : Option Identifier :=
  ((KeyedSort.sortOn (fun f : InstallFact => codeUnits f.occurredAt.text)
    (l.installFacts.filter (fun f =>
      f.scope = a.scope && some f.installationId = a.record.payload.installationId))).getLast?).bind
    (·.clickId)

/-- `resolveDeepLinkAttempts`, for one attempt: a deep-link open receives the
status of its link and the click its install was credited to. -/
def resolveDeepLinkAttempt (l : Ledger) (links : Attempt → Option TrackingLink) (a : Attempt) :
    Attempt :=
  if a.record.eventName ≠ .deepLinkOpen then a
  else { a with server := { a.server with deepLinkResolution := some {
    status := (links a).elim .unknown (fun link => if link.active then .active else .inactive)
    trackingLinkId := (links a).bind (·.trackingLinkId)
    campaignId := (links a).bind (·.campaignId)
    installAttributionClickId :=
      if a.record.payload.openSource = some .androidDeferredReferrer then installClickId l a
      else none } } }

/-- The consent reason of a schema-invalid delivery. -/
def schemaInvalidConsentReason (a : Attempt) : ConsentReason :=
  if !((purposePolicy a).elim false (·.consentRequired)) then .consentNotRequired
  else if beforeWithdrawal a then .consentValidBeforeWithdrawal
  else .consentWithdrawn

/-- `schemaInvalidArtifacts`: the delivery row of an attempt whose payload
breaks its schema. -/
def schemaInvalidDelivery (a : Attempt) : Delivery where
  deliveryId := a.record.deliveryId
  recordId := a.record.recordId
  canonicalRecordId := none
  tenantId := a.server.tenantId
  appId := a.server.appId
  receivedAt := a.record.receivedAt
  ingestionStatus := .rejected
  duplicateResolution := .unique
  timeliness := timeliness a.record
  clockSkewSuspected := false
  payloadDisposition := .discarded
  consent := consentBase a (schemaInvalidConsentReason a)
  reasonCode := some .payloadSchemaInvalid
  staleness := none

/-- `schemaInvalidArtifacts`: the rejection row of an attempt whose payload
breaks its schema. -/
def schemaInvalidRejection (a : Attempt) : Rejection where
  deliveryId := a.record.deliveryId
  recordId := a.record.recordId
  tenantId := a.server.tenantId
  appId := a.server.appId
  reasonCode := some .payloadSchemaInvalid
  payloadDisposition := .discarded
  retained := "non_identifying_metadata"
  processingPurposeId := a.record.processingPurposeId
  consentEvaluationPolicyVersion := (purposePolicy a).elim "not-applicable" (·.policyVersion)
  consentDecisionReasonCode := schemaInvalidConsentReason a
  withdrawalRecognizedAt := (withdrawalOf a).map (·.withdrawalRecognizedAt)
  staleness := none

/-- The record and the delivery of an attempt. -/
def deliveryKey (a : Attempt) : Identifier × Identifier := (a.record.recordId, a.record.deliveryId)

/-- The record and the delivery of a row. -/
def Delivery.key (d : Delivery) : Identifier × Identifier := (d.recordId, d.deliveryId)

/-- The record and the delivery of a rejection. -/
def Rejection.key (r : Rejection) : Identifier × Identifier := (r.recordId, r.deliveryId)

variable [PayloadSchemas]

/-- The attempt's payload follows its schema. -/
def isSchemaValid (a : Attempt) : Bool := validateEventPayload a.record.payload

instance lawful_deliveryKey : LawfulBEq (Identifier × Identifier) := inferInstance

/-- The attempts of a batch to evaluate: an invalid one takes along every
attempt with its record and delivery id. -/
def validAttempts (attempts : List Attempt) : List Attempt :=
  attempts.filter (fun a =>
    deliveryKey a ∉ (attempts.filter (fun b => !isSchemaValid b)).map deliveryKey)

/-- What a call adds to the server context of an attempt. -/
def prepareAttempt (l : Ledger) (context : CallContext) (a : Attempt) : Attempt :=
  resolveDeepLinkAttempt l context.trackingLink (bindFraudBundle context.activeRevision a)

/-- The attempts a call evaluates, in order. -/
def evaluatedAttempts (l : Ledger) (context : CallContext) (attempts history : List Attempt) :
    List Attempt :=
  sortCandidateAttempts
    ((history.filter isSchemaValid ++ validAttempts attempts).map (prepareAttempt l context))

omit [Digest] [PayloadSchemas] in
/-- `runtimeInput`: every attempt a batch of its own. -/
def runtimeInput (attempts : List Attempt) : EvaluatorInput where
  ingress := .batches (attempts.map (fun a => ⟨a.batchId, a.server, [a.record]⟩))
  fxPolicy := ⟨"runtime-no-fx-v0.2", "USD", 6, "half_even", []⟩

/-- The artifacts of an evaluation that a call persists. -/
structure Selected where
  rawRecords : List RawRecord
  deliveries : List Delivery
  logicalEvents : List LogicalEvent
  rejections : List Rejection
  attributions : List Attribution
  fraudDecisions : List FraudDecision
  reconciliations : List Reconciliation

omit [Digest] [PayloadSchemas] in
/-- `belongsToCurrent`, for an attribution. -/
def attributionBelongs (recordIds : List Identifier) (t : Attribution) : Bool :=
  recordIds.any (fun id => t.subjectRef = some id.text) ||
    t.evidenceRefs.any (fun e => recordIds.contains e.ref)

/-- The artifacts about the valid attempts of the batch, and the rows of the
invalid ones.  Reconciliations go by the scope of the batch. -/
def select (context : CallContext) (attempts : List Attempt) (out : EvaluationOutput) : Selected :=
  let valid := validAttempts attempts
  let recordIds := valid.map (·.record.recordId)
  let deliveryIds := valid.map (·.record.deliveryId)
  { rawRecords := out.rawRecords.filter (fun r =>
      recordIds.contains r.recordId || deliveryIds.contains r.deliveryId)
    deliveries := out.deliveries.filter (fun d =>
        recordIds.contains d.recordId || deliveryIds.contains d.deliveryId) ++
      ((attempts.filter (fun a => !isSchemaValid a)).map (fun a =>
        schemaInvalidDelivery (bindFraudBundle context.activeRevision a)))
    logicalEvents := out.logicalEvents.filter (fun e => recordIds.contains e.recordId)
    rejections := out.rejections.filter (fun r =>
        recordIds.contains r.recordId || deliveryIds.contains r.deliveryId) ++
      ((attempts.filter (fun a => !isSchemaValid a)).map (fun a =>
        schemaInvalidRejection (bindFraudBundle context.activeRevision a)))
    attributions := out.attributions.filter (attributionBelongs recordIds)
    fraudDecisions := out.fraudDecisions.filter
      (fun d => recordIds.any (fun id => id.text = d.subjectRef))
    reconciliations := out.reconciliation.filter
      (fun r => attempts.head?.any (fun a => (⟨r.tenantId, r.appId⟩ : Scope) = a.scope)) }

omit [Digest] [PayloadSchemas] in
/-- The attempt the projections of a logical event are read from. -/
def projectedAttempt (all : List Attempt) (e : LogicalEvent) : Option Attempt :=
  all.find? (fun a => (⟨a.scope, a.record.recordId⟩ : EvidenceKey) = e.evidenceKey)

omit [Digest] [PayloadSchemas] in
/-- The insertion of a logical event with its install fact; none when no
evaluated attempt is its record. -/
def logicalWrite (all : List Attempt) (e : LogicalEvent) : Option Write :=
  (projectedAttempt all e).map (fun a => .logical ⟨a, e⟩)

omit [Digest] [PayloadSchemas] in
/-- The insertion of a logical event's fact row in another table. -/
def factWrite (context : CallContext) (all : List Attempt) (e : LogicalEvent) : Option Write :=
  (projectedAttempt all e).bind (fun a =>
    (projection context.clickTrackingLink a e).map .fact)

omit [Digest] [PayloadSchemas] in
/-- The transaction of one attempt: its raw record, its delivery row, its
logical event and its rejection, where the call selected them. -/
def attemptTransaction (context : CallContext) (all : List Attempt) (selected : Selected)
    (a : Attempt) : Transaction :=
  let raw := (InsertionMap.ofList (selected.rawRecords.map (fun r => (r.recordId, r)))).get
    a.record.recordId
  let delivery := (InsertionMap.ofList (selected.deliveries.map (fun d => (d.key, d)))).get
    (deliveryKey a)
  let logical := (InsertionMap.ofList (selected.logicalEvents.map (fun e => (e.recordId, e)))).get
    a.record.recordId
  let rejection := (InsertionMap.ofList (selected.rejections.map (fun r => (r.key, r)))).get
    (deliveryKey a)
  raw.toList.map .raw ++ raw.toList.map (fun r => .payloadState r.availableState) ++
  delivery.toList.map (fun d => .delivery ⟨a, d⟩) ++
  (logical.bind (logicalWrite all)).toList ++ (logical.bind (factWrite context all)).toList ++
  rejection.toList.map .rejection

omit [Digest] [PayloadSchemas] in
/-- The attempt is one a fraud decision is about. -/
def isFraudSubject (d : FraudDecision) (a : Attempt) : Bool :=
  ([some a.record.recordId, some a.record.eventId, a.record.payload.installationId,
    a.record.payload.clickId].any (fun id => id.any (·.text = d.subjectRef)))

omit [Digest] [PayloadSchemas] in
/-- The scopes of the attempts a fraud decision is about. -/
def fraudScopes (attempts : List Attempt) (d : FraudDecision) : List Scope :=
  ((attempts.filter (isFraudSubject d)).map (·.scope)).dedup

omit [Digest] [PayloadSchemas] in
/-- The transactions of a batch: one for each attempt, then the attributions,
the fraud decisions and the reconciliations. -/
def rowTransactions (context : CallContext) (all : List Attempt) (selected : Selected)
    (attempts : List Attempt) : List Transaction :=
  attempts.map (attemptTransaction context all selected) ++
    selected.attributions.map (fun t => [.attribution t]) ++
    selected.fraudDecisions.map
      (fun d => [.fraud context.activeRevision (fraudScopes attempts d) d]) ++
    selected.reconciliations.map (fun r => [.reconciliation r])

omit [Digest] [PayloadSchemas] in
/-- The facts of a bulk transaction.  Redirector clicks and deep-link opens
come behind all others. -/
def bulkFacts (context : CallContext) (all : List Attempt) (events : List LogicalEvent) :
    List Write :=
  let isFallback (e : LogicalEvent) : Bool :=
    e.eventName = .deepLinkOpen || (e.eventName = .click && e.producer = .redirector)
  ((events.filter (fun e => !isFallback e)).filterMap (factWrite context all.reverse)) ++
    ((events.filter isFallback).filterMap (factWrite context all))

omit [Digest] [PayloadSchemas] in
/-- `persistRuntimeBulk`: everything in one transaction.  A row is stored with
an attempt that has its record and delivery id. -/
def bulkTransaction (context : CallContext) (all : List Attempt) (selected : Selected)
    (attempts : List Attempt) : Transaction :=
  selected.rawRecords.map .raw ++
  selected.rawRecords.map (fun r => .payloadState r.availableState) ++
  selected.deliveries.flatMap (fun d =>
    (((all ++ attempts).find? (fun a => deliveryKey a = d.key)).map
      (fun a => Write.delivery ⟨a, d⟩)).toList) ++
  selected.logicalEvents.flatMap (fun e => (logicalWrite all.reverse e).toList) ++
  bulkFacts context all selected.logicalEvents ++
  selected.rejections.map .rejection ++
  selected.attributions.map .attribution ++
  selected.fraudDecisions.map
    (fun d => .fraud context.activeRevision ((attempts.map (·.scope)).take 1) d) ++
  selected.reconciliations.map .reconciliation

omit [Digest] [PayloadSchemas] in
/-- The transactions of a call. -/
def callTransactions (context : CallContext) (bulkPersistence : Bool) (all : List Attempt)
    (selected : Selected) (attempts : List Attempt) : List Transaction :=
  if bulkPersistence then [bulkTransaction context all selected attempts]
  else rowTransactions context all selected attempts

/-- What a call leaves: the ledger, whether everything was persisted, and the
attributions it selected. -/
structure CallResult where
  ledger : Ledger
  completed : Bool
  attributions : List Attribution := []

/-- `ingestRuntimeBatch`, for attempts of one scope. -/
def ingestScope (l : Ledger) (context : CallContext) (attempts history : List Attempt)
    (bulkPersistence : Bool) : CallResult :=
  let all := evaluatedAttempts l context attempts history
  match evaluate (runtimeInput all) indexedCandidateProvider with
  | .error _ => ⟨l, false, []⟩
  | .ok out =>
      let selected := select context attempts out
      let persisted :=
        l.persist (callTransactions context bulkPersistence all selected attempts) context.fault
      ⟨persisted.1, persisted.2, selected.attributions⟩

omit [Digest] [PayloadSchemas] in
/-- The scopes of a batch, in the order they are ingested in. -/
def scopesOf (attempts : List Attempt) : List Scope :=
  KeyedSort.sortOn
    (fun s : Scope => codeUnits (s.tenantId.text ++ String.singleton (Char.ofNat 0) ++ s.appId.text))
    (attempts.map (·.scope)).dedup

/-- One scope after another, up to the first that fails. -/
def ingestScopes (context : Scope → CallContext) (attempts history : List Attempt)
    (bulkPersistence : Bool) : List Scope → Ledger → CallResult
  | [], l => ⟨l, true, []⟩
  | s :: rest, l =>
      let result := ingestScope l (context s) (attempts.filter (fun a => a.scope = s))
        (history.filter (fun a => a.scope = s)) bulkPersistence
      if result.completed then
        let others := ingestScopes context attempts history bulkPersistence rest result.ledger
        { others with attributions := result.attributions ++ others.attributions }
      else result

/-- `ingestRuntimeBatch`.  The history is cut down to a scope only when the
batch spans several. -/
def ingestRuntimeBatch (l : Ledger) (context : Scope → CallContext)
    (attempts history : List Attempt) (bulkPersistence : Bool) : CallResult :=
  match scopesOf attempts with
  | [] => ⟨l, true, []⟩
  | [s] => ingestScope l (context s) attempts history bulkPersistence
  | scopes => ingestScopes context attempts history bulkPersistence scopes l

end OpenMasu
