import OpenMasu.ObjectStore
import OpenMasu.RuntimeIngestion
import OpenMasu.SqlCohort

/-!
# The tables a deletion reads and appends to

Records, the encrypted objects they refer to, and what a privacy request
leaves behind.  The objects themselves are in a payload store.

* `PrivacyTables`, `PrivacyWorld` — the tables, and the store beside them;
* `Ledger.projectedInstallation` — the installation a logical event is about,
  as far as five fact tables tell;
* `RecordedPurge` — what the deletion of a record leaves;
* `PrivacyTables.appendPurge` — the rows of one record, with their
  constraints.
-/

namespace OpenMasu

open AppendOnly (insertOnce)

section Rows

/-- A row of `ingest_inbox`. -/
structure StoredQuery where
  inboxId : Identifier
  scope : Scope
  producer : Producer
  eventId : Identifier
  rawQueryRef : String

/-- A row of `ingest_batches`; the table is in the order of `inbox_seq`. -/
structure StoredBatch where
  ingestBatchId : Identifier
  scope : Scope
  installationKeyId : Option Identifier
  bodyRef : String

/-- A row of `ingest_batch_records`. -/
structure BatchMember where
  ingestBatchId : Identifier
  scope : Scope
  recordId : Identifier

/-- A row of `adservices_lookups`. -/
structure StoredLookup where
  scope : Scope
  installRecordId : Identifier
  tokenRef : String

/-- A row of `adservices_lookup_results`. -/
structure StoredLookupResult where
  scope : Scope
  installRecordId : Identifier
  responseRef : String

/-- A row of `integrity_verification_results`. -/
structure StoredVerification where
  scope : Scope
  subjectRecordId : Identifier
  evidenceRef : Option String

inductive DeletionScope where
  | installation
  | app
  | tenant
  deriving DecidableEq

def DeletionScope.text : DeletionScope → String
  | installation => "installation"
  | app => "app"
  | tenant => "tenant"

instance : Encode DeletionScope := ⟨fun s => .str s.text⟩

/-- The artifact of a completed privacy request. -/
structure DeletionArtifact where
  scope : Scope
  privacyRequestId : Identifier
  deletionSubjectDigest : String
  deletionScope : DeletionScope
  requestedVia : RequestedVia
  requesterAuthRef : String
  requestedAt : Timestamp
  completedAt : Timestamp
  status : PrivacyStatus
  reasonCode : String
  policyVersion : String
  affectedRecords : List AffectedRecord

/-- A row of `metric_runs`. -/
structure StoredRun where
  scope : Scope
  run : MetricRun

/-- A row of `metric_replay_manifests`: what a run was computed from. -/
structure ReplayManifest where
  scope : Scope
  sourceMetricRunId : String
  definition : MetricDefinition
  evaluation : MetricEvaluation
  fxPolicy : FxPolicy

/-- A row of `cost_records`, with the digest no metric query reads. -/
structure StoredCost where
  row : CostRow
  reportSnapshotDigest : String

/-- A row of `audit_logs`. -/
structure AuditLog where
  scope : Scope
  occurredAt : Timestamp
  actorType : String
  actorRef : String
  action : String
  targetRef : String
  policyVersion : String
  requestDigest : String

/-- The tables.  A raw record has a policy digest in a column of its own,
which is null in old rows. -/
structure PrivacyTables where
  ledger : Ledger := {}
  policyDigest : EvidenceKey → Option String := fun _ => none
  costRecords : List StoredCost := []
  inbox : List StoredQuery := []
  batches : List StoredBatch := []
  batchRecords : List BatchMember := []
  lookups : List StoredLookup := []
  lookupResults : List StoredLookupResult := []
  verificationResults : List StoredVerification := []
  corrections : List Correction := []
  tombstones : List PrivacyTombstone := []
  privacyRequests : List DeletionArtifact := []
  metricRuns : List StoredRun := []
  manifests : List ReplayManifest := []
  auditLogs : List AuditLog := []

/-- The tables, and the references the payload store can read. -/
structure PrivacyWorld where
  tables : PrivacyTables := {}
  readable : List String := []

end Rows

/-- `LIKE 'encrypted:%'`. -/
def isEncrypted (ref : String) : Bool := "encrypted:".toList.isPrefixOf ref.toList

/-- The domain `control.identifier`. -/
def isDomainIdentifier (text : String) : Bool :=
  text.toList.length ≤ 128 && text.toList.length ≠ 0 &&
    text.toList.all (fun c => c.isAlphanum || c = '.' || c = '_' || c = ':' || c = '-')

/-- Texts in the order of the database. -/
def Database.sortTexts {α : Type} (db : Database) (text : α → String) (rows : List α) : List α :=
  rows.insertionSort (fun a b => db.sortsBefore (text b) (text a) = false)

@[simp] theorem Database.mem_sortTexts {α : Type} {db : Database} {text : α → String}
    {rows : List α} {a : α} : a ∈ db.sortTexts text rows ↔ a ∈ rows :=
  List.mem_insertionSort _

section Installation

variable (l : Ledger) (e : LogicalEvent)

/-- The installation a fact row of the event names. -/
def Ledger.factInstallation (table : FactTable) : Option Identifier :=
  (l.facts.find? (fun f => f.table = table && f.logicalEventId = e.logicalEventId &&
    f.scope = e.evidenceKey.scope)).bind (·.installationId)

/-- The installation the install fact of the event names. -/
def Ledger.installInstallation : Option Identifier :=
  (l.installFacts.find? (fun f => f.logicalEventId = e.logicalEventId && f.scope = e.evidenceKey.scope)).map
    (·.installationId)

/-- The first installation among five fact tables. -/
def Ledger.projectedInstallation : Option Identifier :=
  l.installInstallation e <|> l.factInstallation e .session <|> l.factInstallation e .purchase <|>
    l.factInstallation e .adRevenue <|> l.factInstallation e .customEvent

end Installation

/-- What the deletion of a record leaves, under the record's own tenant and
app. -/
structure RecordedPurge (t : PrivacyTables) (key : EvidenceKey) : Prop where
  state : ∃ s ∈ t.ledger.payloadStates,
    s.scope = key.scope ∧ s.recordId = key.recordId ∧ s.lifecycleStatus = .purged
  tombstone : ∃ s ∈ t.tombstones, (⟨s.tenantId, s.appId⟩ : Scope) = key.scope ∧
    s.recordId = key.recordId ∧ s.lifecycleStatus = .purged
  correction : ∃ c ∈ t.corrections, c.scope = key.scope ∧
    c.correctsRecordId = some key.recordId ∧ c.correctionType = "redaction"

/-- The constraints of the tables: record ids are a primary key, and payload
states and logical events refer to raw records. -/
structure PrivacyTables.Constraints (t : PrivacyTables) : Prop where
  recordIds : (t.ledger.rawRecords.map (·.recordId)).Nodup
  states : ∀ s ∈ t.ledger.payloadStates,
    (⟨s.scope, s.recordId⟩ : EvidenceKey) ∈ t.ledger.rawRecords.map (·.evidenceKey)
  logicalEvents : ∀ e ∈ t.ledger.logicalEvents,
    e.event.evidenceKey ∈ t.ledger.rawRecords.map (·.evidenceKey)

section Purge

variable [Digest]

/-- The request a purge is recorded for. -/
structure PurgeContext where
  scope : Scope
  privacyRequestId : Identifier
  completedAt : Timestamp

variable (p : PurgeContext) (recordId : Identifier)

omit [Digest] in
/-- `privacy_tombstone_id`. -/
def PurgeContext.tombstoneId : String :=
  "tombstone:" ++ p.privacyRequestId.text ++ ":" ++ recordId.text

/-- `correction_id`. -/
def PurgeContext.correctionId : String :=
  "correction:" ++ String.ofList
    ((sha256 (.arr [toJson p.privacyRequestId, toJson recordId])).toList.take 48)

omit [Digest] in
def PurgeContext.state : StoredPayloadState where
  scope := p.scope
  recordId := recordId
  lifecycleStatus := .purged
  changedAt := p.completedAt
  privacyRequestId := some p.privacyRequestId
  privacyTombstoneId := some (p.tombstoneId recordId)

def PurgeContext.tombstone : PrivacyTombstone where
  tenantId := p.scope.tenantId
  appId := p.scope.appId
  privacyRequestId := p.privacyRequestId
  recordId := recordId
  lifecycleStatus := .purged
  reasonCode := "privacy_deletion"
  policyVersion := "privacy-v0.2"
  provenanceDigest :=
    sha256 (.arr [toJson p.privacyRequestId, toJson recordId, toJson p.completedAt])
  createdAt := some p.completedAt

def PurgeContext.correction : Correction where
  tenantId := p.scope.tenantId
  appId := p.scope.appId
  correctionId := p.correctionId recordId
  correctsRecordId := some recordId
  correctionType := "redaction"
  correctionReason := "privacy_deletion"
  effectiveAt := some p.completedAt

/-- The unique key of `raw_payload_states`. -/
def StoredPayloadState.key (s : StoredPayloadState) : Identifier × LifecycleStatus :=
  (s.recordId, s.lifecycleStatus)

/-- The unique key of `privacy_tombstones`. -/
def PrivacyTombstone.key (s : PrivacyTombstone) :
    Scope × Identifier × Identifier × LifecycleStatus :=
  (⟨s.tenantId, s.appId⟩, s.privacyRequestId, s.recordId, s.lifecycleStatus)

instance lawful_payloadKey : LawfulBEq (Identifier × LifecycleStatus) := inferInstance

variable (t : PrivacyTables)

omit [Digest] in
/-- The insertion into `raw_payload_states`: none where the tombstone id is no
identifier, or where a row is added that refers to no raw record. -/
def PrivacyTables.appendState : Option PrivacyTables :=
  if !isDomainIdentifier (p.tombstoneId recordId) then none
  else if (p.state recordId).key ∈ t.ledger.payloadStates.map (·.key) then some t
  else if (⟨p.scope, recordId⟩ : EvidenceKey) ∈ t.ledger.rawRecords.map (·.evidenceKey) then
    some { t with ledger := { t.ledger with
      payloadStates := t.ledger.payloadStates ++ [p.state recordId] } }
  else none

/-- The three insertions for a record. -/
def PrivacyTables.appendPurge : Option PrivacyTables :=
  (t.appendState p recordId).map (fun t => { t with
    tombstones := insertOnce (·.key) (p.tombstone recordId) t.tombstones
    corrections := insertOnce (·.correctionId) (p.correction recordId) t.corrections })

/-- The insertions for one record after another. -/
def PrivacyTables.appendPurges (t : PrivacyTables) (p : PurgeContext) :
    List Identifier → Option PrivacyTables
  | [] => some t
  | r :: rest => (t.appendPurge p r).bind (·.appendPurges p rest)

end Purge

section Appended

variable [Digest] {p : PurgeContext} {recordId : Identifier} {t t' : PrivacyTables}

/-- The tables differ by payload states, tombstones and corrections of one
scope. -/
structure AppendsPurges (scope : Scope) (t t' : PrivacyTables) : Prop where
  appended : ∃ states tombstones corrections,
    t' = { t with
      ledger := { t.ledger with payloadStates := t.ledger.payloadStates ++ states }
      tombstones := t.tombstones ++ tombstones
      corrections := t.corrections ++ corrections } ∧
    (∀ s ∈ states, s.scope = scope) ∧
    (∀ s ∈ tombstones, (⟨s.tenantId, s.appId⟩ : Scope) = scope) ∧
    ∀ c ∈ corrections, c.scope = scope

omit [Digest] in
theorem AppendsPurges.refl (scope : Scope) (t : PrivacyTables) : AppendsPurges scope t t :=
  ⟨[], [], [], by simp, nofun, nofun, nofun⟩

omit [Digest] in
theorem AppendsPurges.trans {scope : Scope} {t'' : PrivacyTables} (h : AppendsPurges scope t t')
    (h' : AppendsPurges scope t' t'') : AppendsPurges scope t t'' := by
  obtain ⟨states, tombstones, corrections, rfl, hs, ht, hc⟩ := h.appended
  obtain ⟨states', tombstones', corrections', rfl, hs', ht', hc'⟩ := h'.appended
  refine ⟨states ++ states', tombstones ++ tombstones', corrections ++ corrections', ?_, ?_, ?_, ?_⟩
  · simp only [List.append_assoc]
  · exact fun s h => (List.mem_append.mp h).elim (hs s) (hs' s)
  · exact fun s h => (List.mem_append.mp h).elim (ht s) (ht' s)
  · exact fun s h => (List.mem_append.mp h).elim (hc s) (hc' s)

omit [Digest] in
/-- What is recorded for a record stays recorded. -/
theorem AppendsPurges.recorded {scope : Scope} (h : AppendsPurges scope t t') {key : EvidenceKey}
    (hkey : RecordedPurge t key) : RecordedPurge t' key := by
  obtain ⟨states, tombstones, corrections, rfl, -, -, -⟩ := h.appended
  obtain ⟨⟨s, hs, hstate⟩, ⟨b, hb, htombstone⟩, ⟨c, hc, hcorrection⟩⟩ := hkey
  exact ⟨⟨s, List.mem_append_left _ hs, hstate⟩, ⟨b, List.mem_append_left _ hb, htombstone⟩,
    ⟨c, List.mem_append_left _ hc, hcorrection⟩⟩

omit [Digest] in
/-- **Frame.**  What is recorded for a record of another scope was there
before. -/
theorem AppendsPurges.recorded_of_ne {scope : Scope} (h : AppendsPurges scope t t')
    {key : EvidenceKey} (hne : key.scope ≠ scope) (hkey : RecordedPurge t' key) :
    RecordedPurge t key := by
  obtain ⟨states, tombstones, corrections, rfl, hstates, htombstones, hcorrections⟩ := h.appended
  obtain ⟨⟨s, hs, hscope, hstate⟩, ⟨b, hb, hscope', htombstone⟩, ⟨c, hc, hscope'', hcorrection⟩⟩ :=
    hkey
  refine ⟨⟨s, ?_, hscope, hstate⟩, ⟨b, ?_, hscope', htombstone⟩, ⟨c, ?_, hscope'', hcorrection⟩⟩
  · refine (List.mem_append.mp hs).resolve_right (fun hnew => hne ?_)
    rw [← hscope, hstates s hnew]
  · refine (List.mem_append.mp hb).resolve_right (fun hnew => hne ?_)
    rw [← hscope', htombstones b hnew]
  · refine (List.mem_append.mp hc).resolve_right (fun hnew => hne ?_)
    rw [← hscope'', hcorrections c hnew]

/-- A payload state says that the record is purged. -/
def PrivacyTables.hasPurgedState (t : PrivacyTables) (recordId : Identifier) : Prop :=
  ∃ s ∈ t.ledger.payloadStates, s.recordId = recordId ∧ s.lifecycleStatus = .purged

end Appended

end OpenMasu
