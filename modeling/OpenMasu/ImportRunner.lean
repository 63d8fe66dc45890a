import OpenMasu.RuntimeFacts

/-!
# The import runner

A run maps the rows of a file to attempts, ingests them chunk by chunk, each
chunk with the earlier attempts that share an event id with it, and publishes
the file and its attempts in a last transaction.  A run that throws records
itself as failed; what its chunks committed stays.

* `ImportMapping`, `ImportFile`, `ImportWorld` — what a run reads and writes;
* `toAttempt`, `attemptRows` — the attempts of a file;
* `historicalAttempts`, `chunkHistory` — the history of a run and of a chunk;
* `runChunks`, `runMmpImport` — the chunk loop and the run.
-/

namespace OpenMasu

/-- Why a row is turned away before or during ingestion. -/
inductive RowRejectionReason where
  | timestampInvalid
  | mappingValidationFailed
  | rowSchemaInvalid

/-- What the rules of a mapping make of a row. -/
structure MappedRow where
  eventId : Identifier
  occurredAt : Timestamp
  processingPurposeId : ProcessingPurpose
  payload : Payload

/-- A raw mapping.  `mapRow` fails where a rule of the mapping or a check of
`toAttempt` does. -/
structure ImportMapping (Row : Type) where
  version : String
  sourceId : Identifier
  tenantId : Identifier
  appId : Identifier
  provider : ProducerName
  rowMatches : Row → Bool
  mapRow : Row → Except RowRejectionReason MappedRow

/-- A file: the digest of its bytes, and its rows. -/
structure ImportFile (Row : Type) where
  digest : String
  rows : List Row

inductive ImportStatus where
  | completed
  | failed
  | skipped
  deriving DecidableEq

/-- A row of `import_runs`. -/
structure ImportRun where
  importRunId : Identifier
  scope : Scope
  sourceId : Identifier
  fileDigest : String
  status : ImportStatus
  startedAt : Timestamp

/-- A row of `import_files`. -/
structure PublishedFile where
  scope : Scope
  sourceId : Identifier
  fileDigest : String
  rowCount : Nat
  firstSeenAt : Timestamp
  importRunId : Identifier

/-- A row of `import_attempts`. -/
structure PublishedAttempt where
  importRunId : Identifier
  sourceId : Identifier
  rowOrdinal : Nat
  attempt : Attempt
  createdAt : Timestamp

/-- A row of `import_row_rejections`. -/
structure RowRejection where
  importRunId : Identifier
  scope : Scope
  sourceId : Identifier
  rowOrdinal : Nat
  reason : RowRejectionReason
  occurredAt : Timestamp

/-- The ledger and the import tables. -/
structure ImportWorld where
  ledger : Ledger := {}
  runs : List ImportRun := []
  files : List PublishedFile := []
  attempts : List PublishedAttempt := []
  rowRejections : List RowRejection := []

/-- What a run meets: its clock, its id, the control tables at each chunk,
and whether its last transaction is committed. -/
structure ImportEnvironment where
  now : Timestamp
  importRunId : Identifier
  contexts : Nat → CallContext
  publishes : Bool

section Chunks

variable {α : Type}

/-- The slices of a list at the multiples of a size. -/
def chunksOf (size : Nat) (l : List α) : List (List α) :=
  (List.range ((l.length + size - 1) / size)).map (fun i => (l.drop (i * size)).take size)

variable {size : Nat} {l : List α}

theorem chunksOf_nil (hsize : 0 < size) : chunksOf size ([] : List α) = [] := by
  have hzero : (0 + size - 1) / size = 0 := Nat.div_eq_of_lt (by omega)
  simp only [chunksOf, List.length_nil, hzero, List.range_zero, List.map_nil]

/-- The first slice, and the slices of what is behind it. -/
theorem chunksOf_of_ne_nil (hsize : 0 < size) (hl : l ≠ []) :
    chunksOf size l = l.take size :: chunksOf size (l.drop size) := by
  have hlength : 0 < l.length := List.length_pos_of_ne_nil hl
  have hcount : (l.length + size - 1) / size = ((l.drop size).length + size - 1) / size + 1 := by
    rw [List.length_drop]
    by_cases hshort : l.length ≤ size
    · have hlast : (l.length - size + size - 1) / size = 0 := Nat.div_eq_of_lt (by omega)
      rw [hlast]
      exact Nat.div_eq_of_lt_le (by omega) (by omega)
    · have hsub : l.length + size - 1 = (l.length - size + size - 1) + size := by omega
      rw [hsub, Nat.add_div_right _ hsize]
  rw [chunksOf, hcount, List.range_succ_eq_map]
  simp [chunksOf, List.drop_drop, Nat.add_mul, Nat.add_comm]

/-- The slices of a list, one behind the other, are the list. -/
theorem flatten_chunksOf (hsize : 0 < size) (l : List α) : (chunksOf size l).flatten = l := by
  induction hn : l.length using Nat.strong_induction_on generalizing l with
  | _ n ih =>
      by_cases hl : l = []
      · rw [hl, chunksOf_nil hsize]
        rfl
      · have hlength : 0 < l.length := List.length_pos_of_ne_nil hl
        have hshorter : (l.drop size).length < n := by
          rw [List.length_drop]
          omega
        rw [chunksOf_of_ne_nil hsize hl, List.flatten_cons, ih _ hshorter _ rfl,
          List.take_append_drop]

/-- No slice is empty. -/
theorem ne_nil_of_mem_chunksOf (hsize : 0 < size) {c : List α} (hc : c ∈ chunksOf size l) :
    c ≠ [] := by
  obtain ⟨i, hi, rfl⟩ := List.mem_map.mp hc
  have hcount := (Nat.lt_div_iff_mul_lt hsize).mp (List.mem_range.mp hi)
  refine List.ne_nil_of_length_pos ?_
  rw [List.length_take, List.length_drop]
  omega

end Chunks

section Mapping

variable [Digest] {Row : Type}

/-- `identifier`: a kind and the first characters of a digest. -/
def importIdentifier (kind : String) (value : Json) : Identifier where
  text := kind ++ ":" ++ String.ofList ((sha256 value).toList.take 48)
  nonempty h := by
    have hlength := congrArg String.length h
    simp [String.length_append] at hlength

def ImportMapping.scope (m : ImportMapping Row) : Scope := ⟨m.tenantId, m.appId⟩

/-- The record id of a row. -/
def rowRecordId (m : ImportMapping Row) (fileDigest : String) (rowOrdinal : Nat) : Identifier :=
  importIdentifier "record" (.arr [toJson m.sourceId, .str fileDigest, .int rowOrdinal])

/-- The delivery id of a row: the source has no part in it. -/
def rowDeliveryId (fileDigest : String) (rowOrdinal : Nat) : Identifier :=
  importIdentifier "delivery" (.arr [.str fileDigest, .int rowOrdinal])

/-- `toAttempt`. -/
def toAttempt (m : ImportMapping Row) (fileDigest : String) (rowOrdinal : Nat)
    (receivedAt : Timestamp) (mapped : MappedRow) : Attempt where
  server := {
    tenantId := m.tenantId
    appId := m.appId
    receivedAt := receivedAt
    policyDigest := "runtime-import-policy-v0.2"
    processingPurposes := [{
      processingPurposeId := mapped.processingPurposeId
      consentRequired := false
      policyVersion := "runtime-consent-v0.2" }] }
  record := {
    recordId := rowRecordId m fileDigest rowOrdinal
    deliveryId := rowDeliveryId fileDigest rowOrdinal
    tenantId := m.tenantId
    appId := m.appId
    producer := .import m.provider
    producerVersion := "mapping:" ++ m.version
    eventId := mapped.eventId
    schemaVersion := "0.4.0"
    occurredAt := mapped.occurredAt
    occurredAtSource := "import"
    receivedAt := receivedAt
    processingPurposeId := some mapped.processingPurposeId
    processingSequence := rowOrdinal + 1
    payload := mapped.payload }
  batchId := importIdentifier "batch" (.arr [toJson m.sourceId, .str fileDigest])

/-- The rows of a file the mapping's filter admits, with their ordinals. -/
def matchedRows (m : ImportMapping Row) (file : ImportFile Row) : List (Row × Nat) :=
  file.rows.zipIdx.filter (fun e => m.rowMatches e.1)

/-- The attempts of a file, with the ordinals of their rows. -/
def attemptRows (m : ImportMapping Row) (file : ImportFile Row) (now : Timestamp) :
    List (Nat × Attempt) :=
  (matchedRows m file).filterMap (fun e => match m.mapRow e.1 with
    | .ok mapped => some (e.2, toAttempt m file.digest e.2 now mapped)
    | .error _ => none)

/-- The rows of a file that cannot be mapped. -/
def mappingFailures (m : ImportMapping Row) (file : ImportFile Row) :
    List (Nat × RowRejectionReason) :=
  (matchedRows m file).filterMap (fun e => match m.mapRow e.1 with
    | .ok _ => none
    | .error reason => some (e.2, reason))

/-- The attempts of a file. -/
def fileAttempts (m : ImportMapping Row) (file : ImportFile Row) (now : Timestamp) :
    List Attempt :=
  (attemptRows m file now).map (·.2)

end Mapping

section History

variable {Row : Type}

/-- A published attempt as it is read back: its batch is the run that
published it. -/
def PublishedAttempt.historical (p : PublishedAttempt) : Attempt :=
  { p.attempt with batchId := p.importRunId }

/-- `historicalAttempts`: the published attempts of the mapping's producer
with one of the event ids. -/
def historicalAttempts (w : ImportWorld) (m : ImportMapping Row) (eventIds : List Identifier) :
    List Attempt :=
  (KeyedSort.sortOn (fun p : PublishedAttempt => codeUnits p.createdAt.text ++ [p.rowOrdinal])
    (w.attempts.filter (fun p => p.attempt.scope = m.scope &&
      p.attempt.record.producer = .import m.provider &&
      eventIds.contains p.attempt.record.eventId))).map (·.historical)

/-- The attempts of a history that share an event id with a chunk, event id
by event id. -/
def chunkHistory (history chunk : List Attempt) : List Attempt :=
  (InsertionMap.group (fun a : Attempt => a.record.eventId) chunk).entries.flatMap
    (fun e => history.filter (fun h => h.record.eventId = e.1))

end History

variable [Digest] [PayloadSchemas] {Row : Type}

/-- The chunk loop: one call after another, each with the history of its
event ids, up to the first that fails. -/
def runChunks (contexts : Nat → CallContext) :
    Nat → List (List Attempt) → List Attempt → Ledger → Ledger × Bool
  | _, [], _, l => (l, true)
  | i, chunk :: rest, history, l =>
      let result := ingestRuntimeBatch l (fun _ => contexts i) chunk (chunkHistory history chunk) true
      if result.completed then
        runChunks contexts (i + 1) rest (history ++ validAttempts chunk) result.ledger
      else (result.ledger, false)

/-- The attempts of a file its ingestion did not turn away for their
schemas. -/
def acceptedRows (m : ImportMapping Row) (file : ImportFile Row) (now : Timestamp) :
    List (Nat × Attempt) :=
  (attemptRows m file now).filter (fun e =>
    deliveryKey e.2 ∉ ((fileAttempts m file now).filter (fun b => !isSchemaValid b)).map deliveryKey)

/-- The rows of a file its ingestion turned away for their schemas. -/
def schemaFailures (m : ImportMapping Row) (file : ImportFile Row) (now : Timestamp) :
    List (Nat × RowRejectionReason) :=
  ((attemptRows m file now).filter (fun e => !isSchemaValid e.2)).map
    (fun e => (e.1, .rowSchemaInvalid))

/-- The file was published before, from the same source. -/
def isPublished (w : ImportWorld) (m : ImportMapping Row) (file : ImportFile Row) : Bool :=
  w.files.any (fun f => f.scope = m.scope && f.sourceId = m.sourceId && f.fileDigest = file.digest)

/-- The row a run leaves in `import_runs`. -/
def importRun (m : ImportMapping Row) (file : ImportFile Row) (env : ImportEnvironment)
    (status : ImportStatus) : ImportRun where
  importRunId := env.importRunId
  scope := m.scope
  sourceId := m.sourceId
  fileDigest := file.digest
  status := status
  startedAt := env.now

/-- The last transaction of a run: the run, the file, its attempts and its
row rejections. -/
def publish (w : ImportWorld) (m : ImportMapping Row) (file : ImportFile Row)
    (env : ImportEnvironment) : ImportWorld :=
  { w with
    runs := w.runs ++ [importRun m file env .completed]
    files := w.files ++ [{
      scope := m.scope
      sourceId := m.sourceId
      fileDigest := file.digest
      rowCount := file.rows.length
      firstSeenAt := env.now
      importRunId := env.importRunId }]
    attempts := w.attempts ++ (acceptedRows m file env.now).map (fun e => {
      importRunId := env.importRunId
      sourceId := m.sourceId
      rowOrdinal := e.1
      attempt := e.2
      createdAt := env.now })
    rowRejections := w.rowRejections ++
      (mappingFailures m file ++ schemaFailures m file env.now).map (fun e => {
        importRunId := env.importRunId
        scope := m.scope
        sourceId := m.sourceId
        rowOrdinal := e.1
        reason := e.2
        occurredAt := env.now }) }

/-- The history a run starts with. -/
def fileHistory (w : ImportWorld) (m : ImportMapping Row) (file : ImportFile Row)
    (now : Timestamp) : List Attempt :=
  historicalAttempts w m ((fileAttempts m file now).map (·.record.eventId))

/-- `runMmpImport`, with chunks of a given size. -/
def runImport (size : Nat) (m : ImportMapping Row) (file : ImportFile Row) (w : ImportWorld)
    (env : ImportEnvironment) : ImportWorld × ImportStatus :=
  if isPublished w m file then
    ({ w with runs := w.runs ++ [importRun m file env .skipped] }, .skipped)
  else
    let ingested := runChunks env.contexts 0 (chunksOf size (fileAttempts m file env.now))
      (fileHistory w m file env.now) w.ledger
    if ingested.2 && env.publishes then
      (publish { w with ledger := ingested.1 } m file env, .completed)
    else
      ({ w with ledger := ingested.1, runs := w.runs ++ [importRun m file env .failed] }, .failed)

def importEvaluationChunkSize : Nat := 5000

/-- `runMmpImport`. -/
def runMmpImport (m : ImportMapping Row) (file : ImportFile Row) (w : ImportWorld)
    (env : ImportEnvironment) : ImportWorld × ImportStatus :=
  runImport importEvaluationChunkSize m file w env

end OpenMasu
