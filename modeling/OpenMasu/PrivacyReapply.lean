import OpenMasu.PrivacyRequests

/-!
# Re-applying privacy requests

A pass over the completed requests of a tenant erases their objects again,
appends their rows where they are missing, and recomputes the metric runs
whose evidence they touched.  The whole pass is one transaction; the erasures
are not part of it.

* `DeletionArtifact.records`, `encryptedReferences` — the records and the
  objects of a request;
* `recalculateMetrics` — the runs a request recomputes;
* `reapplyOne`, `reapplyCompletedPrivacyRequests` — a request, and the pass.
-/

namespace OpenMasu

open AppendOnly (latest)

section Selection

variable (a : DeletionArtifact)

/-- `affectedRecords`: each record once, in order; none for an artifact that
is not that of a completed request. -/
def DeletionArtifact.records : Option (List Identifier) :=
  if a.status = .completed && a.affectedRecords.all (fun r => r.lifecycleStatus = .purged) then
    some (KeyedSort.sortOn (fun r => codeUnits r.text) (a.affectedRecords.map (·.recordId)).eraseDups)
  else none

/-- The rows a request is about: those of its app, or of all apps. -/
def DeletionArtifact.reads (scope : Scope) : Bool :=
  scope.tenantId = a.scope.tenantId && (a.deletionScope = .tenant || scope.appId = a.scope.appId)

variable (t : PrivacyTables) (records : List Identifier)

/-- A row about an install is one of the request. -/
def DeletionArtifact.selects (scope : Scope) (recordId : Identifier) : Bool :=
  a.reads scope && (a.deletionScope ≠ .installation || records.contains recordId)

/-- A batch is one of the request: in an installation's, by a record, and when
the request has all its records. -/
def PrivacyTables.reappliesBatch (b : StoredBatch) : Bool :=
  a.reads b.scope && (a.deletionScope ≠ .installation ||
    ((t.membersOf b).any (fun m => records.contains m.recordId) &&
      (t.membersOf b).all (fun m => records.contains m.recordId)))

/-- `encryptedReferences`: each once, in order. -/
def PrivacyTables.encryptedReferences : List String :=
  let raw := t.ledger.rawRecords.filter (fun r => a.reads r.evidenceKey.scope &&
    (a.deletionScope ≠ .installation ||
      (records.contains r.recordId && !t.sharesPayload records r)))
  let inbox := t.inbox.filter (fun q => a.reads q.scope &&
    (a.deletionScope ≠ .installation || t.isQueryOf records q))
  let batches := t.batches.filter (t.reappliesBatch a records)
  let results := t.lookupResults.filter (fun r => a.selects records r.scope r.installRecordId)
  let lookups := t.lookups.filter (fun r => a.selects records r.scope r.installRecordId)
  KeyedSort.sortOn codeUnits ((raw.map (·.rawPayloadRef) ++ inbox.map (·.rawQueryRef) ++
    batches.map (·.bodyRef) ++ results.map (·.responseRef) ++
    lookups.map (·.tokenRef)).eraseDups.filter isEncrypted)

end Selection

section Metrics

variable [Digest] (db : Database)

/-- The manifests of a scope with the runs they are about, in order. -/
def PrivacyTables.replayable (t : PrivacyTables) (scope : Scope) :
    List (ReplayManifest × StoredRun) :=
  db.sortTexts (·.1.sourceMetricRunId) ((t.manifests.filter (fun m => m.scope = scope)).flatMap
    (fun m => (t.metricRuns.filter (fun r => r.run.metricRunId = m.sourceMetricRunId)).map
      (fun r => (m, r))))

omit [Digest] in
/-- The evidence of a run names a record. -/
def StoredRun.touches (r : StoredRun) (records : List Identifier) : Bool :=
  r.run.evidenceRefs.any (fun e => records.contains e.ref)

/-- The id of the run that replaces a source for a request. -/
def replacementId (a : DeletionArtifact) (sourceId : String) : String :=
  "privacy-reapply:" ++ String.ofList
    ((sha256 (.arr [toJson a.privacyRequestId, .str sourceId])).toList.take 48)

omit [Digest] in
/-- The run that supersedes a run, the latest where there are several. -/
def directSuccessor (rows : List StoredRun) (scope : Scope) (sourceId : String) :
    Option StoredRun :=
  latest (fun a b => isLaterRow db a.run.computedAt b.run.computedAt a.run.metricRunId
      b.run.metricRunId)
    (rows.filter (fun r => r.scope = scope && r.run.supersedesMetricRunId = some sourceId))

omit [Digest] in
/-- The evaluation of a manifest, behind the deletion. -/
def replayInput (a : DeletionArtifact) (m : ReplayManifest) : MetricInput where
  scope := a.scope
  fxPolicy := m.fxPolicy
  metricDefinitions := [m.definition]
  metricEvaluations := [{ m.evaluation with
    metricRunIdPrefix := ⟨"privacy-reapply-candidate", by decide⟩
    supersedesMetricRunIdPrefix := none
    metricNames := some [m.definition.metricName]
    privacyState := .after
    computedAt := a.completedAt
    dataFreshness := "recalculated" }]

/-- The run that replaces the source of a manifest; none where it cannot be
computed. -/
def recalculated (t : PrivacyTables) (a : DeletionArtifact) (m : ReplayManifest) :
    Option StoredRun :=
  match sqlMetricRuns db t (replayInput a m) with
  | .ok [entry] => some ⟨a.scope, { entry.1 with
      metricRunId := replacementId a m.sourceMetricRunId
      supersedesMetricRunId := some ((directSuccessor db t.metricRuns a.scope
        m.sourceMetricRunId).elim m.sourceMetricRunId (·.run.metricRunId)) }⟩
  | _ => none

/-- The replacement for one manifest: none where it cannot be computed or
stored.  A replacement that is there is kept. -/
def replaceSource (t : PrivacyTables) (a : DeletionArtifact) (m : ReplayManifest) :
    Option PrivacyTables :=
  if replacementId a m.sourceMetricRunId ∈ t.metricRuns.map (·.run.metricRunId) then some t
  else do
    let run ← recalculated db t a m
    let metricRuns ← persistMetricRun t.metricRuns run
    return { t with metricRuns := metricRuns }

/-- One manifest after another. -/
def replaceSources (a : DeletionArtifact) : List ReplayManifest → PrivacyTables →
    Option PrivacyTables
  | [], t => some t
  | m :: rest, t => (replaceSource db t a m).bind (replaceSources a rest)

/-- `recalculateMetrics`. -/
def recalculateMetrics (t : PrivacyTables) (a : DeletionArtifact) (records : List Identifier) :
    Option PrivacyTables :=
  replaceSources db a (((t.replayable db a.scope).filter (fun e => e.2.touches records)).map
    (·.1)) t

end Metrics

section Pass

variable [Digest] (db : Database)

/-- The request a purge is recorded for. -/
def DeletionArtifact.context (a : DeletionArtifact) : PurgeContext :=
  ⟨a.scope, a.privacyRequestId, a.completedAt⟩

/-- The audit row of a re-application, unless there is one. -/
def PrivacyTables.logReapply (t : PrivacyTables) (a : DeletionArtifact) (records : List Identifier)
    (references : List String) : PrivacyTables :=
  if t.auditLogs.any (fun l => l.scope.tenantId = a.scope.tenantId &&
      l.action = "privacy_reapply" && l.targetRef = a.privacyRequestId.text) then t
  else { t with auditLogs := t.auditLogs ++ [{
    scope := a.scope
    occurredAt := a.completedAt
    actorType := "system_job"
    actorRef := "system:privacy-reapply"
    action := "privacy_reapply"
    targetRef := a.privacyRequestId.text
    policyVersion := "privacy-reapply-v1"
    requestDigest := sha256 (.arr [toJson a.privacyRequestId, toJson records,
      toJson references]) }] }

/-- `reapplyOne`, behind the erasures: none where it throws. -/
def reapplyOne (t : PrivacyTables) (a : DeletionArtifact) (records : List Identifier) :
    Option PrivacyTables := do
  let purged ← t.appendPurges a.context records
  let dropped := { purged with
    lookups := purged.lookups.filter (fun r => !a.selects records r.scope r.installRecordId) }
  let replaced ← recalculateMetrics db dropped a records
  return replaced.logReapply a records (t.encryptedReferences a records)

/-- One request after another: the tables, none where one throws, and what
can be read behind the erasures so far. -/
def reapplyRequests : List DeletionArtifact → PrivacyTables → List String →
    Option PrivacyTables × List String
  | [], t, readable => (some t, readable)
  | a :: rest, t, readable =>
      match a.records with
      | none => (none, readable)
      | some records =>
          let readable := ObjectStore.purgeAll readable (t.encryptedReferences a records)
          match reapplyOne db t a records with
          | none => (none, readable)
          | some t' => reapplyRequests rest t' readable

/-- The completed requests of a tenant, in order. -/
def PrivacyTables.completedRequests (t : PrivacyTables) (tenantId : Identifier) :
    List DeletionArtifact :=
  KeyedSort.sortOn (fun a => codeUnits a.completedAt.text)
    (db.sortTexts (·.privacyRequestId.text) (t.privacyRequests.filter (fun a =>
      a.scope.tenantId = tenantId && a.status = .completed)))

/-- `reapplyCompletedPrivacyRequests`: the world, and whether the pass
returned.  A pass that throws leaves the tables as they were. -/
def reapplyCompletedPrivacyRequests (w : PrivacyWorld) (tenantId : Identifier) :
    PrivacyWorld × Bool :=
  let result := reapplyRequests db (w.tables.completedRequests db tenantId) w.tables w.readable
  (⟨result.1.getD w.tables, result.2⟩, result.1.isSome)

end Pass

end OpenMasu
