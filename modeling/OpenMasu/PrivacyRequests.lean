import OpenMasu.MetricStore

/-!
# Privacy requests

A completed request erases the objects of the records it affects and records
the deletion.  The objects go first; the rows follow in the same transaction,
which can still fail.

* `PrivacyIdentity`, `PrivacyRequestBody`, `refusal` — who asks for what, and
  who is turned away;
* `affectedRecordIds`, `erasedReferences` — the records of a request, and the
  objects it erases;
* `previousRuns`, `replaceRuns` — the metric runs it replaces;
* `executePrivacyRequest` — the request.
-/

namespace OpenMasu

open AppendOnly (latest)

section Request

inductive ActorType where
  | adminKey
  | sdkInstallation
  deriving DecidableEq

def ActorType.text : ActorType → String
  | adminKey => "admin_key"
  | sdkInstallation => "sdk_installation"

/-- The members of an identity that names its actor. -/
structure PrivacyActor where
  actorType : ActorType
  actorRef : String
  requesterAuthRef : String
  installationKeyId : Option Identifier := none
  deletionSubjectDigest : Option String := none

/-- An administration key, or an identity that names its actor. -/
inductive Requester where
  | adminKey (keyId : String)
  | actor (actor : PrivacyActor)

structure PrivacyIdentity where
  tenantId : Identifier
  appId : Identifier
  requester : Requester

structure PrivacyRequestBody where
  tenantId : Identifier
  appId : Identifier
  requestedVia : RequestedVia
  deletionScope : DeletionScope
  deletionSubjectRef : Identifier

instance : Encode PrivacyRequestBody := ⟨fun b => .object [
  member "tenant_id" b.tenantId,
  member "app_id" b.appId,
  member "requested_via" b.requestedVia,
  member "deletion_scope" b.deletionScope,
  member "deletion_subject_ref" b.deletionSubjectRef]⟩

def PrivacyRequestBody.scope (b : PrivacyRequestBody) : Scope := ⟨b.tenantId, b.appId⟩

/-- The actor of an identity that names one. -/
def PrivacyIdentity.actor (i : PrivacyIdentity) : Option PrivacyActor :=
  match i.requester with
  | .adminKey _ => none
  | .actor actor => some actor

def PrivacyIdentity.installationKeyId (i : PrivacyIdentity) : Option Identifier :=
  i.actor.bind (·.installationKeyId)

def PrivacyIdentity.actorType (i : PrivacyIdentity) : ActorType :=
  i.actor.elim .adminKey (·.actorType)

def PrivacyIdentity.actorRef (i : PrivacyIdentity) : String :=
  match i.requester with
  | .adminKey keyId => "admin_key:" ++ keyId
  | .actor actor => actor.actorRef

def PrivacyIdentity.requesterAuthRef (i : PrivacyIdentity) : String :=
  match i.requester with
  | .adminKey keyId => "admin_key:" ++ keyId
  | .actor actor => actor.requesterAuthRef

/-- How a request ends without an artifact: turned away with a status, by a
broken constraint, or by a failing store or connection. -/
inductive PrivacyFailure where
  | refused (statusCode : Nat) (message : String)
  | constraintViolated
  | interrupted
  deriving DecidableEq

/-- The requests turned away. -/
def refusal (identity : PrivacyIdentity) (body : PrivacyRequestBody) : Option PrivacyFailure :=
  if body.requestedVia = .onDeviceSdk ∧
      identity.actor.all (fun actor => actor.actorType ≠ .sdkInstallation) = true then
    some (.refused 501 "on_device_path_not_implemented")
  else if body.requestedVia = .tenantAdminApi ∧ identity.actor.isSome then
    some (.refused 403 "tenant_admin_path_requires_admin_auth")
  else if identity.tenantId ≠ body.tenantId ∨ identity.appId ≠ body.appId then
    some (.refused 403 "requester_scope_mismatch")
  else none

end Request

section Selection

variable (db : Database) (t : PrivacyTables) (body : PrivacyRequestBody)

/-- The tenant's rows a request reads: those of its app, or of all apps. -/
def PrivacyRequestBody.reads (scope : Scope) : Bool :=
  scope.tenantId = body.tenantId && (body.deletionScope = .tenant || scope.appId = body.appId)

/-- `affectedRecordIds`. -/
def affectedRecordIds (l : Ledger) : List Identifier :=
  db.sortTexts (·.text)
    (if body.deletionScope = .installation then
      ((l.logicalEvents.filter (fun e => e.event.evidenceKey.scope = body.scope &&
        l.projectedInstallation e.event = some body.deletionSubjectRef)).map
          (·.event.recordId)).dedup
    else (l.rawRecords.filter (fun r => body.reads r.evidenceKey.scope)).map (·.recordId))

variable (records : List Identifier)

/-- Another record of the tenant than those of the request shares the
payload. -/
def PrivacyTables.sharesPayload (r : RawRecord) : Bool :=
  t.ledger.rawRecords.any (fun shared => shared.tenantId = r.tenantId &&
    shared.rawPayloadRef = r.rawPayloadRef && !records.contains shared.recordId)

/-- The raw payloads of a request. -/
def PrivacyTables.rawPayloads : List String :=
  db.sortTexts id ((t.ledger.rawRecords.filter (fun r =>
    body.reads r.evidenceKey.scope && isEncrypted r.rawPayloadRef &&
      (body.deletionScope ≠ .installation ||
        (records.contains r.recordId && !t.sharesPayload records r)))).map
    (·.rawPayloadRef)).dedup

/-- A raw record of the request came by the query. -/
def PrivacyTables.isQueryOf (q : StoredQuery) : Bool :=
  t.ledger.rawRecords.any (fun r => r.evidenceKey.scope = q.scope && r.producer = q.producer &&
    r.eventId = q.eventId && records.contains r.recordId)

/-- The inbox queries of a request. -/
def PrivacyTables.payloads : List String :=
  let rows := t.inbox.filter (fun q => body.reads q.scope &&
    (body.deletionScope ≠ .installation || t.isQueryOf records q))
  if body.deletionScope = .installation then db.sortTexts id (rows.map (·.rawQueryRef)).dedup
  else (db.sortTexts (·.inboxId.text) rows).map (·.rawQueryRef)

/-- The members of a batch. -/
def PrivacyTables.membersOf (b : StoredBatch) : List BatchMember :=
  t.batchRecords.filter (fun m => m.ingestBatchId = b.ingestBatchId)

/-- The batches of a request, by a record or by the key of the
installation. -/
def PrivacyTables.batchPayloads (installationKeyId : Option Identifier) : List String :=
  let rows := t.batches.filter (fun b => body.reads b.scope &&
    (body.deletionScope ≠ .installation ||
      (((t.membersOf b).any (fun m => m.scope = b.scope && records.contains m.recordId) ||
          (installationKeyId.isSome && b.installationKeyId = installationKeyId)) &&
        (t.membersOf b).all (fun m => records.contains m.recordId))))
  if body.deletionScope = .installation then db.sortTexts id (rows.map (·.bodyRef)).dedup
  else rows.map (·.bodyRef)

/-- A row about an install is one of the request. -/
def PrivacyRequestBody.selects (scope : Scope) (recordId : Identifier) : Bool :=
  body.reads scope && (body.deletionScope ≠ .installation || records.contains recordId)

/-- The AdServices responses of a request. -/
def PrivacyTables.adServicesPayloads : List String :=
  db.sortTexts id ((t.lookupResults.filter (fun r =>
    body.selects records r.scope r.installRecordId)).map (·.responseRef))

/-- The AdServices tokens of a request that wait for their lookup. -/
def PrivacyTables.pendingAdServicesPayloads : List String :=
  db.sortTexts id ((t.lookups.filter (fun r =>
    body.selects records r.scope r.installRecordId)).map (·.tokenRef))

/-- The objects a request erases, each once. -/
def PrivacyTables.erasedReferences (identity : PrivacyIdentity) : List String :=
  (t.rawPayloads db body records ++ t.payloads db body records ++
    t.batchPayloads db body records identity.installationKeyId ++
    t.adServicesPayloads db body records ++
    t.pendingAdServicesPayloads db body records).eraseDups

end Selection

section Metrics

variable [Digest]

/-- `INSERT … ON CONFLICT DO NOTHING`. -/
def insertRun (rows : List StoredRun) (r : StoredRun) : List StoredRun :=
  if admitsRun rows r then rows ++ [r] else rows

omit [Digest] in
/-- Later computed, or listed first of two runs computed at one time. -/
def isLaterRun (listedFirst : StoredRun → StoredRun → Bool) (a b : StoredRun) : Bool :=
  b.run.computedAt.ms < a.run.computedAt.ms ||
    (b.run.computedAt.ms = a.run.computedAt.ms && listedFirst a b)

omit [Digest] in
/-- The metrics a request replaces, by name. -/
def replacedMetricNames : List String := [
  "d0_install_to_24h_ad_revenue_usd",
  "d0_jst_install_calendar_ad_revenue_usd",
  "d0_utc_install_calendar_ad_revenue_usd"]

omit [Digest] in
/-- The latest run of each of these metrics; the query leaves open which of
two runs computed at one time it lists first. -/
def previousRuns (listedFirst : StoredRun → StoredRun → Bool) (rows : List StoredRun)
    (scope : Scope) : List StoredRun :=
  replacedMetricNames.filterMap (fun name =>
    latest (isLaterRun listedFirst)
      (rows.filter (fun r => r.scope = scope && r.run.metricName = name)))

/-- The replacement of a run: a copy of it. -/
def replacementRun (p : PurgeContext) (records : List Identifier) (prior : StoredRun) :
    StoredRun where
  scope := p.scope
  run := { prior.run with
    metricRunId := "metric:" ++ String.ofList
      ((sha256 (.arr [toJson p.privacyRequestId, toJson prior.run.metricRunId])).toList.take 48)
    inputSnapshotId := sha256 (.arr [toJson prior.run.inputSnapshotId, toJson p.privacyRequestId,
      toJson records])
    computedAt := p.completedAt
    dataFreshness := "recalculated"
    reproducibilityStatus := .redactionAffected
    supersedesMetricRunId := some prior.run.metricRunId }

/-- The metric runs behind a request. -/
def replaceRuns (listedFirst : StoredRun → StoredRun → Bool) (rows : List StoredRun)
    (p : PurgeContext) (records : List Identifier) : List StoredRun :=
  (previousRuns listedFirst rows p.scope).foldl
    (fun rows prior => insertRun rows (replacementRun p records prior)) rows

end Metrics

variable [Digest]

/-- What a request meets: its id, the time, after how many purges a failing
operation ends it, where one does, and which of two metric runs computed at
one time its query lists first. -/
structure RequestEnvironment where
  privacyRequestId : Identifier
  completedAt : Timestamp
  fault : Option Nat
  listedFirst : StoredRun → StoredRun → Bool

omit [Digest] in
/-- The request a purge is recorded for. -/
def RequestEnvironment.context (env : RequestEnvironment) (body : PrivacyRequestBody) :
    PurgeContext :=
  ⟨body.scope, env.privacyRequestId, env.completedAt⟩

/-- The artifact of a request. -/
def deletionArtifact (identity : PrivacyIdentity) (body : PrivacyRequestBody)
    (env : RequestEnvironment) (records : List Identifier) : DeletionArtifact where
  scope := body.scope
  privacyRequestId := env.privacyRequestId
  deletionSubjectDigest := (identity.actor.bind (·.deletionSubjectDigest)).getD
    (sha256 (.arr [toJson body.tenantId, toJson body.appId, toJson body.deletionScope,
      toJson body.deletionSubjectRef]))
  deletionScope := body.deletionScope
  requestedVia := body.requestedVia
  requesterAuthRef := identity.requesterAuthRef
  requestedAt := env.completedAt
  completedAt := env.completedAt
  status := .completed
  reasonCode := "privacy_deletion"
  policyVersion := "privacy-v0.2"
  affectedRecords := records.map (fun r => ⟨r, .purged⟩)

/-- The lookups of a request are dropped, the request is stored. -/
def PrivacyTables.openRequest (t : PrivacyTables) (identity : PrivacyIdentity)
    (body : PrivacyRequestBody) (env : RequestEnvironment) (records : List Identifier) :
    PrivacyTables :=
  { t with
    lookups := t.lookups.filter (fun r => !body.selects records r.scope r.installRecordId)
    privacyRequests := t.privacyRequests ++ [deletionArtifact identity body env records] }

/-- The metric runs are replaced, the request is logged. -/
def PrivacyTables.closeRequest (t : PrivacyTables) (identity : PrivacyIdentity)
    (body : PrivacyRequestBody) (env : RequestEnvironment) (records : List Identifier) :
    PrivacyTables :=
  { t with
    metricRuns := replaceRuns env.listedFirst t.metricRuns (env.context body) records
    auditLogs := t.auditLogs ++ [{
      scope := body.scope
      occurredAt := env.completedAt
      actorType := identity.actorType.text
      actorRef := identity.actorRef
      action := "privacy_delete"
      targetRef := env.privacyRequestId.text
      policyVersion := "privacy-v0.2"
      requestDigest := sha256 (toJson body) }] }

/-- The statements of a request behind the purges; none where a constraint is
broken. -/
def recordDeletion (t : PrivacyTables) (identity : PrivacyIdentity) (body : PrivacyRequestBody)
    (env : RequestEnvironment) (records : List Identifier) : Option PrivacyTables :=
  if env.privacyRequestId ∈ t.privacyRequests.map (·.privacyRequestId) then none
  else ((t.openRequest identity body env records).appendPurges (env.context body) records).map
    (·.closeRequest identity body env records)

/-- `executePrivacyRequest`. -/
def executePrivacyRequest (db : Database) (w : PrivacyWorld) (identity : PrivacyIdentity)
    (body : PrivacyRequestBody) (env : RequestEnvironment) :
    PrivacyWorld × Except PrivacyFailure DeletionArtifact :=
  match refusal identity body with
  | some failure => (w, .error failure)
  | none =>
      let records := affectedRecordIds db body w.tables.ledger
      let references := w.tables.erasedReferences db body records identity
      match env.fault with
      | some n =>
          ({ w with readable := ObjectStore.purgeAll w.readable (references.take n) },
            .error .interrupted)
      | none =>
          let readable := ObjectStore.purgeAll w.readable references
          match recordDeletion w.tables identity body env records with
          | none => ({ w with readable := readable }, .error .constraintViolated)
          | some tables =>
              (⟨tables, readable⟩, .ok (deletionArtifact identity body env records))

end OpenMasu
