import OpenMasu.PrivacyTables

/-!
# Stored metric runs

The metric engine of the database reads the rows that ingestion appended, and
stores its runs together with what they were computed from.

* `Ledger.metricTables` — the rows of the ledger as the queries read them;
* `PrivacyTables.snapshotRecords`, `snapshotDigest` — the records of an
  evaluation, and the digest of what it saw;
* `sqlMetricRuns` — the runs of an input;
* `StoredRun.key`, `persistMetricRun` — the table of the runs;
* `computeSqlMetricRuns` — the runs of an input, stored.
-/

namespace OpenMasu


section Columns

variable (columns : List (String × Option Json)) (name : String)

/-- A column of a fact row. -/
def columnOf : Option Json := (columns.find? (fun c => c.1 = name)).bind (·.2)

def textColumn : Option String :=
  match columnOf columns name with
  | some (.str s) => some s
  | _ => none

def identifierColumn : Option Identifier :=
  (textColumn columns name).bind (fun s => if h : s ≠ "" then some ⟨s, h⟩ else none)

def numberColumn : Option Nat :=
  match columnOf columns name with
  | some (.num q) => some q.num.toNat
  | _ => none

def flagColumn : Bool :=
  match columnOf columns name with
  | some (.bool b) => b
  | _ => false

/-- The timestamp a text spells. -/
def timestampOf (s : String) : Option Timestamp :=
  let field (start width : Nat) : Nat :=
    ((s.toList.drop start).take width).foldl (fun n c => 10 * n + (c.toNat - 48)) 0
  let t : Timestamp := ⟨Fin.ofNat _ (field 0 4), Fin.ofNat _ (field 5 2), Fin.ofNat _ (field 8 2),
    Fin.ofNat _ (field 11 2), Fin.ofNat _ (field 14 2), Fin.ofNat _ (field 17 2),
    Fin.ofNat _ (field 20 3)⟩
  if t.text = s then some t else none

/-- The number a text of digits spells. -/
def unscaledAmount (s : String) : Option Nat :=
  if s ≠ "" && s.toList.all Char.isDigit then
    some (s.toList.foldl (fun n c => 10 * n + (c.toNat - 48)) 0)
  else none

def timestampColumn : Option Timestamp := (textColumn columns name).bind timestampOf

end Columns

section Tables

def RawRecord.row (r : RawRecord) : RecordRow := ⟨r.recordId, ⟨r.tenantId, r.appId⟩, r.occurredAt, r.receivedAt⟩

def InstallFact.row (f : InstallFact) : InstallRow where
  logicalEventId := f.logicalEventId
  scope := f.scope
  installationId := f.installationId
  occurredAt := some f.occurredAt
  campaignId := identifierColumn f.columns "campaign_id"
  network := identifierColumn f.columns "network"
  country := identifierColumn f.columns "country"

def Fact.clickRow (f : Fact) : ClickRow where
  logicalEventId := f.logicalEventId
  campaignId := identifierColumn f.columns "campaign_id"
  network := identifierColumn f.columns "network"
  country := identifierColumn f.columns "country"

def Fact.sessionRow (f : Fact) : Option SessionRow :=
  f.installationId.map (fun id => ⟨f.logicalEventId, f.scope, id, f.occurredAt⟩)

def Fact.revenueRow (f : Fact) : Option RevenueRow := do
  let amount ← (textColumn f.columns "amount_unscaled").bind unscaledAmount
  let scale ← numberColumn f.columns "amount_scale"
  let currency ← textColumn f.columns "currency"
  return ⟨f.logicalEventId, f.scope, f.installationId, amount, scale, currency, f.occurredAt⟩

def Fact.deepLinkRow (f : Fact) : DeepLinkRow :=
  ⟨f.logicalEventId, identifierColumn f.columns "campaign_id"⟩

def Fact.postbackRow (f : Fact) : Option PostbackRow :=
  (timestampColumn f.columns "received_at").map (fun receivedAt => {
    logicalEventId := f.logicalEventId
    scope := f.scope
    signatureVerified := flagColumn f.columns "signature_verified"
    didWin := flagColumn f.columns "did_win"
    sourceIdentifierPresent := flagColumn f.columns "source_identifier_present"
    conversionBucket := textColumn f.columns "conversion_bucket"
    receivedAt := receivedAt })

variable (l : Ledger)

/-- The rows of a fact table. -/
def Ledger.factsOf (table : FactTable) : List Fact := l.facts.filter (fun f => f.table = table)

/-- The rows of the ledger, as the metric queries read them. -/
def Ledger.metricTables (costs : List CostRow) : MetricTables where
  rawRecords := l.rawRecords.map (·.row)
  rawPayloadStates := l.payloadStates.map (fun s => ⟨s.recordId, s.scope, s.lifecycleStatus⟩)
  logicalEvents := l.logicalEvents.map (fun e =>
    ⟨e.event.logicalEventId, e.event.recordId, e.event.evidenceKey.scope, e.event.eventName⟩)
  clickFacts := (l.factsOf .click).map (·.clickRow)
  installFacts := l.installFacts.map (·.row)
  sessionFacts := (l.factsOf .session).filterMap (·.sessionRow)
  adRevenueFacts := (l.factsOf .adRevenue).filterMap (·.revenueRow)
  deepLinkOpenFacts := (l.factsOf .deepLinkOpen).map (·.deepLinkRow)
  applePostbackFacts := (l.factsOf .applePostback).filterMap (·.postbackRow)
  attributionResults := l.attributions
  costRecords := costs

end Tables

section Definitions

/-- The rule bundle and the groupings of the stage's definitions. -/
def stageDefinition (name : String) (valueType : ValueType) (formula : MetricFormula) :
    MetricDefinition where
  metricName := name
  metricDefinitionVersion := "0.3.0"
  anchorEvent := "install"
  aggregationTimeZone := .utc
  valueType := valueType
  definition := formula
  groupingDimensions := some [.campaignId, .network, .country, .cohortDate, .attributionStatus]
  ruleBundleId := "metric-stage-b"
  ruleBundleVersion := "0.3.0"
  ruleBundleHash := String.ofList (List.replicate 64 '2')

/-- `roas`. -/
def roas (day : Nat) : MetricDefinition :=
  { stageDefinition ("d" ++ toString day ++ "_roas") .ratio {
      calculation := .revenueOverCost
      window := ⟨.elapsed, day⟩
      numerator := .revenue
      denominator := some "cost"
      costBasis := some "cohort_acquisition_day_current_snapshot" } with
    ratioScale := some 6 }

/-- `retention`. -/
def retention (day : Nat) : MetricDefinition :=
  { stageDefinition ("retention_d" ++ toString day) .ratio {
      calculation := .activeInstallationsOverCohort
      window := ⟨.activityDay, day⟩
      numerator := .activeInstallations
      denominator := some "cohort_size" } with
    ratioScale := some 6
    activityEvents := some ["session_start"] }

/-- `ltv`. -/
def ltv (day : Nat) : MetricDefinition :=
  { stageDefinition ("cohort_ltv_d" ++ toString day ++ "_usd") .money {
      calculation := .revenueOverCohort
      window := ⟨.elapsed, day⟩
      numerator := .revenue
      denominator := some "cohort_size" } with
    currency := some "USD"
    amountScale := some 6 }

/-- `M1B_METRIC_DEFINITIONS`. -/
def stageDefinitions : List MetricDefinition :=
  [0, 1, 3, 7].map roas ++ [1, 7].map retention ++ [0, 1, 3, 7].map ltv ++
    [stageDefinition "cohort_install_count" .count {
      calculation := .cohortSize
      window := ⟨.elapsed, 0⟩
      numerator := .cohortSize }]

end Definitions

section Snapshot

variable (db : Database) (t : PrivacyTables)

/-- A record an evaluation reads, with its current payload state. -/
structure SnapshotRecord where
  scope : Scope
  recordId : Identifier
  receivedAt : Timestamp
  lifecycleStatus : LifecycleStatus
  privacyRequestId : Option Identifier
  policyDigest : Option String

/-- The last payload state of a record. -/
def PrivacyTables.lastState (key : EvidenceKey) : Option StoredPayloadState :=
  (t.ledger.payloadStates.filter (fun s => (⟨s.scope, s.recordId⟩ : EvidenceKey) = key)).getLast?

/-- A raw record of a logical event as a snapshot record. -/
def PrivacyTables.snapshotRecord (state : PrivacyState) (r : RawRecord) : Option SnapshotRecord :=
  (t.lastState r.evidenceKey).map (fun s => {
    scope := r.evidenceKey.scope
    recordId := r.recordId
    receivedAt := r.receivedAt
    lifecycleStatus := if state = .before then .available else s.lifecycleStatus
    privacyRequestId := if state = .before then none else s.privacyRequestId
    policyDigest := t.policyDigest r.evidenceKey })

/-- `scanSnapshotRecords`: the records of the logical events of a scope up to
a watermark. -/
def PrivacyTables.snapshotRecords (scope : Scope) (watermark : Timestamp) (state : PrivacyState) :
    List SnapshotRecord :=
  let rows := t.ledger.rawRecords.flatMap (fun r =>
    (t.ledger.logicalEvents.filter (fun e => e.event.evidenceKey = r.evidenceKey)).filterMap
      (fun _ => if r.evidenceKey.scope = scope && isBefore r.receivedAt watermark then
        t.snapshotRecord state r else none))
  KeyedSort.sortOn (fun r => codeUnits r.receivedAt.text) (db.sortTexts (·.recordId.text) rows)

/-- The snapshot row of a record; it has to have a policy digest. -/
def SnapshotRecord.json (r : SnapshotRecord) : Except Failure Json :=
  match r.policyDigest with
  | some digest => .ok (.arr [toJson r.receivedAt, toJson r.recordId, toJson r.lifecycleStatus,
      .str digest])
  | none => .error (.error ("missing policy digest for " ++ r.recordId.text))

/-- The query of an evaluation's costs and values. -/
def metricQuery (scope : Scope) (e : MetricEvaluation) (fx : FxPolicy) (d : MetricDefinition) :
    MetricQuery where
  scope := scope
  watermark := e.inputReceivedAtWatermark
  privacyState := e.privacyState
  grouping := e.grouping
  definition := d
  fxPolicy := fx

/-- `currentCosts`, in order. -/
def PrivacyTables.currentCosts (q : MetricQuery) : List StoredCost :=
  KeyedSort.sortOn (fun c => codeUnits c.row.asOf.text) (db.sortTexts (·.row.costRecordId.text)
    (((t.ledger.metricTables (t.costRecords.map (·.row))).currentCost db q).filterMap (fun row =>
      t.costRecords.find? (fun c => c.row.costRecordId = row.costRecordId))))

/-- The snapshot row of a cost. -/
def StoredCost.json (c : StoredCost) : Json :=
  .arr [.str "cost", toJson c.row.asOf, toJson c.row.costRecordId, .str c.reportSnapshotDigest,
    .str c.row.costKeyDigest]

/-- `reproducibility_status`. -/
def snapshotReproducibility (records : List SnapshotRecord) : Reproducibility :=
  if records.any (fun r => (r.lifecycleStatus ≠ .available && r.privacyRequestId.isSome) ||
      r.lifecycleStatus = .redacted) then .redactionAffected
  else if records.any (fun r => r.lifecycleStatus = .purged) then .retentionAffected
  else .fullyReproducible

/-- `evidence_refs`. -/
def snapshotEvidence (records : List SnapshotRecord) (costs : List StoredCost) :
    List EvidenceRef :=
  KeyedSort.sortOn
    (fun e : EvidenceRef => [codeUnits e.ref.text, codeUnits e.tenantId.text, codeUnits e.appId.text])
    (records.map (fun r => ⟨r.scope.tenantId, r.scope.appId, r.recordId, r.lifecycleStatus⟩) ++
      costs.map (fun c => ⟨c.row.scope.tenantId, c.row.scope.appId, c.row.costRecordId, .available⟩))

end Snapshot

section Runs

variable [Digest] (db : Database) (t : PrivacyTables)

/-- What a computation of metric runs is asked for. -/
structure MetricInput where
  scope : Scope
  fxPolicy : FxPolicy
  metricDefinitions : List MetricDefinition
  metricEvaluations : List MetricEvaluation

omit [Digest] in
/-- The definitions by name; one of the input replaces one of the stage. -/
def MetricInput.definitions (input : MetricInput) : InsertionMap String MetricDefinition :=
  .ofList ((stageDefinitions ++ input.metricDefinitions).map (fun d => (d.metricName, d)))

/-- The run of a metric name in an evaluation, and what it was computed
from. -/
def sqlMetricRun (input : MetricInput) (e : MetricEvaluation) (rate : FxRate)
    (records : List SnapshotRecord) (costs : List StoredCost) (inputSnapshotId : String)
    (name : String) : Except Failure (MetricRun × ReplayManifest) :=
  match input.definitions.get name with
  | none => .error (.error ("unknown metric definition: " ++ name))
  | some d => do
      let value ← (t.ledger.metricTables (t.costRecords.map (·.row))).metricValue db
        (metricQuery input.scope e input.fxPolicy d)
      let run : MetricRun := {
        metricRunId := e.metricRunIdPrefix.text ++ ":" ++ name
        metricName := name
        metricDefinitionVersion := d.metricDefinitionVersion
        inputSnapshotId := inputSnapshotId
        inputReceivedAtWatermark := e.inputReceivedAtWatermark
        inputLedgerPosition := records.getLast?.elim "empty"
          (fun r => r.receivedAt.text ++ "|" ++ r.recordId.text)
        computedAt := e.computedAt
        dataFreshness := e.dataFreshness
        aggregationTimeZone := d.aggregationTimeZone
        ruleBundleId := d.ruleBundleId
        ruleBundleVersion := d.ruleBundleVersion
        ruleBundleHash := d.ruleBundleHash
        roundingMode := input.fxPolicy.roundingMode
        reproducibilityStatus := snapshotReproducibility records
        valueType := d.valueType
        fraudPolicy := d.fraudPolicy
        value := value
        money := moneyFields d input.fxPolicy rate value
        ratioScale := if d.valueType = .ratio then d.ratioScale else none
        grouping := e.grouping.map (fun g => (g, sha256 (toJson g)))
        evidenceRefs := snapshotEvidence records costs
        supersedesMetricRunId := e.supersedesMetricRunIdPrefix.map (fun p => p.text ++ ":" ++ name) }
      return (run, ⟨input.scope, run.metricRunId, d, { e with metricNames := some [name] },
        input.fxPolicy⟩)

/-- The digest of what an evaluation saw. -/
def snapshotDigest (records : List SnapshotRecord) (costs : List StoredCost) :
    Except Failure String := do
  let rows ← PartialList.traverse SnapshotRecord.json records
  return sha256 (.arr (rows ++ costs.map StoredCost.json))

/-- The definition an evaluation's costs are selected with; the selection
reads none of its members. -/
def costDefinition : MetricDefinition := stageDefinition "" .money
  { calculation := .revenueOverCost, window := ⟨.elapsed, 0⟩, numerator := .revenue }

/-- The runs of an evaluation. -/
def sqlEvaluationRuns (input : MetricInput) (rate : FxRate) (e : MetricEvaluation) :
    Except Failure (List (MetricRun × ReplayManifest)) := do
  let records := t.snapshotRecords db input.scope e.inputReceivedAtWatermark e.privacyState
  let costs := t.currentCosts db (metricQuery input.scope e input.fxPolicy costDefinition)
  let inputSnapshotId ← snapshotDigest records costs
  PartialList.traverse (sqlMetricRun db t input e rate records costs inputSnapshotId) (e.metricNames.getD [])

/-- `computeSqlMetricRunsWithClient`, without persisting. -/
def sqlMetricRuns (input : MetricInput) : Except Failure (List (MetricRun × ReplayManifest)) :=
  match input.fxPolicy.rates with
  | [rate] => do
      let _ ← PartialList.traverse validateMetricDefinitionSeries input.definitions.values
      let runs ← PartialList.traverse (sqlEvaluationRuns db t input rate) input.metricEvaluations
      return runs.flatten
  | _ => .error (.error "v0.2 SQL metric runs require exactly one structured FX rate")

/-- The unique key of `metric_runs` besides the run's id. -/
def StoredRun.key (r : StoredRun) : Scope × String × String × String × String :=
  (r.scope, r.run.metricName, r.run.metricDefinitionVersion,
    r.run.grouping.elim (sha256 (.object [])) (·.2), r.run.inputSnapshotId)

/-- A run that can be inserted. -/
def admitsRun (rows : List StoredRun) (r : StoredRun) : Bool :=
  r.run.metricRunId ∉ rows.map (·.run.metricRunId) && r.key ∉ rows.map (·.key)

/-- `persistMetricRun`: none where the id or the key is taken. -/
def persistMetricRun (rows : List StoredRun) (r : StoredRun) : Option (List StoredRun) :=
  if admitsRun rows r then some (rows ++ [r]) else none

/-- `persistMetricReplayManifest`. -/
def persistManifest (rows : List ReplayManifest) (m : ReplayManifest) : List ReplayManifest :=
  AppendOnly.insertOnce (fun m => (m.scope, m.sourceMetricRunId)) m rows

/-- The runs with their manifests, one after another. -/
def persistRuns (scope : Scope) (t : PrivacyTables) :
    List (MetricRun × ReplayManifest) → Option PrivacyTables
  | [] => some t
  | entry :: rest => do
      let metricRuns ← persistMetricRun t.metricRuns ⟨scope, entry.1⟩
      persistRuns scope
        { t with metricRuns := metricRuns, manifests := persistManifest t.manifests entry.2 } rest

/-- `computeSqlMetricRuns`: all runs of an input, or none. -/
def computeSqlMetricRuns (input : MetricInput) : PrivacyTables :=
  match sqlMetricRuns db t input with
  | .error _ => t
  | .ok runs => (persistRuns input.scope t runs).getD t

end Runs

end OpenMasu
