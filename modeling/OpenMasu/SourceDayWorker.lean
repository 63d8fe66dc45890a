import OpenMasu.AttributionWorkers
import OpenMasu.RuleBundles

/-!
# The source-day worker

Once a poll the worker aggregates the clicks of a day by source, app by app,
in one transaction.  Every source leaves an aggregate, a source that a rule
flags leaves a fraud decision, and a day whose clock anomalies exceed the
threshold has its attributions superseded by provisional ones.

* `evaluateSourceDayWithBundle` — the rule over a source's day;
* `FraudWorld.sourceRows` — the query over clicks and installs;
* `sourceDecision` — the decision about a source;
* `aggregateApp`, `aggregateSourceDay` — the pass, app by app.
-/

namespace OpenMasu

open AppendOnly (insertAll)

/-- The server's `percentile_cont` over the numbers of the query: a percentile
of intervals rounded to whole milliseconds, and the median of the quotients of
installs by clicks with the text it is returned as. -/
structure SourceDayMath where
  percentile : Rat → List Nat → Option Nat
  medianCvr : List (Nat × Nat) → String × Rat

structure SourceDayInput where
  clicks : Nat
  installs : Nat
  medianCvr : Rat
  ctitP50Ms : Option Nat
  ctitP95Ms : Option Nat

/-- `evaluateSourceDayWithBundle`. -/
def evaluateSourceDayWithBundle (i : SourceDayInput) (b : FraudBundle) : Option FraudRuleHit :=
  let minimumClicks := fraudNumberParameter b "source_day_min_clicks" 1000
  let cvrMultiplier := fraudNumberParameter b "source_day_cvr_median_multiplier" (2 / 10)
  let p50MinimumMs := scaledParameter b "source_day_ctit_p50_min_seconds" 86400 1000
  let p95P50MaximumRatio := fraudNumberParameter b "source_day_ctit_p95_p50_max_ratio" 3
  match i.ctitP50Ms, i.ctitP95Ms with
  | some p50, some p95 =>
      if (BinaryFloat.round i.clicks).lt (.finite minimumClicks) ∨
          quotientExceeds i.installs i.clicks
            ((BinaryFloat.round i.medianCvr).mul (.finite cvrMultiplier)) ∨
          (BinaryFloat.round p50).lt p50MinimumMs ∨
          quotientExceeds p95 p50 (.finite p95P50MaximumRatio) then none
      else some ⟨"source-day-click-flooding-v1", .suspected,
        fraudRuleAction b "source-day-click-flooding-v1" .flag, .clickFloodingSuspected,
        "source_day_distribution"⟩
  | _, _ => none

/-- The evaluator's rule is this one, on the percentiles its input has. -/
theorem evaluateSourceDay_eq (a : SourceDayAggregate) (b : FraudBundle) :
    evaluateSourceDay a b = evaluateSourceDayWithBundle
      ⟨a.clicks, a.installs, a.medianCvr, some a.ctitP50Ms, some a.ctitP95Ms⟩ b := rfl

/-- A row of the query. -/
structure SourceAggregate where
  metricDate : CalendarDate
  campaignId : String
  network : String
  siteId : String
  clicks : Nat
  installs : Nat
  ctitP05Ms : Option Nat
  ctitP50Ms : Option Nat
  ctitP95Ms : Option Nat
  ctitNegativeCount : Nat
  medianCvr : String × Rat

/-- A row of `source_day_aggregates`. -/
structure StoredAggregate where
  scope : Scope
  row : SourceAggregate
  inputSnapshotId : String
  computedAt : Timestamp

/-- The primary key of `source_day_aggregates`. -/
structure AggregateKey where
  scope : Scope
  metricDate : CalendarDate
  campaignId : String
  network : String
  siteId : String
  inputSnapshotId : String
  deriving DecidableEq

def StoredAggregate.key (r : StoredAggregate) : AggregateKey :=
  ⟨r.scope, r.row.metricDate, r.row.campaignId, r.row.network, r.row.siteId, r.inputSnapshotId⟩

/-- A row of `fraud_decisions` that clears another, with what it supersedes. -/
structure FraudResolution where
  fraudDecisionId : String
  scope : Scope
  prior : FraudDecision
  evaluatedAt : Timestamp

/-- The tables the fraud workers read and write.  An app is registered once;
a decision that clears another stands in the ledger, and among the resolutions
with what it supersedes. -/
structure FraudWorld where
  apps : List Scope := []
  distinctApps : apps.Nodup := by decide
  bundles : List RuleBundleRow := []
  ledger : Ledger := {}
  aggregates : List StoredAggregate := []
  resolutions : List FraudResolution := []

section Query

variable (math : SourceDayMath) (db : Database)

/-- A text column of a fact. -/
def columnText : Option Json → Option String
  | some (.str s) => some s
  | _ => none

/-- The columns a click's source is grouped by. -/
def sourceKey (e : StoredEvent) : Option String × Option String × Option String :=
  let p := e.attempt.record.payload
  (((p.campaignId <|> p.importContext.bind (·.providerCampaignRef)).map (·.text)),
    ((p.network <|> p.importContext.bind (·.providerNetwork)).map (·.text)),
    columnText (p.rest "site_id"))

/-- The clicks of an app whose redirector time falls on the date. -/
def Ledger.clicksOn (l : Ledger) (scope : Scope) (date : CalendarDate) : List StoredEvent :=
  l.logicalEvents.filter (fun e => e.event.eventName = .click && e.event.evidenceKey.scope = scope &&
    e.attempt.record.payload.redirectorClickAt.any (fun at_ => dateOf at_.ms = date))

/-- A click joined with the installs that name it. -/
def Ledger.clickInstalls (l : Ledger) (scope : Scope) (e : StoredEvent) :
    List (StoredEvent × InstallFact) :=
  (l.installFacts.filter (fun f => f.scope = scope && e.attempt.record.payload.clickId.isSome &&
    f.clickId = e.attempt.record.payload.clickId)).map (fun f => (e, f))

/-- The time from a click to its install; the columns of an install fact are
those of its event. -/
def Ledger.clickToInstall (l : Ledger) (pair : StoredEvent × InstallFact) : Option Int :=
  match pair.1.attempt.record.payload.redirectorClickAt,
      (l.logicalEvents.find? (fun e => e.event.logicalEventId = pair.2.logicalEventId)).bind
        (·.attempt.record.payload.installBeginAtServer) with
  | some click, some install => some (install.ms - click.ms)
  | _, _ => none

/-- A group of clicks with its counts and percentiles; the median is that of
all groups. -/
def Ledger.sourceRow (l : Ledger) (scope : Scope) (date : CalendarDate)
    (medianCvr : String × Rat) (clicks : List StoredEvent) : SourceAggregate :=
  let joined := clicks.flatMap (l.clickInstalls scope)
  let intervals := (joined.filterMap l.clickToInstall).filterMap
    (fun ms => if 0 ≤ ms then some ms.toNat else none)
  let key := (clicks.head?.map sourceKey).getD (none, none, none)
  { metricDate := date
    campaignId := key.1.getD "unattributed"
    network := key.2.1.getD "unattributed"
    siteId := key.2.2.getD "unattributed"
    clicks := (clicks.map (·.event.logicalEventId)).dedup.length
    installs := (joined.map (·.2.logicalEventId)).dedup.length
    ctitP05Ms := math.percentile (5 / 100) intervals
    ctitP50Ms := math.percentile (1 / 2) intervals
    ctitP95Ms := math.percentile (95 / 100) intervals
    ctitNegativeCount := ((joined.filter (fun pair => (l.clickToInstall pair).any (· < 0))).map
      (·.2.logicalEventId)).dedup.length
    medianCvr := medianCvr }

/-- `ORDER BY campaign_id,network,site_id`. -/
def sourceOrder (a b : SourceAggregate) : Bool :=
  if a.campaignId ≠ b.campaignId then !db.sortsBefore b.campaignId a.campaignId
  else if a.network ≠ b.network then !db.sortsBefore b.network a.network
  else !db.sortsBefore b.siteId a.siteId

/-- The query of the worker. -/
def Ledger.sourceRows (l : Ledger) (scope : Scope) (date : CalendarDate) : List SourceAggregate :=
  let groups := (InsertionMap.group sourceKey (l.clicksOn scope date)).values
  let counts := groups.map (fun clicks =>
    let row := l.sourceRow math scope date ("0", 0) clicks
    (row.installs, row.clicks))
  (groups.map (l.sourceRow math scope date (math.medianCvr counts))).insertionSort
    (fun a b => sourceOrder db a b = true)

end Query

section Rows

variable [Digest]

def optionalNumber (n : Option Nat) : Json := n.elim .null (fun n => .int n)

/-- The artifact of an aggregate. -/
def SourceAggregate.artifact (row : SourceAggregate) : Json := .object [
  member "metric_date" row.metricDate.text,
  member "campaign_id" row.campaignId,
  member "network" row.network,
  member "site_id" row.siteId,
  ("clicks", some (.int row.clicks)),
  ("installs", some (.int row.installs)),
  ("ctit_p05_ms", some (optionalNumber row.ctitP05Ms)),
  ("ctit_p50_ms", some (optionalNumber row.ctitP50Ms)),
  ("ctit_p95_ms", some (optionalNumber row.ctitP95Ms)),
  ("ctit_negative_count", some (.int row.ctitNegativeCount))]

def optionalText (n : Option Nat) : Json := n.elim .null (fun n => .str (toString n))

/-- The row as the driver returns it: its numbers are texts. -/
def SourceAggregate.texts (row : SourceAggregate) : Json := .object [
  member "metric_date" row.metricDate.text,
  member "campaign_id" row.campaignId,
  member "network" row.network,
  member "site_id" row.siteId,
  member "clicks" (toString row.clicks),
  member "installs" (toString row.installs),
  ("ctit_p05_ms", some (optionalText row.ctitP05Ms)),
  ("ctit_p50_ms", some (optionalText row.ctitP50Ms)),
  ("ctit_p95_ms", some (optionalText row.ctitP95Ms)),
  member "ctit_negative_count" (toString row.ctitNegativeCount),
  member "median_cvr" row.medianCvr.1]

/-- `persistAggregate`: the row it inserts. -/
def SourceAggregate.stored (scope : Scope) (now : Timestamp) (row : SourceAggregate) :
    StoredAggregate where
  scope := scope
  row := row
  inputSnapshotId := sha256 row.artifact
  computedAt := now

/-- `sourceRef`. -/
def sourceRef (scope : Scope) (row : SourceAggregate) : String :=
  "source:" ++ scope.tenantId.text ++ ":" ++ scope.appId.text ++ ":" ++ row.metricDate.text ++ ":" ++
    row.campaignId ++ ":" ++ row.network ++ ":" ++ row.siteId

def SourceAggregate.input (row : SourceAggregate) : SourceDayInput :=
  ⟨row.clicks, row.installs, row.medianCvr.2, row.ctitP50Ms, row.ctitP95Ms⟩

/-- `persistSourceDecision`: the decision a hit makes.  It has no
deadline. -/
def hitDecision (scope : Scope) (revision : ActiveFraudBundleRevision) (now : Timestamp)
    (row : SourceAggregate) (hit : FraudRuleHit) : StoredFraud :=
  let subject := sourceRef scope row
  let evidenceDigest := sha256 (.object [member "subject" subject, ("row", some row.texts)])
  ⟨scope, {
    fraudDecisionId := "fraud:" ++ sha256 (.object [member "subject" subject,
      member "evidenceDigest" evidenceDigest, member "bundle" revision.ruleBundleHash])
    subjectScope := .source
    subjectRef := subject
    decision := hit.decision
    action := hit.action
    reasonCode := hit.reasonCode
    evidenceType := hit.evidenceType
    capturedAt := now
    evidenceDigest := evidenceDigest
    ruleBundleId := revision.definition.bundle.id
    ruleBundleVersion := revision.definition.bundle.version
    ruleBundleHash := revision.ruleBundleHash
    ruleId := hit.ruleId
    evaluatedAt := now
    resolutionDeadlineAt := none }⟩

/-- The decision about a source, where the rule hits. -/
def sourceDecision (scope : Scope) (revision : ActiveFraudBundleRevision) (now : Timestamp)
    (row : SourceAggregate) : Option StoredFraud :=
  (evaluateSourceDayWithBundle row.input revision.definition.bundle).map
    (hitDecision scope revision now row)

end Rows

section Pass

variable [Digest] (math : SourceDayMath) (db : Database)

/-- The turn of an app.  It throws where the app's bundle cannot be resolved or
read, and where a decision asks for a quarantine: the table wants a
deadline. -/
def aggregateApp (w : FraudWorld) (scope : Scope) (date : CalendarDate) (now : Timestamp) :
    Except Failure FraudWorld := do
  let active ← resolveActiveFraudBundle w.bundles scope
  let rows := w.ledger.sourceRows math db scope date
  let aggregates := insertAll StoredAggregate.key (rows.map (·.stored scope now)) w.aggregates
  match active with
  | none => return { w with aggregates := aggregates }
  | some revision =>
      refuse (revision.definition.nullBase && !rows.isEmpty) "cannot_read_properties_of_null"
      let decisions := rows.filterMap (sourceDecision scope revision now)
      refuse (decisions.any (fun d => d.decision.action = .quarantine))
        "fraud_decision_quarantine_deadline"
      let free := decisions.filter (fun d =>
        d.decision.fraudDecisionId ∉ w.resolutions.map (·.fraudDecisionId))
      let ledger := { w.ledger with
        fraudDecisions := insertAll (·.decision.fraudDecisionId) free w.ledger.fraudDecisions }
      return { w with
        aggregates := aggregates
        ledger := markClockAnomalyAttributionsProvisional db ledger scope date
          (BinaryFloat.total (rows.map (·.ctitNegativeCount)))
          (BinaryFloat.total (rows.map (·.installs))) revision.definition.bundle now }

/-- The apps of a tenant, ordered by their ids. -/
def FraudWorld.appsOf (w : FraudWorld) (tenantId : Identifier) : List Scope :=
  (w.apps.filter (fun s => s.tenantId = tenantId)).insertionSort
    (fun a b => db.sortsBefore b.appId.text a.appId.text = false)

/-- The turns of several apps. -/
def aggregateApps (date : CalendarDate) (now : Timestamp) :
    List Scope → FraudWorld → Except Failure FraudWorld
  | [], w => .ok w
  | scope :: rest, w => do aggregateApps date now rest (← aggregateApp math db w scope date now)

/-- `aggregateSourceDay`: the tables behind the pass, and the number of rows it
returns. -/
def aggregateSourceDay (w : FraudWorld) (tenantId : Identifier) (date : CalendarDate)
    (now : Timestamp) : Except Failure (FraudWorld × Nat) := do
  let w' ← aggregateApps math db date now (w.appsOf db tenantId) w
  return (w', ((w.appsOf db tenantId).map (fun scope =>
    (w.ledger.sourceRows math db scope date).length)).sum)

end Pass

end OpenMasu
