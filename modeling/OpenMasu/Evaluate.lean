import OpenMasu.Reconciliation

/-!
# The evaluation

`evaluate` runs the stages in the order of the source: sort, checks,
decisions, anchors, ingestion output, attributions, fraud, metrics and
reconciliation.  Every stage reads what the stages before it computed, which
`Ingestion` and `FraudOutput` collect.

* `ingest` — sort, checks and decisions;
* `fraudStage` — fraud decisions and the attributions they change;
* `evaluate` — the whole output, or what the evaluation throws.
-/

namespace OpenMasu

variable [Digest]

/-- What the later stages read of the deliveries and their decisions. -/
structure Ingestion where
  all : List Attempt
  candidates : CandidateProvider
  decisionsList : List Decision
  decisions : Decisions
  lifecycle : Lifecycle
  accepted : List Attempt

/-- Sort, checks, decisions and installation anchors. -/
def ingest (input : EvaluatorInput) (factory : List Attempt → CandidateProvider) :
    Except Failure Ingestion := do
  let all := sortCandidateAttempts (attempts input)
  let candidates := factory all
  assertImportProviderContexts all
  assertRevenueAnchorSources all
  assertScopedReferences input all
  let decisionsList ← decisionsOf all candidates
  let decisions := decisionMap all decisionsList
  assertInstallationAnchors decisions all
  return {
    all := all
    candidates := candidates
    decisionsList := decisionsList
    decisions := decisions
    lifecycle := privacyIndex input
    accepted := acceptedUnique decisions all }

/-- What the fraud stage leaves behind. -/
structure FraudOutput where
  decisions : List FraudDecision
  provisional : List Attribution
  excluded : List Attribution
  excludedInstallationIds : List (Option Identifier)

/-- Fraud decisions, provisional and excluded attributions. -/
def fraudStage (input : EvaluatorInput) (accepted : List Attempt) (initial : List Attribution) :
    Except Failure FraudOutput := do
  let decisions ← fraudDecisions input accepted
  let provisional ← provisionalClockAttributions input accepted initial
  let excludedIds := excludedClickIds accepted decisions
  return {
    decisions := decisions
    provisional := provisional
    excluded := fraudAttributions accepted initial excludedIds
    excludedInstallationIds := excludedInstallationIds accepted excludedIds }

structure EvaluationOutput where
  rawRecords : List RawRecord
  deliveries : List Delivery
  logicalEvents : List LogicalEvent
  corrections : List Correction
  privacyRequests : List PrivacyRequest
  privacyTombstones : List PrivacyTombstone
  attributions : List Attribution
  costRecords : List CostRecord
  metricDefinitions : List MetricDefinition
  metricRuns : List MetricRun
  fraudDecisions : List FraudDecision
  rejections : List Rejection
  reconciliation : List Reconciliation

/-- `evaluate`. -/
def evaluate (input : EvaluatorInput)
    (factory : List Attempt → CandidateProvider := fixtureCandidateProvider) :
    Except Failure EvaluationOutput := do
  let i ← ingest input factory
  let rawRecords ← rawRecords i.decisions i.lifecycle i.all
  let deliveries ← deliveries input i.decisions i.all
  let initial ← initialAttributions i.candidates i.decisions i.lifecycle i.accepted
  let fraud ← fraudStage input i.accepted initial
  let attributions := sortAttributions (initial ++ fraud.provisional ++ fraud.excluded)
  let costs ← costRecords input
  let definitions ← metricDefinitions input
  let runs ← metricRuns input i.all i.decisions i.lifecycle attributions
    fraud.excludedInstallationIds
  let reconciliation ← reconciliationResults input i.accepted
  return {
    rawRecords := rawRecords
    deliveries := deliveries
    logicalEvents := logicalEvents i.decisions i.lifecycle i.all
    corrections := corrections input i.decisions i.all
    privacyRequests := privacyRequests input
    privacyTombstones := privacyTombstones input
    attributions := attributions
    costRecords := costs
    metricDefinitions := definitions
    metricRuns := runs
    fraudDecisions := fraud.decisions
    rejections := rejections input i.decisionsList
    reconciliation := reconciliation }

end OpenMasu
