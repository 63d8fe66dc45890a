import Mathlib.Data.List.Dedup
import OpenMasu.FraudStage

/-!
# Metric runs

A metric evaluation fixes a watermark, a privacy state and possibly a group;
each metric definition then computes one value from the accepted deliveries
the evaluation sees: revenue of a cohort, return on its cost, its retention,
its size, or a count of events.

* `metricDefinitions`, `costRecords` — the validated definitions and costs;
* `matchesGrouping`, `eligibleRevenue` — who belongs to a group and a window;
* `MetricView` — what one evaluation sees;
* `metricValue` — the value of a definition on a view;
* `metricRuns` — the runs, with snapshot ids and evidence.
-/

namespace OpenMasu

variable [Digest]

/-- `roundHalfEven`: the quotient rounded to the nearest integer, ties to
the even one. -/
def roundHalfEven (numerator denominator : Int) : Except Failure Int :=
  if denominator ≤ 0 then .error (.error "denominator must be positive")
  else
    let d := denominator.toNat
    let quotient := numerator.natAbs / d
    let twice := numerator.natAbs % d * 2
    let rounded : Nat :=
      if twice > d ∨ (twice = d ∧ quotient % 2 = 1) then quotient + 1 else quotient
    .ok (if numerator < 0 then -(rounded : Int) else rounded)

/-- One of the three built-in definitions. -/
def baseMetricDefinition (name : String) (zone : TimeZone) (window : WindowType) :
    MetricDefinition where
  metricName := name
  metricDefinitionVersion := referenceRuleVersion
  anchorEvent := "install"
  aggregationTimeZone := zone
  valueType := .money
  currency := some "USD"
  amountScale := some 6
  definition := { calculation := .revenueSum, window := ⟨window, 0⟩, numerator := .revenue }
  ruleBundleId := "metric-default"
  ruleBundleVersion := referenceRuleVersion
  ruleBundleHash := zeroHash

/-- `baseMetricDefinitions`. -/
def baseMetricDefinitions : List MetricDefinition := [
  baseMetricDefinition "d0_install_to_24h_ad_revenue_usd" .utc .elapsed,
  baseMetricDefinition "d0_utc_install_calendar_ad_revenue_usd" .utc .calendarDay,
  baseMetricDefinition "d0_jst_install_calendar_ad_revenue_usd" .tokyo .calendarDay]

/-- The shape a reserved series must have. -/
def matchesSeries (d : MetricDefinition) (event : EventName) (grouping : List Dimension) : Bool :=
  d.definition.calculation = .eventCount && d.definition.numerator = .events &&
    d.eventNames.getD [] = [event] &&
    (d.groupingDimensions.getD []).length = grouping.length &&
    grouping.all (fun g => (d.groupingDimensions.getD []).contains g)

/-- The definition respects the reserved series. -/
def isSeriesConsistent (d : MetricDefinition) : Bool :=
  if d.metricName = "skan_attributed_installs" then
    matchesSeries d .skanPostback [.metricDate] && d.aggregationTimeZone = .utc
  else if d.metricName = "skan_conversion_value_distribution" then
    matchesSeries d .skanPostback [.metricDate, .appleConversionBucket] &&
      d.aggregationTimeZone = .utc
  else if d.metricName = "aak_attributed_installs" then
    matchesSeries d .adattributionkitPostback [.metricDate] && d.aggregationTimeZone = .utc
  else if d.metricName = "daily_deep_link_opens" then
    matchesSeries d .deepLinkOpen [.metricDate, .campaignId]
  else if d.metricName = "daily_deep_link_opens_by_status" then
    matchesSeries d .deepLinkOpen [.metricDate, .campaignId, .attributionStatus]
  else !((d.eventNames.getD []).any isApplePostback) &&
    !(d.groupingDimensions.getD []).contains .appleConversionBucket

/-- `validateMetricDefinitionSeries`. -/
def validateMetricDefinitionSeries (d : MetricDefinition) : Except Failure Unit :=
  if isSeriesConsistent d then .ok ()
  else .error (.error ("metric_definition_series_mismatch:" ++ d.metricName))

/-- One definition joins those before it under a name of its own. -/
def admitDefinition (names : List String) (d : MetricDefinition) : Except Failure (List String) :=
  if d.metricName ∈ names then
    .error (.error ("duplicate metric definition: " ++ d.metricName))
  else do
    validateMetricDefinitionSeries d
    return d.metricName :: names

/-- `metricDefinitions`: the built-in and configured definitions. -/
def metricDefinitions (input : EvaluatorInput) : Except Failure (List MetricDefinition) := do
  let definitions := baseMetricDefinitions ++ input.metricDefinitions
  let _ ← PartialList.accumulate admitDefinition [] definitions
  return sortByKey definitions (fun d => [d.metricName, d.metricDefinitionVersion])

/-- The dimensions of a cost record. -/
def costDimensions (c : CostRecord) : Json := .object [
  member "network" c.network,
  member "campaign_id" c.campaignId,
  optional "ad_group_id" c.adGroupId,
  optional "country" c.country]

def checkCostRecord (c : CostRecord) : Except Failure Unit :=
  if c.dimensionDigest = sha256 (costDimensions c) then .ok ()
  else .error (.error ("cost dimension_digest mismatch: " ++ c.costRecordId.text))

/-- `costRecords`: the cost records, their digests checked. -/
def costRecords (input : EvaluatorInput) : Except Failure (List CostRecord) := do
  PartialList.forEach checkCostRecord input.costRecords
  return sortByKey input.costRecords
    (fun c => [c.costRecordId.text, c.tenantId.text, c.appId.text, c.asOf.text])

/-- `convertMoney`: an amount in the target currency and scale. -/
def convertMoney (money : Option Money) (fx : FxPolicy) : Except Failure Int :=
  match money with
  | none => .error (.error "missing FX rate for undefined")
  | some m =>
      match fx.rates.find? (fun r => r.currency = m.currency) with
      | none => .error (.error ("missing FX rate for " ++ m.currency))
      | some rate => roundHalfEven
          ((m.amountUnscaled.value * rate.rateUnscaled.value * 10 ^ fx.targetScale : Nat) : Int)
          ((10 ^ (m.amountScale + rate.rateScale) : Nat) : Int)

/-- `scaleMoney`: an amount at the target scale. -/
def scaleMoney (m : Money) (targetScale : Nat) : Except Failure Int :=
  if m.amountScale ≤ targetScale then
    .ok ((m.amountUnscaled.value * 10 ^ (targetScale - m.amountScale) : Nat) : Int)
  else roundHalfEven (m.amountUnscaled.value : Int)
    ((10 ^ (m.amountScale - targetScale) : Nat) : Int)

/-- Attribution statuses by scope and subject. -/
abbrev AttributionStatuses := InsertionMap (Scope × Option String) AttributionStatus

/-- `attributionStatuses`: the last attribution of a subject decides. -/
def attributionStatuses (attributions : List Attribution) : AttributionStatuses :=
  .ofList ((attributions.filter (fun a =>
      a.subjectScope = .installationLevel || a.subjectScope = .engagementLevel)).map
    (fun a => ((a.scope, a.subjectRef), a.status)))

/-- The campaign of a delivery: its payload's, its link's or its
provider's. -/
def campaignOf (a : Attempt) : Option Identifier :=
  a.record.payload.campaignId <|> a.server.deepLinkResolution.bind (·.campaignId) <|>
    a.record.payload.importContext.bind (·.providerCampaignRef)

/-- The network of a delivery. -/
def networkOf (a : Attempt) : Option String :=
  a.record.payload.network.map (·.text) <|> a.record.payload.adNetwork <|>
    (a.record.payload.importContext.bind (·.providerNetwork)).map (·.text)

/-- The country of a delivery. -/
def countryOf (a : Attempt) : Option Identifier :=
  a.record.payload.country <|> a.record.payload.importContext.bind (·.providerCountry)

/-- A dimension the group leaves open, or names as the delivery has it. -/
def agrees {α : Type} [DecidableEq α] (wanted actual : Option α) : Bool :=
  wanted.isNone || actual = wanted

/-- The subject a delivery's attribution is stored under. -/
def attributionSubject (a : Attempt) : Option String :=
  if a.record.eventName = .install then a.record.payload.installationId.map (·.text)
  else some ("engagement:" ++ a.record.recordId.text)

/-- Installs and opens are grouped by the status of their attribution. -/
def matchesStatus (statuses : AttributionStatuses) (g : Grouping) (a : Attempt) : Bool :=
  if a.record.eventName = .install ∨ a.record.eventName = .deepLinkOpen then
    agrees g.attributionStatus (statuses.get (a.scope, attributionSubject a))
  else true

/-- `matchesGrouping`: the delivery belongs to the group. -/
def matchesGrouping (statuses : AttributionStatuses) (grouping : Option Grouping) (a : Attempt) :
    Except Failure Bool :=
  match grouping with
  | none => .ok true
  | some g =>
      if !(agrees g.campaignId (campaignOf a) && agrees (g.network.map (·.text)) (networkOf a) &&
          agrees g.country (countryOf a)) then .ok false
      else if g.cohortDate.isSome ∧ a.record.eventName = .install then do
        let date ← dateAt a.record.occurredAt .utc "occurred_at"
        return g.cohortDate = some date && matchesStatus statuses g a
      else .ok (matchesStatus statuses g a)

/-- `eligibleRevenue`: the revenue falls into the definition's window behind
the install. -/
def eligibleRevenue (d : MetricDefinition) (install revenue : Record) : Except Failure Bool :=
  if d.definition.window.type = .calendarDay then do
    let revenueDate ← dateAt revenue.occurredAt d.aggregationTimeZone "occurred_at"
    let installed ← time install.occurredAt "occurred_at"
    return revenueDate = dateOf
      (installed + d.definition.window.day * dayMs + d.aggregationTimeZone.offset)
  else do
    let earned ← time revenue.occurredAt "occurred_at"
    let installed ← time install.occurredAt "occurred_at"
    return 0 ≤ earned - installed && earned - installed < (d.definition.window.day + 1) * dayMs

/-- The text is not behind the watermark. -/
def isBefore (t watermark : Timestamp) : Bool := codeUnits t.text ≤ codeUnits watermark.text

/-- What one evaluation sees. -/
structure MetricView where
  included : List Attempt
  visible : List Attempt
  installs : List Attempt
  currentCosts : List CostRecord

/-- The accepted deliveries up to the watermark. -/
def includedAttempts (decisions : Decisions) (all : List Attempt) (watermark : Timestamp) :
    List Attempt :=
  all.filter (fun a => isAcceptedUnique decisions a && isBefore a.record.receivedAt watermark)

/-- The included deliveries whose records the privacy state lets through. -/
def visibleAttempts (lifecycle : Lifecycle) (state : PrivacyState) (included : List Attempt) :
    List Attempt :=
  included.filter (fun a => state ≠ .after || isUntouched lifecycle a)

/-- The visible installs of the group. -/
def cohortInstalls (statuses : AttributionStatuses) (grouping : Option Grouping)
    (visible : List Attempt) : Except Failure (List Attempt) :=
  PartialList.select (matchesGrouping statuses grouping)
    (visible.filter (fun a => a.record.eventName = .install))

/-- The cost counts for the group and its cohort. -/
def isGroupedCost (e : MetricEvaluation) (cohortScopes : List Scope) (c : CostRecord) : Bool :=
  (e.grouping.bind (·.attributionStatus)).all (fun s => s = .nonOrganic) &&
    isBefore c.asOf e.inputReceivedAtWatermark &&
    (cohortScopes.isEmpty || cohortScopes.contains c.scope) &&
    e.grouping.all (fun g => agrees g.campaignId (some c.campaignId) &&
      agrees g.network (some c.network) && agrees g.country c.country &&
      agrees g.cohortDate (some c.date))

/-- `currentCosts`: the latest report of each scope's dimensions. -/
def currentCosts (costs : List CostRecord) (e : MetricEvaluation) (installs : List Attempt) :
    List CostRecord :=
  let grouped := costs.filter (isGroupedCost e (installs.map Attempt.scope))
  let ordered := KeyedSort.sortOn
    (fun c : CostRecord => [codeUnits c.asOf.text, codeUnits c.costRecordId.text]) grouped
  (InsertionMap.ofList
    (ordered.map (fun c => ((c.scope, c.dimensionDigest), c)))).values

/-- The view of an evaluation. -/
def metricView (all : List Attempt) (decisions : Decisions) (lifecycle : Lifecycle)
    (statuses : AttributionStatuses) (costs : List CostRecord) (e : MetricEvaluation) :
    Except Failure MetricView := do
  let included := includedAttempts decisions all e.inputReceivedAtWatermark
  let visible := visibleAttempts lifecycle e.privacyState included
  let installs ← cohortInstalls statuses e.grouping visible
  return ⟨included, visible, installs, currentCosts costs e installs⟩

/-- The value of a metric, or why it has none. -/
inductive MetricValue where
  | present (value : Int)
  | undefined (reason : String)
  deriving DecidableEq

/-- The installation of a delivery among a list of installs. -/
def installationAmong (installs : List Attempt) (a : Attempt) : Option Attempt :=
  installs.find? (fun i => i.scope = a.scope &&
    i.record.payload.installationId = a.record.payload.installationId)

/-- The installs a definition counts: a net one leaves out the excluded. -/
def eligibleInstalls (excluded : List (Option Identifier)) (d : MetricDefinition)
    (installs : List Attempt) : List Attempt :=
  if d.fraudPolicy = some .net then
    installs.filter (fun i => !excluded.contains i.record.payload.installationId)
  else installs

/-- The revenue deliveries of installations. -/
def revenueAttempts (visible : List Attempt) : List Attempt :=
  visible.filter (fun a => a.record.eventName = .adRevenue &&
    a.record.payload.subjectScope = some .installationLevel)

/-- One revenue delivery added to the sum of a cohort. -/
def addRevenue (d : MetricDefinition) (fx : FxPolicy) (installs : List Attempt) (sum : Int)
    (a : Attempt) : Except Failure Int :=
  match installationAmong installs a with
  | none => .ok sum
  | some install => do
      if ← eligibleRevenue d install.record a.record then
        return sum + (← convertMoney a.record.payload.money fx)
      else return sum

/-- `revenueValue`: the revenue of a cohort in the definition's window. -/
def revenueValue (d : MetricDefinition) (fx : FxPolicy) (installs visible : List Attempt) :
    Except Failure Int :=
  PartialList.accumulate (addRevenue d fx installs) 0 (revenueAttempts visible)

/-- `cohortSize`: the distinct installations. -/
def cohortSize (installs : List Attempt) : Nat :=
  (installs.map (·.record.payload.installationId)).dedup.length

/-- One cost added to the total of a group. -/
def addCost (fx : FxPolicy) (sum : Int) (c : CostRecord) : Except Failure Int :=
  if c.money.currency ≠ fx.targetCurrency then
    .error (.error ("cost currency mismatch: " ++ c.costRecordId.text))
  else do return sum + (← scaleMoney c.money fx.targetScale)

/-- Ten to the definition's ratio scale. -/
def ratioFactor (d : MetricDefinition) : Int := 10 ^ (d.ratioScale.getD 6)

/-- The activity of a delivery is one the definition counts. -/
def isActivity (d : MetricDefinition) (a : Attempt) : Bool :=
  (d.activityEvents.getD ["session_start"]).contains a.record.eventName.text

/-- The installation a delivery shows active on the definition's day. -/
def activeInstallation (d : MetricDefinition) (installs : List Attempt) (a : Attempt) :
    Except Failure (Option (Option Identifier)) :=
  match installationAmong installs a with
  | none => .ok none
  | some install => do
      let active ← time a.record.occurredAt "occurred_at"
      let installed ← time install.record.occurredAt "occurred_at"
      if (active - installed) / dayMs = d.definition.window.day then
        return some install.record.payload.installationId
      else return none

/-- The number of installations active on the definition's day. -/
def activeCount (d : MetricDefinition) (installs visible : List Attempt) : Except Failure Nat := do
  let active ← PartialList.traverse (activeInstallation d installs)
    (visible.filter (isActivity d))
  return (active.filterMap id).dedup.length

/-- The conversion bucket of an Apple postback. -/
def conversionBucket (p : Payload) : Option String :=
  match p.conversionValue, p.coarseConversionValue with
  | some v, _ => some ("fine:" ++ toString v)
  | none, some c => some ("coarse:" ++ c.text)
  | none, none => none

/-- An aggregate attribution credits the record. -/
def isCredited (attributions : List Attribution) (a : Attempt) : Bool :=
  attributions.any (fun t => t.scope = a.scope && t.subjectScope = .aggregate &&
    t.status = .nonOrganic && t.evidenceRefs.any (fun e => e.ref = a.record.recordId))

/-- The Apple postback counts for the date and bucket. -/
def countsAsPostback (attributions : List Attribution) (event : EventName) (date : CalendarDate)
    (bucket : Option String) (a : Attempt) : Except Failure Bool :=
  if a.record.eventName ≠ event then .ok false
  else do
    let received ← dateAt a.record.receivedAt .utc "received_at"
    return received = date && isCredited attributions a &&
      (bucket.isNone || conversionBucket a.record.payload = bucket)

/-- The delivery counts for the date and group. -/
def countsAsEvent (d : MetricDefinition) (statuses : AttributionStatuses)
    (excluded : List (Option Identifier)) (event : EventName) (grouping : Option Grouping)
    (date : CalendarDate) (a : Attempt) : Except Failure Bool :=
  if a.record.eventName ≠ event ∨ (d.fraudPolicy = some .net ∧ a.record.eventName = .install ∧
      excluded.contains a.record.payload.installationId) then .ok false
  else do
    if ← matchesGrouping statuses grouping a then
      let occurred ← dateAt a.record.occurredAt d.aggregationTimeZone "occurred_at"
      return occurred = date
    else return false

/-- The metric names reserved for Apple postbacks. -/
def isAggregateMetric (name : String) : Bool :=
  name = "skan_attributed_installs" || name = "skan_conversion_value_distribution" ||
    name = "aak_attributed_installs"

/-- The checks on an Apple postback count. -/
def checkPostbackCount (d : MetricDefinition) (name : String) (event : EventName)
    (g : Grouping) : Except Failure Unit := do
  if d.aggregationTimeZone ≠ .utc then
    throw (.error ("aggregate event_count requires UTC aggregation: " ++ name))
  if g.attributionStatus.isSome then
    throw (.error ("aggregate event_count forbids attribution_status: " ++ name))
  if !isAggregateMetric name ∨ event ≠
      (if name = "aak_attributed_installs" then .adattributionkitPostback else .skanPostback) then
    throw (.error ("aggregate event_count metric and event mismatch: " ++ name))
  if name = "skan_conversion_value_distribution" ∧ g.appleConversionBucket.isNone then
    throw (.error ("SKAN conversion distribution requires apple_conversion_bucket: " ++ name))
  if name ≠ "skan_conversion_value_distribution" ∧ g.appleConversionBucket.isSome then
    throw (.error ("apple_conversion_bucket is reserved for SKAN conversion distribution: " ++ name))

/-- The checks on a count of other events. -/
def checkEventCount (name : String) (event : EventName) (g : Grouping) : Except Failure Unit := do
  if g.appleConversionBucket.isSome then
    throw (.error ("apple_conversion_bucket requires aggregate SKAN events: " ++ name))
  if g.attributionStatus.isSome ∧ ¬ (event = .install ∨ event = .deepLinkOpen) then
    throw (.error
      ("attribution_status event_count requires install or deep_link_open events: " ++ name))

/-- The events that can be counted. -/
def isCountable (e : EventName) : Bool :=
  e = .click || e = .install || e = .deepLinkOpen || isApplePostback e

/-- The context a metric value is computed in. -/
structure MetricContext where
  statuses : AttributionStatuses
  attributions : List Attribution
  excluded : List (Option Identifier)
  fx : FxPolicy

/-- The `event_count` calculation. -/
def eventCountValue (c : MetricContext) (d : MetricDefinition) (name : String)
    (grouping : Option Grouping) (visible : List Attempt) : Except Failure Int :=
  match grouping.bind (·.metricDate), grouping with
  | some date, some g =>
      match (d.eventNames.getD []).dedup with
      | [event] =>
          if !isCountable event then
            .error (.error ("event_count requires exactly one supported event name: " ++ name))
          else if isApplePostback event then do
            checkPostbackCount d name event g
            let counted ← PartialList.select
              (countsAsPostback c.attributions event date g.appleConversionBucket) visible
            return counted.length
          else do
            checkEventCount name event g
            let counted ← PartialList.select
              (countsAsEvent d c.statuses c.excluded event grouping date) visible
            return counted.length
      | _ => .error (.error ("event_count requires exactly one supported event name: " ++ name))
  | _, _ => .error (.error ("event_count requires metric_date grouping: " ++ name))

/-- The value of a definition on a view. -/
def metricValue (c : MetricContext) (d : MetricDefinition) (name : String)
    (grouping : Option Grouping) (view : MetricView) : Except Failure MetricValue := do
  let eligible := eligibleInstalls c.excluded d view.installs
  let revenue ← revenueValue d c.fx eligible view.visible
  let size := cohortSize eligible
  match d.definition.calculation with
  | .revenueSum => return .present revenue
  | .revenueOverCost =>
      let cost ← PartialList.accumulate (addCost c.fx) 0 view.currentCosts
      if cost = 0 then return .undefined "no_attributed_cost"
      else return .present (← roundHalfEven (revenue * ratioFactor d) cost)
  | .activeInstallationsOverCohort =>
      if size = 0 then return .undefined "empty_cohort"
      else
        let active ← activeCount d view.installs view.visible
        return .present (← roundHalfEven (active * ratioFactor d) size)
  | .revenueOverCohort =>
      if size = 0 then return .undefined "empty_cohort"
      else return .present (← roundHalfEven revenue size)
  | .cohortSize => return .present size
  | .eventCount => return .present (← eventCountValue c d name grouping view.visible)

/-- The group names only dimensions of the definition. -/
def checkGrouping (d : MetricDefinition) (name : String) (grouping : Option Grouping) :
    Except Failure Unit :=
  match grouping, d.groupingDimensions with
  | some g, some dimensions =>
      let unsupported := g.dimensions.filter (fun x => !dimensions.contains x)
      if unsupported.isEmpty then .ok ()
      else .error (.error ("unsupported grouping for " ++ name ++ ": " ++
        ",".intercalate (unsupported.map Dimension.text)))
  | _, _ => .ok ()

/-- A metric date groups event counts only. -/
def checkMetricDate (d : MetricDefinition) (name : String) (grouping : Option Grouping) :
    Except Failure Unit :=
  if d.definition.calculation ≠ .eventCount ∧ (grouping.bind (·.metricDate)).isSome then
    .error (.error ("metric_date grouping is reserved for event_count: " ++ name))
  else .ok ()

inductive Reproducibility where
  | fullyReproducible
  | redactionAffected
  | retentionAffected
  deriving DecidableEq

def Reproducibility.text : Reproducibility → String
  | fullyReproducible => "fully_reproducible"
  | redactionAffected => "redaction_affected"
  | retentionAffected => "retention_affected"

instance : Encode Reproducibility := ⟨fun r => .str r.text⟩

/-- The exchange rate a money value was computed with. -/
structure MoneyFields where
  fxRateUnscaled : Digits
  fxRateScale : Nat
  fxRateSource : String
  fxRateAsOf : Timestamp
  fxRateSnapshotId : String
  fxPolicyVersion : String
  amountScale : Option Nat
  currency : Option String

structure MetricRun where
  metricRunId : String
  metricName : String
  metricDefinitionVersion : String
  inputSnapshotId : String
  inputReceivedAtWatermark : Timestamp
  inputLedgerPosition : String
  computedAt : Timestamp
  dataFreshness : String
  aggregationTimeZone : TimeZone
  ruleBundleId : String
  ruleBundleVersion : String
  ruleBundleHash : String
  roundingMode : String
  reproducibilityStatus : Reproducibility
  valueType : ValueType
  fraudPolicy : Option FraudPolicy
  value : MetricValue
  money : Option MoneyFields
  ratioScale : Option Nat
  grouping : Option (Grouping × String)
  evidenceRefs : List EvidenceRef
  supersedesMetricRunId : Option String

/-- The members a value is reported with. -/
def MetricValue.members : MetricValue → List (String × Option Json)
  | present v => [member "value_unscaled" (toString v)]
  | undefined reason => [member "value_state" "undefined", member "undefined_reason" reason]

/-- The members an exchange rate is reported with. -/
def MoneyFields.members (m : MoneyFields) : List (String × Option Json) := [
  member "fx_rate_unscaled" m.fxRateUnscaled,
  member "fx_rate_scale" m.fxRateScale,
  member "fx_rate_source" m.fxRateSource,
  member "fx_rate_as_of" m.fxRateAsOf,
  member "fx_rate_snapshot_id" m.fxRateSnapshotId,
  member "fx_policy_version" m.fxPolicyVersion,
  optional "amount_scale" m.amountScale,
  optional "currency" m.currency]

instance : Encode MetricRun := ⟨fun r => .object ([
  member "metric_run_id" r.metricRunId,
  member "metric_name" r.metricName,
  member "metric_definition_version" r.metricDefinitionVersion,
  member "input_snapshot_id" r.inputSnapshotId,
  member "input_received_at_watermark" r.inputReceivedAtWatermark,
  member "input_ledger_position" r.inputLedgerPosition,
  member "computed_at" r.computedAt,
  member "data_freshness" r.dataFreshness,
  member "aggregation_time_zone" r.aggregationTimeZone,
  member "rule_bundle_id" r.ruleBundleId,
  member "rule_bundle_version" r.ruleBundleVersion,
  member "rule_bundle_hash" r.ruleBundleHash,
  member "rounding_mode" r.roundingMode,
  member "reproducibility_status" r.reproducibilityStatus,
  member "value_type" r.valueType,
  optional "fraud_policy" r.fraudPolicy]
  ++ r.value.members ++ r.money.elim [] MoneyFields.members ++ [
  optional "ratio_scale" r.ratioScale,
  ("grouping", r.grouping.map (fun g => .object [
    member "dimensions" g.1, member "dimension_digest" g.2])),
  member "evidence_refs" r.evidenceRefs,
  optional "supersedes_metric_run_id" r.supersedesMetricRunId])⟩

/-- The lifecycle status a metric evaluation sees. -/
def seenStatus (lifecycle : Lifecycle) (state : PrivacyState) (a : Attempt) : LifecycleStatus :=
  if state = .after then lifecycleStatus lifecycle a.evidenceKey else .available

/-- The snapshot row of a delivery. -/
def recordSnapshotRow (lifecycle : Lifecycle) (state : PrivacyState) (a : Attempt) : Json :=
  .arr [toJson a.record.receivedAt, toJson a.record.recordId,
    toJson (seenStatus lifecycle state a), toJson a.server.policyDigest]

/-- The snapshot row of a cost record. -/
def costSnapshotRow (c : CostRecord) : Json :=
  .arr [.str "cost", toJson c.asOf, toJson c.costRecordId, toJson c.reportSnapshotDigest,
    toJson c.dimensionDigest]

/-- `input_snapshot_id`: the digest of what the evaluation saw. -/
def snapshotId (lifecycle : Lifecycle) (e : MetricEvaluation) (view : MetricView) : String :=
  sha256 (.arr (
    (sortCandidateAttempts view.included).map (recordSnapshotRow lifecycle e.privacyState) ++
    (sortByKey view.currentCosts (fun c => [c.asOf.text, c.costRecordId.text])).map
      costSnapshotRow))

/-- `input_ledger_position`: the last delivery the evaluation saw. -/
def ledgerPosition (view : MetricView) : String :=
  (sortCandidateAttempts view.included).getLast?.elim "empty"
    (fun a => a.record.receivedAt.text ++ "|" ++ a.record.recordId.text)

/-- `reproducibility_status`. -/
def reproducibilityStatus (lifecycle : Lifecycle) (e : MetricEvaluation) (view : MetricView) :
    Reproducibility :=
  let affected := if e.privacyState = .after then
    view.included.filterMap (fun a => lifecycle.get a.evidenceKey) else []
  if affected.contains .redacted then .redactionAffected
  else if affected.contains .purged then .retentionAffected
  else .fullyReproducible

/-- The evidence of a run: deliveries and costs. -/
def metricEvidence (lifecycle : Lifecycle) (e : MetricEvaluation) (view : MetricView) :
    List EvidenceRef :=
  sortByKey (
    (sortCandidateAttempts view.included).map (fun a => (⟨a.server.tenantId, a.server.appId,
      a.record.recordId, seenStatus lifecycle e.privacyState a⟩ : EvidenceRef)) ++
    view.currentCosts.map (fun c => ⟨c.tenantId, c.appId, c.costRecordId, .available⟩))
    (fun e => [e.ref.text, e.tenantId.text, e.appId.text])

/-- The definitions evaluated when an evaluation names none. -/
def defaultMetricNames : List String := [
  "d0_install_to_24h_ad_revenue_usd",
  "d0_utc_install_calendar_ad_revenue_usd",
  "d0_jst_install_calendar_ad_revenue_usd"]

/-- The rates' digest and the single rate of a money value. -/
def moneyFields (d : MetricDefinition) (fx : FxPolicy) (rate : FxRate) (value : MetricValue) :
    Option MoneyFields :=
  match d.valueType, value with
  | .money, .present _ => some {
      fxRateUnscaled := rate.rateUnscaled
      fxRateScale := rate.rateScale
      fxRateSource := rate.source
      fxRateAsOf := rate.asOf
      fxRateSnapshotId := sha256 (toJson fx.rates)
      fxPolicyVersion := fx.policyVersion
      amountScale := d.amountScale
      currency := d.currency }
  | _, _ => none

/-- The run of one metric name in an evaluation. -/
def metricRun (lifecycle : Lifecycle) (c : MetricContext) (definitions : List MetricDefinition)
    (e : MetricEvaluation) (view : MetricView) (rate : FxRate) (name : String) :
    Except Failure MetricRun :=
  match definitions.find? (fun d => d.metricName = name) with
  | none => .error (.error ("unknown metric definition: " ++ name))
  | some d => do
      checkGrouping d name e.grouping
      let value ← metricValue c d name e.grouping view
      checkMetricDate d name e.grouping
      return {
        metricRunId := e.metricRunIdPrefix.text ++ ":" ++ name
        metricName := name
        metricDefinitionVersion := d.metricDefinitionVersion
        inputSnapshotId := snapshotId lifecycle e view
        inputReceivedAtWatermark := e.inputReceivedAtWatermark
        inputLedgerPosition := ledgerPosition view
        computedAt := e.computedAt
        dataFreshness := e.dataFreshness
        aggregationTimeZone := d.aggregationTimeZone
        ruleBundleId := d.ruleBundleId
        ruleBundleVersion := d.ruleBundleVersion
        ruleBundleHash := d.ruleBundleHash
        roundingMode := c.fx.roundingMode
        reproducibilityStatus := reproducibilityStatus lifecycle e view
        valueType := d.valueType
        fraudPolicy := d.fraudPolicy
        value := value
        money := moneyFields d c.fx rate value
        ratioScale := if d.valueType = .ratio then d.ratioScale else none
        grouping := e.grouping.map (fun g => (g, sha256 (toJson g)))
        evidenceRefs := metricEvidence lifecycle e view
        supersedesMetricRunId :=
          e.supersedesMetricRunIdPrefix.map (fun p => p.text ++ ":" ++ name) }

/-- The runs of one evaluation. -/
def evaluationRuns (all : List Attempt) (decisions : Decisions) (lifecycle : Lifecycle)
    (c : MetricContext) (definitions : List MetricDefinition) (costs : List CostRecord)
    (e : MetricEvaluation) : Except Failure (List MetricRun) := do
  let view ← metricView all decisions lifecycle c.statuses costs e
  match c.fx.rates with
  | [rate] =>
      PartialList.traverse (metricRun lifecycle c definitions e view rate)
        (e.metricNames.getD defaultMetricNames)
  | _ => throw (.error "v0.2 metric runs require exactly one structured FX rate")

/-- `metricRuns`. -/
def metricRuns (input : EvaluatorInput) (all : List Attempt) (decisions : Decisions)
    (lifecycle : Lifecycle) (attributions : List Attribution)
    (excluded : List (Option Identifier)) : Except Failure (List MetricRun) :=
  if input.metricEvaluations.isEmpty then .ok []
  else do
    let definitions ← metricDefinitions input
    let costs ← costRecords input
    let context : MetricContext :=
      ⟨attributionStatuses attributions, attributions, excluded, input.fxPolicy⟩
    let runs ← PartialList.traverse
      (evaluationRuns all decisions lifecycle context definitions costs) input.metricEvaluations
    return sortByKey runs.flatten (fun r => [r.metricRunId])

end OpenMasu
