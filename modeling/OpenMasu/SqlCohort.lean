import OpenMasu.AppendOnly
import OpenMasu.SqlNumeric

/-!
# The metric engine of the database

Metric values are also computed by queries over the ledger.  A query joins the
facts of an evaluation with their logical events and raw records, bounds the
records by the watermark, and takes the current attribution of an installation
and the current report of a cost.

* `MetricTables` — the rows the queries read;
* `MetricQuery` — what one value is asked for;
* `MetricTables.eventCountValue`, `MetricTables.metricValue` — the queries.
-/

namespace OpenMasu

open AppendOnly (latest)

/-- What the queries leave to the database server: the scale of a division,
the digits a power of ten is displayed with, and the order of texts. -/
structure Database where
  divScale : DivScale
  powerScale : Nat → Nat
  sortsBefore : String → String → Bool

section Rows

/-- A row of `raw_records`. -/
structure RecordRow where
  recordId : Identifier
  scope : Scope
  occurredAt : Timestamp
  receivedAt : Timestamp

/-- A row of `raw_payload_states`. -/
structure PayloadState where
  recordId : Identifier
  scope : Scope
  lifecycleStatus : LifecycleStatus

/-- A row of `logical_events`. -/
structure EventRow where
  logicalEventId : String
  recordId : Identifier
  scope : Scope
  eventName : EventName

/-- A row of `click_facts`. -/
structure ClickRow where
  logicalEventId : String
  campaignId : Option Identifier
  network : Option Identifier
  country : Option Identifier

/-- A row of `install_facts`. -/
structure InstallRow where
  logicalEventId : String
  scope : Scope
  installationId : Identifier
  occurredAt : Option Timestamp
  campaignId : Option Identifier
  network : Option Identifier
  country : Option Identifier

/-- A row of `session_facts`. -/
structure SessionRow where
  logicalEventId : String
  scope : Scope
  installationId : Identifier
  occurredAt : Timestamp

/-- A row of `ad_revenue_facts`. -/
structure RevenueRow where
  logicalEventId : String
  scope : Scope
  installationId : Option Identifier
  amountUnscaled : Nat
  amountScale : Nat
  currency : String
  occurredAt : Timestamp

/-- A row of `deep_link_open_facts`. -/
structure DeepLinkRow where
  logicalEventId : String
  campaignId : Option Identifier

/-- A row of `apple_postback_facts`. -/
structure PostbackRow where
  logicalEventId : String
  scope : Scope
  signatureVerified : Bool
  didWin : Bool
  sourceIdentifierPresent : Bool
  conversionBucket : Option String
  receivedAt : Timestamp

/-- A row of `cost_records`. -/
structure CostRow where
  costRecordId : Identifier
  scope : Scope
  network : Identifier
  campaignId : Option Identifier
  country : Option Identifier
  costDate : CalendarDate
  spendUnscaled : Nat
  spendScale : Nat
  currency : String
  asOf : Timestamp
  costKeyDigest : String

def RecordRow.evidenceKey (r : RecordRow) : EvidenceKey := ⟨r.scope, r.recordId⟩

def PayloadState.evidenceKey (s : PayloadState) : EvidenceKey := ⟨s.scope, s.recordId⟩

def EventRow.evidenceKey (e : EventRow) : EvidenceKey := ⟨e.scope, e.recordId⟩

/-- The rows the metric queries read. -/
structure MetricTables where
  rawRecords : List RecordRow := []
  rawPayloadStates : List PayloadState := []
  logicalEvents : List EventRow := []
  clickFacts : List ClickRow := []
  installFacts : List InstallRow := []
  sessionFacts : List SessionRow := []
  adRevenueFacts : List RevenueRow := []
  deepLinkOpenFacts : List DeepLinkRow := []
  applePostbackFacts : List PostbackRow := []
  attributionResults : List Attribution := []
  costRecords : List CostRow := []

end Rows

/-- What one value is asked for. -/
structure MetricQuery where
  scope : Scope
  watermark : Timestamp
  privacyState : PrivacyState
  grouping : Option Grouping
  definition : MetricDefinition
  fxPolicy : FxPolicy

section Joins

variable (t : MetricTables) (q : MetricQuery)

/-- The last payload state of a record. -/
def MetricTables.currentState (key : EvidenceKey) : Option LifecycleStatus :=
  (t.rawPayloadStates.filter (fun s => s.evidenceKey = key)).getLast?.map (·.lifecycleStatus)

/-- `raw_records_current`: the records that have a payload state, with the
last. -/
def MetricTables.rawRecordsCurrent : List (RecordRow × LifecycleStatus) :=
  t.rawRecords.filterMap (fun r => (t.currentState r.evidenceKey).map (fun s => (r, s)))

/-- The record is not behind the watermark, and not hidden. -/
def MetricQuery.readsRecord (r : RecordRow × LifecycleStatus) : Bool :=
  isBefore r.1.receivedAt q.watermark && (q.privacyState = .before || r.2 = .available)

/-- The logical events, joined with the records the query reads. -/
def MetricTables.readEvents : List (EventRow × RecordRow) :=
  t.logicalEvents.flatMap (fun e =>
    (t.rawRecordsCurrent.filter
      (fun r => r.1.evidenceKey = e.evidenceKey && q.readsRecord r)).map (fun r => (e, r.1)))

/-- Facts joined with the events the query reads. -/
def MetricTables.readFacts {α : Type} (facts : List α) (logicalEventId : α → String) :
    List α :=
  facts.flatMap (fun f =>
    ((t.readEvents q).filter (fun e => e.1.logicalEventId = logicalEventId f)).map (fun _ => f))

/-- The order of rows by a time and then an id. -/
def isLaterRow (db : Database) (time time' : Timestamp) (id id' : String) : Bool :=
  !isBefore time time' || (time = time' && db.sortsBefore id' id)

/-- `ORDER BY decided_at DESC, attribution_id DESC`. -/
def isLaterAttribution (db : Database) (a b : Attribution) : Bool :=
  isLaterRow db a.decidedAt b.decidedAt a.attributionId b.attributionId

/-- `ORDER BY as_of DESC, cost_record_id DESC`. -/
def isLaterCost (db : Database) (a b : CostRow) : Bool :=
  isLaterRow db a.asOf b.asOf a.costRecordId.text b.costRecordId.text

/-- A text that names a date. -/
def checkDate (date : Option CalendarDate) : Except Failure Unit :=
  match date with
  | none => .ok ()
  | some d =>
      if 1 ≤ d.year ∧ d.year ≤ 9999 ∧ 1 ≤ d.month ∧ d.month ≤ 12 ∧ 1 ≤ d.day ∧
          d.day ≤ daysInMonth d.year.toNat d.month then .ok ()
      else .error (.error ("date/time field value out of range: " ++ d.text))

end Joins

section EventCount

variable (db : Database) (t : MetricTables) (q : MetricQuery)

/-- The attribution an aggregate postback has at the watermark. -/
def MetricTables.postbackAttribution (record : RecordRow) : Option Attribution :=
  latest (isLaterAttribution db) (t.attributionResults.filter (fun a =>
    a.scope = q.scope && a.subjectScope = .aggregate && isBefore a.decidedAt q.watermark &&
      a.evidenceRefs.any (fun e => e.ref = record.recordId)))

/-- The Apple postbacks of an event that count for a date and bucket. -/
def MetricTables.countPostbacks (event : EventName) (date : CalendarDate)
    (bucket : Option String) : Nat :=
  ((t.readEvents q).flatMap (fun e => t.applePostbackFacts.filter (fun f =>
    e.1.scope = q.scope && f.scope = e.1.scope && f.logicalEventId = e.1.logicalEventId &&
      (t.postbackAttribution db q e.2).any (fun a => a.status = .nonOrganic) &&
      e.1.eventName = event && f.signatureVerified && f.didWin && f.sourceIdentifierPresent &&
      f.conversionBucket.isSome && dateOf f.receivedAt.ms = date &&
      agrees bucket f.conversionBucket))).length

/-- A counted event with its dimensions. -/
structure CountedEvent where
  installationId : Option Identifier
  campaignId : Option Identifier
  network : Option Identifier
  country : Option Identifier
  attributionStatus : Option AttributionStatus

/-- The attribution of an install or an open at the watermark. -/
def MetricTables.eventAttribution (e : EventRow × RecordRow)
    (installationId : Option Identifier) : Option Attribution :=
  latest (isLaterAttribution db) (t.attributionResults.filter (fun a =>
    a.scope = e.1.scope &&
      ((e.1.eventName = .install && a.subjectScope = .installationLevel &&
          installationId.isSome && a.subjectRef = installationId.map (·.text)) ||
        (e.1.eventName = .deepLinkOpen && a.subjectScope = .engagementLevel &&
          a.subjectRef = some ("engagement:" ++ e.2.recordId.text))) &&
      isBefore a.decidedAt q.watermark))

/-- An event with the dimensions its fact gives it. -/
def MetricTables.countedEvent (e : EventRow × RecordRow) : CountedEvent :=
  let click := t.clickFacts.find? (fun f => f.logicalEventId = e.1.logicalEventId)
  let install := t.installFacts.find? (fun f => f.logicalEventId = e.1.logicalEventId)
  let deep := t.deepLinkOpenFacts.find? (fun f => f.logicalEventId = e.1.logicalEventId)
  let installationId := install.map (·.installationId)
  { installationId := installationId
    campaignId :=
      if e.1.eventName = .click then click.bind (·.campaignId)
      else if e.1.eventName = .deepLinkOpen then deep.bind (·.campaignId)
      else install.bind (·.campaignId)
    network :=
      if e.1.eventName = .click then click.bind (·.network)
      else if e.1.eventName = .deepLinkOpen then none
      else install.bind (·.network)
    country :=
      if e.1.eventName = .click then click.bind (·.country)
      else if e.1.eventName = .deepLinkOpen then none
      else install.bind (·.country)
    attributionStatus :=
      if e.1.eventName = .install ∨ e.1.eventName = .deepLinkOpen then
        some ((t.eventAttribution db q e installationId).elim .unattributed (·.status))
      else none }

/-- The installation stands excluded for fraud at the watermark: a row says
so, and no row has replaced it. -/
def MetricTables.isExcludedAt (installationId : Option Identifier) : Bool :=
  t.attributionResults.any (fun excluded =>
    excluded.scope = q.scope && excluded.reasonCode = .fraudExcluded && installationId.isSome &&
      excluded.subjectRef = installationId.map (·.text) &&
      isBefore excluded.decidedAt q.watermark &&
      !t.attributionResults.any (fun newer =>
        newer.scope = excluded.scope &&
          newer.supersedesAttributionId = some excluded.attributionId &&
          isBefore newer.decidedAt q.watermark))

/-- The instant a date starts at in a zone. -/
def startOfDate (date : CalendarDate) (zone : TimeZone) : Int :=
  daysFromCivil date.year date.month date.day * dayMs - zone.offset

/-- The event counts for the date and group. -/
def MetricTables.countsEvent (event : EventName) (date : CalendarDate) (g : Grouping)
    (e : EventRow × RecordRow) : Bool :=
  let zone := q.definition.aggregationTimeZone
  let counted := t.countedEvent db q e
  e.1.scope = q.scope && e.1.eventName = event &&
    startOfDate date zone ≤ e.2.occurredAt.ms && e.2.occurredAt.ms < startOfDate date zone + dayMs &&
    agrees g.campaignId counted.campaignId && agrees g.network counted.network &&
    agrees g.country counted.country && agrees g.attributionStatus counted.attributionStatus &&
    (q.definition.fraudPolicy.getD .gross = .gross || !t.isExcludedAt q counted.installationId)

/-- The checks on a count of Apple postbacks. -/
def checkAggregateCount (d : MetricDefinition) (event : EventName) (g : Grouping) :
    Except Failure Unit := do
  if d.aggregationTimeZone ≠ .utc then
    throw (.error ("SQL aggregate event_count requires UTC aggregation: " ++ d.metricName))
  if g.attributionStatus.isSome then
    throw (.error ("SQL aggregate event_count forbids attribution_status: " ++ d.metricName))
  if !isAggregateMetric d.metricName ∨ event ≠
      (if d.metricName = "aak_attributed_installs" then .adattributionkitPostback
        else .skanPostback) then
    throw (.error ("SQL aggregate metric and event mismatch: " ++ d.metricName))
  if d.metricName = "skan_conversion_value_distribution" ∧ g.appleConversionBucket.isNone then
    throw (.error "SQL SKAN conversion distribution requires apple_conversion_bucket")
  if d.metricName ≠ "skan_conversion_value_distribution" ∧ g.appleConversionBucket.isSome then
    throw (.error "SQL apple_conversion_bucket is reserved for SKAN conversion distribution")

/-- `eventCountValue`. -/
def MetricTables.eventCountValue : Except Failure Int :=
  match q.definition.eventNames.getD [] with
  | [event] =>
      if !isCountable event then
        .error (.error "SQL event_count requires exactly one supported event")
      else match q.grouping.bind (·.metricDate), q.grouping with
        | some date, some g =>
            if isApplePostback event then do
              checkAggregateCount q.definition event g
              checkDate (some date)
              return t.countPostbacks db q event date g.appleConversionBucket
            else do
              if g.attributionStatus.isSome ∧ ¬ (event = .install ∨ event = .deepLinkOpen) then
                throw (.error
                  "SQL event_count attribution_status applies only to install or deep_link_open")
              checkDate (some date)
              return ((t.readEvents q).filter (t.countsEvent db q event date g)).length
        | _, _ => .error (.error "SQL event_count requires grouping.metric_date")
  | _ => .error (.error "SQL event_count requires exactly one supported event")

end EventCount

section Cohort

variable (db : Database) (t : MetricTables) (q : MetricQuery)

/-- The attribution an installation has now: the watermark does not bound
it. -/
def MetricTables.currentAttribution (i : InstallRow) : Option Attribution :=
  latest (isLaterAttribution db) (t.attributionResults.filter (fun a =>
    a.scope = i.scope && a.subjectScope = .installationLevel &&
      a.subjectRef = some i.installationId.text))

/-- The attribution passes the filters on status and fraud. -/
def MetricQuery.admits (current : Option Attribution) : Bool :=
  agrees (q.grouping.bind (·.attributionStatus)) (current.map (·.status)) &&
    (q.definition.fraudPolicy.getD .gross = .gross ||
      current.map (·.reasonCode) ≠ some .fraudExcluded)

/-- The install is one of the group, whatever its attribution. -/
def MetricQuery.groups (i : InstallRow) : Bool :=
  i.scope = q.scope &&
    agrees (q.grouping.bind (·.campaignId)) i.campaignId &&
    agrees (q.grouping.bind (·.network)) i.network &&
    agrees (q.grouping.bind (·.country)) i.country &&
    i.occurredAt.any (fun at_ => (q.grouping.bind (·.cohortDate)).all (fun date =>
      dateOf (at_.ms + q.definition.aggregationTimeZone.offset) = date))

/-- The installs of the group. -/
def MetricTables.groupedInstalls : List InstallRow :=
  (t.readFacts q t.installFacts (·.logicalEventId)).filter q.groups

/-- A row of `cohort`. -/
structure CohortRow where
  installationId : Identifier
  installedAt : Int

/-- The cohort row of an install with a time. -/
def InstallRow.cohortRow (i : InstallRow) : Option CohortRow :=
  i.occurredAt.map (fun at_ => ⟨i.installationId, at_.ms⟩)

/-- The installs of the group whose attributions pass. -/
def MetricTables.cohortInstalls : List InstallRow :=
  (t.groupedInstalls q).filter (fun i => q.admits (t.currentAttribution db i))

/-- `cohort`. -/
def MetricTables.cohort : List CohortRow :=
  (t.cohortInstalls db q).filterMap InstallRow.cohortRow

/-- The start and end of the definition's window behind an install, in days. -/
def MetricQuery.inWindow (first : Nat) (installedAt at_ : Int) : Bool :=
  installedAt + first * dayMs ≤ at_ &&
    at_ < installedAt + (q.definition.definition.window.day + 1) * dayMs

/-- The rates of a currency, or one missing rate. -/
def MetricQuery.ratesOf (currency : String) : List (Option FxRate) :=
  match q.fxPolicy.rates.filter (fun r => r.currency = currency) with
  | [] => [none]
  | rates => rates.map some

/-- `revenue_candidates`. -/
def MetricTables.revenueCandidates : List (RevenueRow × Option FxRate) :=
  (t.readFacts q t.adRevenueFacts (·.logicalEventId)).flatMap (fun r =>
    ((t.cohort db q).filter (fun c => r.scope = q.scope &&
      r.installationId = some c.installationId && q.inWindow 0 c.installedAt r.occurredAt.ms)).flatMap
        (fun _ => (q.ratesOf r.currency).map (fun rate => (r, rate))))

/-- `power(10, n)`. -/
def Database.power10 (n : Nat) : Numeric := ⟨(10 ^ n : Nat), db.powerScale n⟩

/-- The product of two numerics: the digits behind the points add up. -/
def Numeric.mul (a b : Numeric) : Numeric :=
  ⟨a.value * b.value, a.displayScale + b.displayScale⟩

/-- The sum of two numerics. -/
def Numeric.add (a b : Numeric) : Numeric :=
  ⟨a.value + b.value, max a.displayScale b.displayScale⟩

/-- One revenue row added to the sum; a row without a rate adds nothing. -/
def addRevenueRow (sum : Int) (r : RevenueRow × Option FxRate) : Except Failure Int :=
  match r.2 with
  | none => .ok sum
  | some rate => do
      let amount : Numeric := ⟨r.1.amountUnscaled, 0⟩
      let scaled := (amount.mul ⟨rate.rateUnscaled.value, 0⟩).mul (db.power10 q.fxPolicy.targetScale)
      return sum + (← halfEvenDiv db.divScale scaled (db.power10 (r.1.amountScale + rate.rateScale)))

/-- `activities`: the installations of the cohort active on the day. -/
def MetricTables.activeCount : Nat :=
  ((t.readFacts q t.sessionFacts (·.logicalEventId)).filterMap (fun s =>
    if s.scope = q.scope ∧ (t.cohort db q).any (fun c => s.installationId = c.installationId &&
        q.inWindow q.definition.definition.window.day c.installedAt s.occurredAt.ms) then
      some s.installationId
    else none)).dedup.length

/-- The cost row counts at the watermark for the group. -/
def MetricQuery.countsCost (c : CostRow) : Bool :=
  c.scope = q.scope && isBefore c.asOf q.watermark &&
    (q.grouping.bind (·.attributionStatus)).all (fun s => s = .nonOrganic) &&
    agrees (q.grouping.bind (·.campaignId)) c.campaignId &&
    agrees (q.grouping.bind (·.network)) (some c.network) &&
    agrees (q.grouping.bind (·.country)) c.country &&
    agrees (q.grouping.bind (·.cohortDate)) (some c.costDate)

/-- `current_cost`: the latest report under each key. -/
def MetricTables.currentCost : List CostRow :=
  let counted := t.costRecords.filter q.countsCost
  (counted.map (·.costKeyDigest)).dedup.filterMap (fun key =>
    latest (isLaterCost db) (counted.filter (fun c => c.costKeyDigest = key)))

/-- The spend of a cost row at the target scale. -/
def scaleSpend (c : CostRow) : Except Failure Numeric :=
  let spend : Numeric := ⟨c.spendUnscaled, 0⟩
  if c.spendScale ≤ q.fxPolicy.targetScale then
    .ok (spend.mul (db.power10 (q.fxPolicy.targetScale - c.spendScale)))
  else do
    let value ← halfEvenDiv db.divScale spend (db.power10 (c.spendScale - q.fxPolicy.targetScale))
    return ⟨value, 0⟩

/-- One cost row added to the sum. -/
def addCostRow (sum : Numeric) (c : CostRow) : Except Failure Numeric := do
  return sum.add (← scaleSpend db q c)

/-- The activity events the session projection does not answer. -/
def MetricQuery.unsupportedActivities : Bool :=
  q.definition.definition.calculation = .activeInstallationsOverCohort &&
    (q.definition.activityEvents.getD ["session_start"]).any (fun e => e ≠ "session_start")

/-- The ratio scale, as a power of ten. -/
def MetricQuery.ratio : Numeric := db.power10 (q.definition.ratioScale.getD 0)

/-- `CASE $10 …`: the value of a calculation from what the query has summed,
none where it is null. -/
def MetricQuery.calculate (revenue : Int) (active cohortSize : Nat) (cost : Numeric) :
    Except Failure (Option Int) :=
  match q.definition.definition.calculation with
  | .revenueSum => .ok (some revenue)
  | .revenueOverCost =>
      if cost.value = 0 then .ok none
      else return some (← halfEvenDiv db.divScale (Numeric.mul ⟨revenue, 0⟩ (q.ratio db)) cost)
  | .activeInstallationsOverCohort =>
      if cohortSize = 0 then .ok none
      else return some (← halfEvenDiv db.divScale (Numeric.mul ⟨active, 0⟩ (q.ratio db))
        ⟨cohortSize, 0⟩)
  | .revenueOverCohort =>
      if cohortSize = 0 then .ok none
      else return some (← halfEvenDiv db.divScale ⟨revenue, 0⟩ ⟨cohortSize, 0⟩)
  | .cohortSize => .ok (some cohortSize)
  | .eventCount => .ok none

/-- `metricValue`, for the calculations over a cohort. -/
def MetricTables.cohortValue : Except Failure MetricValue := do
  let name := q.definition.metricName
  if q.unsupportedActivities then
    throw (.error ("SQL activity projection does not support " ++
      ",".intercalate (q.definition.activityEvents.getD ["session_start"])))
  checkDate (q.grouping.bind (·.cohortDate))
  let candidates := t.revenueCandidates db q
  let revenue ← PartialList.accumulate (addRevenueRow db q) 0 candidates
  let costs := t.currentCost db q
  let cost ← PartialList.accumulate (addCostRow db q) ⟨0, 0⟩ costs
  let cohortSize := ((t.cohort db q).map (·.installationId)).dedup.length
  let value ← q.calculate db revenue (t.activeCount db q) cohortSize cost
  if candidates.any (fun r => r.2.isNone) then
    throw (.error ("missing FX rate for " ++ name))
  if costs.any (fun c => c.currency ≠ q.fxPolicy.targetCurrency) then
    throw (.error ("cost currency mismatch for " ++ name))
  match value with
  | some v => return .present v
  | none => return .undefined (if q.definition.definition.calculation = .revenueOverCost then
      "no_attributed_cost" else "empty_cohort")

/-- `metricValue`. -/
def MetricTables.metricValue : Except Failure MetricValue :=
  if q.definition.definition.calculation = .eventCount then do
    return .present (← t.eventCountValue db q)
  else t.cohortValue db q

end Cohort

end OpenMasu
