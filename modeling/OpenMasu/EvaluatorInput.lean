import OpenMasu.Contract

/-!
# The evaluator's input

Next to the delivered records an evaluation reads privacy requests,
corrections, retention expirations, cost reports, source-day aggregates,
metric definitions and reconciliation inputs.

* `Ingress` — records arrive in batches, under one context, or not at all;
* `EvaluatorInput` — everything one evaluation reads;
* `attempts` — the delivered records with their contexts, in input order.
-/

namespace OpenMasu

inductive LifecycleStatus where
  | available
  | redacted
  | purged
  deriving DecidableEq

def LifecycleStatus.text : LifecycleStatus → String
  | available => "available"
  | redacted => "redacted"
  | purged => "purged"

instance : Encode LifecycleStatus := ⟨fun s => .str s.text⟩

inductive PrivacyStatus where
  | received
  | processing
  | completed
  | failed
  deriving DecidableEq

def PrivacyStatus.text : PrivacyStatus → String
  | received => "received"
  | processing => "processing"
  | completed => "completed"
  | failed => "failed"

instance : Encode PrivacyStatus := ⟨fun s => .str s.text⟩

inductive RequestedVia where
  | onDeviceSdk
  | tenantAdminApi
  deriving DecidableEq

def RequestedVia.text : RequestedVia → String
  | onDeviceSdk => "on_device_sdk"
  | tenantAdminApi => "tenant_admin_api"

instance : Encode RequestedVia := ⟨fun v => .str v.text⟩

structure AffectedRecord where
  recordId : Identifier
  lifecycleStatus : LifecycleStatus

instance : Encode AffectedRecord := ⟨fun a => .object [
  member "record_id" a.recordId, member "lifecycle_status" a.lifecycleStatus]⟩

structure PrivacyRequest where
  tenantId : Identifier
  appId : Identifier
  privacyRequestId : Identifier
  deletionSubjectRef : Option Identifier := none
  deletionSubjectDigest : Option Identifier := none
  deletionScope : String
  requestedVia : RequestedVia
  requesterAuthRef : Identifier
  requestedAt : Timestamp
  completedAt : Option Timestamp := none
  status : PrivacyStatus
  reasonCode : String
  policyVersion : String
  affectedRecords : List AffectedRecord

instance : Encode PrivacyRequest := ⟨fun r => .object [
  member "contract_version" contractVersion,
  member "tenant_id" r.tenantId,
  member "app_id" r.appId,
  member "privacy_request_id" r.privacyRequestId,
  optional "deletion_subject_ref" r.deletionSubjectRef,
  optional "deletion_subject_digest" r.deletionSubjectDigest,
  member "deletion_scope" r.deletionScope,
  member "requested_via" r.requestedVia,
  member "requester_auth_ref" r.requesterAuthRef,
  member "requested_at" r.requestedAt,
  member "status" r.status,
  member "reason_code" r.reasonCode,
  member "policy_version" r.policyVersion,
  member "affected_records" r.affectedRecords,
  optional "completed_at" r.completedAt]⟩

def PrivacyRequest.scope (r : PrivacyRequest) : Scope := ⟨r.tenantId, r.appId⟩

/-- A correction of a record.  A redaction carries the completion time of its
request, which the contract demands of completed requests. -/
structure Correction where
  tenantId : Identifier
  appId : Identifier
  correctionId : String
  correctsRecordId : Option Identifier
  correctionType : String
  correctionReason : String
  effectiveAt : Option Timestamp

instance : Encode Correction := ⟨fun c => .object [
  member "contract_version" contractVersion,
  member "tenant_id" c.tenantId,
  member "app_id" c.appId,
  member "correction_id" c.correctionId,
  optional "corrects_record_id" c.correctsRecordId,
  member "correction_type" c.correctionType,
  member "correction_reason" c.correctionReason,
  optional "effective_at" c.effectiveAt]⟩

def Correction.scope (c : Correction) : Scope := ⟨c.tenantId, c.appId⟩

structure RetentionExpiration where
  tenantId : Identifier
  appId : Identifier
  recordId : Identifier

def RetentionExpiration.scope (e : RetentionExpiration) : Scope := ⟨e.tenantId, e.appId⟩

/-- Why consent let a record pass or not. -/
inductive ConsentReason where
  | consentNotRequired
  | consentValidBeforeWithdrawal
  | documentedAlternativeLegalBasis
  | consentWithdrawn
  deriving DecidableEq

def ConsentReason.text : ConsentReason → String
  | consentNotRequired => "consent_not_required"
  | consentValidBeforeWithdrawal => "consent_valid_before_withdrawal"
  | documentedAlternativeLegalBasis => "documented_alternative_legal_basis"
  | consentWithdrawn => "consent_withdrawn"

instance : Encode ConsentReason := ⟨fun r => .str r.text⟩

/-- A delivery turned away before it reached the evaluator. -/
structure PreIngestionRejection where
  deliveryId : Identifier
  recordId : Identifier
  tenantId : Identifier
  appId : Identifier
  receivedAt : Timestamp
  processingPurposeId : Option ProcessingPurpose := none
  consentEvaluationPolicyVersion : String
  consentDecisionReasonCode : ConsentReason

structure FxRate where
  currency : String
  rateUnscaled : Digits
  rateScale : Nat
  source : String
  asOf : Timestamp

instance : Encode FxRate := ⟨fun r => .object [
  member "currency" r.currency,
  member "rate_unscaled" r.rateUnscaled,
  member "rate_scale" r.rateScale,
  member "source" r.source,
  member "as_of" r.asOf]⟩

structure FxPolicy where
  policyVersion : String
  targetCurrency : String
  targetScale : Nat
  roundingMode : String
  rates : List FxRate

structure CostRecord where
  costRecordId : Identifier
  tenantId : Identifier
  appId : Identifier
  network : Identifier
  campaignId : Identifier
  adGroupId : Option Identifier := none
  country : Option Identifier := none
  date : CalendarDate
  money : Money
  source : String
  asOf : Timestamp
  reportSnapshotDigest : String
  dimensionDigest : String

instance : Encode CostRecord := ⟨fun c => .object ([
  member "contract_version" contractVersion,
  member "cost_record_id" c.costRecordId,
  member "tenant_id" c.tenantId,
  member "app_id" c.appId,
  member "network" c.network,
  member "campaign_id" c.campaignId,
  optional "ad_group_id" c.adGroupId,
  optional "country" c.country,
  member "date" c.date]
  ++ c.money.members ++ [
  member "source" c.source,
  member "as_of" c.asOf,
  member "report_snapshot_digest" c.reportSnapshotDigest,
  member "dimension_digest" c.dimensionDigest])⟩

def CostRecord.scope (c : CostRecord) : Scope := ⟨c.tenantId, c.appId⟩

structure SourceDayAggregate where
  tenantId : Identifier
  appId : Identifier
  metricDate : CalendarDate
  campaignId : Identifier
  network : Identifier
  siteId : Identifier
  clicks : Nat
  installs : Nat
  medianCvr : Rat
  ctitP50Ms : Nat
  ctitP95Ms : Nat
  ctitNegativeCount : Option Nat := none
  inputSnapshotId : String
  computedAt : Timestamp

def SourceDayAggregate.scope (a : SourceDayAggregate) : Scope := ⟨a.tenantId, a.appId⟩

inductive AttributionStatus where
  | organic
  | nonOrganic
  | unattributed
  deriving DecidableEq

def AttributionStatus.text : AttributionStatus → String
  | organic => "organic"
  | nonOrganic => "non_organic"
  | unattributed => "unattributed"

instance : Encode AttributionStatus := ⟨fun s => .str s.text⟩

/-- The dimensions a metric may be grouped by. -/
inductive Dimension where
  | campaignId
  | network
  | country
  | cohortDate
  | metricDate
  | attributionStatus
  | appleConversionBucket
  deriving DecidableEq

def Dimension.text : Dimension → String
  | campaignId => "campaign_id"
  | network => "network"
  | country => "country"
  | cohortDate => "cohort_date"
  | metricDate => "metric_date"
  | attributionStatus => "attribution_status"
  | appleConversionBucket => "apple_conversion_bucket"

instance : Encode Dimension := ⟨fun d => .str d.text⟩

/-- The group a metric is evaluated for. -/
structure Grouping where
  campaignId : Option Identifier := none
  network : Option Identifier := none
  country : Option Identifier := none
  cohortDate : Option CalendarDate := none
  metricDate : Option CalendarDate := none
  attributionStatus : Option AttributionStatus := none
  appleConversionBucket : Option String := none

instance : Encode Grouping := ⟨fun g => .object [
  optional "campaign_id" g.campaignId,
  optional "network" g.network,
  optional "country" g.country,
  optional "cohort_date" g.cohortDate,
  optional "metric_date" g.metricDate,
  optional "attribution_status" g.attributionStatus,
  optional "apple_conversion_bucket" g.appleConversionBucket]⟩

/-- The dimensions a group names. -/
def Grouping.dimensions (g : Grouping) : List Dimension :=
  [(Dimension.campaignId, g.campaignId.isSome), (.network, g.network.isSome),
   (.country, g.country.isSome), (.cohortDate, g.cohortDate.isSome),
   (.metricDate, g.metricDate.isSome), (.attributionStatus, g.attributionStatus.isSome),
   (.appleConversionBucket, g.appleConversionBucket.isSome)].filterMap
    (fun d => if d.2 then some d.1 else none)

inductive Calculation where
  | revenueSum
  | revenueOverCost
  | activeInstallationsOverCohort
  | revenueOverCohort
  | cohortSize
  | eventCount
  deriving DecidableEq

def Calculation.text : Calculation → String
  | revenueSum => "revenue_sum"
  | revenueOverCost => "revenue_over_cost"
  | activeInstallationsOverCohort => "active_installations_over_cohort"
  | revenueOverCohort => "revenue_over_cohort"
  | cohortSize => "cohort_size"
  | eventCount => "event_count"

instance : Encode Calculation := ⟨fun c => .str c.text⟩

inductive WindowType where
  | elapsed
  | calendarDay
  | activityDay
  deriving DecidableEq

def WindowType.text : WindowType → String
  | elapsed => "elapsed"
  | calendarDay => "calendar_day"
  | activityDay => "activity_day"

instance : Encode WindowType := ⟨fun w => .str w.text⟩

structure MetricWindow where
  type : WindowType
  day : Nat

inductive Numerator where
  | revenue
  | activeInstallations
  | cohortSize
  | events
  deriving DecidableEq

def Numerator.text : Numerator → String
  | revenue => "revenue"
  | activeInstallations => "active_installations"
  | cohortSize => "cohort_size"
  | events => "events"

instance : Encode Numerator := ⟨fun n => .str n.text⟩

structure MetricFormula where
  calculation : Calculation
  window : MetricWindow
  numerator : Numerator
  denominator : Option String := none
  costBasis : Option String := none

instance : Encode MetricFormula := ⟨fun f => .object [
  member "calculation" f.calculation,
  ("window", some (.object [member "type" f.window.type, member "day" f.window.day])),
  member "numerator" f.numerator,
  optional "denominator" f.denominator,
  optional "cost_basis" f.costBasis]⟩

inductive ValueType where
  | money
  | ratio
  | count
  deriving DecidableEq

def ValueType.text : ValueType → String
  | money => "money"
  | ratio => "ratio"
  | count => "count"

instance : Encode ValueType := ⟨fun v => .str v.text⟩

inductive FraudPolicy where
  | gross
  | net
  deriving DecidableEq

def FraudPolicy.text : FraudPolicy → String
  | gross => "gross"
  | net => "net"

instance : Encode FraudPolicy := ⟨fun p => .str p.text⟩

instance : Encode TimeZone := ⟨fun z => .str z.text⟩

structure MetricDefinition where
  metricName : String
  metricDefinitionVersion : String
  anchorEvent : String
  aggregationTimeZone : TimeZone
  valueType : ValueType
  currency : Option String := none
  amountScale : Option Nat := none
  ratioScale : Option Nat := none
  definition : MetricFormula
  activityEvents : Option (List String) := none
  eventNames : Option (List EventName) := none
  groupingDimensions : Option (List Dimension) := none
  fraudPolicy : Option FraudPolicy := none
  ruleBundleId : String
  ruleBundleVersion : String
  ruleBundleHash : String

instance : Encode MetricDefinition := ⟨fun d => .object [
  member "metric_name" d.metricName,
  member "metric_definition_version" d.metricDefinitionVersion,
  member "anchor_event" d.anchorEvent,
  member "aggregation_time_zone" d.aggregationTimeZone,
  member "value_type" d.valueType,
  optional "currency" d.currency,
  optional "amount_scale" d.amountScale,
  optional "ratio_scale" d.ratioScale,
  member "definition" d.definition,
  optional "activity_events" d.activityEvents,
  optional "event_names" d.eventNames,
  optional "grouping_dimensions" d.groupingDimensions,
  optional "fraud_policy" d.fraudPolicy,
  member "rule_bundle_id" d.ruleBundleId,
  member "rule_bundle_version" d.ruleBundleVersion,
  member "rule_bundle_hash" d.ruleBundleHash]⟩

/-- A metric evaluation sees the ledger before or after its lifecycle
changes. -/
inductive PrivacyState where
  | before
  | after
  deriving DecidableEq

structure MetricEvaluation where
  metricRunIdPrefix : Identifier
  inputReceivedAtWatermark : Timestamp
  computedAt : Timestamp
  dataFreshness : String
  privacyState : PrivacyState
  supersedesMetricRunIdPrefix : Option Identifier := none
  metricNames : Option (List String) := none
  grouping : Option Grouping := none

inductive MatchingKeyType where
  | externalRowId
  | providerInstallId
  | providerClickId
  | trackingLinkId
  | campaignId
  | transactionId
  | impressionId
  | tenantAppComposite
  deriving DecidableEq

def MatchingKeyType.text : MatchingKeyType → String
  | externalRowId => "external_row_id"
  | providerInstallId => "provider_install_id"
  | providerClickId => "provider_click_id"
  | trackingLinkId => "tracking_link_id"
  | campaignId => "campaign_id"
  | transactionId => "transaction_id"
  | impressionId => "impression_id"
  | tenantAppComposite => "tenant_app_composite"

instance : Encode MatchingKeyType := ⟨fun t => .str t.text⟩

inductive Normalization where
  | identity
  | lowercaseAscii
  | trim
  deriving DecidableEq

def Normalization.text : Normalization → String
  | identity => "identity"
  | lowercaseAscii => "lowercase_ascii"
  | trim => "trim"

instance : Encode Normalization := ⟨fun n => .str n.text⟩

inductive Cardinality where
  | oneToOne
  | oneToMany
  deriving DecidableEq

def Cardinality.text : Cardinality → String
  | oneToOne => "one_to_one"
  | oneToMany => "one_to_many"

instance : Encode Cardinality := ⟨fun c => .str c.text⟩

structure MatchingKey where
  type : MatchingKeyType
  value : String
  scope : String
  normalization : Normalization
  cardinality : Cardinality
  «protected» : Bool
  valueEncoding : Option Identifier := none
  accessClass : Option String := none

instance : Encode MatchingKey := ⟨fun k => .object [
  member "type" k.type,
  member "value" k.value,
  member "scope" k.scope,
  member "normalization" k.normalization,
  member "cardinality" k.cardinality,
  member "protected" k.protected,
  optional "value_encoding" k.valueEncoding,
  optional "access_class" k.accessClass]⟩

inductive WindowStatus where
  | inWindow
  | outOfWindow
  | notApplicable
  deriving DecidableEq

def WindowStatus.text : WindowStatus → String
  | inWindow => "in_window"
  | outOfWindow => "out_of_window"
  | notApplicable => "not_applicable"

inductive Freshness where
  | current
  | stale
  | recalculated
  deriving DecidableEq

def Freshness.text : Freshness → String
  | current => "current"
  | stale => "stale"
  | recalculated => "recalculated"

instance : Encode Freshness := ⟨fun f => .str f.text⟩

structure ReconciliationCandidate where
  candidateId : Identifier
  tenantId : Identifier
  appId : Identifier
  matchingKeys : List MatchingKey
  windowStatus : WindowStatus
  freshness : Freshness
  excluded : Bool
  exclusionReason : Option String := none

def ReconciliationCandidate.scope (c : ReconciliationCandidate) : Scope := ⟨c.tenantId, c.appId⟩

structure ReconciliationInput where
  reconciliationId : String
  tenantId : Identifier
  appId : Identifier
  inputSnapshotId : String
  externalSnapshotId : String
  matchingKeys : List MatchingKey
  providerModeledWithoutCandidate : Bool := false
  candidates : List ReconciliationCandidate
  freshness : Freshness
  privacyRedaction : Bool := false

def ReconciliationInput.scope (r : ReconciliationInput) : Scope := ⟨r.tenantId, r.appId⟩

structure Batch where
  batchId : Identifier
  serverContext : ServerContext
  records : List Record

/-- How records reach an evaluation. -/
inductive Ingress where
  | batches (batches : List Batch)
  | direct (serverContext : ServerContext) (records : List Record)
  | none

structure EvaluatorInput where
  ingress : Ingress
  fxPolicy : FxPolicy
  metricEvaluations : List MetricEvaluation := []
  privacyRequests : List PrivacyRequest := []
  costRecords : List CostRecord := []
  sourceDayAggregates : List SourceDayAggregate := []
  metricDefinitions : List MetricDefinition := []
  reconciliationInputs : List ReconciliationInput := []
  correctionInputs : List Correction := []
  preIngestionRejections : List PreIngestionRejection := []
  retentionExpirations : List RetentionExpiration := []

/-- `attempts`: the deliveries of an input, in input order. -/
def attempts (input : EvaluatorInput) : List Attempt :=
  match input.ingress with
  | .batches batches => batches.flatMap (fun batch =>
      batch.records.map (fun record => ⟨batch.serverContext, record, batch.batchId⟩))
  | .direct server records => records.map (fun record => ⟨server, record, ⟨"batch-default", by decide⟩⟩)
  | .none => []

end OpenMasu
