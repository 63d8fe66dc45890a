import OpenMasu.FraudRules

/-!
# Fraud decisions and what they do to attributions

The rules run over accepted clicks, accepted installs and source days.  A
source day whose clock anomalies exceed the threshold makes the attributions
of its installs provisional; an excluded click takes the attribution away
from every install that names it.

* `transportFraud`, `installFraud`, `sourceDayFraud` — the decisions;
* `provisionalClockAttributions` — the provisional attributions;
* `excludedClickIds`, `fraudAttributions` — exclusion and its effect.
-/

namespace OpenMasu

variable [Digest]

/-- What a fraud decision is about: a record, or a source. -/
inductive FraudSubject where
  | record
  | source
  deriving DecidableEq

structure FraudDecision where
  fraudDecisionId : String
  subjectScope : FraudSubject := .record
  subjectRef : String
  decision : FraudDecisionKind
  action : FraudAction
  reasonCode : FraudReason
  evidenceType : String
  capturedAt : Timestamp
  evidenceDigest : String
  ruleBundleId : Identifier
  ruleBundleVersion : Identifier
  ruleBundleHash : String
  ruleId : String
  evaluatedAt : Timestamp
  resolutionDeadlineAt : Option String

instance : Encode FraudDecision := ⟨fun d => .object [
  member "fraud_decision_id" d.fraudDecisionId,
  ("subject_scope", if d.subjectScope = .source then some (.str "source") else none),
  member "subject_ref" d.subjectRef,
  member "decision" d.decision,
  member "action" d.action,
  member "reason_code" d.reasonCode,
  member "reason_code_version" contractVersion,
  ("evidence", some (.arr [.object [
    member "type" d.evidenceType,
    member "captured_at" d.capturedAt,
    member "digest" d.evidenceDigest,
    member "access_class" "protected"]])),
  member "rule_bundle_id" d.ruleBundleId,
  member "rule_bundle_version" d.ruleBundleVersion,
  member "rule_bundle_hash" d.ruleBundleHash,
  member "rule_id" d.ruleId,
  member "evaluated_at" d.evaluatedAt,
  optional "resolution_deadline_at" d.resolutionDeadlineAt]⟩

/-- The decision a transport rule makes on a click. -/
def transportDecision (a : Attempt) (b : BoundFraudBundle) (reason : FraudReason)
    (ruleId evidenceType : String) : Except Failure FraudDecision := do
  let action := fraudRuleAction b.definition ruleId .exclude
  let deadline ← quarantineDeadline action a.record.receivedAt b.definition
  return {
    fraudDecisionId := "fraud:" ++ a.record.recordId.text
    subjectRef := a.record.recordId.text
    decision := .suspected
    action := action
    reasonCode := reason
    evidenceType := evidenceType
    capturedAt := a.record.receivedAt
    evidenceDigest := sha256 (.arr [toJson reason, toJson a.record.recordId])
    ruleBundleId := b.definition.id
    ruleBundleVersion := b.definition.version
    ruleBundleHash := b.hash
    ruleId := ruleId
    evaluatedAt := a.record.receivedAt
    resolutionDeadlineAt := deadline }

/-- `transportFraud`, for one accepted delivery: prefetched and replayed
clicks. -/
def transportFraud (a : Attempt) : Except Failure (List FraudDecision) :=
  let replayed := truthy a.record.payload.replaySuspected
  if a.record.eventName ≠ .click ∨ (!truthy a.record.payload.botPrefetch && !replayed) then .ok []
  else do
    match ← boundFraudBundle a.server with
    | none => return []
    | some b =>
        if replayed then
          return [← transportDecision a b .replaySuspected "transport-replay-v1"
            "replay_category"]
        else
          return [← transportDecision a b .botPrefetch "transport-bot-prefetch-v1"
            "link_prefetch_category"]

/-- The accepted clicks an install's rules may compare with. -/
def matchingClicks (accepted : List Attempt) (a : Attempt) : List Attempt :=
  if a.record.payload.clickId.isSome then
    accepted.filter (fun c => isClickOf a.scope a.record.payload.clickId c &&
      c.record.payload.redirectorTimeStatus ≠ some .invalid &&
      c.record.payload.redirectorClickAt.isSome)
  else []

/-- The click of an install, when exactly one matches. -/
def ruleClick (accepted : List Attempt) (a : Attempt) : Option Attempt :=
  match matchingClicks accepted a with
  | [click] => some click
  | _ => none

/-- The click-injection policy of an install: the configured one, or the one
its bundle implies. -/
def injectionPolicy (a : Attempt) (b : BoundFraudBundle) : ClickInjectionPolicy :=
  a.server.clickInjectionPolicy.getD
    (let threshold := fraudNumberParameter b.definition "ctit_lower_bound_seconds" 10
     let version := b.definition.id.text ++ ":" ++ b.definition.version.text
     ⟨threshold, "server", version, clickInjectionPolicyDigest threshold "server" version⟩)

/-- The decision a rule hit makes on an install. -/
def installDecision (a : Attempt) (b : BoundFraudBundle) (click : Option Attempt)
    (hit : FraudRuleHit) : Except Failure FraudDecision := do
  let deadline ← quarantineDeadline hit.action a.record.receivedAt b.definition
  return {
    fraudDecisionId := "fraud:" ++ a.record.recordId.text ++
      (if hit.ruleId = "ctit-lower-bound-v1" then ":click-injection" else ":" ++ hit.ruleId)
    subjectRef := a.record.recordId.text
    decision := hit.decision
    action := hit.action
    reasonCode := hit.reasonCode
    evidenceType := hit.evidenceType
    capturedAt := a.record.receivedAt
    evidenceDigest := sha256 (.arr [toJson hit.ruleId,
      .str (click.elim "no-redirector-click" (·.record.recordId.text)), toJson a.record.recordId])
    ruleBundleId := b.definition.id
    ruleBundleVersion := b.definition.version
    ruleBundleHash := b.hash
    ruleId := hit.ruleId
    evaluatedAt := a.record.receivedAt
    resolutionDeadlineAt := deadline }

/-- `installFraud`, for one accepted delivery. -/
def installFraud (accepted : List Attempt) (a : Attempt) : Except Failure (List FraudDecision) :=
  if a.record.eventName ≠ .install then .ok []
  else do
    match ← boundFraudBundle a.server with
    | none => return []
    | some b =>
        let payload := a.record.payload
        let click := ruleClick accepted a
        let hits ← evaluateInstallRules {
          installBeginAtServer := payload.installBeginAtServer
          referrerClickAtServer := payload.referrerClickAtServer
          referrerClickAtServerStatus := payload.referrerClickAtServerStatus
          redirectorClickAt := click.bind (·.record.payload.redirectorClickAt)
          policy := injectionPolicy a b
          bundle := b.definition }
        PartialList.traverse (installDecision a b click) hits

/-- The bundle that judges a scope: that of its first accepted delivery, or
the built-in one. -/
def scopeBundle (accepted : List Attempt) (scope : Scope) :
    Except Failure (Option BoundFraudBundle) :=
  match accepted.find? (fun a => a.scope = scope) with
  | some a => boundFraudBundle a.server
  | none => .ok (some defaultBound)

/-- `sourceDayFraud`, for one source-day aggregate. -/
def sourceDayFraud (accepted : List Attempt) (a : SourceDayAggregate) :
    Except Failure (List FraudDecision) := do
  match ← scopeBundle accepted a.scope with
  | none => return []
  | some b =>
      match evaluateSourceDay a b.definition with
      | none => return []
      | some hit =>
          let deadline ← quarantineDeadline hit.action a.computedAt b.definition
          return [{
            fraudDecisionId := "fraud:" ++ a.inputSnapshotId
            subjectScope := .source
            subjectRef := "source:" ++ a.tenantId.text ++ ":" ++ a.appId.text ++ ":" ++
              a.metricDate.text ++ ":" ++ a.campaignId.text ++ ":" ++ a.network.text ++ ":" ++
              a.siteId.text
            decision := hit.decision
            action := hit.action
            reasonCode := hit.reasonCode
            evidenceType := hit.evidenceType
            capturedAt := a.computedAt
            evidenceDigest := a.inputSnapshotId
            ruleBundleId := b.definition.id
            ruleBundleVersion := b.definition.version
            ruleBundleHash := b.hash
            ruleId := hit.ruleId
            evaluatedAt := a.computedAt
            resolutionDeadlineAt := deadline }]

/-- The order fraud decisions are reported in. -/
def sortFraudDecisions (l : List FraudDecision) : List FraudDecision :=
  sortByKey l (fun d => [d.fraudDecisionId])

/-- The fraud decisions of an evaluation. -/
def fraudDecisions (input : EvaluatorInput) (accepted : List Attempt) :
    Except Failure (List FraudDecision) := do
  let transport ← PartialList.traverse transportFraud accepted
  let install ← PartialList.traverse (installFraud accepted) accepted
  let sourceDay ← PartialList.traverse (sourceDayFraud accepted) input.sourceDayAggregates
  return sortFraudDecisions (transport.flatten ++ install.flatten ++ sourceDay.flatten)

/-- The first attribution of an installation, in any scope. -/
def priorAttribution (initial : List Attribution) (installationId : Option Identifier) :
    Option Attribution :=
  initial.find? (fun a => a.subjectRef = installationId.map (·.text))

/-- The accepted click behind an install whose redirector time falls on the
date. -/
def sourceDayClick (accepted : List Attempt) (scope : Scope) (date : CalendarDate)
    (install : Attempt) : Option Attempt :=
  accepted.find? (fun c => isClickOf scope install.record.payload.clickId c &&
    c.record.payload.redirectorClickAt.map (·.date) = some date)

/-- The provisional attribution of one install of an anomalous source day. -/
def provisionalAttribution (accepted : List Attempt) (initial : List Attribution)
    (scope : Scope) (date : CalendarDate) (dailySnapshotId : String) (computedAt : Timestamp)
    (install : Attempt) : Option Attribution :=
  match sourceDayClick accepted scope date install,
      priorAttribution initial install.record.payload.installationId with
  | some _, some prior =>
      if prior.reasonCode ≠ .validInstallReferrer then none
      else some { prior with
        attributionId := prior.attributionId ++ ":ctit-clock-provisional:" ++
          String.ofList (dailySnapshotId.toList.take 12)
        decidedAt := computedAt
        inputCutoffAt := computedAt
        finality := .provisional
        supersedesAttributionId := some prior.attributionId }
  | _, _ => none

/-- The last of the texts in their order, as the timestamps they are. -/
def latestComputedAt (aggregates : List SourceDayAggregate) : Option Timestamp :=
  (KeyedSort.sortOn (fun t : Timestamp => codeUnits t.text)
    (aggregates.map (·.computedAt))).getLast?

/-- The snapshot id of a scope's day: the digest of its sorted snapshot
ids. -/
def dailySnapshotId (aggregates : List SourceDayAggregate) : String :=
  sha256 (toJson (KeyedSort.sortOn codeUnits (aggregates.map (·.inputSnapshotId))))

/-- The provisional attributions of one scope's day. -/
def provisionalDay (accepted : List Attempt) (initial : List Attribution)
    (aggregates : List SourceDayAggregate) : Except Failure (List Attribution) :=
  match aggregates, latestComputedAt aggregates with
  | first :: _, some computedAt => do
      let bound ← scopeBundle accepted first.scope
      let installCount := BinaryFloat.total (aggregates.map (·.installs))
      match bound with
      | none => return []
      | some b =>
          if installCount = .finite 0 then return []
          let negativeCount :=
            BinaryFloat.total (aggregates.map (fun a => a.ctitNegativeCount.getD 0))
          if !exceedsNegativeRate negativeCount installCount b.definition then return []
          let installs := accepted.filter (fun a => a.scope = first.scope &&
            a.record.eventName = .install && a.record.payload.clickId.isSome)
          return installs.filterMap (provisionalAttribution accepted initial first.scope
            first.metricDate (dailySnapshotId aggregates) computedAt)
  | _, _ => .ok []

/-- `sourceDays`: the aggregates by scope and date. -/
def sourceDays (aggregates : List SourceDayAggregate) : List (List SourceDayAggregate) :=
  (InsertionMap.group (fun a : SourceDayAggregate => (a.scope, a.metricDate)) aggregates).values

/-- `provisionalClockAttributions`. -/
def provisionalClockAttributions (input : EvaluatorInput) (accepted : List Attempt)
    (initial : List Attribution) : Except Failure (List Attribution) := do
  let days ← PartialList.traverse (provisionalDay accepted initial)
    (sourceDays input.sourceDayAggregates)
  return days.flatten

/-- The click a decision excludes, with the click id it is known by. -/
def excludedClick (accepted : List Attempt) (d : FraudDecision) :
    Option (Identifier × FraudDecision) :=
  if d.action = .exclude ∧ d.subjectScope ≠ .source then
    match accepted.find? (fun a =>
        a.record.recordId.text = d.subjectRef && a.record.eventName = .click) with
    | some click =>
        if truthy click.server.fraudActionsEnabled then
          click.record.payload.clickId.map (fun id => (id, d))
        else none
    | none => none
  else none

/-- `excludedClickIds`: the excluding decision by click id, in any scope. -/
def excludedClickIds (accepted : List Attempt) (decisions : List FraudDecision) :
    InsertionMap Identifier FraudDecision :=
  .ofList (decisions.filterMap (excludedClick accepted))

/-- The decision that excludes the click an install names. -/
def excludingDecision (excluded : InsertionMap Identifier FraudDecision) (a : Attempt) :
    Option FraudDecision :=
  a.record.payload.clickId.bind excluded.get

/-- The accepted installs whose click is excluded. -/
def excludedInstalls (accepted : List Attempt) (excluded : InsertionMap Identifier FraudDecision) :
    List Attempt :=
  accepted.filter (fun a => a.record.eventName = .install && (excludingDecision excluded a).isSome)

/-- `excludedInstallationIds`. -/
def excludedInstallationIds (accepted : List Attempt)
    (excluded : InsertionMap Identifier FraudDecision) : List (Option Identifier) :=
  (excludedInstalls accepted excluded).map (·.record.payload.installationId)

/-- The attribution an excluded click leaves an install with. -/
def fraudAttribution (initial : List Attribution)
    (excluded : InsertionMap Identifier FraudDecision) (a : Attempt) : Option Attribution :=
  match excludingDecision excluded a,
      priorAttribution initial a.record.payload.installationId with
  | some d, some prior => some { prior with
      attributionId := prior.attributionId ++ ":fraud"
      status := .unattributed
      method := .none
      model := .none
      reasonCode := .fraudExcluded
      finality := .final
      fraudDecisionRef := some d.fraudDecisionId
      supersedesAttributionId := some prior.attributionId }
  | _, _ => none

/-- `fraudAttributions`. -/
def fraudAttributions (accepted : List Attempt) (initial : List Attribution)
    (excluded : InsertionMap Identifier FraudDecision) : List Attribution :=
  (excludedInstalls accepted excluded).filterMap (fraudAttribution initial excluded)

end OpenMasu
