import OpenMasu.FraudDeadlines
import OpenMasu.SourceDayIdempotence

/-!
# The calls behind a registration

Registrations, calls of the runtime ingestion and runs of the source-day worker
take turns over the tables of an app.  A call and a run resolve the fraud
bundle of their app anew, read its parameters, and let its rules judge.  So a
registration can stop the app in more than one way: by a second bundle, by a
base layer that cannot be read, by a quarantine whose deadline is no date or
no canonical timestamp, and by a quarantine of a source, which has no deadline
at all.

* `AppCall`, `FraudWorld.ingestCall` — a call for one app, with the bundle it
  resolves;
* `BundleStep`, `FraudWorld.bundleStep` — the steps of a history;
* `lastDefinition`, `lastContext` — what was registered last in an app;
* `FraudWorld.Passes`, `BundleLaw` — the law;
* `FraudWorld.KeepsPassing` — the condition on a step;
* `bundle_law` — a history whose steps meet the condition obeys the law.
-/

namespace OpenMasu

open AppendOnly (StepsMeet invariant_of_steps)

section World

/-- A call of the runtime ingestion for one app, with what it reads beside the
ledger and the bundles. -/
structure AppCall where
  scope : Scope
  attempts : List Attempt
  history : List Attempt := []
  bulkPersistence : Bool := false
  trackingLink : Attempt → Option TrackingLink := fun _ => none
  clickTrackingLink : Attempt → Option Identifier := fun _ => none
  fault : Option Nat := none
  given : attempts ≠ []
  ofScope : ∀ a ∈ attempts, a.scope = scope

/-- The context of a call under a fraud bundle. -/
def AppCall.context (call : AppCall) (active : Option FraudRuleBundleContext) : CallContext where
  activeRevision := active
  trackingLink := call.trackingLink
  fault := call.fault
  clickTrackingLink := call.clickTrackingLink

/-- `ensureApps`, for one app. -/
def FraudWorld.ensureApp (w : FraudWorld) (scope : Scope) : FraudWorld :=
  { w with
    apps := w.apps.insert scope
    distinctApps := w.distinctApps.insert }

variable [Digest] [PayloadSchemas]

/-- `ingestRuntimeBatch`, for attempts of one app: the tables behind the call,
and whether it completed.  The parameters of the bundle are read for every
attempt that does not opt out. -/
def FraudWorld.ingestCall (w : FraudWorld) (call : AppCall) : FraudWorld × Bool :=
  match resolveActiveFraudBundle w.bundles call.scope with
  | .error _ => (w.ensureApp call.scope, false)
  | .ok active =>
      if active.any (·.definition.nullBase) &&
          (call.attempts ++ call.history).any (fun a => a.server.fraudEnabled ≠ some false) then
        (w.ensureApp call.scope, false)
      else
        let result := ingestScope w.ledger (call.context (active.map serverBundleContext))
          call.attempts call.history call.bulkPersistence
        ({ w.ensureApp call.scope with ledger := result.ledger }, result.completed)

end World

section Law

variable [Digest] [PayloadSchemas] (math : SourceDayMath) (db : Database)

/-- A step of a history: a registration, a run of the source-day worker, a call
of the ingestion, or anything that leaves the bundles as they are. -/
inductive BundleStep where
  | activate (a : Activation)
  | aggregate (tenantId : Identifier) (date : CalendarDate) (now : Timestamp)
  | ingest (call : AppCall)
  | write (next : FraudWorld)

/-- The tables behind a step. -/
def FraudWorld.bundleStep (w : FraudWorld) : BundleStep → FraudWorld
  | .activate a => { w with bundles := registerRevision db w.bundles a }
  | .aggregate tenantId date now => w.step math db (.aggregate tenantId date now)
  | .ingest call => (w.ingestCall call).1
  | .write next => { next with bundles := w.bundles }

/-- The definition of a fraud bundle that was registered last in the app. -/
def lastDefinition (rows : List RuleBundleRow) (scope : Scope) : Option BundleDefinition :=
  (lastFraudRevision rows scope).bind (·.definition)

/-- What the ingestion binds of the revision that was registered last. -/
def lastContext (rows : List RuleBundleRow) (scope : Scope) : Option FraudRuleBundleContext :=
  (lastFraudRevision rows scope).bind (fun r => r.definition.map (fun d =>
    serverBundleContext (r.active d)))

/-- The step does not fail for the bundles.  A run of the worker returns, and a
call completes where all it does beside the fraud stage does. -/
def FraudWorld.Passes (w : FraudWorld) : BundleStep → Prop
  | .aggregate tenantId date now =>
      ∃ result, aggregateSourceDay math db w tenantId date now = .ok result
  | .ingest call =>
      CompletesApart w.ledger (call.context (lastContext w.bundles call.scope)) call.attempts
        call.history call.bulkPersistence → (w.ingestCall call).2 = true
  | _ => True

/-- **The law.**  In every state of a history the resolution finds, in every
app, the fraud bundle that was registered last; and no registration makes a
later run of the worker or call of the ingestion fail. -/
structure BundleLaw (w : FraudWorld) (run : List BundleStep) : Prop where
  resolves : ∀ before after, run = before ++ after →
    ∀ scope, ResolvesLast (before.foldl (·.bundleStep math db) w).bundles scope
  passes : ∀ before step after, run = before ++ step :: after →
    (before.foldl (·.bundleStep math db) w).Passes math db step

/-- **The condition on a step.**  A registration keeps the fraud bundle of its
app.  At a run of the worker, the bundle that was registered last quarantines no
source of the day; at a call, its quarantines have deadlines that can be
written, and the records its rules hit are not named as sources are. -/
def FraudWorld.KeepsPassing (w : FraudWorld) : BundleStep → Prop
  | .activate a => KeepsFraudBundle db w.bundles a
  | .aggregate tenantId date _ => ∀ scope ∈ w.appsOf db tenantId,
      ∀ d, lastDefinition w.bundles scope = some d →
        ∀ row ∈ w.ledger.sourceRows math db scope date, ∀ hit,
          evaluateSourceDayWithBundle row.input d.bundle = some hit → hit.action ≠ .quarantine
  | .ingest call => DeadlinesFit w.ledger (call.context (lastContext w.bundles call.scope))
      call.attempts call.history
  | .write _ => True

variable {math db} {w : FraudWorld}

omit [PayloadSchemas] in
/-- The revision that was registered last, under the invariant: the resolution
finds it, and what is bound of it has its own digests. -/
theorem SingleFraudBundle.exists_active {rows : List RuleBundleRow} (h : SingleFraudBundle rows)
    (scope : Scope) : ∃ active, resolveActiveFraudBundle rows scope = .ok active ∧
      lastDefinition rows scope = active.map (·.definition) ∧
      lastContext rows scope = active.map serverBundleContext ∧
      ∀ revision, active = some revision → revision.definition.nullBase = false ∧
        (serverBundleContext revision).IsSound := by
  refine ⟨_, (h.resolvesLast scope).resolves, ?_, ?_, fun revision hrevision => ?_⟩
  · unfold lastDefinition
    cases lastFraudRevision rows scope with
    | none => rfl
    | some r =>
        rw [Option.bind_some, Option.bind_some, Option.map_map]
        cases r.definition with
        | none => rfl
        | some d => rfl
  · unfold lastContext
    cases lastFraudRevision rows scope with
    | none => rfl
    | some r =>
        rw [Option.bind_some, Option.bind_some, Option.map_map]
        rfl
  · obtain ⟨r, hr, hdefinition⟩ := Option.bind_eq_some_iff.mp hrevision
    obtain ⟨d, hd, rfl⟩ := Option.map_eq_some_iff.mp hdefinition
    have hmem := List.mem_of_getLast? hr
    rw [List.mem_filter, Bool.and_eq_true] at hmem
    obtain ⟨hrow, -, hfraud⟩ := hmem
    have hbase := h.readable r hrow hfraud d hd
    obtain ⟨d', hd', -, hhash, -, -, hasserted⟩ := h.registered.valid r hrow hfraud
    obtain rfl : d = d' := Option.some.inj (hd.symm.trans hd')
    -- a definition whose base layer is not null is encoded as its bundle is
    have htext : toJson d = toJson d.bundle := by
      change Json.object [_, _, ("layers", some d.layers), _] = _
      rw [BundleDefinition.layers, hbase]
      rfl
    refine ⟨hbase, ⟨rfl, rfl, ?_, ?_, hasserted⟩⟩
    · exact hhash.trans (congrArg sha256 htext)
    · exact congrArg sha256 htext

omit [PayloadSchemas] in
/-- No step but a registration changes the bundles. -/
theorem bundles_step_aggregate (w : FraudWorld) (tenantId : Identifier) (date : CalendarDate)
    (now : Timestamp) :
    (w.step math db (.aggregate tenantId date now)).bundles = w.bundles := by
  rcases step_aggregate_cases math db w tenantId date now with ⟨w', hpass, hstep⟩ | ⟨-, hstep⟩
  · rw [hstep]
    exact (growsTo_of_pass hpass).bundles
  · rw [hstep]

theorem bundles_ingestCall (w : FraudWorld) (call : AppCall) :
    (w.ingestCall call).1.bundles = w.bundles := by
  unfold FraudWorld.ingestCall
  split
  · rfl
  · split
    · rfl
    · rfl

/-- **Step.**  A step under the condition keeps the registry single, since no
step but a registration changes the bundles. -/
theorem SingleFraudBundle.bundleStep (h : SingleFraudBundle w.bundles) {s : BundleStep}
    (hkeeps : w.KeepsPassing math db s) : SingleFraudBundle (w.bundleStep math db s).bundles := by
  cases s with
  | activate a => exact h.register hkeeps
  | aggregate tenantId date now =>
      rw [FraudWorld.bundleStep, bundles_step_aggregate]
      exact h
  | ingest call =>
      rw [FraudWorld.bundleStep, bundles_ingestCall]
      exact h
  | write next => exact h

/-- A run of the worker returns where no source is quarantined. -/
theorem SingleFraudBundle.aggregate_passes (h : SingleFraudBundle w.bundles)
    {tenantId : Identifier} {date : CalendarDate} {now : Timestamp}
    (hkeeps : w.KeepsPassing math db (.aggregate tenantId date now)) :
    w.Passes math db (.aggregate tenantId date now) := by
  have hturns : ∀ scope ∈ w.appsOf db tenantId, w.TurnPasses math db scope date := by
    intro scope hscope
    obtain ⟨active, hactive, hlast, -, hsound⟩ := h.exists_active scope
    refine ⟨⟨active, hactive⟩, fun revision hrevision hnull => ?_, fun revision hrevision => ?_⟩
    · have hbase := (hsound revision (Except.ok.inj (hactive.symm.trans hrevision))).1
      rw [hnull] at hbase
      cases hbase
    · rw [Except.ok.inj (hactive.symm.trans hrevision), Option.map_some] at hlast
      exact hkeeps scope hscope _ hlast
  obtain ⟨w', hw'⟩ := aggregateApps_ok_iff.mpr hturns
  exact ⟨_, by rw [aggregateSourceDay, hw']; rfl⟩

/-- A call completes where its quarantines can be written. -/
theorem SingleFraudBundle.ingest_passes (h : SingleFraudBundle w.bundles) {call : AppCall}
    (hkeeps : w.KeepsPassing math db (.ingest call)) : w.Passes math db (.ingest call) := by
  intro hapart
  obtain ⟨active, hactive, -, hlast, hsound⟩ := h.exists_active call.scope
  have hbase : active.any (·.definition.nullBase) = false := by
    cases active with
    | none => rfl
    | some revision => exact (hsound revision rfl).1
  change DeadlinesFit _ _ _ _ at hkeeps
  rw [hlast] at hapart hkeeps
  rw [FraudWorld.ingestCall, hactive]
  dsimp only
  rw [hbase, Bool.false_and, if_neg Bool.false_ne_true]
  refine ingestScope_completes (fun c hc => ?_) call.ofScope hkeeps hapart
  obtain ⟨revision, hrevision, rfl⟩ := Option.map_eq_some_iff.mp hc
  exact (hsound revision hrevision).2

/-- **Step.**  Under the condition a step passes: what it reads of the bundle
is what was registered last, and its parameters can be used. -/
theorem SingleFraudBundle.passes (h : SingleFraudBundle w.bundles) {s : BundleStep}
    (hkeeps : w.KeepsPassing math db s) : w.Passes math db s := by
  cases s with
  | activate a => trivial
  | aggregate tenantId date now => exact h.aggregate_passes hkeeps
  | ingest call => exact h.ingest_passes hkeeps
  | write next => trivial

end Law

section Checks

variable [Digest] [PayloadSchemas] (math : SourceDayMath) (db : Database)

/-- Whatever the bundle does to the record, the decision can be written. -/
def Attempt.canQuarantine (a : Attempt) : Bool :=
  match boundFraudBundle a.server with
  | .ok (some b) =>
      !"source:".toList.isPrefixOf a.record.recordId.text.toList &&
        a.record.receivedAt.isCalendar &&
        match deadlineMs a.record.receivedAt b.definition with
        | .finite ms => |ms| ≤ 8640000000000000 &&
            fourDigitYear (civilFromDays (dateMs ms / dayMs)).1
        | _ => false
  | _ => true

/-- A test of a step, enough for the condition. -/
def FraudWorld.checks (w : FraudWorld) : BundleStep → Bool
  | .activate a =>
      (currentFraudRevisions w.bundles a.scope).all (·.ruleBundleId = a.body.ruleBundleId) &&
        a.body.definition.all (!·.nullBase)
  | .aggregate tenantId date _ => (w.appsOf db tenantId).all (fun scope =>
      (lastDefinition w.bundles scope).all (fun d =>
        (w.ledger.sourceRows math db scope date).all (fun row =>
          (evaluateSourceDayWithBundle row.input d.bundle).all (·.action ≠ .quarantine))))
  | .ingest call => (callAccepts w.ledger (call.context (lastContext w.bundles call.scope))
      call.attempts call.history).all (·.canQuarantine)
  | .write _ => true

/-- A test of a history. -/
def FraudWorld.checksAll (w : FraudWorld) : List BundleStep → Bool
  | [] => true
  | s :: rest => w.checks math db s && (w.bundleStep math db s).checksAll rest

variable {math db} {w : FraudWorld}

omit [PayloadSchemas] in
theorem deadline_of_canQuarantine {a : Attempt} (h : a.canQuarantine = true) {b : BoundFraudBundle}
    (hb : boundFraudBundle a.server = .ok (some b)) :
    "source:".toList.isPrefixOf a.record.recordId.text.toList = false ∧
      DeadlineInRange a.record.receivedAt b.definition ∧
      DeadlineInYears a.record.receivedAt b.definition := by
  unfold Attempt.canQuarantine at h
  rw [hb] at h
  dsimp only at h
  cases hms : deadlineMs a.record.receivedAt b.definition with
  | finite ms =>
      rw [hms] at h
      simp only [Bool.and_eq_true, decide_eq_true_eq, Bool.not_eq_true'] at h
      obtain ⟨⟨hname, hcalendar⟩, hrange, hyear⟩ := h
      refine ⟨hname, ⟨hcalendar, ms, hms, hrange⟩, fun ms' hms' => ?_⟩
      rw [hms] at hms'
      cases hms'
      exact hyear
  | _ =>
      rw [hms] at h
      simp at h

theorem keepsPassing_of_checks {s : BundleStep} (h : w.checks math db s = true) :
    w.KeepsPassing math db s := by
  cases s with
  | activate a =>
      rw [FraudWorld.checks, Bool.and_eq_true] at h
      obtain ⟨hnames, hbase⟩ := h
      rw [List.all_eq_true] at hnames
      rw [Option.all_eq_true] at hbase
      intro rows' _ _
      refine ⟨fun r hr => of_decide_eq_true (hnames r hr), fun d hd => ?_⟩
      have hreadable := hbase d hd
      rwa [Bool.not_eq_true'] at hreadable
  | aggregate tenantId date now =>
      intro scope hscope d hd row hrow hit hhit
      rw [FraudWorld.checks, List.all_eq_true] at h
      have hrows := h scope hscope
      rw [hd, Option.all_some, List.all_eq_true] at hrows
      have haction := hrows row hrow
      rw [hhit] at haction
      exact of_decide_eq_true haction
  | ingest call =>
      rw [FraudWorld.checks, List.all_eq_true] at h
      refine ⟨fun a ha b hb _ => ?_, fun a ha _ b hb _ => ?_, fun a ha _ b hb _ => ?_⟩
      · exact (deadline_of_canQuarantine (h a ha) hb).2.1
      · exact (deadline_of_canQuarantine (h a ha) hb).1
      · exact (deadline_of_canQuarantine (h a ha) hb).2.2
  | write next => trivial

theorem stepsMeet_of_checksAll {run : List BundleStep} (h : w.checksAll math db run = true) :
    StepsMeet (·.bundleStep math db) (·.KeepsPassing math db) w run := by
  induction run generalizing w with
  | nil => trivial
  | cons s rest ih =>
      rw [FraudWorld.checksAll, Bool.and_eq_true] at h
      exact ⟨keepsPassing_of_checks h.1, ih h.2⟩

end Checks

section Runs

attribute [local instance] checksumDigest memberSchemas

/-- Rules that quarantine a replayed click. -/
def quarantineRules (version : Identifier) : FraudBundle where
  id := .named "fraud-a"
  version := version
  layers := { base := [] }
  rules := [⟨"transport-replay-v1", ["replay_signal"], .quarantine⟩]

/-- The registration of a version of the rules. -/
def quarantineRegistration (version : Identifier) (revisionId : String)
    (supersedes : Option String) : Activation :=
  { firstRegistration (.named "fraud-a") revisionId with
    body := {
      ruleBundleId := "fraud-a"
      ruleBundleVersion := version.text
      definition := some { bundle := quarantineRules version }
      supersedes := supersedes } }

/-- A call with the replayed click. -/
def replayedCall : AppCall where
  scope := replayedClick.scope
  attempts := [replayedClick]
  given := by simp
  ofScope a ha := by rw [List.mem_singleton.mp ha]

/-- A call with the install that names the click. -/
def referredCall : AppCall where
  scope := referredInstall.scope
  attempts := [referredInstall]
  history := [replayedClick]
  given := by simp
  ofScope a ha := by rw [List.mem_singleton.mp ha]

/-- The rules are registered, a replayed click is quarantined, its day is
aggregated, the rules are registered anew, and the install that names the click
comes. -/
def quarantineRun : List BundleStep := [
  .activate (quarantineRegistration (.named "1") "rule-bundle:1" none),
  .ingest replayedCall,
  .aggregate replayedClick.scope.tenantId ⟨2026, 1, 2⟩ ⟨2026, 1, 3, 1, 0, 0, 0⟩,
  .activate (quarantineRegistration ⟨"2", by decide⟩ "rule-bundle:2" (some "rule-bundle:1")),
  .ingest referredCall]

/-- The tables behind the run. -/
def quarantineRunTables : FraudWorld :=
  quarantineRun.foldl (·.bundleStep noPercentiles plainDatabase) {}

theorem quarantineRun_checks :
    ({} : FraudWorld).checksAll noPercentiles plainDatabase quarantineRun = true ∧
      quarantineRunTables.bundles.length = 2 ∧
      quarantineRunTables.ledger.fraudQuarantines.map (·.subjectRef) = ["click"] ∧
      quarantineRunTables.aggregates.length = 1 ∧
      quarantineRunTables.ledger.installFacts.length = 1 := by
  decide +kernel

end Runs

end OpenMasu
