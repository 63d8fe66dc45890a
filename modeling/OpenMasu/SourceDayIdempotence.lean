import OpenMasu.FraudExclusion
import OpenMasu.SourceDayWorker

/-!
# Repeated source-day runs

Nothing a turn inserts depends on the clock but for the times of the rows: the
aggregates and decisions of a second run bear keys that are taken, and so do
the replacements of the attributions that the first run found.  But a
replacement keeps the reason code it is selected by, and nothing supersedes it
yet: the next run over the same date finds it and replaces it in turn.  Runs
over two dates of one install replace each other's replacements as well.

* `IsClockReplacement`, `ClockReplaces`, `StemsFrom` — the rows the worker
  appended for a date, and what they go back to;
* `Settled`, `pass_of_settled` — where a turn appends nothing;
* `settled_of_pass` — the pass settles its apps;
* `SourceDayLaw`, `MeetsNoReplacement`, `sourceDay_law` — the law, over every
  history whose runs meet no attribution that goes back to a replacement for
  their date;
* `addsTo_attributionStep` — the other workers insert attributions, as the
  steps of a history do.
-/

namespace OpenMasu

open AppendOnly (insertAll insertOnce StepsMeet)
open Relation (ReflTransGen)

section Replacement

variable [Digest]

/-- The id of the attribution that supersedes one of an anomalous date. -/
def clockReplacementId (date : CalendarDate) (priorId : String) : String :=
  "attribution:ctit-provisional:" ++
    String.ofList ((sha256 (.arr [.str priorId, .str date.text])).toList.take 32)

/-- The attribution supersedes another, and bears the id the worker gives the
replacement of that one for the date. -/
def IsClockReplacement (date : CalendarDate) (t : Attribution) : Prop :=
  ∃ priorId, t.supersedesAttributionId = some priorId ∧
    t.attributionId = clockReplacementId date priorId

/-- What the step appends bears the id of a replacement for its date. -/
theorem isClockReplacement_clockProvisional (date : CalendarDate) (now : Timestamp)
    (prior : Attribution) : IsClockReplacement date (clockProvisional date now prior) :=
  ⟨prior.attributionId, rfl, rfl⟩

/-- A row of the table is a clock-anomaly replacement, for whatever date: the
first id is its own, the second that of the attribution it supersedes. -/
def ClockReplaces (rows : List Attribution) (id priorId : String) : Prop :=
  ∃ t ∈ rows, t.attributionId = id ∧ t.supersedesAttributionId = some priorId ∧
    ∃ date, IsClockReplacement date t

/-- One attribution goes back to another through clock-anomaly replacements of
the table: to itself, to what it replaced, to what that one replaced. -/
def StemsFrom (rows : List Attribution) (t r : Attribution) : Prop :=
  ReflTransGen (ClockReplaces rows) t.attributionId r.attributionId

/-- What the clock-anomaly step appends: the replacements of what it finds, on
an anomalous date. -/
def clockReplacements (db : Database) (l : Ledger) (scope : Scope) (date : CalendarDate)
    (negativeCount installCount : BinaryFloat.Number) (bundle : FraudBundle) (now : Timestamp) :
    List Attribution :=
  if installCount = .finite 0 then []
  else if !exceedsNegativeRate negativeCount installCount bundle then []
  else (l.clickAttributions db scope date).map (clockProvisional date now)

/-- The step appends its replacements to the attributions, and changes nothing
else. -/
theorem markClockAnomaly_eq (db : Database) (l : Ledger) (scope : Scope) (date : CalendarDate)
    (negativeCount installCount : BinaryFloat.Number) (bundle : FraudBundle) (now : Timestamp) :
    markClockAnomalyAttributionsProvisional db l scope date negativeCount installCount bundle now =
      { l with
        attributions := insertAll (·.attributionId)
          (clockReplacements db l scope date negativeCount installCount bundle now)
          l.attributions } := by
  unfold markClockAnomalyAttributionsProvisional clockReplacements
  split
  · rfl
  · split
    · rfl
    · rw [insertAll, List.foldl_map]

end Replacement

section Turn

variable [Digest] (math : SourceDayMath) (db : Database)

/-- The aggregates of a turn. -/
def FraudWorld.newAggregates (w : FraudWorld) (scope : Scope) (date : CalendarDate)
    (now : Timestamp) : List StoredAggregate :=
  (w.ledger.sourceRows math db scope date).map (·.stored scope now)

/-- The decisions of a turn. -/
def FraudWorld.newDecisions (w : FraudWorld) (scope : Scope) (date : CalendarDate)
    (now : Timestamp) : List StoredFraud :=
  match resolveActiveFraudBundle w.bundles scope with
  | .ok (some revision) =>
      ((w.ledger.sourceRows math db scope date).filterMap (sourceDecision scope revision now)).filter
        (fun d => d.decision.fraudDecisionId ∉ w.resolutions.map (·.fraudDecisionId))
  | _ => []

/-- The replacements of a turn. -/
def FraudWorld.newReplacements (w : FraudWorld) (scope : Scope) (date : CalendarDate)
    (now : Timestamp) : List Attribution :=
  let rows := w.ledger.sourceRows math db scope date
  match resolveActiveFraudBundle w.bundles scope with
  | .ok (some revision) => clockReplacements db w.ledger scope date
      (BinaryFloat.total (rows.map (·.ctitNegativeCount)))
      (BinaryFloat.total (rows.map (·.installs))) revision.definition.bundle now
  | _ => []

/-- The tables with the rows of a turn. -/
def FraudWorld.appendTurn (w : FraudWorld) (scope : Scope) (date : CalendarDate)
    (now : Timestamp) : FraudWorld :=
  { w with
    aggregates := insertAll StoredAggregate.key (w.newAggregates math db scope date now) w.aggregates
    ledger := { w.ledger with
      fraudDecisions := insertAll (·.decision.fraudDecisionId)
        (w.newDecisions math db scope date now) w.ledger.fraudDecisions
      attributions := insertAll (·.attributionId) (w.newReplacements math db scope date now)
        w.ledger.attributions } }

variable {math db}

open PartialList (bind_eq_ok pure_eq_ok)

/-- A turn that does not throw appends its rows. -/
theorem aggregateApp_eq_ok {w w' : FraudWorld} {scope : Scope} {date : CalendarDate}
    {now : Timestamp} (h : aggregateApp math db w scope date now = .ok w') :
    w' = w.appendTurn math db scope date now := by
  unfold FraudWorld.appendTurn FraudWorld.newAggregates FraudWorld.newDecisions
    FraudWorld.newReplacements
  rw [aggregateApp, bind_eq_ok] at h
  obtain ⟨active, hactive, h⟩ := h
  rw [hactive]
  cases active with
  | none =>
      obtain rfl := pure_eq_ok.mp h
      rfl
  | some revision =>
      simp only [bind_eq_ok, refuse_eq_ok, pure_eq_ok] at h
      obtain ⟨-, -, -, -, rfl⟩ := h
      rw [markClockAnomaly_eq]
      rfl

variable (math db) in
/-- The turn of an app does not throw. -/
structure FraudWorld.TurnPasses (w : FraudWorld) (scope : Scope) (date : CalendarDate) : Prop where
  resolves : ∃ active, resolveActiveFraudBundle w.bundles scope = .ok active
  readable : ∀ revision, resolveActiveFraudBundle w.bundles scope = .ok (some revision) →
    revision.definition.nullBase = true → w.ledger.sourceRows math db scope date = []
  flags : ∀ revision, resolveActiveFraudBundle w.bundles scope = .ok (some revision) →
    ∀ row ∈ w.ledger.sourceRows math db scope date, ∀ hit,
      evaluateSourceDayWithBundle row.input revision.definition.bundle = some hit →
        hit.action ≠ .quarantine

/-- No decision about some rows asks for a quarantine. -/
theorem no_quarantine_iff {scope : Scope} {revision : ActiveFraudBundleRevision} {now : Timestamp}
    {rows : List SourceAggregate} :
    (rows.filterMap (sourceDecision scope revision now)).any
        (fun d => d.decision.action = .quarantine) = false ↔
      ∀ row ∈ rows, ∀ hit, evaluateSourceDayWithBundle row.input revision.definition.bundle =
        some hit → hit.action ≠ .quarantine := by
  rw [List.any_eq_false]
  constructor
  · intro h row hrow hit hhit hquarantine
    refine h (hitDecision scope revision now row hit) (List.mem_filterMap.mpr ⟨row, hrow, ?_⟩) ?_
    · rw [sourceDecision, hhit]
      rfl
    · exact decide_eq_true hquarantine
  · intro h d hd hquarantine
    obtain ⟨row, hrow, hdecision⟩ := List.mem_filterMap.mp hd
    obtain ⟨hit, hhit, rfl⟩ := Option.map_eq_some_iff.mp hdecision
    exact h row hrow hit hhit (of_decide_eq_true hquarantine)

/-- Whether a turn throws does not depend on the clock. -/
theorem aggregateApp_ok_iff {w : FraudWorld} {scope : Scope} {date : CalendarDate}
    {now : Timestamp} :
    (∃ w', aggregateApp math db w scope date now = .ok w') ↔ w.TurnPasses math db scope date := by
  rw [aggregateApp]
  simp only [bind_eq_ok]
  constructor
  · rintro ⟨w', active, hactive, hrest⟩
    refine ⟨⟨active, hactive⟩, fun revision hrevision hnull => ?_, fun revision hrevision => ?_⟩
    · cases Except.ok.inj (hactive.symm.trans hrevision)
      simp only [bind_eq_ok, refuse_eq_ok] at hrest
      obtain ⟨-, hreadable, -⟩ := hrest
      rw [hnull, Bool.true_and, Bool.not_eq_false'] at hreadable
      exact List.isEmpty_iff.mp hreadable
    · cases Except.ok.inj (hactive.symm.trans hrevision)
      simp only [bind_eq_ok, refuse_eq_ok] at hrest
      obtain ⟨-, -, -, hquarantine, -⟩ := hrest
      exact no_quarantine_iff.mp hquarantine
  · rintro ⟨⟨active, hactive⟩, hreadable, hflags⟩
    cases active with
    | none => exact ⟨_, none, hactive, rfl⟩
    | some revision =>
        refine ⟨_, some revision, hactive, bind_eq_ok.mpr ⟨(), refuse_eq_ok.mpr ?_,
          bind_eq_ok.mpr ⟨(), refuse_eq_ok.mpr (no_quarantine_iff.mpr (hflags revision hactive)),
            rfl⟩⟩⟩
        cases hnull : revision.definition.nullBase with
        | false => rfl
        | true =>
            rw [hreadable revision hactive hnull]
            rfl

end Turn

section Growth

variable [Digest] {math : SourceDayMath} {db : Database} {w w' w'' : FraudWorld}
  {date : CalendarDate}

/-- The passes change neither the facts nor the bundles. -/
structure SameFacts (w w' : FraudWorld) : Prop where
  apps : w'.apps = w.apps
  bundles : w'.bundles = w.bundles
  resolutions : w'.resolutions = w.resolutions
  events : w'.ledger.logicalEvents = w.ledger.logicalEvents
  installs : w'.ledger.installFacts = w.ledger.installFacts

/-- The tables grow, the attributions by replacements for the date. -/
structure GrowsTo (date : CalendarDate) (w w' : FraudWorld) : Prop extends SameFacts w w' where
  aggregates : ∀ r ∈ w.aggregates, r ∈ w'.aggregates
  decisions : ∀ d ∈ w.ledger.fraudDecisions, d ∈ w'.ledger.fraudDecisions
  attributions : ∀ t ∈ w.ledger.attributions, t ∈ w'.ledger.attributions
  replaced : ∀ t ∈ w'.ledger.attributions, t ∈ w.ledger.attributions ∨ IsClockReplacement date t

/-- The tables grow to themselves. -/
theorem GrowsTo.refl (date : CalendarDate) (w : FraudWorld) : GrowsTo date w w where
  apps := rfl
  bundles := rfl
  resolutions := rfl
  events := rfl
  installs := rfl
  aggregates _ h := h
  decisions _ h := h
  attributions _ h := h
  replaced _ h := .inl h

/-- They grow on, over the same date. -/
theorem GrowsTo.trans (h : GrowsTo date w w') (h' : GrowsTo date w' w'') : GrowsTo date w w'' where
  apps := h'.apps.trans h.apps
  bundles := h'.bundles.trans h.bundles
  resolutions := h'.resolutions.trans h.resolutions
  events := h'.events.trans h.events
  installs := h'.installs.trans h.installs
  aggregates r hr := h'.aggregates r (h.aggregates r hr)
  decisions d hd := h'.decisions d (h.decisions d hd)
  attributions t ht := h'.attributions t (h.attributions t ht)
  replaced t ht := by
    rcases h'.replaced t ht with ht | ht
    · exact h.replaced t ht
    · exact .inr ht

omit [Digest] in
/-- The query reads the facts. -/
theorem SameFacts.sourceRows (h : SameFacts w w') (scope : Scope) :
    w'.ledger.sourceRows math db scope date = w.ledger.sourceRows math db scope date := by
  obtain ⟨_, _, _, hevents, hinstalls⟩ := h
  cases w with
  | mk apps distinct bundles ledger aggregates resolutions =>
      cases w' with
      | mk apps' distinct' bundles' ledger' aggregates' resolutions' =>
          cases ledger
          cases ledger'
          dsimp only at hevents hinstalls
          subst hevents hinstalls
          rfl

omit [Digest] in
/-- What the clock-anomaly step finds: the attributions of the app with the
reason code, of an install that was clicked on the date, that nothing
supersedes. -/
theorem mem_clickAttributions {l : Ledger} {scope : Scope} {t : Attribution} :
    t ∈ l.clickAttributions db scope date ↔ t ∈ l.attributions ∧ t.scope = scope ∧
      t.reasonCode = .validInstallReferrer ∧
      (l.installFacts.any (fun f => f.scope = scope && t.subjectRef = some f.installationId.text &&
        l.isClickedOn date f)) = true ∧ l.isSuperseded t = false := by
  rw [Ledger.clickAttributions, List.mem_mergeSort, List.mem_filter]
  simp only [Bool.and_eq_true, decide_eq_true_iff, Bool.not_eq_true', and_assoc]

omit [Digest] in
/-- An attribution that is found among more of them is found among fewer, if
it is one. -/
theorem SameFacts.clickAttributions (h : SameFacts w w')
    (hsub : ∀ t ∈ w.ledger.attributions, t ∈ w'.ledger.attributions) {scope : Scope}
    {t : Attribution} (ht : t ∈ w'.ledger.clickAttributions db scope date)
    (hold : t ∈ w.ledger.attributions) : t ∈ w.ledger.clickAttributions db scope date := by
  obtain ⟨-, hscope, hreason, hinstall, hcurrent⟩ := mem_clickAttributions.mp ht
  refine mem_clickAttributions.mpr ⟨hold, hscope, hreason, ?_, ?_⟩
  · unfold Ledger.isClickedOn at hinstall ⊢
    rw [h.installs, h.events] at hinstall
    exact hinstall
  · rw [Ledger.isSuperseded, List.any_eq_false] at hcurrent ⊢
    exact fun s hs => hcurrent s (hsub s hs)

variable (math db) in
/-- The app's day is anomalous by its active bundle. -/
def FraudWorld.IsAnomalous (w : FraudWorld) (scope : Scope) (date : CalendarDate) : Prop :=
  let rows := w.ledger.sourceRows math db scope date
  ∃ revision, resolveActiveFraudBundle w.bundles scope = .ok (some revision) ∧
    BinaryFloat.total (rows.map (·.installs)) ≠ .finite 0 ∧
    exceedsNegativeRate (BinaryFloat.total (rows.map (·.ctitNegativeCount)))
      (BinaryFloat.total (rows.map (·.installs))) revision.definition.bundle = true

/-- Whether a day is anomalous depends on the facts and the bundles alone. -/
theorem SameFacts.isAnomalous (h : SameFacts w w') {scope : Scope}
    (hw : w'.IsAnomalous math db scope date) : w.IsAnomalous math db scope date := by
  unfold FraudWorld.IsAnomalous at hw ⊢
  rw [h.sourceRows, h.bundles] at hw
  exact hw

/-- A turn replaces what it finds on an anomalous day. -/
theorem mem_newReplacements {scope : Scope} {now : Timestamp} {t : Attribution} :
    t ∈ w.newReplacements math db scope date now ↔ w.IsAnomalous math db scope date ∧
      ∃ prior ∈ w.ledger.clickAttributions db scope date, t = clockProvisional date now prior := by
  unfold FraudWorld.newReplacements FraudWorld.IsAnomalous
  dsimp only
  split
  · rename_i revision hrevision
    unfold clockReplacements
    split
    · rename_i hzero
      exact ⟨nofun, fun h => absurd hzero h.1.choose_spec.2.1⟩
    · rename_i hinstalls
      split
      · rename_i hrate
        refine ⟨nofun, ?_⟩
        rintro ⟨⟨revision', hrevision', -, hexceeds⟩, -⟩
        cases hrevision.symm.trans hrevision'
        rw [hexceeds] at hrate
        cases hrate
      · rename_i hrate
        rw [List.mem_map]
        constructor
        · rintro ⟨prior, hprior, rfl⟩
          rw [Bool.not_eq_true', Bool.not_eq_false] at hrate
          exact ⟨⟨revision, hrevision, hinstalls, hrate⟩, prior, hprior, rfl⟩
        · rintro ⟨-, prior, hprior, rfl⟩
          exact ⟨prior, hprior, rfl⟩
  · rename_i hnone
    exact ⟨nofun, fun h => absurd h.1.choose_spec.1 (hnone _)⟩

variable (math db) in
/-- A turn lets the tables grow. -/
theorem growsTo_appendTurn (w : FraudWorld) (scope : Scope) (date : CalendarDate)
    (now : Timestamp) : GrowsTo date w (w.appendTurn math db scope date now) where
  apps := rfl
  bundles := rfl
  resolutions := rfl
  events := rfl
  installs := rfl
  aggregates _ h := AppendOnly.mem_insertAll_of_mem h
  decisions _ h := AppendOnly.mem_insertAll_of_mem h
  attributions _ h := AppendOnly.mem_insertAll_of_mem h
  replaced t ht := by
    rcases AppendOnly.mem_insertAll ht with ht | ⟨ht, -⟩
    · exact .inl ht
    · obtain ⟨-, prior, -, rfl⟩ := mem_newReplacements.mp ht
      exact .inr (isClockReplacement_clockProvisional date now prior)

end Growth

section Passes

variable [Digest] {math : SourceDayMath} {db : Database} {w w' : FraudWorld} {date : CalendarDate}

/-- So does whether a turn throws. -/
theorem SameFacts.turnPasses (h : SameFacts w w') {scope : Scope} :
    w'.TurnPasses math db scope date ↔ w.TurnPasses math db scope date := by
  constructor
  · rintro ⟨hresolves, hreadable, hflags⟩
    rw [h.bundles] at hresolves
    rw [h.bundles, h.sourceRows] at hreadable hflags
    exact ⟨hresolves, hreadable, hflags⟩
  · rintro ⟨hresolves, hreadable, hflags⟩
    rw [← h.bundles] at hresolves
    rw [← h.bundles, ← h.sourceRows] at hreadable hflags
    exact ⟨hresolves, hreadable, hflags⟩

/-- The turns of a pass, one after another. -/
theorem aggregateApps_cons_ok {scope : Scope} {rest : List Scope} {now : Timestamp} :
    aggregateApps math db date now (scope :: rest) w = .ok w' ↔
      (∃ w₁, aggregateApp math db w scope date now = .ok w₁) ∧
        aggregateApps math db date now rest (w.appendTurn math db scope date now) = .ok w' := by
  rw [aggregateApps, PartialList.bind_eq_ok]
  constructor
  · rintro ⟨w₁, hfirst, hrest⟩
    rw [aggregateApp_eq_ok hfirst] at hrest
    exact ⟨⟨w₁, hfirst⟩, hrest⟩
  · rintro ⟨⟨w₁, hfirst⟩, hrest⟩
    rw [← aggregateApp_eq_ok hfirst] at hrest
    exact ⟨w₁, hfirst, hrest⟩

/-- Whether a pass throws does not depend on the clock. -/
theorem aggregateApps_ok_iff {apps : List Scope} {now : Timestamp} :
    (∃ w', aggregateApps math db date now apps w = .ok w') ↔
      ∀ scope ∈ apps, w.TurnPasses math db scope date := by
  induction apps generalizing w with
  | nil => exact ⟨fun _ => nofun, fun _ => ⟨w, rfl⟩⟩
  | cons scope rest ih =>
      have hsame := (growsTo_appendTurn math db w scope date now).toSameFacts
      rw [List.forall_mem_cons]
      constructor
      · rintro ⟨w', h⟩
        obtain ⟨hfirst, hrest⟩ := aggregateApps_cons_ok.mp h
        refine ⟨aggregateApp_ok_iff.mp hfirst, fun s hs => ?_⟩
        exact hsame.turnPasses.mp (ih.mp ⟨w', hrest⟩ s hs)
      · rintro ⟨hfirst, hrest⟩
        obtain ⟨w', h⟩ := ih.mpr fun s hs => hsame.turnPasses.mpr (hrest s hs)
        exact ⟨w', aggregateApps_cons_ok.mpr ⟨aggregateApp_ok_iff.mpr hfirst, h⟩⟩

/-- A pass lets the tables grow, turn by turn. -/
theorem growsTo_of_pass {apps : List Scope} {now : Timestamp}
    (h : aggregateApps math db date now apps w = .ok w') : GrowsTo date w w' := by
  induction apps generalizing w with
  | nil =>
      obtain rfl := Except.ok.inj h
      exact GrowsTo.refl date w
  | cons scope rest ih =>
      obtain ⟨-, hrest⟩ := aggregateApps_cons_ok.mp h
      exact (growsTo_appendTurn math db w scope date now).trans (ih hrest)

/-- The turn of each app of a pass. -/
theorem exists_turn {apps : List Scope} {now : Timestamp}
    (h : aggregateApps math db date now apps w = .ok w') {scope : Scope} (hscope : scope ∈ apps) :
    ∃ w₁, GrowsTo date w w₁ ∧ GrowsTo date (w₁.appendTurn math db scope date now) w' := by
  induction apps generalizing w with
  | nil => cases hscope
  | cons first rest ih =>
      obtain ⟨-, hrest⟩ := aggregateApps_cons_ok.mp h
      rcases List.mem_cons.mp hscope with rfl | hscope
      · exact ⟨w, GrowsTo.refl date w, growsTo_of_pass hrest⟩
      · obtain ⟨w₁, hbefore, hafter⟩ := ih hrest hscope
        exact ⟨w₁, (growsTo_appendTurn math db w first date now).trans hbefore, hafter⟩

variable (math db) in
/-- The keys of all the rows of a turn are taken. -/
structure Settled (w : FraudWorld) (scope : Scope) (date : CalendarDate) : Prop where
  aggregates : ∀ now, ∀ r ∈ w.newAggregates math db scope date now,
    r.key ∈ w.aggregates.map StoredAggregate.key
  decisions : ∀ now, ∀ d ∈ w.newDecisions math db scope date now,
    d.decision.fraudDecisionId ∈ w.ledger.fraudDecisions.map (·.decision.fraudDecisionId)
  replacements : ∀ now, ∀ t ∈ w.newReplacements math db scope date now,
    t.attributionId ∈ w.ledger.attributions.map (·.attributionId)

/-- The turn of a settled app changes nothing. -/
theorem Settled.appendTurn_eq {scope : Scope} (h : Settled math db w scope date)
    (now : Timestamp) : w.appendTurn math db scope date now = w := by
  unfold FraudWorld.appendTurn
  rw [AppendOnly.insertAll_of_taken (h.aggregates now),
    AppendOnly.insertAll_of_taken (h.decisions now),
    AppendOnly.insertAll_of_taken (h.replacements now)]

/-- A pass over apps that are settled changes nothing. -/
theorem pass_of_settled {apps : List Scope} {now : Timestamp}
    (hsettled : ∀ scope ∈ apps, Settled math db w scope date)
    (h : aggregateApps math db date now apps w = .ok w') : w' = w := by
  induction apps with
  | nil => exact (Except.ok.inj h).symm
  | cons scope rest ih =>
      obtain ⟨-, hrest⟩ := aggregateApps_cons_ok.mp h
      rw [(hsettled scope List.mem_cons_self).appendTurn_eq now] at hrest
      exact ih (fun s hs => hsettled s (List.mem_cons_of_mem _ hs)) hrest

end Passes

section Law

variable [Digest] (math : SourceDayMath) (db : Database)

/-- A step of a history: a run of the worker, or anything that inserts
attributions and changes the other tables. -/
inductive FraudStep where
  | aggregate (tenantId : Identifier) (date : CalendarDate) (now : Timestamp)
  | write (next : FraudWorld) (rows : List Attribution)

/-- The tables behind a step; a run that throws leaves them. -/
def FraudWorld.step (w : FraudWorld) : FraudStep → FraudWorld
  | .aggregate tenantId date now =>
      match aggregateSourceDay math db w tenantId date now with
      | .ok (w', _) => w'
      | .error _ => w
  | .write next rows => { next with ledger := { next.ledger with
      attributions := insertAll (·.attributionId) rows w.ledger.attributions } }

/-- The replacements a run of the worker appends, with its date. -/
def FraudWorld.replaced (w : FraudWorld) : FraudStep → List (CalendarDate × Attribution)
  | .aggregate tenantId date now =>
      ((w.step math db (.aggregate tenantId date now)).ledger.attributions.drop
        w.ledger.attributions.length).map (fun t => (date, t))
  | .write _ _ => []

/-- The replacements of a history. -/
def FraudWorld.history (w : FraudWorld) : List FraudStep → List (CalendarDate × Attribution)
  | [] => []
  | s :: rest => w.replaced math db s ++ (w.step math db s).history rest

/-- The tables a run of the worker appends to are the same. -/
structure SameTables (w w' : FraudWorld) : Prop where
  attributions : w'.ledger.attributions = w.ledger.attributions
  aggregates : w'.aggregates = w.aggregates
  decisions : w'.ledger.fraudDecisions = w.ledger.fraudDecisions

/-- A replacement of the history superseded an attribution: the first id is its
own, the second that of the attribution. -/
def LogReplaces (log : List (CalendarDate × Attribution)) (id priorId : String) : Prop :=
  ∃ e ∈ log, e.2.attributionId = id ∧ e.2.supersedesAttributionId = some priorId

/-- Two replacements of a history go back, through replacements of it, to one
attribution: both were applied to the same original. -/
def ShareOriginal (log : List (CalendarDate × Attribution)) (e e' : CalendarDate × Attribution) :
    Prop :=
  ∃ original, ReflTransGen (LogReplaces log) e.2.attributionId original ∧
    ReflTransGen (LogReplaces log) e'.2.attributionId original

/-- **The law.**  Several runs over a date, with nothing in between, append no
row behind the first of them.  And throughout a history the supersession is
applied at most once for an original attribution and a date: no two
replacements for one date go back to one attribution, however many
replacements, for whatever dates, lie between. -/
structure SourceDayLaw (w : FraudWorld) (run : List FraudStep) : Prop where
  idempotent : ∀ before tenantId date now (later : List Timestamp) rest,
    run = before ++ .aggregate tenantId date now ::
      (later.map (FraudStep.aggregate tenantId date) ++ rest) →
    SameTables ((before ++ [.aggregate tenantId date now]).foldl (·.step math db) w)
      ((before ++ .aggregate tenantId date now ::
        later.map (FraudStep.aggregate tenantId date)).foldl (·.step math db) w)
  once : (w.history math db run).Pairwise
    fun e e' => e.1 = e'.1 → ¬ ShareOriginal (w.history math db run) e e'

/-- **The condition on a step.**  Where the day of an app is anomalous before a
run over it, no attribution of the app that counts for the date (it has the
reason code `valid_install_referrer`, nothing supersedes it, and its install was
clicked on the date) goes back to a clock-anomaly replacement for that date. -/
def MeetsNoReplacement (w : FraudWorld) : FraudStep → Prop
  | .aggregate tenantId date _ => ∀ scope ∈ w.appsOf db tenantId,
      w.IsAnomalous math db scope date →
        ∀ t ∈ w.ledger.attributions, t.scope = scope → t.reasonCode = .validInstallReferrer →
          (∃ f ∈ w.ledger.installFacts, f.scope = scope ∧
            t.subjectRef = some f.installationId.text ∧ w.ledger.isClickedOn date f = true) →
          (∀ s ∈ w.ledger.attributions, s.scope = t.scope →
            s.supersedesAttributionId ≠ some t.attributionId) →
          ∀ r ∈ w.ledger.attributions, IsClockReplacement date r →
            ¬ StemsFrom w.ledger.attributions t r
  | .write _ _ => True

variable {math db} {w w' : FraudWorld} {date : CalendarDate}

omit [Digest] in
/-- What the clock-anomaly step finds is superseded by no row of its scope. -/
theorem current_of_mem_clickAttributions {l : Ledger} {scope : Scope} {t : Attribution}
    (h : t ∈ l.clickAttributions db scope date) :
    ∀ s ∈ l.attributions, s.scope = t.scope → s.supersedesAttributionId ≠ some t.attributionId := by
  obtain ⟨-, -, -, -, hcurrent⟩ := mem_clickAttributions.mp h
  intro s hs hscope hsupersedes
  rw [Ledger.isSuperseded, List.any_eq_false] at hcurrent
  refine hcurrent s hs ?_
  rw [Bool.and_eq_true, decide_eq_true_iff, decide_eq_true_iff]
  exact ⟨hscope, hsupersedes⟩

/-- Under the condition, what the step finds on an anomalous day goes back to no
replacement for it. -/
theorem MeetsNoReplacement.stems {tenantId : Identifier} {now : Timestamp}
    (h : MeetsNoReplacement math db w (.aggregate tenantId date now)) {scope : Scope}
    (hscope : scope ∈ w.appsOf db tenantId) (hanomalous : w.IsAnomalous math db scope date)
    {t : Attribution} (ht : t ∈ w.ledger.clickAttributions db scope date) :
    ∀ r ∈ w.ledger.attributions, IsClockReplacement date r →
      ¬ StemsFrom w.ledger.attributions t r := by
  obtain ⟨hmem, htScope, hreason, hinstall, -⟩ := mem_clickAttributions.mp ht
  obtain ⟨f, hf, hfact⟩ := List.any_eq_true.mp hinstall
  simp only [Bool.and_eq_true, decide_eq_true_iff] at hfact
  obtain ⟨⟨hfScope, href⟩, hclicked⟩ := hfact
  exact h scope hscope hanomalous t hmem htScope hreason ⟨f, hf, hfScope, href, hclicked⟩
    (current_of_mem_clickAttributions ht)

/-- So none of what it finds is itself such a replacement. -/
theorem MeetsNoReplacement.finds {tenantId : Identifier} {now : Timestamp}
    (h : MeetsNoReplacement math db w (.aggregate tenantId date now)) {scope : Scope}
    (hscope : scope ∈ w.appsOf db tenantId) (hanomalous : w.IsAnomalous math db scope date) :
    ∀ t ∈ w.ledger.clickAttributions db scope date, ¬ IsClockReplacement date t :=
  fun t ht hreplacement =>
    h.stems hscope hanomalous ht t (mem_clickAttributions.mp ht).1 hreplacement .refl

omit [Digest] in
/-- An app has one turn in a pass. -/
theorem nodup_appsOf (w : FraudWorld) (tenantId : Identifier) : (w.appsOf db tenantId).Nodup :=
  (List.perm_insertionSort _ _).nodup_iff.mpr (w.distinctApps.filter _)

variable (db) in
omit [Digest] in
/-- Which apps have a turn depends on the registered apps alone. -/
theorem SameFacts.appsOf (h : SameFacts w w') (tenantId : Identifier) :
    w'.appsOf db tenantId = w.appsOf db tenantId := by
  unfold FraudWorld.appsOf
  rw [h.apps]

variable (math db) in
/-- A run of the worker is a pass over the apps of its tenant, or throws. -/
theorem step_aggregate_cases (w : FraudWorld) (tenantId : Identifier) (date : CalendarDate)
    (now : Timestamp) :
    (∃ w', aggregateApps math db date now (w.appsOf db tenantId) w = .ok w' ∧
      w.step math db (.aggregate tenantId date now) = w') ∨
    ((¬ ∃ w', aggregateApps math db date now (w.appsOf db tenantId) w = .ok w') ∧
      w.step math db (.aggregate tenantId date now) = w) := by
  unfold FraudWorld.step aggregateSourceDay
  dsimp only
  cases aggregateApps math db date now (w.appsOf db tenantId) w with
  | ok w' => exact .inl ⟨w', rfl, rfl⟩
  | error e => exact .inr ⟨nofun, rfl⟩

/-- The ids of a turn's decisions do not depend on the clock. -/
theorem exists_newDecision {scope : Scope} {now' : Timestamp} (now : Timestamp) {d : StoredFraud}
    (h : d ∈ w.newDecisions math db scope date now') :
    ∃ d' ∈ w.newDecisions math db scope date now,
      d'.decision.fraudDecisionId = d.decision.fraudDecisionId := by
  unfold FraudWorld.newDecisions at h ⊢
  split at h
  · rename_i revision hrevision
    obtain ⟨hd, hfree⟩ := List.mem_filter.mp h
    obtain ⟨row, hrow, hdecision⟩ := List.mem_filterMap.mp hd
    obtain ⟨hit, hhit, rfl⟩ := Option.map_eq_some_iff.mp hdecision
    refine ⟨hitDecision scope revision now row hit, List.mem_filter.mpr ⟨?_, hfree⟩, rfl⟩
    refine List.mem_filterMap.mpr ⟨row, hrow, ?_⟩
    rw [sourceDecision, hhit]
    rfl
  · cases h

/-- The decisions of a turn depend on the facts, the bundles and the
resolutions alone. -/
theorem SameFacts.newDecisions (h : SameFacts w w') (scope : Scope) (now : Timestamp) :
    w'.newDecisions math db scope date now = w.newDecisions math db scope date now := by
  unfold FraudWorld.newDecisions
  rw [h.bundles, h.sourceRows, h.resolutions]

/-- **Settling.**  Behind a pass whose apps find no replacement of the date,
the keys of a further turn of each app are taken: what it finds is what the
pass found, and has been replaced. -/
theorem settled_of_pass {apps : List Scope} {now : Timestamp}
    (h : aggregateApps math db date now apps w = .ok w') {scope : Scope} (hscope : scope ∈ apps)
    (hnew : w'.IsAnomalous math db scope date →
      ∀ t ∈ w'.ledger.clickAttributions db scope date, ¬ IsClockReplacement date t) :
    Settled math db w' scope date := by
  obtain ⟨w₁, hbefore, hafter⟩ := exists_turn h hscope
  have hturn := growsTo_appendTurn math db w₁ scope date now
  have hgrows : GrowsTo date w₁ w' := hturn.trans hafter
  refine ⟨fun now' r hr => ?_, fun now' d hd => ?_, fun now' t ht => ?_⟩
  · unfold FraudWorld.newAggregates at hr
    rw [hgrows.toSameFacts.sourceRows] at hr
    obtain ⟨row, hrow, rfl⟩ := List.mem_map.mp hr
    have hnewRow : row.stored scope now ∈ w₁.newAggregates math db scope date now :=
      List.mem_map_of_mem hrow
    obtain ⟨r, hr, hkey⟩ := List.mem_map.mp
      (AppendOnly.key_mem_insertAll StoredAggregate.key w₁.aggregates hnewRow)
    exact List.mem_map.mpr ⟨r, hafter.aggregates r hr, hkey⟩
  · rw [hgrows.toSameFacts.newDecisions] at hd
    obtain ⟨d', hd', hid⟩ := exists_newDecision now hd
    obtain ⟨s, hs, hkey⟩ := List.mem_map.mp (AppendOnly.key_mem_insertAll
      (·.decision.fraudDecisionId) w₁.ledger.fraudDecisions hd')
    exact List.mem_map.mpr ⟨s, hafter.decisions s hs, hkey.trans hid⟩
  · obtain ⟨hanomalous, prior, hprior, rfl⟩ := mem_newReplacements.mp ht
    have hmem := (mem_clickAttributions.mp hprior).1
    rcases hbefore.trans hgrows |>.replaced prior hmem with hold | hreplacement
    · have hfound : prior ∈ w₁.ledger.clickAttributions db scope date :=
        hgrows.toSameFacts.clickAttributions hgrows.attributions hprior
          (hbefore.attributions prior hold)
      have hnewRow : clockProvisional date now prior ∈ w₁.newReplacements math db scope date now :=
        mem_newReplacements.mpr ⟨hgrows.toSameFacts.isAnomalous hanomalous, prior, hfound, rfl⟩
      obtain ⟨s, hs, hkey⟩ := List.mem_map.mp (AppendOnly.key_mem_insertAll
        (·.attributionId) w₁.ledger.attributions hnewRow)
      exact List.mem_map.mpr ⟨s, hafter.attributions s hs, hkey⟩
    · exact absurd hreplacement (hnew hanomalous prior hprior)

/-- **Repetition.**  A further run over the date of the last changes
nothing. -/
theorem step_aggregate_again (w : FraudWorld) (tenantId : Identifier) (date : CalendarDate)
    (now now' : Timestamp)
    (hnew : MeetsNoReplacement math db (w.step math db (.aggregate tenantId date now))
      (.aggregate tenantId date now')) :
    (w.step math db (.aggregate tenantId date now)).step math db (.aggregate tenantId date now') =
      w.step math db (.aggregate tenantId date now) := by
  rcases step_aggregate_cases math db w tenantId date now with ⟨w', hpass, hstep⟩ | ⟨hthrows, hstep⟩
  · rw [hstep] at hnew ⊢
    rcases step_aggregate_cases math db w' tenantId date now' with ⟨w'', hagain, hstep'⟩ | ⟨-, hstep'⟩
    · rw [hstep']
      refine pass_of_settled (fun scope hscope => ?_) hagain
      have happs := (growsTo_of_pass hpass).toSameFacts.appsOf db tenantId
      exact settled_of_pass hpass (happs ▸ hscope) (hnew.finds hscope)
    · exact hstep'
  · rw [hstep]
    rcases step_aggregate_cases math db w tenantId date now' with ⟨w'', hagain, -⟩ | ⟨-, hstep'⟩
    · exact absurd (aggregateApps_ok_iff.mpr (aggregateApps_ok_iff.mp ⟨w'', hagain⟩)) hthrows
    · exact hstep'

/-- Any number of further runs change nothing. -/
theorem steps_aggregate_again (w : FraudWorld) (tenantId : Identifier) (date : CalendarDate)
    (now : Timestamp) (later : List Timestamp)
    (hmeet : StepsMeet (·.step math db) (MeetsNoReplacement math db)
      (w.step math db (.aggregate tenantId date now))
      (later.map (FraudStep.aggregate tenantId date))) :
    (later.map (FraudStep.aggregate tenantId date)).foldl (·.step math db)
        (w.step math db (.aggregate tenantId date now)) =
      w.step math db (.aggregate tenantId date now) := by
  induction later with
  | nil => rfl
  | cons now' later ih =>
      obtain ⟨hnew, hrest⟩ := hmeet
      have hsame := step_aggregate_again w tenantId date now now' hnew
      rw [List.map_cons, List.foldl_cons, hsame]
      exact ih (hsame ▸ hrest)

/-- What a pass appends: replacements, under free ids, of attributions found
before it. -/
theorem pass_appends {apps : List Scope} (happs : apps.Nodup) {now : Timestamp}
    (h : aggregateApps math db date now apps w = .ok w') :
    ∃ added, w'.ledger.attributions = w.ledger.attributions ++ added ∧ ∀ t ∈ added,
      t.attributionId ∉ w.ledger.attributions.map (·.attributionId) ∧
      ∃ scope ∈ apps, w.IsAnomalous math db scope date ∧
        ∃ prior ∈ w.ledger.clickAttributions db scope date, t = clockProvisional date now prior := by
  induction apps generalizing w with
  | nil =>
      obtain rfl := Except.ok.inj h
      exact ⟨[], (List.append_nil _).symm, fun t ht => absurd ht List.not_mem_nil⟩
  | cons first rest ih =>
      obtain ⟨hfirst, hrestNodup⟩ := List.nodup_cons.mp happs
      obtain ⟨-, hrest⟩ := aggregateApps_cons_ok.mp h
      have hgrows := growsTo_appendTurn math db w first date now
      obtain ⟨turn, hturn, -, hturnMem⟩ := AppendOnly.insertAll_eq_append (·.attributionId)
        (w.newReplacements math db first date now) w.ledger.attributions
      have hattributions : (w.appendTurn math db first date now).ledger.attributions =
          w.ledger.attributions ++ turn := hturn
      obtain ⟨added, hadded, haddedMem⟩ := ih hrestNodup hrest
      refine ⟨turn ++ added, ?_, fun t ht => ?_⟩
      · rw [hadded, hattributions, List.append_assoc]
      · rcases List.mem_append.mp ht with ht | ht
        · obtain ⟨hnew, hfree⟩ := hturnMem t ht
          obtain ⟨hanomalous, prior, hprior, rfl⟩ := mem_newReplacements.mp hnew
          exact ⟨hfree, first, List.mem_cons_self, hanomalous, prior, hprior, rfl⟩
        · obtain ⟨hfree, scope, hscope, hanomalous, prior, hprior, rfl⟩ := haddedMem t ht
          refine ⟨fun hold => hfree ?_, scope, List.mem_cons_of_mem _ hscope,
            hgrows.toSameFacts.isAnomalous hanomalous, prior, ?_, rfl⟩
          · rw [hattributions, List.map_append]
            exact List.mem_append_left _ hold
          · refine hgrows.toSameFacts.clickAttributions hgrows.attributions hprior ?_
            obtain ⟨hmem, hpriorScope, -⟩ := mem_clickAttributions.mp hprior
            rw [hattributions] at hmem
            rcases List.mem_append.mp hmem with hmem | hmem
            · exact hmem
            · obtain ⟨-, p, hp, rfl⟩ := mem_newReplacements.mp (hturnMem prior hmem).1
              have hpScope : p.scope = first := (mem_clickAttributions.mp hp).2.1
              have heq : first = scope := hpScope.symm.trans hpriorScope
              exact absurd (heq ▸ hscope) hfirst

/-- The ids of the attributions stay distinct. -/
theorem nodup_of_pass {apps : List Scope} {now : Timestamp}
    (h : aggregateApps math db date now apps w = .ok w')
    (hkeys : (w.ledger.attributions.map (·.attributionId)).Nodup) :
    (w'.ledger.attributions.map (·.attributionId)).Nodup := by
  induction apps generalizing w with
  | nil =>
      obtain rfl := Except.ok.inj h
      exact hkeys
  | cons first rest ih =>
      obtain ⟨-, hrest⟩ := aggregateApps_cons_ok.mp h
      exact ih hrest (AppendOnly.nodup_insertAll hkeys)

/-- The replacements of a history, in the tables behind it: each is stored
beside the attribution it superseded, which no other of them superseded. -/
structure HistoryKept (log : List (CalendarDate × Attribution)) (w : FraudWorld) : Prop where
  keys : (w.ledger.attributions.map (·.attributionId)).Nodup
  stored : ∀ e ∈ log, e.2 ∈ w.ledger.attributions ∧
    ∃ prior ∈ w.ledger.attributions, ∃ now, e.2 = clockProvisional e.1 now prior
  priors : (log.map (·.2.supersedesAttributionId)).Nodup
  once : log.Pairwise fun e e' => e.1 = e'.1 → ¬ ShareOriginal log e e'

/-- Before the first step there is no replacement. -/
theorem historyKept_nil (hkeys : (w.ledger.attributions.map (·.attributionId)).Nodup) :
    HistoryKept [] w where
  keys := hkeys
  stored _ he := absurd he List.not_mem_nil
  priors := List.nodup_nil
  once := List.Pairwise.nil

/-- Attributions that are inserted keep the history. -/
theorem HistoryKept.grow {log : List (CalendarDate × Attribution)} (h : HistoryKept log w)
    (hkeys : (w'.ledger.attributions.map (·.attributionId)).Nodup)
    (hsub : ∀ t ∈ w.ledger.attributions, t ∈ w'.ledger.attributions) : HistoryKept log w' where
  keys := hkeys
  stored e he := by
    obtain ⟨hmem, prior, hprior, now, hreplacement⟩ := h.stored e he
    exact ⟨hsub _ hmem, prior, hsub _ hprior, now, hreplacement⟩
  priors := h.priors
  once := h.once

/-- A replacement of the history is a clock-anomaly replacement of the table,
and what it superseded is a row of the table. -/
theorem HistoryKept.replaces {log : List (CalendarDate × Attribution)} (h : HistoryKept log w)
    {id priorId : String} (hlog : LogReplaces log id priorId) :
    ClockReplaces w.ledger.attributions id priorId ∧
      priorId ∈ w.ledger.attributions.map (·.attributionId) := by
  obtain ⟨e, he, hid, hsupersedes⟩ := hlog
  obtain ⟨hmem, prior, hprior, now, hreplacement⟩ := h.stored e he
  refine ⟨⟨e.2, hmem, hid, hsupersedes, e.1, ?_⟩, ?_⟩
  · rw [hreplacement]
    exact isClockReplacement_clockProvisional e.1 now prior
  · rw [hreplacement] at hsupersedes
    exact Option.some.inj hsupersedes ▸ List.mem_map_of_mem hprior

omit [Digest] in
/-- Where no attribution is superseded twice, of two replacements that go back
to one attribution one goes back to the other. -/
theorem ShareOriginal.total {log : List (CalendarDate × Attribution)}
    (hpriors : (log.map (·.2.supersedesAttributionId)).Nodup) {e e' : CalendarDate × Attribution}
    (h : ShareOriginal log e e') :
    ReflTransGen (LogReplaces log) e.2.attributionId e'.2.attributionId ∨
      ReflTransGen (LogReplaces log) e'.2.attributionId e.2.attributionId := by
  obtain ⟨original, hfirst, hsecond⟩ := h
  have hunique : Relator.RightUnique (Function.swap (LogReplaces log)) := by
    rintro priorId id id' ⟨f, hf, rfl, hprior⟩ ⟨f', hf', rfl, hprior'⟩
    rw [List.inj_on_of_nodup_map hpriors hf hf' (hprior.trans hprior'.symm)]
  have htotal := ReflTransGen.total_of_right_unique hunique (hfirst.swap _ _) (hsecond.swap _ _)
  exact htotal.symm.imp (ReflTransGen.swap _ _) (ReflTransGen.swap _ _)

/-- A run appends replacements for a date: each under a free id, of a row that
nothing supersedes and that goes back to no replacement for the date. -/
structure AppendsReplacements (date : CalendarDate) (w w' : FraudWorld) (added : List Attribution) :
    Prop where
  appended : w'.ledger.attributions = w.ledger.attributions ++ added
  keys : (w'.ledger.attributions.map (·.attributionId)).Nodup
  free : ∀ t ∈ added, t.attributionId ∉ w.ledger.attributions.map (·.attributionId)
  replaces : ∀ t ∈ added, ∃ prior ∈ w.ledger.attributions,
    (∃ now, t = clockProvisional date now prior) ∧
    (∀ s ∈ w.ledger.attributions, s.scope = prior.scope →
      s.supersedesAttributionId ≠ some prior.attributionId) ∧
    ∀ r ∈ w.ledger.attributions, IsClockReplacement date r →
      ¬ StemsFrom w.ledger.attributions prior r

namespace AppendsReplacements

variable {log : List (CalendarDate × Attribution)} {added : List Attribution}

/-- The history with the replacements of the run. -/
abbrev extended (date : CalendarDate) (log : List (CalendarDate × Attribution))
    (added : List Attribution) : List (CalendarDate × Attribution) :=
  log ++ added.map (fun t => (date, t))

/-- What a run appends has distinct ids. -/
theorem addedKeys (h : AppendsReplacements date w w' added) :
    (added.map (·.attributionId)).Nodup := by
  have hkeys := h.keys
  rw [h.appended, List.map_append] at hkeys
  exact (List.nodup_append.mp hkeys).2.1

/-- What a replacement of the longer history superseded was there before the
run. -/
theorem prior_mem (h : AppendsReplacements date w w' added) (hlog : HistoryKept log w)
    {id priorId : String} (hreplaces : LogReplaces (extended date log added) id priorId) :
    priorId ∈ w.ledger.attributions.map (·.attributionId) := by
  obtain ⟨e, he, hid, hsupersedes⟩ := hreplaces
  rcases List.mem_append.mp he with he | he
  · exact (hlog.replaces ⟨e, he, hid, hsupersedes⟩).2
  · obtain ⟨t, ht, rfl⟩ := List.mem_map.mp he
    obtain ⟨prior, hprior, ⟨now, rfl⟩, -⟩ := h.replaces t ht
    exact Option.some.inj hsupersedes ▸ List.mem_map_of_mem hprior

/-- So nothing goes back to a replacement of the run but itself. -/
theorem eq_of_path (h : AppendsReplacements date w w' added) (hlog : HistoryKept log w) {id : String}
    {t : Attribution} (ht : t ∈ added)
    (hpath : ReflTransGen (LogReplaces (extended date log added)) id t.attributionId) :
    id = t.attributionId := by
  rcases hpath.cases_tail with heq | ⟨last, -, hlast⟩
  · exact heq.symm
  · exact absurd (h.prior_mem hlog hlast) (h.free t ht)

/-- And what went back to something before goes back to the same through the
history before. -/
theorem old_path (h : AppendsReplacements date w w' added) (hlog : HistoryKept log w)
    {id original : String} (hid : id ∈ w.ledger.attributions.map (·.attributionId))
    (hpath : ReflTransGen (LogReplaces (extended date log added)) id original) :
    ReflTransGen (LogReplaces log) id original := by
  have hboth : ReflTransGen (LogReplaces log) id original ∧
      original ∈ w.ledger.attributions.map (·.attributionId) := by
    induction hpath with
    | refl => exact ⟨.refl, hid⟩
    | tail _ hlast ih =>
        obtain ⟨hfirst, hmiddle⟩ := ih
        refine ⟨hfirst.tail ?_, h.prior_mem hlog hlast⟩
        obtain ⟨e, he, rfl, hsupersedes⟩ := hlast
        rcases List.mem_append.mp he with he | he
        · exact ⟨e, he, rfl, hsupersedes⟩
        · obtain ⟨t, ht, rfl⟩ := List.mem_map.mp he
          exact absurd hmiddle (h.free t ht)
  exact hboth.1

/-- A replacement of the run shares no original with one of the history for
its date. -/
theorem not_share (h : AppendsReplacements date w w' added) (hlog : HistoryKept log w)
    (hpriors : ((extended date log added).map (·.2.supersedesAttributionId)).Nodup)
    {e : CalendarDate × Attribution} (he : e ∈ log) (hdate : e.1 = date) {t : Attribution}
    (ht : t ∈ added) : ¬ ShareOriginal (extended date log added) e (date, t) := by
  intro hshare
  obtain ⟨hstored, p, hp, now, hreplacement⟩ := hlog.stored e he
  have hold : e.2.attributionId ∈ w.ledger.attributions.map (·.attributionId) :=
    List.mem_map_of_mem hstored
  rcases hshare.total hpriors with hpath | hpath
  · exact h.free t ht (h.eq_of_path hlog ht hpath ▸ hold)
  · rcases hpath.cases_head with heq | ⟨priorId, ⟨f, hf, hid, hsupersedes⟩, hrest⟩
    · exact h.free t ht (heq.symm ▸ hold)
    · rcases List.mem_append.mp hf with hf | hf
      · exact h.free t ht (hid ▸ List.mem_map_of_mem (hlog.stored f hf).1)
      · obtain ⟨t', ht', rfl⟩ := List.mem_map.mp hf
        obtain rfl := List.inj_on_of_nodup_map h.addedKeys ht' ht hid
        obtain ⟨prior, hprior, ⟨now', rfl⟩, -, hstems⟩ := h.replaces t' ht'
        obtain rfl := Option.some.inj hsupersedes
        have hclock : IsClockReplacement date e.2 := by
          rw [hreplacement, ← hdate]
          exact isClockReplacement_clockProvisional e.1 now p
        refine hstems e.2 hstored hclock ?_
        exact ReflTransGen.mono (fun _ _ hreplaces => (hlog.replaces hreplaces).1) _ _
          (h.old_path hlog (List.mem_map_of_mem hprior) hrest)

/-- No attribution is superseded twice by the longer history. -/
theorem nodup_priors (h : AppendsReplacements date w w' added) (hlog : HistoryKept log w) :
    ((extended date log added).map (·.2.supersedesAttributionId)).Nodup := by
  rw [List.map_append, List.map_map, List.nodup_append]
  refine ⟨hlog.priors, ?_, ?_⟩
  · refine List.Nodup.map_on ?_ h.addedKeys.of_map
    intro t ht t' ht' hsame
    obtain ⟨prior, -, ⟨now, rfl⟩, -⟩ := h.replaces t ht
    obtain ⟨prior', -, ⟨now', rfl⟩, -⟩ := h.replaces t' ht'
    have hids : prior.attributionId = prior'.attributionId := Option.some.inj hsame
    refine List.inj_on_of_nodup_map h.addedKeys ht ht' ?_
    change clockReplacementId date prior.attributionId =
      clockReplacementId date prior'.attributionId
    rw [hids]
  · intro k hk k' hk' hsame
    obtain ⟨e, he, rfl⟩ := List.mem_map.mp hk
    obtain ⟨t, ht, rfl⟩ := List.mem_map.mp hk'
    obtain ⟨prior, hprior, ⟨now, rfl⟩, hcurrent, -⟩ := h.replaces t ht
    obtain ⟨hstored, p, hp, now', hreplacement⟩ := hlog.stored e he
    -- The replacement kept the scope of what it superseded.
    have hids : p.attributionId = prior.attributionId := by
      rw [hreplacement] at hsame
      exact Option.some.inj hsame
    obtain rfl := List.inj_on_of_nodup_map hlog.keys hp hprior hids
    have hscope : e.2.scope = p.scope := by rw [hreplacement]; rfl
    exact hcurrent e.2 hstored hscope hsame

/-- The replacements of a run extend the history. -/
theorem kept (h : AppendsReplacements date w w' added) (hlog : HistoryKept log w) :
    HistoryKept (extended date log added) w' := by
  have hsub : ∀ t ∈ w.ledger.attributions, t ∈ w'.ledger.attributions :=
    fun t ht => h.appended ▸ List.mem_append_left _ ht
  have hpriors := h.nodup_priors hlog
  refine ⟨h.keys, ?_, hpriors, ?_⟩
  · intro e he
    rcases List.mem_append.mp he with he | he
    · exact (hlog.grow h.keys hsub).stored e he
    · obtain ⟨t, ht, rfl⟩ := List.mem_map.mp he
      obtain ⟨prior, hprior, ⟨now, hreplacement⟩, -⟩ := h.replaces t ht
      exact ⟨h.appended ▸ List.mem_append_right _ ht, prior, hsub prior hprior, now, hreplacement⟩
  · rw [List.pairwise_append]
    refine ⟨?_, ?_, ?_⟩
    · refine hlog.once.imp_of_mem ?_
      rintro e e' he he' hnone hdate ⟨original, hfirst, hsecond⟩
      exact hnone hdate ⟨original,
        h.old_path hlog (List.mem_map_of_mem (hlog.stored e he).1) hfirst,
        h.old_path hlog (List.mem_map_of_mem (hlog.stored e' he').1) hsecond⟩
    · rw [List.pairwise_map]
      have hne : added.Pairwise (fun t t' => t.attributionId ≠ t'.attributionId) :=
        List.pairwise_map.mp h.addedKeys
      refine hne.imp_of_mem fun {t t'} ht ht' hids _ hshare => ?_
      rcases hshare.total hpriors with hpath | hpath
      · exact hids (h.eq_of_path hlog ht' hpath)
      · exact hids (h.eq_of_path hlog ht hpath).symm
    · intro e he e' he' hdate
      obtain ⟨t, ht, rfl⟩ := List.mem_map.mp he'
      exact h.not_share hlog hpriors he hdate ht

end AppendsReplacements

/-- **Step.**  A step under the condition extends the history: its replacements
go back to attributions that no earlier one of the date goes back to. -/
theorem HistoryKept.step {log : List (CalendarDate × Attribution)} (h : HistoryKept log w)
    (s : FraudStep) (hnew : MeetsNoReplacement math db w s) :
    HistoryKept (log ++ w.replaced math db s) (w.step math db s) := by
  cases s with
  | write next rows =>
      have hgrown : HistoryKept log (w.step math db (.write next rows)) :=
        h.grow (AppendOnly.nodup_insertAll h.keys) fun t ht => AppendOnly.mem_insertAll_of_mem ht
      rw [FraudWorld.replaced, List.append_nil]
      exact hgrown
  | aggregate tenantId date now =>
      have hreplaced : w.replaced math db (.aggregate tenantId date now) =
          ((w.step math db (.aggregate tenantId date now)).ledger.attributions.drop
            w.ledger.attributions.length).map (fun t => (date, t)) := rfl
      rw [hreplaced]
      rcases step_aggregate_cases math db w tenantId date now with
        ⟨w', hpass, hstep⟩ | ⟨-, hstep⟩
      · rw [hstep]
        obtain ⟨added, happended, hadded⟩ := pass_appends (nodup_appsOf w tenantId) hpass
        have hrun : AppendsReplacements date w w' added := by
          refine ⟨happended, nodup_of_pass hpass h.keys, fun t ht => (hadded t ht).1, ?_⟩
          intro t ht
          obtain ⟨-, scope, hscope, hanomalous, prior, hprior, rfl⟩ := hadded t ht
          exact ⟨prior, (mem_clickAttributions.mp hprior).1, ⟨now, rfl⟩,
            current_of_mem_clickAttributions hprior, hnew.stems hscope hanomalous hprior⟩
        rw [happended, List.drop_left]
        exact hrun.kept h
      · rw [hstep, List.drop_length, List.map_nil, List.append_nil]
        exact h

/-- **Run.**  A history whose steps meet the condition is kept, by induction on
its steps. -/
theorem HistoryKept.run {log : List (CalendarDate × Attribution)} (h : HistoryKept log w)
    (run : List FraudStep)
    (hmeet : StepsMeet (·.step math db) (MeetsNoReplacement math db) w run) :
    HistoryKept (log ++ w.history math db run) (run.foldl (·.step math db) w) := by
  induction run generalizing log w with
  | nil =>
      rw [FraudWorld.history, List.append_nil]
      exact h
  | cons s rest ih =>
      have hrest := ih (h.step s hmeet.1) hmeet.2
      rw [List.append_assoc] at hrest
      exact hrest

end Law

section Writers

variable [Digest] [PayloadSchemas]

omit [Digest] [PayloadSchemas] in
/-- The attributions of the ledger are those of another and inserted ones. -/
def Ledger.AddsTo (l₀ l : Ledger) : Prop :=
  ∃ rows, l.attributions = insertAll (·.attributionId) rows l₀.attributions

/-- A call of the ingestion inserts attributions. -/
theorem addsTo_ingest (l : Ledger) (call : RuntimeCall) : l.AddsTo (l.ingest call) := by
  refine invariant_of_ingestRuntimeBatch l.AddsTo call.contexts (fun scope history' _ _ l' hl' => ?_)
    ⟨[], rfl⟩
  rcases ingestScope_cases l' (call.contexts scope) (call.attempts.filter (fun a => a.scope = scope))
    history' call.bulkPersistence with hsame | ⟨out, -, -, hledger⟩
  · rw [hsame]
    exact hl'
  · rw [hledger]
    refine Ledger.invariant_of_writes l.AddsTo (fun t _ w _ l₁ l₂ h₁ hwrite => ?_) hl'
    obtain ⟨rows, hrows⟩ := h₁
    refine ⟨rows ++ w.attributionRow.toList, ?_⟩
    rw [Ledger.attributions_of_write hwrite, hrows]
    exact (addAttributions_append l.attributions rows w.attributionRow.toList).symm

omit [PayloadSchemas] in
/-- A late verdict is inserted, or nothing is. -/
theorem addsTo_late (l : Ledger) (t : Attribution) : l.AddsTo (persistLateAttribution l t) := by
  unfold persistLateAttribution
  split
  · exact ⟨[], rfl⟩
  · split
    · exact ⟨[], rfl⟩
    · exact ⟨[lateAttribution t], rfl⟩

/-- **The workers.**  Every step of the workers that append attributions
inserts them, as a step of a history does. -/
theorem addsTo_attributionStep (db : Database) (textDigest : String → String)
    (w : AttributionWorld) (s : AttributionStep) :
    w.ledger.AddsTo (w.step db textDigest s).ledger := by
  cases s with
  | ingest call => exact addsTo_ingest w.ledger call
  | late attribution => exact addsTo_late w.ledger attribution
  | clockAnomaly scope metricDate negativeCount installCount bundle now =>
      refine ⟨clockReplacements db w.ledger scope metricDate negativeCount installCount bundle now, ?_⟩
      change (markClockAnomalyAttributionsProvisional db w.ledger scope metricDate negativeCount
        installCount bundle now).attributions = _
      rw [markClockAnomaly_eq]
  | lookup row answer =>
      change w.ledger.AddsTo (completeLookup db textDigest w row answer).ledger
      unfold completeLookup
      split
      · exact ⟨[], rfl⟩
      · rename_i prior hprior
        dsimp only
        split
        · exact ⟨[], rfl⟩
        · rename_i hfree
          refine ⟨[lookupReplacement textDigest row answer prior], ?_⟩
          rw [AppendOnly.insertAll_cons, insertOnce, if_neg (fun htaken => hfree (.inl htaken))]
          rfl

end Writers

section Runs

/-- A digest that can be evaluated and whose first half tells values apart: the
checksum in 32 digits, twice. -/
@[reducible] def repeatedDigest : Digest :=
  ⟨fun j => String.ofList (digits 32 (checksum j) ++ digits 32 (checksum j))⟩

attribute [local instance] repeatedDigest memberSchemas

/-- A click of a day at a minute, and an install that names it a minute later
or earlier. -/
def clickedInstall (click : Identifier) (installation : Identifier) (day minute : Fin 100) :
    List Attempt :=
  [launchAttempt click {
      eventName := .click
      clickId := some click
      redirectorClickAt := some ⟨2026, 1, day, 3, minute, 0, 0⟩ },
    launchAttempt installation {
      eventName := .install
      installationId := some installation
      installType := some .firstInstall
      clickId := some click
      installBeginAtServer := some ⟨2026, 1, day, 3, 4, 0, 0⟩ }]

/-- An app with a fraud bundle, an install of the first day and two installs of
the second, one of them a minute before its click. -/
def anomalousDay : FraudWorld where
  apps := [referredInstall.scope]
  bundles := registerRevision plainDatabase []
    (firstRegistration (.named "fraud-a") "rule-bundle:1")
  ledger := ({} : Ledger).ingest (launchCall
    (clickedInstall ⟨"click-0", by decide⟩ ⟨"installation-0", by decide⟩ 1 3 ++
      clickedInstall ⟨"click-1", by decide⟩ ⟨"installation-1", by decide⟩ 2 3 ++
      clickedInstall ⟨"click-2", by decide⟩ ⟨"installation-2", by decide⟩ 2 5) [])

/-- Arithmetic of no source, for a run by hand. -/
def noPercentiles : SourceDayMath := ⟨fun _ _ => none, fun _ => ("0", 0)⟩

/-- The run over one of the days, at an hour of the third. -/
def dayRun (day : ℕ) (hour : Fin 100) : FraudStep :=
  .aggregate referredInstall.scope.tenantId ⟨2026, 1, day⟩ ⟨2026, 1, 3, hour, 0, 0, 0⟩

/-- Two runs over a date, by the law. -/
theorem SourceDayLaw.twice {math : SourceDayMath} {db : Database} {w : FraudWorld} {day : ℕ}
    {hour hour' : Fin 100} (h : SourceDayLaw math db w [dayRun day hour, dayRun day hour']) :
    ((w.step math db (dayRun day hour)).step math db (dayRun day hour')).ledger.attributions =
      (w.step math db (dayRun day hour)).ledger.attributions :=
  (h.idempotent [] _ _ _ [_] [] rfl).attributions

/-- What the clock-anomaly step finds, in no order. -/
def Ledger.foundAttributions (l : Ledger) (scope : Scope) (date : CalendarDate) :
    List Attribution :=
  l.attributions.filter (fun t => t.scope = scope && t.reasonCode = .validInstallReferrer &&
    l.installFacts.any (fun f => f.scope = scope && t.subjectRef = some f.installationId.text &&
      l.isClickedOn date f) && !l.isSuperseded t)

/-- One row is in order. -/
theorem mergeSort_of_length_le_one {α : Type*} {le : α → α → Bool} {l : List α}
    (h : l.length ≤ 1) : l.mergeSort le = l := by
  match l, h with
  | [], _ => exact List.mergeSort_nil
  | [a], _ => exact List.mergeSort_singleton a

/-- So the step finds one row in whatever order. -/
theorem Ledger.clickAttributions_eq_found (db : Database) {l : Ledger} {scope : Scope}
    {date : CalendarDate} (hone : (l.foundAttributions scope date).length ≤ 1) :
    l.clickAttributions db scope date = l.foundAttributions scope date := by
  unfold Ledger.clickAttributions
  unfold Ledger.foundAttributions at hone ⊢
  exact mergeSort_of_length_le_one hone

/-- The replacements of a turn, in no order. -/
def FraudWorld.plainReplacements (w : FraudWorld) (scope : Scope) (date : CalendarDate)
    (now : Timestamp) : List Attribution :=
  let rows := w.ledger.sourceRows noPercentiles plainDatabase scope date
  match resolveActiveFraudBundle w.bundles scope with
  | .ok (some revision) =>
      if BinaryFloat.total (rows.map (·.installs)) = .finite 0 then []
      else if !exceedsNegativeRate (BinaryFloat.total (rows.map (·.ctitNegativeCount)))
          (BinaryFloat.total (rows.map (·.installs))) revision.definition.bundle then []
      else (w.ledger.foundAttributions scope date).map (clockProvisional date now)
  | _ => []

/-- The tables with the attributions of a turn. -/
def FraudWorld.plainTurn (w : FraudWorld) (scope : Scope) (date : CalendarDate)
    (now : Timestamp) : FraudWorld :=
  { w with
    aggregates := insertAll StoredAggregate.key
      (w.newAggregates noPercentiles plainDatabase scope date now) w.aggregates
    ledger := { w.ledger with
      fraudDecisions := insertAll (·.decision.fraudDecisionId)
        (w.newDecisions noPercentiles plainDatabase scope date now) w.ledger.fraudDecisions
      attributions := insertAll (·.attributionId) (w.plainReplacements scope date now)
        w.ledger.attributions } }

/-- The tables behind the turn of a day, at an hour of the third. -/
def FraudWorld.dayTurn (w : FraudWorld) (day : ℕ) (hour : Fin 100) : FraudWorld :=
  w.plainTurn referredInstall.scope ⟨2026, 1, day⟩ ⟨2026, 1, 3, hour, 0, 0, 0⟩

/-- The app has its turn alone, which passes and finds one attribution at
most. -/
def FraudWorld.runsAlone (w : FraudWorld) (day : ℕ) (hour : Fin 100) : Bool :=
  w.appsOf plainDatabase referredInstall.scope.tenantId = [referredInstall.scope] &&
  (aggregateApp noPercentiles plainDatabase w referredInstall.scope ⟨2026, 1, day⟩
    ⟨2026, 1, 3, hour, 0, 0, 0⟩).isOk &&
  (w.ledger.foundAttributions referredInstall.scope ⟨2026, 1, day⟩).length ≤ 1

/-- A run over a day of the example is the turn by hand, where the app has its
turn alone. -/
theorem dayRun_eq {w : FraudWorld} {day : ℕ} {hour : Fin 100} (halone : w.runsAlone day hour = true) :
    w.step noPercentiles plainDatabase (dayRun day hour) = w.dayTurn day hour := by
  unfold FraudWorld.runsAlone at halone
  rw [Bool.and_eq_true, Bool.and_eq_true, decide_eq_true_iff, decide_eq_true_iff] at halone
  obtain ⟨⟨happs, hpasses⟩, hone⟩ := halone
  have hfound := Ledger.clickAttributions_eq_found plainDatabase hone
  cases hturn : aggregateApp noPercentiles plainDatabase w referredInstall.scope ⟨2026, 1, day⟩
      ⟨2026, 1, 3, hour, 0, 0, 0⟩ with
  | error e =>
      rw [hturn] at hpasses
      cases hpasses
  | ok w' =>
      rcases step_aggregate_cases noPercentiles plainDatabase w referredInstall.scope.tenantId
          ⟨2026, 1, day⟩ ⟨2026, 1, 3, hour, 0, 0, 0⟩ with ⟨w'', hpass, hstep⟩ | ⟨hthrows, -⟩
      · rw [happs] at hpass
        obtain ⟨-, hrest⟩ := aggregateApps_cons_ok.mp hpass
        obtain rfl := Except.ok.inj hrest
        refine hstep.trans ?_
        unfold FraudWorld.dayTurn FraudWorld.appendTurn FraudWorld.plainTurn
          FraudWorld.newReplacements FraudWorld.plainReplacements clockReplacements
        rw [hfound]
      · rw [happs] at hthrows
        exact absurd ⟨_, aggregateApps_cons_ok.mpr ⟨⟨w', hturn⟩, rfl⟩⟩ hthrows

/-- None of the attributions of the tables supersedes another. -/
def FraudWorld.allInitial (w : FraudWorld) : Prop :=
  ∀ t ∈ w.ledger.attributions, t.supersedesAttributionId = none

/-- A run over such tables meets no replacement. -/
theorem meetsNoReplacement_of_allInitial {w : FraudWorld} (h : w.allInitial) (day : ℕ)
    (hour : Fin 100) : MeetsNoReplacement noPercentiles plainDatabase w (dayRun day hour) := by
  rintro scope - - t - - - - - r hr ⟨priorId, hprior, -⟩
  have hnone := h r hr
  rw [hprior] at hnone
  cases hnone

/-- The tables behind a first and a second run over the first day. -/
def quietDay : FraudWorld := (anomalousDay.dayTurn 1 1).dayTurn 1 2

set_option maxRecDepth 4000 in
/-- No attribution supersedes another on the way of the first runs. -/
theorem anomalousDay_runs :
    (∀ t ∈ anomalousDay.ledger.attributions, t.supersedesAttributionId = none) ∧
    (∀ t ∈ (anomalousDay.dayTurn 1 1).ledger.attributions, t.supersedesAttributionId = none) ∧
    (∀ t ∈ quietDay.ledger.attributions, t.supersedesAttributionId = none) ∧
    (anomalousDay.ledger.attributions.map (·.attributionId)).Nodup := by
  decide +kernel

set_option maxRecDepth 4000 in
/-- In all these states the app has its turn alone, and the second run over the
second day appends. -/
theorem anomalousDay_alone :
    anomalousDay.runsAlone 1 1 = true ∧ (anomalousDay.dayTurn 1 1).runsAlone 1 2 = true ∧
    anomalousDay.runsAlone 2 1 = true ∧ (anomalousDay.dayTurn 2 1).runsAlone 2 2 = true ∧
    ((anomalousDay.dayTurn 2 1).dayTurn 2 2).ledger.attributions.length ≠
      (anomalousDay.dayTurn 2 1).ledger.attributions.length := by
  decide +kernel

end Runs

end OpenMasu
