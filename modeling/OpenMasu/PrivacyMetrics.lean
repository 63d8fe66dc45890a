import OpenMasu.DeepLinkGuard
import OpenMasu.PrivacyErasure

/-!
# What a request recalculates

A completed request replaces the latest run of three metrics by a copy.  The
copy is called recalculated; it has the value of the run it replaces.

* `StoredRun.query`, `PrivacyTables.remainingValue` — the value of a run on
  the data that remains;
* `replaceRuns_eq_append` — the copies a request inserts;
* `MetricsRecalculated`, `metricsRecalculated_iff` — the law.
-/

namespace OpenMasu

open AppendOnly (insertOnce latest)

section Values

/-- The definition and the exchange rates behind a run. -/
structure RunBasis where
  definition : MetricDefinition
  fxPolicy : FxPolicy

/-- What a run asks of the data that remains. -/
def StoredRun.query (r : StoredRun) (basis : RunBasis) : MetricQuery where
  scope := r.scope
  watermark := r.run.inputReceivedAtWatermark
  privacyState := .after
  grouping := r.run.grouping.map (·.1)
  definition := basis.definition
  fxPolicy := basis.fxPolicy

/-- The value of a run on the data that remains. -/
def PrivacyTables.remainingValue (db : Database) (t : PrivacyTables) (r : StoredRun)
    (basis : RunBasis) : Except Failure MetricValue :=
  (t.ledger.metricTables (t.costRecords.map (·.row))).metricValue db (r.query basis)

/-- The payload states behind the deletion of some records. -/
def PurgeContext.appendStates (p : PurgeContext) (records : List Identifier)
    (states : List StoredPayloadState) : List StoredPayloadState :=
  records.foldl (fun rows r => insertOnce StoredPayloadState.key (p.state r) rows) states

/-- The tables in which some records are purged. -/
def PrivacyTables.withPurged (t : PrivacyTables) (p : PurgeContext) (records : List Identifier) :
    PrivacyTables :=
  { t with ledger := { t.ledger with
    payloadStates := p.appendStates records t.ledger.payloadStates } }

/-- The purges hide the record: it is one of theirs, and has no purged state
yet. -/
def PurgeContext.hides (p : PurgeContext) (records : List Identifier)
    (states : List StoredPayloadState) (key : EvidenceKey) : Bool :=
  key.scope = p.scope && records.contains key.recordId &&
    !(states.map StoredPayloadState.key).contains (key.recordId, .purged)

/-- The tables without the records that the purges of some records hide. -/
def PrivacyTables.withoutHidden (t : PrivacyTables) (p : PurgeContext)
    (records : List Identifier) : PrivacyTables :=
  { t with ledger := { t.ledger with
    rawRecords := t.ledger.rawRecords.filter
      (fun r => !p.hides records t.ledger.payloadStates r.evidenceKey) } }

end Values

section Hidden

variable {p : PurgeContext} {records : List Identifier} {states : List StoredPayloadState}

/-- The last of the payload states of a record. -/
def lastStatus (states : List StoredPayloadState) (key : EvidenceKey) : Option LifecycleStatus :=
  ((states.map (fun s => (⟨s.recordId, s.scope, s.lifecycleStatus⟩ : PayloadState))).filter
    (fun s => s.evidenceKey = key)).getLast?.map (·.lifecycleStatus)

/-- A state that is appended is the last of its record. -/
theorem lastStatus_concat (s : StoredPayloadState) (key : EvidenceKey) :
    lastStatus (states ++ [s]) key =
      if (⟨s.scope, s.recordId⟩ : EvidenceKey) = key then some s.lifecycleStatus
      else lastStatus states key := by
  unfold lastStatus
  rw [List.map_append, List.filter_append, List.map_singleton, List.filter_singleton]
  by_cases hkey : (⟨s.scope, s.recordId⟩ : EvidenceKey) = key
  · simp [PayloadState.evidenceKey, hkey]
  · simp [PayloadState.evidenceKey, hkey]

/-- Behind the purges of some records, the last state of those they hide is
purged, and that of the others what it was. -/
theorem lastStatus_appendStates (key : EvidenceKey) :
    lastStatus (p.appendStates records states) key =
      if p.hides records states key then some .purged else lastStatus states key := by
  unfold PurgeContext.appendStates
  induction records generalizing states with
  | nil => simp [PurgeContext.hides]
  | cons r rest ih =>
      rw [List.foldl_cons, ih]
      unfold insertOnce
      by_cases htaken : (r, LifecycleStatus.purged) ∈ states.map StoredPayloadState.key
      · have hkeyTaken : (p.state r).key ∈ states.map StoredPayloadState.key := htaken
        rw [if_pos hkeyTaken]
        by_cases hrecord : key.recordId = r
        · simp [PurgeContext.hides, hrecord, htaken]
        · simp [PurgeContext.hides, hrecord]
      · have hkeyFree : (p.state r).key ∉ states.map StoredPayloadState.key := htaken
        rw [if_neg hkeyFree, lastStatus_concat]
        have hadded : (p.state r).key = (r, .purged) := rfl
        by_cases hrecord : key.recordId = r
        · by_cases hscope : key.scope = p.scope
          · have hkey : (⟨(p.state r).scope, (p.state r).recordId⟩ : EvidenceKey) = key := by
              cases key
              exact congrArg₂ EvidenceKey.mk hscope.symm hrecord.symm
            simp [PurgeContext.hides, hrecord, hscope, hkey, hadded, htaken]
            rfl
          · have hkey : (⟨(p.state r).scope, (p.state r).recordId⟩ : EvidenceKey) ≠ key :=
              fun h => hscope (congrArg EvidenceKey.scope h).symm
            simp [PurgeContext.hides, hscope, hkey]
        · have hkey : (⟨(p.state r).scope, (p.state r).recordId⟩ : EvidenceKey) ≠ key :=
            fun h => hrecord (congrArg EvidenceKey.recordId h).symm
          simp [PurgeContext.hides, hrecord, hkey, hadded]

/-- A value depends on the records and their states through the events the
query reads. -/
theorem metricValue_of_readEvents {db : Database} {q : MetricQuery} {t : MetricTables}
    {rawRecords : List RecordRow} {rawPayloadStates : List PayloadState}
    (h : { t with
      rawRecords := rawRecords
      rawPayloadStates := rawPayloadStates : MetricTables }.readEvents q = t.readEvents q) :
    { t with
      rawRecords := rawRecords
      rawPayloadStates := rawPayloadStates : MetricTables }.metricValue db q =
        t.metricValue db q := by
  simp only [MetricTables.metricValue, MetricTables.eventCountValue, MetricTables.countPostbacks,
    MetricTables.cohortValue, MetricTables.revenueCandidates, MetricTables.activeCount,
    MetricTables.cohort, MetricTables.cohortInstalls, MetricTables.groupedInstalls,
    MetricTables.readFacts, h]
  rfl

/-- **The records a run counts.**  What a run asks of the tables with some
purges has the value it has on the tables without the records they hide. -/
theorem remainingValue_withPurged (db : Database) (t : PrivacyTables) (p : PurgeContext)
    (records : List Identifier) (r : StoredRun) (basis : RunBasis) :
    (t.withPurged p records).remainingValue db r basis =
      (t.withoutHidden p records).remainingValue db r basis := by
  unfold PrivacyTables.remainingValue
  let left := (t.withPurged p records).ledger.metricTables (t.costRecords.map (·.row))
  let right := (t.withoutHidden p records).ledger.metricTables (t.costRecords.map (·.row))
  have hevents : left.readEvents (r.query basis) = right.readEvents (r.query basis) := by
    unfold MetricTables.readEvents
    refine List.flatMap_congr fun e _ => congrArg (List.map _) ?_
    unfold MetricTables.rawRecordsCurrent
    rw [List.filter_filterMap, List.filter_filterMap]
    change (t.ledger.rawRecords.map (·.row)).filterMap _ =
      ((t.ledger.rawRecords.filter _).map (·.row)).filterMap _
    rw [List.filterMap_map, List.filterMap_map, List.filterMap_filter]
    refine List.filterMap_congr fun raw _ => ?_
    have hstatus : left.currentState raw.row.evidenceKey =
        if p.hides records t.ledger.payloadStates raw.evidenceKey then some .purged
        else right.currentState raw.row.evidenceKey :=
      lastStatus_appendStates raw.evidenceKey
    by_cases hhidden : p.hides records t.ledger.payloadStates raw.evidenceKey = true
    · simp [hstatus, hhidden, MetricQuery.readsRecord, StoredRun.query]
    · simp [hstatus, hhidden]
  exact @metricValue_of_readEvents db (r.query basis) right left.rawRecords left.rawPayloadStates
    hevents

end Hidden

section Copies

variable [Digest] {listedFirst : StoredRun → StoredRun → Bool} {rows : List StoredRun}
  {p : PurgeContext} {records : List Identifier}

omit [Digest] in
/-- The latest run of a metric is a run of the metric. -/
theorem metricName_of_latest {scope : Scope} {name : String} {r : StoredRun}
    (h : latest (isLaterRun listedFirst)
      (rows.filter (fun r => r.scope = scope && r.run.metricName = name)) = some r) :
    r ∈ rows ∧ r.scope = scope ∧ r.run.metricName = name := by
  have hmem := List.mem_filter.mp (AppendOnly.mem_of_latest h)
  simpa using hmem

omit [Digest] in
/-- The runs a request replaces are of different metrics. -/
theorem nodup_previousRuns (listedFirst : StoredRun → StoredRun → Bool) (rows : List StoredRun)
    (scope : Scope) :
    ((previousRuns listedFirst rows scope).map (·.run.metricName)).Nodup := by
  have hsub : ∀ names : List String, ((names.filterMap (fun name => latest (isLaterRun listedFirst)
      (rows.filter (fun r => r.scope = scope && r.run.metricName = name)))).map
        (·.run.metricName)).Sublist names := by
    intro names
    induction names with
    | nil => exact .slnil
    | cons name rest ih =>
        rw [List.filterMap_cons]
        cases h : latest (isLaterRun listedFirst)
            (rows.filter (fun r => r.scope = scope && r.run.metricName = name)) with
        | none => exact ih.cons name
        | some r =>
            rw [List.map_cons, (metricName_of_latest h).2.2]
            exact ih.cons_cons name
  exact (hsub replacedMetricNames).nodup (by decide)

/-- The ids of the copies are distinct, and neither they nor their keys are
taken. -/
structure FreshReplacements (listedFirst : StoredRun → StoredRun → Bool) (rows : List StoredRun)
    (p : PurgeContext) (records : List Identifier) : Prop where
  distinct : ((previousRuns listedFirst rows p.scope).map
    (fun prior => (replacementRun p records prior).run.metricRunId)).Nodup
  unused : ∀ prior ∈ previousRuns listedFirst rows p.scope,
    admitsRun rows (replacementRun p records prior) = true

theorem admitsRun_iff {r : StoredRun} : admitsRun rows r = true ↔
    r.run.metricRunId ∉ rows.map (·.run.metricRunId) ∧ r.key ∉ rows.map (·.key) := by
  rw [admitsRun, Bool.and_eq_true, decide_eq_true_iff, decide_eq_true_iff]

/-- Copies of runs of different metrics are inserted one after another. -/
theorem foldl_insertRun {priors : List StoredRun}
    (hids : (priors.map (fun prior => (replacementRun p records prior).run.metricRunId)).Nodup)
    (hnames : (priors.map (·.run.metricName)).Nodup)
    (hunused : ∀ prior ∈ priors, admitsRun rows (replacementRun p records prior) = true) :
    priors.foldl (fun rows prior => insertRun rows (replacementRun p records prior)) rows =
      rows ++ priors.map (replacementRun p records) := by
  induction priors generalizing rows with
  | nil => simp
  | cons prior rest ih =>
      rw [List.map_cons, List.nodup_cons] at hids hnames
      rw [List.forall_mem_cons] at hunused
      have hinsert : insertRun rows (replacementRun p records prior) =
          rows ++ [replacementRun p records prior] := by
        rw [insertRun, if_pos hunused.1]
      rw [List.foldl_cons, hinsert, ih hids.2 hnames.2, List.map_cons, List.append_assoc]
      · rfl
      · intro next hnext
        obtain ⟨hid, hkey⟩ := admitsRun_iff.mp (hunused.2 next hnext)
        refine admitsRun_iff.mpr ⟨?_, ?_⟩
        · rw [List.map_append, List.mem_append, List.map_singleton, List.mem_singleton, not_or]
          refine ⟨hid, fun hsame => hids.1 ?_⟩
          exact List.mem_map.mpr ⟨next, hnext, hsame⟩
        · rw [List.map_append, List.mem_append, List.map_singleton, List.mem_singleton, not_or]
          refine ⟨hkey, fun hsame => hnames.1 ?_⟩
          -- the metric's name is part of the key
          exact List.mem_map.mpr ⟨next, hnext, congrArg (fun k => k.2.1) hsame⟩

/-- **What a request inserts.**  A copy of each run it replaces, where the ids
and keys of the copies are not taken. -/
theorem replaceRuns_eq_append (hfresh : FreshReplacements listedFirst rows p records) :
    replaceRuns listedFirst rows p records =
      rows ++ (previousRuns listedFirst rows p.scope).map (replacementRun p records) :=
  foldl_insertRun hfresh.distinct (nodup_previousRuns listedFirst rows p.scope) hfresh.unused

end Copies

section Deletion

variable [Digest] {db : Database} {t t' : PrivacyTables} {p : PurgeContext}
  {records : List Identifier} {w : PrivacyWorld} {c : PrivacyCall}

omit [Digest] in
/-- The insertions change the payload states of the ledger and no more. -/
theorem AppendsPurges.ledger {scope : Scope} (h : AppendsPurges scope t t') :
    t'.ledger = { t.ledger with payloadStates := t'.ledger.payloadStates } := by
  obtain ⟨_, _, _, rfl, -⟩ := h.appended
  rfl

omit [Digest] in
/-- The payload states behind the insertion of one. -/
theorem payloadStates_of_appendState {r : Identifier} (h : t.appendState p r = some t') :
    t'.ledger.payloadStates =
      insertOnce StoredPayloadState.key (p.state r) t.ledger.payloadStates := by
  unfold PrivacyTables.appendState at h
  unfold insertOnce
  split at h
  · cases h
  · split at h
    · case isTrue htaken =>
        cases h
        rw [if_pos htaken]
    · case isFalse hfree =>
        rw [if_neg hfree]
        split at h
        · cases h
          rfl
        · cases h

/-- The payload states behind the insertions for some records. -/
theorem payloadStates_of_appendPurges (h : t.appendPurges p records = some t') :
    t'.ledger.payloadStates = p.appendStates records t.ledger.payloadStates := by
  induction records generalizing t with
  | nil =>
      cases h
      rfl
  | cons r rest ih =>
      obtain ⟨t₁, h₁, hrest⟩ := Option.bind_eq_some_iff.mp h
      obtain ⟨t₂, hstate, rfl⟩ := appendPurge_eq_some h₁
      rw [ih hrest, payloadStates_of_appendState hstate]
      rfl

/-- The tables of a completed request: its records are purged, its runs
replaced. -/
theorem tables_of_completes (h : Completes db w c) :
    (w.execute db c).tables.ledger =
      (w.tables.withPurged (c.environment.context c.body) (c.affected db w.tables)).ledger ∧
    (w.execute db c).tables.costRecords = w.tables.costRecords ∧
    (w.execute db c).tables.metricRuns = replaceRuns c.environment.listedFirst w.tables.metricRuns
      (c.environment.context c.body) (c.affected db w.tables) := by
  obtain ⟨t', hdeletion, hrun⟩ := execute_of_completes h
  obtain ⟨t₁, h₁, rfl⟩ := recordDeletion_eq_some hdeletion
  have hstates := payloadStates_of_appendPurges h₁
  have happends := appendsPurges_of_appendPurges h₁
  have hledger := happends.ledger
  rw [hstates] at hledger
  obtain ⟨_, _, _, ht₁, -⟩ := happends.appended
  rw [hrun]
  refine ⟨hledger, ?_, ?_⟩
  · show t₁.costRecords = _
    rw [ht₁]
    rfl
  · show replaceRuns _ t₁.metricRuns _ _ = _
    rw [ht₁]
    rfl

/-- A request that does not complete leaves the tables as they were. -/
theorem tables_of_not_completes (h : ¬Completes db w c) :
    (w.execute db c).tables = w.tables := by
  unfold PrivacyWorld.execute
  unfold Completes at h
  cases hrefusal : refusal c.identity c.body with
  | some failure => rw [execute_of_refused hrefusal]
  | none =>
      cases hfault : c.environment.fault with
      | some n => rw [execute_of_fault db w hrefusal hfault]
      | none =>
          rw [execute_of_no_fault db w hrefusal hfault] at h ⊢
          cases hdeletion : recordDeletion w.tables c.identity c.body c.environment
              (affectedRecordIds db c.body w.tables.ledger) with
          | none => rfl
          | some t' =>
              rw [hdeletion] at h
              exact absurd ⟨_, rfl⟩ h

end Deletion

section Law

variable [Digest] (db : Database) (w : PrivacyWorld) (c : PrivacyCall)
  (basisOf : StoredRun → RunBasis)

/-- **Recalculated metrics.**  Behind a completed request every run whose
evidence names an affected record has a successor, and every run the request
wrote as recalculated has the value of the data that remains. -/
structure MetricsRecalculated : Prop where
  successors : Completes db w c → ∀ r ∈ w.tables.metricRuns,
    r.touches (c.affected db w.tables) = true →
      ∃ s ∈ (w.execute db c).tables.metricRuns,
        s.run.supersedesMetricRunId = some r.run.metricRunId
  values : ∀ r ∈ (w.execute db c).tables.metricRuns, r ∉ w.tables.metricRuns →
    r.run.dataFreshness = "recalculated" →
      (w.execute db c).tables.remainingValue db r (basisOf r) = .ok r.run.value

/-- The copy of a run in the request. -/
def PrivacyCall.copy (r : StoredRun) : StoredRun :=
  replacementRun (c.environment.context c.body) (c.affected db w.tables) r

/-- The runs a request replaces are all the affected ones that have no
successor, and each of them has, counted now but without the records the
request hides, the value it was stored with. -/
structure CopiesSuffice : Prop where
  all : ∀ r ∈ w.tables.metricRuns, r.touches (c.affected db w.tables) = true →
    (∃ s ∈ w.tables.metricRuns, s.run.supersedesMetricRunId = some r.run.metricRunId) ∨
      ∃ prior ∈ previousRuns c.environment.listedFirst w.tables.metricRuns c.body.scope,
        prior.run.metricRunId = r.run.metricRunId
  unchanged : ∀ prior ∈ previousRuns c.environment.listedFirst w.tables.metricRuns c.body.scope,
    (w.tables.withoutHidden (c.environment.context c.body)
      (c.affected db w.tables)).remainingValue db prior (basisOf (c.copy db w prior)) =
        .ok prior.run.value

variable {db w c basisOf}

omit [Digest] in
theorem scope_of_mem_previousRuns {listedFirst : StoredRun → StoredRun → Bool}
    {rows : List StoredRun} {scope : Scope} {prior : StoredRun}
    (h : prior ∈ previousRuns listedFirst rows scope) : prior.scope = scope := by
  obtain ⟨name, -, hlatest⟩ := List.mem_filterMap.mp h
  exact (metricName_of_latest hlatest).2.1

/-- The copy of a run asks what the run asked. -/
theorem query_copy {prior : StoredRun}
    (h : prior ∈ previousRuns c.environment.listedFirst w.tables.metricRuns c.body.scope)
    (basis : RunBasis) :
    (c.copy db w prior).query basis = prior.query basis := by
  unfold StoredRun.query
  rw [scope_of_mem_previousRuns h]
  rfl

/-- The value of a copy behind the request is that of the run without the
records the request hides. -/
theorem remainingValue_copy {prior : StoredRun}
    (h : prior ∈ previousRuns c.environment.listedFirst w.tables.metricRuns c.body.scope)
    (basis : RunBasis) :
    (w.tables.withPurged (c.environment.context c.body) (c.affected db w.tables)).remainingValue db
        (c.copy db w prior) basis =
      (w.tables.withoutHidden (c.environment.context c.body)
        (c.affected db w.tables)).remainingValue db prior basis := by
  rw [remainingValue_withPurged]
  unfold PrivacyTables.remainingValue
  rw [query_copy h]

/-- **When a request recalculates its metrics.**  Exactly when it does not
complete, or the runs it copies are all it has to replace and none of their
values changed. -/
theorem metricsRecalculated_iff (hfresh : FreshReplacements c.environment.listedFirst
      w.tables.metricRuns (c.environment.context c.body) (c.affected db w.tables)) :
    MetricsRecalculated db w c basisOf ↔
      (Completes db w c → CopiesSuffice db w c basisOf) := by
  by_cases hcompletes : Completes db w c
  · obtain ⟨hledger, hcosts, hruns⟩ := tables_of_completes hcompletes
    rw [replaceRuns_eq_append hfresh] at hruns
    have hvalue : ∀ r basis, (w.execute db c).tables.remainingValue db r basis =
        (w.tables.withPurged (c.environment.context c.body)
          (c.affected db w.tables)).remainingValue db r basis := by
      intro r basis
      unfold PrivacyTables.remainingValue
      rw [hledger, hcosts]
      rfl
    have hnew : ∀ prior ∈ previousRuns c.environment.listedFirst w.tables.metricRuns c.body.scope,
        c.copy db w prior ∉ w.tables.metricRuns := by
      intro prior hprior hmem
      exact (admitsRun_iff.mp (hfresh.unused prior hprior)).1 (List.mem_map.mpr ⟨_, hmem, rfl⟩)
    constructor
    · intro hlaw _
      refine ⟨fun r hr htouches => ?_, fun prior hprior => ?_⟩
      · obtain ⟨s, hs, hsupersedes⟩ := hlaw.successors hcompletes r hr htouches
        rw [hruns] at hs
        rcases List.mem_append.mp hs with hs | hs
        · exact .inl ⟨s, hs, hsupersedes⟩
        · obtain ⟨prior, hprior, rfl⟩ := List.mem_map.mp hs
          exact .inr ⟨prior, hprior, Option.some.inj hsupersedes⟩
      · have hcopy : c.copy db w prior ∈ (w.execute db c).tables.metricRuns := by
          rw [hruns]
          exact List.mem_append_right _ (List.mem_map_of_mem hprior)
        have hlawful := hlaw.values _ hcopy (hnew prior hprior) rfl
        rw [hvalue, remainingValue_copy hprior] at hlawful
        exact hlawful
    · intro hsuffice
      obtain ⟨hall, hunchanged⟩ := hsuffice hcompletes
      refine ⟨fun _ r hr htouches => ?_, fun r hr hr' _ => ?_⟩
      · rw [hruns]
        rcases hall r hr htouches with ⟨s, hs, hsupersedes⟩ | ⟨prior, hprior, hid⟩
        · exact ⟨s, List.mem_append_left _ hs, hsupersedes⟩
        · refine ⟨_, List.mem_append_right _ (List.mem_map_of_mem hprior), ?_⟩
          exact congrArg some hid
      · rw [hruns] at hr
        obtain ⟨prior, hprior, rfl⟩ := List.mem_map.mp ((List.mem_append.mp hr).resolve_left hr')
        rw [hvalue]
        exact (remainingValue_copy hprior _).trans (hunchanged prior hprior)
  · have htables := tables_of_not_completes hcompletes
    refine iff_of_true ⟨fun h => absurd h hcompletes, fun r hr hr' => ?_⟩
      (fun h => absurd h hcompletes)
    rw [htables] at hr
    exact absurd hr hr'

end Law

section Runs

attribute [local instance] checksumDigest

/-- An install, as ingestion stores it. -/
def measuredLedger : Ledger where
  rawRecords := [
    { storedRecord cohortScope (.named "install") "encrypted:install" with
      eventName := .install }]
  payloadStates := [
    ⟨cohortScope, .named "install", .available,
      ⟨2026, 1, 1, 0, 0, 0, 0⟩, none, none⟩]
  logicalEvents := [
    ⟨launchInstall, ⟨"event", .named "install", cohortScope.tenantId,
      cohortScope.appId, .sdkAndroid, .named "install", .install, .onTime⟩⟩]
  installFacts := [⟨"event", cohortScope, .named "installation", none,
    ⟨2026, 1, 1, 0, 0, 0, 0⟩, []⟩]

/-- The size of the cohort, under the name of a metric requests replace. -/
def measuredBasis : RunBasis where
  definition := { baseMetricDefinition "d0_install_to_24h_ad_revenue_usd" .utc .elapsed with
    valueType := .count
    definition := { calculation := .cohortSize, window := ⟨.elapsed, 0⟩, numerator := .cohortSize } }
  fxPolicy := ⟨"fx", "USD", 6, "half_even", [⟨"USD", ⟨[1]⟩, 0, "source", ⟨2026, 1, 1, 0, 0, 0, 0⟩⟩]⟩

/-- The metric of a basis, up to a day. -/
def measuredInput (basis : RunBasis) (day : Fin 100) : MetricInput where
  scope := cohortScope
  fxPolicy := basis.fxPolicy
  metricDefinitions := [basis.definition]
  metricEvaluations := [{
    metricRunIdPrefix := .named "run"
    inputReceivedAtWatermark := ⟨2026, 1, day, 0, 0, 0, 0⟩
    computedAt := ⟨2026, 1, day, 0, 0, 0, 0⟩
    dataFreshness := "final"
    privacyState := .before
    metricNames := some [basis.definition.metricName] }]

/-- A ledger with the run of a day. -/
def measuredWorld (ledger : Ledger) (basis : RunBasis) (day : Fin 100) : PrivacyWorld where
  tables := computeSqlMetricRuns plainDatabase
    { ledger := ledger, policyDigest := fun _ => some zeroHash } (measuredInput basis day)
  readable := ["encrypted:install", "encrypted:other", "encrypted:record"]

/-- A run the request wrote as recalculated has another value than that of the
remaining data. -/
def hasStaleCopy (w : PrivacyWorld) (c : PrivacyCall) : Bool :=
  (w.execute plainDatabase c).tables.metricRuns.any (fun r =>
    r.run.metricRunId ∉ w.tables.metricRuns.map (·.run.metricRunId) &&
      r.run.dataFreshness = "recalculated" &&
      (w.execute plainDatabase c).tables.remainingValue plainDatabase r measuredBasis ≠
        .ok r.run.value)

theorem not_recalculated_of_hasStaleCopy {w : PrivacyWorld} {c : PrivacyCall}
    (h : hasStaleCopy w c = true) :
    ¬MetricsRecalculated plainDatabase w c (fun _ => measuredBasis) := by
  intro hlaw
  obtain ⟨r, hr, hstale⟩ := List.any_eq_true.mp h
  rw [Bool.and_eq_true, Bool.and_eq_true, decide_eq_true_iff, decide_eq_true_iff,
    decide_eq_true_iff] at hstale
  obtain ⟨⟨hnew, hfreshness⟩, hvalue⟩ := hstale
  have hold : r ∉ w.tables.metricRuns := fun hmem => hnew (List.mem_map.mpr ⟨r, hmem, rfl⟩)
  exact hvalue (hlaw.values r hr hold hfreshness)

set_option maxRecDepth 4000 in
/-- **A stale recalculation.**  The app's only install is deleted; the size of
its cohort is recalculated as one, because the request copies the run and
counts nothing. -/
theorem stale_copy_recalculated :
    Completes plainDatabase (measuredWorld measuredLedger measuredBasis 2) appCall ∧
    ¬MetricsRecalculated plainDatabase (measuredWorld measuredLedger measuredBasis 2) appCall
      (fun _ => measuredBasis) :=
  ⟨completes_of_isOk (by decide +kernel),
    not_recalculated_of_hasStaleCopy (by decide +kernel)⟩

/-- The event of an install, and the installation. -/
def installRows (name installation : Identifier) :
    StoredEvent × InstallFact :=
  (⟨launchAttempt name { eventName := .install }, ⟨"event:" ++ name.text, name,
      cohortScope.tenantId, cohortScope.appId, .sdkAndroid, name, .install, .onTime⟩⟩,
    ⟨"event:" ++ name.text, cohortScope, installation, none, ⟨2026, 1, 1, 0, 0, 0, 0⟩, []⟩)

/-- Two installs, the second with a revenue of one dollar. -/
def revenueLedger : Ledger where
  rawRecords := [
    { storedRecord cohortScope (.named "install") "encrypted:install" with
      eventName := .install },
    { storedRecord cohortScope (.named "other") "encrypted:other" with
      eventName := .install },
    storedRecord cohortScope (.named "record") "encrypted:record"]
  payloadStates := [.named "install", .named "other",
    .named "record"].map (fun id =>
      ⟨cohortScope, id, .available, ⟨2026, 1, 1, 0, 0, 0, 0⟩, none, none⟩)
  logicalEvents := [
    (installRows (.named "install")
      (.named "installation")).1,
    (installRows (.named "other") (.named "other")).1,
    ⟨launchAttempt (.named "record") { eventName := .adRevenue },
      ⟨"event:record", .named "record", cohortScope.tenantId,
        cohortScope.appId, .sdkAndroid, .named "record", .adRevenue,
        .onTime⟩⟩]
  installFacts := [
    (installRows (.named "install")
      (.named "installation")).2,
    (installRows (.named "other") (.named "other")).2]
  facts := [{
    table := .adRevenue
    logicalEventId := "event:record"
    scope := cohortScope
    installationId := some (.named "other")
    occurredAt := ⟨2026, 1, 1, 0, 0, 0, 0⟩
    columns := [("amount_unscaled", some (.str "1")), ("amount_scale", some (.num 0)),
      ("currency", some (.str "USD"))] }]

/-- The revenue of the first day. -/
def revenueBasis : RunBasis :=
  ⟨baseMetricDefinition "d0_install_to_24h_ad_revenue_usd" .utc .elapsed, measuredBasis.fxPolicy⟩

/-- The two installs, with the run of the revenue. -/
def revenueWorld : PrivacyWorld := measuredWorld revenueLedger revenueBasis 2

/-- The app's administrator deletes the first installation. -/
def installationCall : PrivacyCall where
  identity := appAdmin
  body := { adminRequest .installation with
    deletionSubjectRef := .named "installation" }
  environment := quietEnvironment

set_option maxRecDepth 4000 in
/-- The request completes; the run names the deleted install among its
evidence, and has the value 1.000000. -/
theorem revenueWorld_runs :
    Completes plainDatabase revenueWorld installationCall ∧
    revenueWorld.tables.metricRuns.map (fun r =>
      (r.run.value, r.touches (installationCall.affected plainDatabase revenueWorld.tables))) =
        [(.present 1000000, true)] :=
  ⟨completes_of_isOk (by decide +kernel), by decide +kernel⟩

set_option maxRecDepth 4000 in
/-- **A value that stays.**  The first of two installs is deleted; the revenue
of the second is recalculated as it was. -/
theorem kept_revenue_recalculated :
    MetricsRecalculated plainDatabase revenueWorld installationCall (fun _ => revenueBasis) := by
  have hfresh : FreshReplacements installationCall.environment.listedFirst
      revenueWorld.tables.metricRuns
      (installationCall.environment.context installationCall.body)
      (installationCall.affected plainDatabase revenueWorld.tables) :=
    ⟨by decide +kernel, by decide +kernel⟩
  have hreplaced : ∀ r ∈ revenueWorld.tables.metricRuns,
      ∃ prior ∈ previousRuns installationCall.environment.listedFirst
          revenueWorld.tables.metricRuns installationCall.body.scope,
        prior.run.metricRunId = r.run.metricRunId := by decide +kernel
  have hunchanged : ∀ prior ∈ previousRuns installationCall.environment.listedFirst
      revenueWorld.tables.metricRuns installationCall.body.scope,
      (revenueWorld.tables.withoutHidden (installationCall.environment.context installationCall.body)
        (installationCall.affected plainDatabase revenueWorld.tables)).remainingValue plainDatabase
          prior revenueBasis = .ok prior.run.value := by
    decide +kernel
  exact (metricsRecalculated_iff hfresh).mpr
    (fun _ => ⟨fun r hr _ => .inr (hreplaced r hr), hunchanged⟩)

end Runs

end OpenMasu
