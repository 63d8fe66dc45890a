import OpenMasu.PrivacyMetrics
import OpenMasu.Supersession

/-!
# Chains of metric runs

Three writers append metric runs that supersede others: an evaluation names
its predecessor by a prefix, a request replaces the latest run of a metric,
and a pass over the requests continues the direct successor of a source.
None of them looks for the head; the runs form chains while every predecessor
happens to be one.

* `MetricStep` — the writers, and whatever else changes the other tables;
* `AppendsToHeads` — the steps whose predecessors are heads;
* `grown_persistRuns`, `grown_replaceRuns`, `grown_reapplyRequests` — a step
  of each writer;
* `metricRuns_isChain` — the law, over all runs of such steps.
-/

namespace OpenMasu

open AppendOnly (StepsMeet)
open Supersession (Extends Grown IsChain IsHead)

/-- The metric runs, as rows that supersede rows. -/
def runTable : Supersession.Table StoredRun String Unit where
  id := (·.run.metricRunId)
  target := (·.run.supersedesMetricRunId)
  subject := fun _ => none

/-- The id is that of a run no other supersedes. -/
def IsHeadId (rows : List StoredRun) (id : String) : Prop :=
  ∃ p, IsHead runTable rows p ∧ p.run.metricRunId = id

/-- The ids of the runs an input supersedes. -/
def MetricInput.replaced (input : MetricInput) : List String :=
  input.metricEvaluations.flatMap (fun e => (e.metricNames.getD []).filterMap (fun name =>
    e.supersedesMetricRunIdPrefix.map (fun p => p.text ++ ":" ++ name)))

section Steps

variable [Digest] (db : Database)

/-- What happens to the tables: an evaluation, a request, a pass over the
requests of a tenant, or anything that leaves the metric runs alone. -/
inductive MetricStep where
  | compute (input : MetricInput)
  | request (call : PrivacyCall)
  | reapply (tenantId : Identifier)
  | other (tables : PrivacyTables) (readable : List String)

def MetricStep.apply (w : PrivacyWorld) : MetricStep → PrivacyWorld
  | compute input => { w with tables := computeSqlMetricRuns db w.tables input }
  | request call => w.execute db call
  | reapply tenantId => (reapplyCompletedPrivacyRequests db w tenantId).1
  | other tables readable => ⟨{ tables with metricRuns := w.tables.metricRuns }, readable⟩

/-- The run a pass continues: the direct successor of the source, or the
source. -/
def continuedRun (t : PrivacyTables) (a : DeletionArtifact) (m : ReplayManifest) : String :=
  (directSuccessor db t.metricRuns a.scope m.sourceMetricRunId).elim m.sourceMetricRunId
    (·.run.metricRunId)

/-- Each source is replaced already, or the run its replacement continues is a
head when it is replaced. -/
def ReplacesHeads (a : DeletionArtifact) : List ReplayManifest → PrivacyTables → Prop
  | [], _ => True
  | m :: rest, t =>
      (replacementId a m.sourceMetricRunId ∈ t.metricRuns.map (·.run.metricRunId) ∨
        IsHeadId t.metricRuns (continuedRun db t a m)) ∧
      ∀ t', replaceSource db t a m = some t' → ReplacesHeads a rest t'

/-- The sources a request replaces. -/
def PrivacyTables.affectedManifests (t : PrivacyTables) (a : DeletionArtifact)
    (records : List Identifier) : List ReplayManifest :=
  ((t.replayable db a.scope).filter (fun e => e.2.touches records)).map (·.1)

/-- The tables a request recomputes its runs on. -/
def PrivacyTables.dropLookups (t : PrivacyTables) (a : DeletionArtifact)
    (records : List Identifier) : PrivacyTables :=
  { t with lookups := t.lookups.filter (fun r => !a.selects records r.scope r.installRecordId) }

/-- Each request of a pass replaces sources so. -/
def PassReplacesHeads : List DeletionArtifact → PrivacyTables → Prop
  | [], _ => True
  | a :: rest, t => ∀ records, a.records = some records →
      (∀ t₁, t.appendPurges a.context records = some t₁ →
        ReplacesHeads db a ((t₁.dropLookups a records).affectedManifests db a records)
          (t₁.dropLookups a records)) ∧
      ∀ t', reapplyOne db t a records = some t' → PassReplacesHeads rest t'

/-- **The condition on a step.**  An evaluation supersedes different heads; a
request finds the latest runs of its metrics to be heads; a pass continues a
head whenever it replaces a source. -/
def AppendsToHeads (w : PrivacyWorld) : MetricStep → Prop
  | .compute input => input.replaced.Nodup ∧ ∀ id ∈ input.replaced, IsHeadId w.tables.metricRuns id
  | .request call => ∀ prior ∈ previousRuns call.environment.listedFirst w.tables.metricRuns
      call.body.scope, IsHead runTable w.tables.metricRuns prior
  | .reapply tenantId => PassReplacesHeads db (w.tables.completedRequests db tenantId) w.tables
  | .other _ _ => True

end Steps

section Insertion

variable [Digest] {rows rows' : List StoredRun} {r : StoredRun}

omit [Digest] in
/-- The head of a run's id stays a head when another is superseded. -/
theorem IsHeadId.append {id : String} (h : IsHeadId rows id)
    (hne : r.run.supersedesMetricRunId ≠ some id) : IsHeadId (rows ++ [r]) id := by
  obtain ⟨p, hp, rfl⟩ := h
  exact ⟨p, hp.append hne, rfl⟩

/-- A run that supersedes a head extends the runs. -/
theorem grown_append (hgrown : Grown runTable rows) (hadmits : admitsRun rows r = true)
    (hnext : ∀ x, r.run.supersedesMetricRunId = some x → IsHeadId rows x) :
    Grown runTable (rows ++ [r]) :=
  hgrown.append ⟨(admitsRun_iff.mp hadmits).1, hnext⟩

theorem persistMetricRun_eq_some (h : persistMetricRun rows r = some rows') :
    admitsRun rows r = true ∧ rows' = rows ++ [r] := by
  unfold persistMetricRun at h
  split at h
  · case isTrue hadmits =>
      cases h
      exact ⟨hadmits, rfl⟩
  · cases h

end Insertion

section Compute

variable [Digest] {db : Database} {t t' : PrivacyTables} {input : MetricInput}

/-- The runs of an evaluation name their predecessors by its prefix. -/
theorem supersedes_of_sqlEvaluationRuns {rate : FxRate} {e : MetricEvaluation}
    {entries : List (MetricRun × ReplayManifest)}
    (h : sqlEvaluationRuns db t input rate e = .ok entries) :
    entries.map (·.1.supersedesMetricRunId) = (e.metricNames.getD []).map (fun name =>
      e.supersedesMetricRunIdPrefix.map (fun p => p.text ++ ":" ++ name)) := by
  unfold sqlEvaluationRuns at h
  obtain ⟨inputSnapshotId, -, h⟩ := PartialList.bind_eq_ok.mp h
  refine PartialList.map_of_traverse h (fun name _ entry hentry => ?_)
  unfold sqlMetricRun at hentry
  split at hentry
  · cases hentry
  · obtain ⟨value, -, hentry⟩ := PartialList.bind_eq_ok.mp hentry
    cases hentry
    rfl

/-- So do the runs of several evaluations. -/
theorem supersedes_flatten {rate : FxRate} {evaluations : List MetricEvaluation}
    {runs : List (List (MetricRun × ReplayManifest))}
    (h : List.Forall₂ (fun e new => sqlEvaluationRuns db t input rate e = .ok new) evaluations runs) :
    runs.flatten.filterMap (·.1.supersedesMetricRunId) =
      evaluations.flatMap (fun e => (e.metricNames.getD []).filterMap (fun name =>
        e.supersedesMetricRunIdPrefix.map (fun p => p.text ++ ":" ++ name))) := by
  induction h with
  | nil => rfl
  | cons he _ ih =>
      have hnew := congrArg (fun l => l.filterMap id) (supersedes_of_sqlEvaluationRuns he)
      simp only [List.filterMap_map, Function.comp_def, id_eq] at hnew
      rw [List.flatten_cons, List.filterMap_append, List.flatMap_cons, ih, hnew]

/-- **The predecessors of an input** are those it names, one for each run that
has one. -/
theorem supersedes_of_sqlMetricRuns {entries : List (MetricRun × ReplayManifest)}
    (h : sqlMetricRuns db t input = .ok entries) :
    entries.filterMap (·.1.supersedesMetricRunId) = input.replaced := by
  unfold sqlMetricRuns at h
  split at h
  · obtain ⟨_, -, h⟩ := PartialList.bind_eq_ok.mp h
    obtain ⟨runs, hruns, h⟩ := PartialList.bind_eq_ok.mp h
    obtain rfl := PartialList.pure_eq_ok.mp h
    exact supersedes_flatten (PartialList.traverse_eq_ok.mp hruns)
  · cases h

/-- **Step.**  Runs that supersede different heads are stored in chains. -/
theorem grown_persistRuns {scope : Scope} {entries : List (MetricRun × ReplayManifest)}
    (h : persistRuns scope t entries = some t') (hgrown : Grown runTable t.metricRuns)
    (hnodup : (entries.filterMap (·.1.supersedesMetricRunId)).Nodup)
    (hheads : ∀ x ∈ entries.filterMap (·.1.supersedesMetricRunId), IsHeadId t.metricRuns x) :
    Grown runTable t'.metricRuns := by
  induction entries generalizing t with
  | nil =>
      cases h
      exact hgrown
  | cons entry rest ih =>
      obtain ⟨metricRuns, hpersist, h⟩ := Option.bind_eq_some_iff.mp h
      obtain ⟨hadmits, rfl⟩ := persistMetricRun_eq_some hpersist
      have hnext : ∀ x, entry.1.supersedesMetricRunId = some x → IsHeadId t.metricRuns x := by
        intro x hx
        exact hheads x (List.mem_filterMap.mpr ⟨entry, List.mem_cons_self, hx⟩)
      refine ih h (grown_append hgrown hadmits hnext) ?_ ?_
      · exact hnodup.sublist ((List.sublist_cons_self entry rest).filterMap _)
      · intro x hx
        refine (hheads x ?_).append (fun htarget => ?_)
        · exact ((List.sublist_cons_self entry rest).filterMap _).subset hx
        · -- the predecessors are different
          rw [List.filterMap_cons, show entry.1.supersedesMetricRunId = some x from htarget] at hnodup
          exact (List.nodup_cons.mp hnodup).1 hx

/-- **Step.**  An evaluation that supersedes different heads keeps the
chains. -/
theorem grown_compute (hgrown : Grown runTable t.metricRuns) (hnodup : input.replaced.Nodup)
    (hheads : ∀ id ∈ input.replaced, IsHeadId t.metricRuns id) :
    Grown runTable (computeSqlMetricRuns db t input).metricRuns := by
  unfold computeSqlMetricRuns
  split
  · exact hgrown
  · case h_2 entries hentries =>
      have hreplaced := supersedes_of_sqlMetricRuns hentries
      cases hpersist : persistRuns input.scope t entries with
      | none => exact hgrown
      | some t' =>
          exact grown_persistRuns hpersist hgrown (hreplaced ▸ hnodup) (hreplaced ▸ hheads)

end Compute

section Replace

variable [Digest] {db : Database} {listedFirst : StoredRun → StoredRun → Bool}
  {rows : List StoredRun} {p : PurgeContext} {records : List Identifier}

/-- Copies of different heads are inserted in chains. -/
theorem grown_foldl_insertRun {priors : List StoredRun} (hgrown : Grown runTable rows)
    (hids : (priors.map (·.run.metricRunId)).Nodup)
    (hheads : ∀ prior ∈ priors, IsHeadId rows prior.run.metricRunId) :
    Grown runTable
      (priors.foldl (fun rows prior => insertRun rows (replacementRun p records prior)) rows) := by
  induction priors generalizing rows with
  | nil => exact hgrown
  | cons prior rest ih =>
      rw [List.map_cons, List.nodup_cons] at hids
      rw [List.forall_mem_cons] at hheads
      rw [List.foldl_cons]
      unfold insertRun
      split
      · case isTrue hadmits =>
          refine ih (grown_append hgrown hadmits (fun x hx => ?_)) hids.2 (fun next hnext => ?_)
          · exact Option.some.inj hx ▸ hheads.1
          · refine (hheads.2 next hnext).append (fun hsame => hids.1 ?_)
            exact List.mem_map.mpr ⟨next, hnext, (Option.some.inj hsame).symm⟩
      · exact ih hgrown hids.2 hheads.2

/-- **Step.**  A request that finds its latest runs to be heads keeps the
chains. -/
theorem grown_replaceRuns (hgrown : Grown runTable rows)
    (hheads : ∀ prior ∈ previousRuns listedFirst rows p.scope, IsHead runTable rows prior) :
    Grown runTable (replaceRuns listedFirst rows p records) := by
  refine grown_foldl_insertRun hgrown ?_ (fun prior hprior => ⟨prior, hheads prior hprior, rfl⟩)
  -- runs of different metrics have different ids
  refine (List.Nodup.of_map (·.run.metricName)
    (nodup_previousRuns listedFirst rows p.scope)).map_on ?_
  intro a ha b hb hid
  exact List.inj_on_of_nodup_map hgrown.nodup (hheads a ha).1 (hheads b hb).1 hid

end Replace

section Reapply

variable [Digest] {db : Database} {t t' : PrivacyTables} {a : DeletionArtifact}

/-- The run that replaces a source continues a run. -/
theorem recalculated_target {m : ReplayManifest} {r : StoredRun}
    (h : recalculated db t a m = some r) :
    r.run.supersedesMetricRunId = some (continuedRun db t a m) := by
  unfold recalculated at h
  split at h
  · cases h
    rfl
  · cases h

/-- **Step.**  Sources whose replacements continue heads are replaced in
chains. -/
theorem grown_replaceSources {ms : List ReplayManifest} (hgrown : Grown runTable t.metricRuns)
    (hheads : ReplacesHeads db a ms t) (h : replaceSources db a ms t = some t') :
    Grown runTable t'.metricRuns := by
  induction ms generalizing t with
  | nil =>
      cases h
      exact hgrown
  | cons m rest ih =>
      obtain ⟨t₁, hone, h⟩ := Option.bind_eq_some_iff.mp h
      refine ih ?_ (hheads.2 t₁ hone) h
      unfold replaceSource at hone
      split at hone
      · cases hone
        exact hgrown
      · case isFalse hfree =>
          obtain ⟨run, hrun, hone⟩ := Option.bind_eq_some_iff.mp hone
          obtain ⟨metricRuns, hpersist, hone⟩ := Option.bind_eq_some_iff.mp hone
          cases hone
          obtain ⟨hadmits, rfl⟩ := persistMetricRun_eq_some hpersist
          refine grown_append hgrown hadmits (fun x hx => ?_)
          rw [recalculated_target hrun] at hx
          exact Option.some.inj hx ▸ hheads.1.resolve_left hfree

/-- What a re-applied request does to the metric runs. -/
theorem reapplyOne_metricRuns {records : List Identifier}
    (h : reapplyOne db t a records = some t') :
    ∃ t₁ t₂, t.appendPurges a.context records = some t₁ ∧
      replaceSources db a ((t₁.dropLookups a records).affectedManifests db a records)
        (t₁.dropLookups a records) = some t₂ ∧ t'.metricRuns = t₂.metricRuns := by
  obtain ⟨t₁, h₁, h⟩ := Option.bind_eq_some_iff.mp h
  obtain ⟨t₂, h₂, h⟩ := Option.bind_eq_some_iff.mp h
  cases h
  refine ⟨t₁, t₂, h₁, h₂, ?_⟩
  unfold PrivacyTables.logReapply
  split <;> rfl

/-- **Pass.**  A pass whose replacements continue heads keeps the chains,
request by request. -/
theorem grown_reapplyRequests {requests : List DeletionArtifact} {readable : List String}
    (hgrown : Grown runTable t.metricRuns) (hheads : PassReplacesHeads db requests t)
    (h : (reapplyRequests db requests t readable).1 = some t') :
    Grown runTable t'.metricRuns := by
  induction requests generalizing t readable with
  | nil =>
      cases h
      exact hgrown
  | cons a rest ih =>
      unfold reapplyRequests at h
      cases hrecords : a.records with
      | none =>
          rw [hrecords] at h
          cases h
      | some records =>
          rw [hrecords] at h
          dsimp only at h
          obtain ⟨hone, hrest⟩ := hheads records hrecords
          cases hreapplied : reapplyOne db t a records with
          | none =>
              rw [hreapplied] at h
              cases h
          | some t₁ =>
              rw [hreapplied] at h
              refine ih ?_ (hrest t₁ hreapplied) h
              obtain ⟨t₂, t₃, hpurged, hreplaced, hruns⟩ := reapplyOne_metricRuns hreapplied
              obtain ⟨_, _, _, ht₂, -⟩ := (appendsPurges_of_appendPurges hpurged).appended
              rw [hruns]
              refine grown_replaceSources ?_ (hone t₂ hpurged) hreplaced
              rw [ht₂]
              exact hgrown

/-- **Step.**  A pass over the requests of a tenant keeps the chains. -/
theorem grown_reapply {w : PrivacyWorld} {tenantId : Identifier}
    (hgrown : Grown runTable w.tables.metricRuns)
    (hheads : PassReplacesHeads db (w.tables.completedRequests db tenantId) w.tables) :
    Grown runTable (reapplyCompletedPrivacyRequests db w tenantId).1.tables.metricRuns := by
  unfold reapplyCompletedPrivacyRequests
  cases hpass : (reapplyRequests db (w.tables.completedRequests db tenantId) w.tables
      w.readable).1 with
  | none =>
      simp only [hpass, Option.getD_none]
      exact hgrown
  | some t' =>
      simp only [hpass, Option.getD_some]
      exact grown_reapplyRequests hgrown hheads hpass

end Reapply

section Law

variable [Digest] {db : Database} {w : PrivacyWorld}

/-- A request keeps the metric runs, or replaces some. -/
theorem metricRuns_execute (db : Database) (w : PrivacyWorld) (c : PrivacyCall) :
    (w.execute db c).tables.metricRuns = w.tables.metricRuns ∨
      (w.execute db c).tables.metricRuns =
        replaceRuns c.environment.listedFirst w.tables.metricRuns (c.environment.context c.body)
          (c.affected db w.tables) := by
  by_cases hcompletes : Completes db w c
  · exact .inr (tables_of_completes hcompletes).2.2
  · rw [tables_of_not_completes hcompletes]
    exact .inl rfl

/-- **Step.**  A step whose predecessors are heads keeps the chains.  The cases
are the three writers and the steps that leave the runs alone. -/
theorem grown_step {step : MetricStep} (hgrown : Grown runTable w.tables.metricRuns)
    (hheads : AppendsToHeads db w step) :
    Grown runTable (step.apply db w).tables.metricRuns := by
  cases step with
  | compute input => exact grown_compute hgrown hheads.1 hheads.2
  | request c =>
      have hruns := metricRuns_execute db w c
      rcases hruns with hruns | hruns
      · exact hruns ▸ hgrown
      · exact hruns ▸ grown_replaceRuns hgrown hheads
  | reapply tenantId => exact grown_reapply hgrown hheads
  | other _ _ => exact hgrown

/-- **Chains of metric runs.**  From no runs on, in every state reached by
steps whose predecessors are heads, the runs form chains: each is superseded
by at most one, none in a cycle, and every original run has one head. -/
theorem metricRuns_isChain (hstart : w.tables.metricRuns = []) (steps : List MetricStep)
    (hmeet : StepsMeet (MetricStep.apply db) (AppendsToHeads db) w steps) :
    ∀ taken left, steps = taken ++ left →
      IsChain runTable (taken.foldl (MetricStep.apply db) w).tables.metricRuns := by
  intro taken left hsteps
  rw [hsteps] at hmeet
  have hgrown : Grown runTable (taken.foldl (MetricStep.apply db) w).tables.metricRuns :=
    AppendOnly.invariant_of_steps (fun _ _ => grown_step) hmeet.of_append (hstart ▸ .nil)
  exact hgrown.isChain

end Law

section Runs

attribute [local instance] checksumDigest

/-- An evaluation of the cohort's size. -/
def chainInput (name : Identifier) (predecessor : Option Identifier) (watermark : Timestamp) :
    MetricInput :=
  { measuredInput measuredBasis 2 with
    metricEvaluations := [{
      metricRunIdPrefix := name
      inputReceivedAtWatermark := watermark
      computedAt := watermark
      dataFreshness := "final"
      privacyState := .before
      supersedesMetricRunIdPrefix := predecessor
      metricNames := some [measuredBasis.definition.metricName] }] }

/-- The ledger of the install, without metric runs. -/
def unmeasuredWorld : PrivacyWorld where
  tables := { ledger := measuredLedger, policyDigest := fun _ => some zeroHash }

/-- An evaluation, a request, and the next evaluation. -/
def evaluationsAroundRequest : List MetricStep := [
  .compute (chainInput (.named "first") none ⟨2025, 12, 31, 0, 0, 0, 0⟩),
  .request appCall,
  .compute (chainInput (.named "second")
    (some (.named "first")) ⟨2026, 1, 3, 0, 0, 0, 0⟩)]

/-- Two different runs supersede the same. -/
def hasFork (rows : List StoredRun) : Bool :=
  rows.any (fun r => rows.any (fun s => r.run.supersedesMetricRunId.isSome &&
    r.run.supersedesMetricRunId = s.run.supersedesMetricRunId &&
    r.run.metricRunId ≠ s.run.metricRunId))

theorem not_isChain_of_hasFork {rows : List StoredRun} (h : hasFork rows = true) :
    ¬IsChain runTable rows := by
  intro hchain
  obtain ⟨r, hr, hfork⟩ := List.any_eq_true.mp h
  obtain ⟨s, hs, hfork⟩ := List.any_eq_true.mp hfork
  rw [Bool.and_eq_true, Bool.and_eq_true, decide_eq_true_iff, decide_eq_true_iff] at hfork
  obtain ⟨⟨hsome, hsame⟩, hne⟩ := hfork
  obtain ⟨x, hx⟩ := Option.isSome_iff_exists.mp hsome
  have hx' : s.run.supersedesMetricRunId = some x := hsame ▸ hx
  exact hne (congrArg (·.run.metricRunId) (hchain.injective r hr s hs x hx hx'))

set_option maxRecDepth 4000 in
/-- **A fork.**  The request replaces the first evaluation by a copy; the next
evaluation names the first as its predecessor, as if nothing had superseded it,
so that two runs supersede one. -/
theorem evaluation_forks_behind_request :
    ¬IsChain runTable (evaluationsAroundRequest.foldl (MetricStep.apply plainDatabase)
      unmeasuredWorld).tables.metricRuns :=
  not_isChain_of_hasFork (by decide +kernel)

set_option maxRecDepth 4000 in
/-- An evaluation and a request behind it form chains: the request finds the
run of the evaluation as a head. -/
theorem evaluation_then_request_isChain :
    IsChain runTable ((evaluationsAroundRequest.take 2).foldl (MetricStep.apply plainDatabase)
      unmeasuredWorld).tables.metricRuns := by
  let first := MetricStep.compute (chainInput ⟨"first", by decide⟩ none ⟨2025, 12, 31, 0, 0, 0, 0⟩)
  have hfree : ∀ s ∈ (first.apply plainDatabase unmeasuredWorld).tables.metricRuns,
      s.run.supersedesMetricRunId = none := by decide +kernel
  have hheads : ∀ prior ∈ previousRuns appCall.environment.listedFirst
      (first.apply plainDatabase unmeasuredWorld).tables.metricRuns
      appCall.body.scope,
      IsHead runTable (first.apply plainDatabase unmeasuredWorld).tables.metricRuns prior := by
    intro prior hprior
    obtain ⟨name, -, hlatest⟩ := List.mem_filterMap.mp hprior
    refine ⟨(metricName_of_latest hlatest).1, fun s hs htarget => ?_⟩
    rw [show runTable.target s = none from hfree s hs] at htarget
    cases htarget
  have hmeet : StepsMeet (MetricStep.apply plainDatabase) (AppendsToHeads plainDatabase)
      unmeasuredWorld (evaluationsAroundRequest.take 2) :=
    ⟨⟨List.nodup_nil, fun _ h => by cases h⟩, hheads, trivial⟩
  exact metricRuns_isChain rfl _ hmeet _ [] (List.append_nil _).symm

end Runs

end OpenMasu
