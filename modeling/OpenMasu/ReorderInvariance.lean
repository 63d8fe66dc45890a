import Mathlib.Algebra.Order.BigOperators.Group.List
import OpenMasu.DecisionFacts

/-!
# Evaluations of reordered inputs

An input lists its batches, their records, costs, corrections, source days and
metric evaluations in some order.  Deliveries are sorted before anything reads
them, and every reported list is sorted by texts and digests, so the order does
not reach the output as long as the digests of different rows differ.  The one
exception are the counts of a source day: they are added up in the order of the
input, as numbers of 53 bits.

* `EvaluatorInput.Reorders` — the same input in another order;
* `EvaluatorInput.CountsExact` — the counts of every day add up exactly;
* `sortByKey_eq_of_perm` — reported lists forget the order;
* `ingest_of_sameRows`, `fraudStage_of_sameRows`, `metricRuns_of_sameRows` —
  stage by stage;
* `evaluate_reorder` — the whole evaluation;
* `rounded_counts_reorder` — a day whose counts are rounded.
-/

namespace OpenMasu

open PartialList (Agree bind_eq_ok pure_eq_ok)

section Order

/-- The batch with its records in another order. -/
structure Batch.Reorders (b b' : Batch) : Prop where
  batchId : b'.batchId = b.batchId
  serverContext : b'.serverContext = b.serverContext
  records : b.records.Perm b'.records

/-- The ingress with batches, and records inside batches, in another order. -/
inductive Ingress.Reorders : Ingress → Ingress → Prop
  | batches {bs middle bs' : List Batch} (hrecords : List.Forall₂ Batch.Reorders bs middle)
      (hbatches : middle.Perm bs') : Reorders (.batches bs) (.batches bs')
  | direct {context : ServerContext} {records records' : List Record}
      (hrecords : records.Perm records') : Reorders (.direct context records)
        (.direct context records')
  | none : Reorders .none .none

/-- The aggregates of a scope's day. -/
def EvaluatorInput.dayOf (input : EvaluatorInput) (key : Scope × CalendarDate) :
    List SourceDayAggregate :=
  input.sourceDayAggregates.filter (fun a => (a.scope, a.metricDate) = key)

/-- The installs of some aggregates, and those before their clicks, as the
evaluation adds them up. -/
def dayCounts (day : List SourceDayAggregate) : BinaryFloat.Number × BinaryFloat.Number :=
  (BinaryFloat.total (day.map (·.installs)),
    BinaryFloat.total (day.map (·.ctitNegativeCount.getD 0)))

/-- The counts of every scope's day add up to at most `2 ^ 53`, up to which the
sum of whole numbers is exact. -/
def EvaluatorInput.CountsExact (input : EvaluatorInput) : Prop :=
  ∀ key, ((input.dayOf key).map (·.installs)).sum ≤ 2 ^ 53 ∧
    ((input.dayOf key).map (·.ctitNegativeCount.getD 0)).sum ≤ 2 ^ 53

/-- What two inputs share apart from the order of their deliveries and of four
lists. -/
structure EvaluatorInput.SameRows (input input' : EvaluatorInput) : Prop where
  attempts : (attempts input).Perm (OpenMasu.attempts input')
  costRecords : input.costRecords.Perm input'.costRecords
  correctionInputs : input.correctionInputs.Perm input'.correctionInputs
  sourceDayAggregates : input.sourceDayAggregates.Perm input'.sourceDayAggregates
  metricEvaluations : input.metricEvaluations.Perm input'.metricEvaluations
  counts : ∀ key, dayCounts (input.dayOf key) = dayCounts (input'.dayOf key)
  fxPolicy : input'.fxPolicy = input.fxPolicy
  privacyRequests : input'.privacyRequests = input.privacyRequests
  metricDefinitions : input'.metricDefinitions = input.metricDefinitions
  reconciliationInputs : input'.reconciliationInputs = input.reconciliationInputs
  preIngestionRejections : input'.preIngestionRejections = input.preIngestionRejections
  retentionExpirations : input'.retentionExpirations = input.retentionExpirations

/-- The input with its batches, records, costs, corrections, source days and
metric evaluations in another order. -/
def EvaluatorInput.Reorders (input input' : EvaluatorInput) : Prop :=
  input.ingress.Reorders input'.ingress ∧
    ∃ costs corrections days evaluations,
      input.costRecords.Perm costs ∧ input.correctionInputs.Perm corrections ∧
      input.sourceDayAggregates.Perm days ∧ input.metricEvaluations.Perm evaluations ∧
      input' = { input with
        ingress := input'.ingress
        costRecords := costs
        correctionInputs := corrections
        sourceDayAggregates := days
        metricEvaluations := evaluations }

/-- Batches in another order deliver the same attempts. -/
theorem attempts_reorder {input input' : EvaluatorInput}
    (h : input.ingress.Reorders input'.ingress) :
    (attempts input).Perm (attempts input') := by
  unfold attempts
  generalize input.ingress = ingress at h
  generalize input'.ingress = ingress' at h
  cases h with
  | batches hrecords hbatches =>
      dsimp only
      refine List.Perm.trans ?_ (hbatches.flatMap_right _)
      clear hbatches
      induction hrecords with
      | nil => exact .refl _
      | @cons b b' rest rest' hb _ ih =>
          rw [List.flatMap_cons, List.flatMap_cons]
          refine List.Perm.append ?_ ih
          rw [hb.batchId, hb.serverContext]
          exact hb.records.map _
  | direct hrecords => exact hrecords.map _
  | none => exact .refl _

/-- Counts that add up exactly do so in every order. -/
theorem dayCounts_perm {day day' : List SourceDayAggregate} (h : day.Perm day')
    (hinstalls : (day.map (·.installs)).sum ≤ 2 ^ 53)
    (hnegative : (day.map (·.ctitNegativeCount.getD 0)).sum ≤ 2 ^ 53) :
    dayCounts day = dayCounts day' := by
  have hinstalls' := (h.map (·.installs)).sum_eq
  have hnegative' := (h.map (·.ctitNegativeCount.getD 0)).sum_eq
  unfold dayCounts
  rw [BinaryFloat.total_eq hinstalls, BinaryFloat.total_eq hnegative,
    BinaryFloat.total_eq (hinstalls' ▸ hinstalls), BinaryFloat.total_eq (hnegative' ▸ hnegative),
    hinstalls', hnegative']

/-- A reordered input has the same rows, and the same counts if its source days
are left in order or add up exactly. -/
theorem EvaluatorInput.Reorders.sameRows {input input' : EvaluatorInput}
    (h : input.Reorders input')
    (hcounts : input'.sourceDayAggregates = input.sourceDayAggregates ∨ input.CountsExact) :
    input.SameRows input' := by
  obtain ⟨hingress, costs, corrections, days, evaluations, hcosts, hcorrections, hdays,
    hevaluations, heq⟩ := h
  have hattempts := attempts_reorder hingress
  rw [heq] at hattempts hcounts ⊢
  refine ⟨hattempts, hcosts, hcorrections, hdays, hevaluations, fun key => ?_,
    rfl, rfl, rfl, rfl, rfl, rfl⟩
  rcases hcounts with hsame | hexact
  · unfold EvaluatorInput.dayOf
    rw [hsame]
  · exact dayCounts_perm (hdays.filter _) (hexact key).1 (hexact key).2

theorem EvaluatorInput.SameRows.symm {input input' : EvaluatorInput}
    (h : input.SameRows input') : input'.SameRows input :=
  ⟨h.attempts.symm, h.costRecords.symm, h.correctionInputs.symm, h.sourceDayAggregates.symm,
    h.metricEvaluations.symm, fun key => (h.counts key).symm, h.fxPolicy.symm, h.privacyRequests.symm, h.metricDefinitions.symm,
    h.reconciliationInputs.symm, h.preIngestionRejections.symm, h.retentionExpirations.symm⟩

end Order

section Sorted

variable [Digest]

/-- Rows with the same digest are the same. -/
def DigestsTellApart {α : Type} [Encode α] (rows : List α) : Prop :=
  ∀ a ∈ rows, ∀ b ∈ rows, sha256 (toJson a) = sha256 (toJson b) → a = b

/-- **Reported lists.**  Rows that their digests tell apart are reported in one
order, in whichever they come. -/
theorem sortByKey_eq_of_perm {α : Type} [Encode α] {values values' : List α}
    (h : values.Perm values') (key : α → List String)
    (hdigest : DigestsTellApart (sortByKey values key)) :
    sortByKey values key = sortByKey values' key := by
  apply KeyedSort.sortOn_eq_of_perm _ h
  intro a ha b hb hkey
  have hlast := congrArg List.getLast? hkey
  simp only [textKey, List.map_append, List.map_cons, List.map_nil, List.getLast?_append,
    List.getLast?_singleton, Option.some_or, Option.some.injEq] at hlast
  exact hdigest a ((mem_sortByKey _ _).mpr ha) b ((mem_sortByKey _ _).mpr hb)
    (codeUnits_injective hlast)

/-- Deliveries of different records are sorted into one order. -/
theorem sortCandidateAttempts_eq_of_perm {l l' : List Attempt} (h : l.Perm l')
    (hdistinct : (l.map (·.record.recordId)).Nodup) :
    sortCandidateAttempts l = sortCandidateAttempts l' := by
  apply KeyedSort.sortOn_eq_of_perm _ h
  intro a ha b hb hkey
  simp only [candidateAttemptSortKey, List.map_cons, List.cons.injEq] at hkey
  have hid : a.record.recordId = b.record.recordId :=
    Identifier.text_injective (codeUnits_injective hkey.2.1)
  exact List.inj_on_of_nodup_map hdistinct ha hb hid

end Sorted

section Stages

variable [Digest] {input input' : EvaluatorInput}

omit [Digest] in
/-- References resolve in every order of the corrections. -/
theorem assertScopedReferences_of_sameRows (h : input.SameRows input') {all : List Attempt}
    (hok : assertScopedReferences input all = .ok ()) :
    assertScopedReferences input' all = .ok () := by
  simp only [assertScopedReferences, bind_eq_ok] at hok ⊢
  rw [h.privacyRequests, h.retentionExpirations]
  obtain ⟨_, hprivacy, _, hcorrections, hrest⟩ := hok
  exact ⟨_, hprivacy, _, (PartialList.forEach_perm h.correctionInputs).mp hcorrections, hrest⟩

/-- Ingestion sees the same sorted deliveries. -/
theorem ingest_of_sameRows (h : input.SameRows input')
    (hdistinct : ((attempts input).map (·.record.recordId)).Nodup)
    {factory : List Attempt → CandidateProvider} {i : Ingestion}
    (hi : ingest input factory = .ok i) : ingest input' factory = .ok i := by
  have hall := sortCandidateAttempts_eq_of_perm h.attempts hdistinct
  have hlifecycle : privacyIndex input' = privacyIndex input := by
    unfold privacyIndex completedRedactions
    rw [h.privacyRequests, h.retentionExpirations]
  simp only [ingest, bind_eq_ok] at hi ⊢
  rw [← hall, hlifecycle]
  obtain ⟨_, hcontexts, _, hanchors, _, hrefs, hrest⟩ := hi
  exact ⟨_, hcontexts, _, hanchors, _, assertScopedReferences_of_sameRows h hrefs, hrest⟩

/-- The fraud decisions are the same, source days in any order. -/
theorem fraudDecisions_of_sameRows (h : input.SameRows input') {accepted : List Attempt}
    {ds : List FraudDecision} (hdigest : DigestsTellApart ds)
    (hds : fraudDecisions input accepted = .ok ds) : fraudDecisions input' accepted = .ok ds := by
  simp only [fraudDecisions, bind_eq_ok, pure_eq_ok] at hds ⊢
  obtain ⟨transport, htransport, install, hinstall, days, hdays, rfl⟩ := hds
  obtain ⟨days', hdays', hperm⟩ := PartialList.traverse_perm h.sourceDayAggregates hdays
  refine ⟨transport, htransport, install, hinstall, days', hdays', ?_⟩
  exact (sortByKey_eq_of_perm (hperm.flatten.append_left _) _ hdigest).symm

omit [Digest] in
/-- The last time a day was computed is the same in every order. -/
theorem latestComputedAt_perm {day day' : List SourceDayAggregate} (h : day.Perm day') :
    latestComputedAt day = latestComputedAt day' := by
  unfold latestComputedAt
  rw [KeyedSort.sortOn_eq_of_perm _ (h.map (·.computedAt))]
  intro a _ b _ hkey
  exact Timestamp.text_injective (codeUnits_injective hkey)

/-- The snapshot of a day is the same in every order. -/
theorem dailySnapshotId_perm {day day' : List SourceDayAggregate} (h : day.Perm day') :
    dailySnapshotId day = dailySnapshotId day' := by
  unfold dailySnapshotId
  rw [KeyedSort.sortOn_eq_of_perm _ (h.map (·.inputSnapshotId))]
  intro a _ b _ hkey
  exact codeUnits_injective hkey

/-- A source day makes the same attributions provisional, its aggregates in any
order that adds up to the same counts. -/
theorem provisionalDay_perm {accepted : List Attempt} {initial : List Attribution}
    {day day' : List SourceDayAggregate} (h : day.Perm day') (hcounts : dayCounts day = dayCounts day')
    (key : Scope × CalendarDate) (hkey : ∀ a ∈ day, (a.scope, a.metricDate) = key) :
    provisionalDay accepted initial day = provisionalDay accepted initial day' := by
  have hlatest := latestComputedAt_perm h
  have hsnapshot := dailySnapshotId_perm h
  obtain ⟨hinstalls, hnegative⟩ := Prod.mk.inj hcounts
  cases day with
  | nil => rw [h.nil_eq]
  | cons first rest =>
      cases day' with
      | nil => exact absurd h.eq_nil (List.cons_ne_nil _ _)
      | cons first' rest' =>
          have hfirst := hkey first List.mem_cons_self
          have hfirst' := hkey first' (h.mem_iff.mpr List.mem_cons_self)
          obtain ⟨hscope, hdate⟩ := Prod.mk.inj (hfirst.trans hfirst'.symm)
          unfold provisionalDay
          rw [hlatest, hsnapshot, hinstalls, hnegative]
          cases latestComputedAt (first' :: rest') with
          | none => rfl
          | some computedAt => simp only [hscope, hdate]

/-- The provisional attributions are the same, source days in any order. -/
theorem provisionalClockAttributions_of_sameRows (h : input.SameRows input')
    {accepted : List Attempt} {initial provisional : List Attribution}
    (hok : provisionalClockAttributions input accepted initial = .ok provisional) :
    ∃ provisional', provisionalClockAttributions input' accepted initial = .ok provisional' ∧
      provisional.Perm provisional' := by
  simp only [provisionalClockAttributions, bind_eq_ok, pure_eq_ok] at hok ⊢
  obtain ⟨days, hdays, rfl⟩ := hok
  let key := fun a : SourceDayAggregate => (a.scope, a.metricDate)
  have hperm := InsertionMap.keys_group_perm key h.sourceDayAggregates
  have htraverse : ∀ (input : EvaluatorInput),
      PartialList.traverse (provisionalDay accepted initial) (sourceDays input.sourceDayAggregates)
        = PartialList.traverse (fun k => provisionalDay accepted initial
            (input.sourceDayAggregates.filter (fun a => key a = k)))
          ((InsertionMap.group key input.sourceDayAggregates).entries.map Prod.fst) := by
    intro input
    unfold sourceDays
    rw [InsertionMap.values_group]
    induction (InsertionMap.group key input.sourceDayAggregates).entries.map Prod.fst with
    | nil => rfl
    | cons k rest ih => simp only [List.map_cons, PartialList.traverse, ih, key]
  rw [htraverse] at hdays
  have hday : ∀ k, provisionalDay accepted initial
        (input.sourceDayAggregates.filter (fun a => key a = k))
      = provisionalDay accepted initial
        (input'.sourceDayAggregates.filter (fun a => key a = k)) := by
    intro k
    refine provisionalDay_perm (h.sourceDayAggregates.filter _) (h.counts k) k (fun a ha => ?_)
    exact of_decide_eq_true (List.mem_filter.mp ha).2
  simp only [hday] at hdays
  obtain ⟨days', hdays', hdaysPerm⟩ := PartialList.traverse_perm hperm hdays
  exact ⟨days'.flatten, ⟨days', (htraverse input').trans hdays', rfl⟩, hdaysPerm.flatten⟩

/-- The fraud stage decides alike; only its provisional attributions may come
in another order. -/
theorem fraudStage_of_sameRows (h : input.SameRows input') {accepted : List Attempt}
    {initial : List Attribution} {fraud : FraudOutput}
    (hdigest : DigestsTellApart fraud.decisions)
    (hok : fraudStage input accepted initial = .ok fraud) :
    ∃ provisional, fraudStage input' accepted initial
        = .ok { fraud with provisional := provisional } ∧
      fraud.provisional.Perm provisional := by
  simp only [fraudStage, bind_eq_ok, pure_eq_ok] at hok ⊢
  obtain ⟨ds, hds, provisional, hprovisional, rfl⟩ := hok
  obtain ⟨provisional', hprovisional', hperm⟩ :=
    provisionalClockAttributions_of_sameRows h hprovisional
  exact ⟨provisional', ⟨ds, fraudDecisions_of_sameRows h hdigest hds, provisional', hprovisional',
    rfl⟩, hperm⟩

/-- The costs are the same, reports in any order. -/
theorem costRecords_of_sameRows (h : input.SameRows input') {costs : List CostRecord}
    (hdigest : DigestsTellApart costs) (hok : costRecords input = .ok costs) :
    costRecords input' = .ok costs := by
  simp only [costRecords, bind_eq_ok, pure_eq_ok] at hok ⊢
  obtain ⟨_, hchecks, rfl⟩ := hok
  exact ⟨(), (PartialList.forEach_perm h.costRecords).mp hchecks,
    (sortByKey_eq_of_perm h.costRecords _ hdigest).symm⟩

/-- The runs are the same, evaluations in any order. -/
theorem metricRuns_of_sameRows (h : input.SameRows input') {all : List Attempt}
    {decisions : Decisions} {lifecycle : Lifecycle} {attributions : List Attribution}
    {excluded : List (Option Identifier)} {costs : List CostRecord} {runs : List MetricRun}
    (hcosts : costRecords input = .ok costs) (hcostDigests : DigestsTellApart costs)
    (hdigest : DigestsTellApart runs)
    (hok : metricRuns input all decisions lifecycle attributions excluded = .ok runs) :
    metricRuns input' all decisions lifecycle attributions excluded = .ok runs := by
  have hempty : input'.metricEvaluations.isEmpty = input.metricEvaluations.isEmpty := by
    rw [Bool.eq_iff_iff, List.isEmpty_iff, List.isEmpty_iff]
    constructor
    · intro hnil
      have hperm := h.metricEvaluations
      rw [hnil] at hperm
      exact hperm.eq_nil
    · intro hnil
      have hperm := h.metricEvaluations
      rw [hnil] at hperm
      exact hperm.nil_eq.symm
  have hdefinitions : metricDefinitions input' = metricDefinitions input := by
    unfold metricDefinitions
    rw [h.metricDefinitions]
  have hcosts' := costRecords_of_sameRows h hcostDigests hcosts
  unfold metricRuns at hok ⊢
  rw [hempty]
  split at hok
  · case isTrue hnone => rw [if_pos hnone]; exact hok
  · case isFalse hsome =>
      rw [if_neg hsome]
      simp only [bind_eq_ok, pure_eq_ok] at hok ⊢
      rw [hdefinitions, h.fxPolicy]
      obtain ⟨definitions, hdefs, costs₁, hcosts₁, rows, hrows, rfl⟩ := hok
      obtain rfl : costs₁ = costs := by
        rw [hcosts] at hcosts₁
        exact (Except.ok.inj hcosts₁).symm
      obtain ⟨rows', hrows', hperm⟩ := PartialList.traverse_perm h.metricEvaluations hrows
      exact ⟨definitions, hdefs, costs₁, hcosts', rows', hrows',
        (sortByKey_eq_of_perm hperm.flatten _ hdigest).symm⟩

end Stages

section Law

variable [Digest]

/-- Different rows of one reported list have different digests. -/
structure EvaluationOutput.DigestsTellApart (out : EvaluationOutput) : Prop where
  corrections : OpenMasu.DigestsTellApart out.corrections
  attributions : OpenMasu.DigestsTellApart out.attributions
  costRecords : OpenMasu.DigestsTellApart out.costRecords
  metricRuns : OpenMasu.DigestsTellApart out.metricRuns
  fraudDecisions : OpenMasu.DigestsTellApart out.fraudDecisions

variable {input input' : EvaluatorInput} {factory : List Attempt → CandidateProvider}

/-- The output of an evaluation is that of every input with the same rows. -/
theorem evaluate_of_sameRows (h : input.SameRows input')
    (hdistinct : ((attempts input).map (·.record.recordId)).Nodup) {out : EvaluationOutput}
    (hdigest : out.DigestsTellApart) (hok : evaluate input factory = .ok out) :
    evaluate input' factory = .ok out := by
  have hdeliveries : ∀ decisions all, deliveries input' decisions all
      = deliveries input decisions all := by
    intro decisions all
    unfold deliveries
    rw [h.preIngestionRejections]
  have hreconciliation : ∀ accepted, reconciliationResults input' accepted
      = reconciliationResults input accepted := by
    intro accepted
    unfold reconciliationResults
    rw [h.reconciliationInputs]
  have hdefinitions : metricDefinitions input' = metricDefinitions input := by
    unfold metricDefinitions
    rw [h.metricDefinitions]
  simp only [evaluate, bind_eq_ok, pure_eq_ok] at hok ⊢
  obtain ⟨i, hi, raws, hraws, rows, hrows, initial, hinitial, fraud, hfraud, costs, hcosts,
    definitions, hdefs, runs, hruns, reconciliation, hrec, rfl⟩ := hok
  obtain ⟨hcorrectionDigests, hattributionDigests, hcostDigests, hrunDigests,
    hfraudDigests⟩ := hdigest
  obtain ⟨provisional, hfraud', hprovisional⟩ := fraudStage_of_sameRows h hfraudDigests hfraud
  have hattributions : sortAttributions (initial ++ fraud.provisional ++ fraud.excluded)
      = sortAttributions (initial ++ provisional ++ fraud.excluded) :=
    sortByKey_eq_of_perm ((hprovisional.append_left _).append_right _) _ hattributionDigests
  have hcorrections : corrections input i.decisions i.all
      = corrections input' i.decisions i.all := by
    have hredactions : completedRedactions input' = completedRedactions input := by
      unfold completedRedactions
      rw [h.privacyRequests]
    unfold corrections
    rw [hredactions]
    exact sortByKey_eq_of_perm ((h.correctionInputs.append_right _).append_right _) _
      hcorrectionDigests
  have hruns' := metricRuns_of_sameRows h hcosts hcostDigests hrunDigests hruns
  rw [hattributions] at hruns'
  refine ⟨i, ingest_of_sameRows h hdistinct hi, raws, hraws, rows, (hdeliveries _ _).trans hrows,
    initial, hinitial, _, hfraud', costs, costRecords_of_sameRows h hcostDigests hcosts,
    definitions, hdefinitions.trans hdefs, runs, hruns', reconciliation,
    (hreconciliation _).trans hrec, ?_⟩
  rw [hattributions, hcorrections]
  simp only [privacyRequests, privacyTombstones, completedRedactions, rejections,
    h.privacyRequests, h.preIngestionRejections]

/-- **Reorder invariance.**  Inputs of distinct records that differ in the
order of their batches, records, costs, corrections, metric evaluations and, if
the counts of a day add up exactly, source days are evaluated to the same
output, or both throw. -/
theorem evaluate_reorder (h : input.Reorders input')
    (hcounts : input'.sourceDayAggregates = input.sourceDayAggregates ∨ input.CountsExact)
    (hdistinct : ((attempts input).map (·.record.recordId)).Nodup)
    (hdigest : ∀ out, evaluate input factory = .ok out ∨ evaluate input' factory = .ok out →
      out.DigestsTellApart) :
    Agree (evaluate input factory) (evaluate input' factory) := by
  have hrows := h.sameRows hcounts
  have hdistinct' : ((attempts input').map (·.record.recordId)).Nodup :=
    (hrows.attempts.map _).nodup_iff.mp hdistinct
  cases hout : evaluate input factory with
  | ok out =>
      have hout' := evaluate_of_sameRows hrows hdistinct (hdigest out (.inl hout)) hout
      rw [hout']
      exact rfl
  | error e =>
      cases hout' : evaluate input' factory with
      | error e' => trivial
      | ok out =>
          have hback := evaluate_of_sameRows hrows.symm hdistinct' (hdigest out (.inr hout')) hout'
          rw [hout] at hback
          cases hback

end Law

section Runs

/-- A digest that can be evaluated fast: the checksum in 20 digits. -/
@[reducible] def shortDigest : Digest := ⟨fun j => String.ofList (digits 20 (checksum j))⟩

attribute [local instance] shortDigest
attribute [local irreducible] PartialList.Agree

/-- A delivery of the runs. -/
def reorderedRecord (name : Identifier) (payload : Payload) : Record where
  recordId := name
  deliveryId := name
  tenantId := .named "tenant"
  appId := .named "app"
  producer := .sdkAndroid
  producerVersion := "1.0.0"
  eventId := name
  schemaVersion := "0.4.0"
  occurredAt := ⟨2026, 1, 2, 3, 4, 0, 0⟩
  occurredAtSource := "device"
  receivedAt := ⟨2026, 1, 2, 3, 4, 5, 0⟩
  processingPurposeId := some .attribution
  processingSequence := 0
  payload := payload

/-- A batch of one record. -/
def reorderedBatch (name : Identifier) (payload : Payload) : Batch where
  batchId := name
  serverContext := {
    tenantId := .named "tenant"
    appId := .named "app"
    receivedAt := ⟨2026, 1, 2, 3, 4, 5, 0⟩
    policyDigest := zeroHash
    processingPurposes := [⟨.attribution, false, "1"⟩] }
  records := [reorderedRecord name payload]

/-- An install and a click. -/
def installAndClick : List Batch := [
  reorderedBatch (.named "install")
    { eventName := .install
      installationId := some (.named "installation")
      clickId := some (.named "click"), installType := some .firstInstall
      installBeginAtServer := some ⟨2026, 1, 2, 3, 4, 0, 0⟩ },
  reorderedBatch (.named "click")
    { eventName := .click, clickId := some (.named "click")
      redirectorClickAt := some ⟨2026, 1, 2, 3, 3, 0, 0⟩ }]

/-- The cost of a day. -/
def reorderedCost (name : Identifier) (day : Fin 100) : CostRecord where
  costRecordId := name
  tenantId := .named "tenant"
  appId := .named "app"
  network := .named "network"
  campaignId := .named "campaign"
  date := ⟨2026, 1, day⟩
  money := ⟨⟨[1, 0, 0]⟩, 2, "USD"⟩
  source := "report"
  asOf := ⟨2026, 1, day, 20, 0, 0, 0⟩
  reportSnapshotDigest := "report"
  dimensionDigest := sha256 (.object [
    member "network" (.named "network" : Identifier),
    member "campaign_id" (.named "campaign" : Identifier),
    ("ad_group_id", none),
    ("country", none)])

/-- A correction of a record. -/
def reorderedCorrection (name : Identifier) : Correction where
  tenantId := .named "tenant"
  appId := .named "app"
  correctionId := "correction:" ++ name.text
  correctsRecordId := some name
  correctionType := "amount"
  correctionReason := "late_report"
  effectiveAt := none

/-- The aggregate of a source on the day of the click. -/
def reorderedDay (snapshot : String) (installs : Nat) (negative : Option Nat) :
    SourceDayAggregate where
  tenantId := .named "tenant"
  appId := .named "app"
  metricDate := ⟨2026, 1, 2⟩
  campaignId := .named "campaign"
  network := .named "network"
  siteId := ⟨snapshot ++ "-site", by
    intro h
    have := congrArg String.length h
    simp at this⟩
  clicks := 2
  installs := installs
  medianCvr := 1
  ctitP50Ms := 60000
  ctitP95Ms := 60000
  ctitNegativeCount := negative
  inputSnapshotId := snapshot
  computedAt := ⟨2026, 1, 3, 1, 0, 0, 0⟩

/-- An input of batches, costs, corrections and source days. -/
def mixedInput (batches : List Batch) (days : List SourceDayAggregate) : EvaluatorInput where
  ingress := .batches batches
  fxPolicy := ⟨"fx", "USD", 6, "half_even", []⟩
  costRecords := [reorderedCost (.named "first") 2,
    reorderedCost (.named "second") 3]
  correctionInputs := [reorderedCorrection (.named "install"),
    reorderedCorrection (.named "click")]
  sourceDayAggregates := days

/-- The input with its batches, costs, corrections and source days the other
way round. -/
def EvaluatorInput.reversed (input : EvaluatorInput) : EvaluatorInput :=
  { input with
    ingress := match input.ingress with
      | .batches batches => .batches batches.reverse
      | ingress => ingress
    costRecords := input.costRecords.reverse
    correctionInputs := input.correctionInputs.reverse
    sourceDayAggregates := input.sourceDayAggregates.reverse }

theorem reorders_reversed (batches : List Batch) (days : List SourceDayAggregate) :
    (mixedInput batches days).Reorders (mixedInput batches days).reversed :=
  ⟨.batches (List.forall₂_same.mpr fun _ _ => ⟨rfl, rfl, .refl _⟩) (List.reverse_perm _).symm,
    _, _, _, _, (List.reverse_perm _).symm, (List.reverse_perm _).symm, (List.reverse_perm _).symm,
    .refl _, rfl⟩

theorem checksum_lt (j : Json) : checksum j < 10 ^ 20 := by
  have hmod : ∀ n, n % 2305843009213693951 < 10 ^ 20 := fun n =>
    (Nat.mod_lt n (by decide)).trans (by decide)
  cases j with
  | null => decide
  | bool b => cases b <;> decide
  | num q => exact hmod _
  | str text =>
      change text.toByteArray.data.toList.foldl
        (fun n b => (n * 1000003 + b.toNat) % 2305843009213693951) 11 < _
      have hstart : 11 < 10 ^ 20 := by decide
      generalize 11 = n at hstart ⊢
      induction text.toByteArray.data.toList generalizing n with
      | nil => exact hstart
      | cons c rest ih => exact ih _ (hmod _)
  | arr items => exact hmod _
  | obj members => exact hmod _

/-- The checksum is read off its digits. -/
theorem checksum_eq_of_sha256 {j j' : Json} (h : sha256 j = sha256 j') :
    checksum j = checksum j' := by
  have hdigits : digits 20 (checksum j) ++ [] = digits 20 (checksum j') ++ [] := by
    rw [List.append_nil, List.append_nil]
    exact String.ofList_injective h
  exact (digits_append_inj (checksum_lt j) (checksum_lt j') hdigits).1

/-- The checksums of a list are different. -/
def digestsDiffer {α : Type} [Encode α] (rows : List α) : Bool :=
  (rows.map (fun a => checksum (toJson a))).Nodup

/-- Rows with different checksums are told apart. -/
theorem digestsTellApart_of_nodup {α : Type} [Encode α] {rows : List α}
    (h : (rows.map (fun a => checksum (toJson a))).Nodup) : DigestsTellApart rows :=
  fun _ ha _ hb heq => List.inj_on_of_nodup_map h ha hb (checksum_eq_of_sha256 heq)

/-- The evaluation reports lists whose digests differ, two rows in each of two of
them. -/
def reportsApart (input : EvaluatorInput) : Bool :=
  match evaluate input fixtureCandidateProvider with
  | .error _ => false
  | .ok out => digestsDiffer out.corrections && digestsDiffer out.attributions &&
      digestsDiffer out.costRecords && digestsDiffer out.metricRuns &&
      digestsDiffer out.fraudDecisions &&
      out.corrections.length = 2 && out.costRecords.length = 2

theorem digestsTellApart_of_reportsApart {input : EvaluatorInput} {out : EvaluationOutput}
    (hapart : reportsApart input = true)
    (h : evaluate input fixtureCandidateProvider = .ok out) : out.DigestsTellApart := by
  unfold reportsApart at hapart
  rw [h] at hapart
  simp only [Bool.and_eq_true, digestsDiffer, decide_eq_true_eq] at hapart
  obtain ⟨⟨⟨⟨⟨⟨hcorrections, hattributions⟩, hcosts⟩, hruns⟩, hfraud⟩, -⟩, -⟩ := hapart
  exact ⟨digestsTellApart_of_nodup hcorrections, digestsTellApart_of_nodup hattributions,
    digestsTellApart_of_nodup hcosts, digestsTellApart_of_nodup hruns,
    digestsTellApart_of_nodup hfraud⟩

/-- The records of an input, in the order they are delivered in. -/
def deliveredRecords (input : EvaluatorInput) : List Identifier :=
  (attempts input).map (·.record.recordId)

/-- Two sources of one day. -/
def twoSources : List SourceDayAggregate :=
  [reorderedDay "snapshot-1" 20 (some 1), reorderedDay "snapshot-2" 4 none]

theorem twoSources_exact :
    (mixedInput installAndClick twoSources).CountsExact := by
  intro key
  have hsub : ((mixedInput installAndClick twoSources).dayOf key).Sublist
      twoSources := List.filter_sublist
  exact ⟨((hsub.map _).sum_le_sum fun _ _ => Nat.zero_le _).trans (by decide),
    ((hsub.map _).sum_le_sum fun _ _ => Nat.zero_le _).trans (by decide)⟩

set_option maxRecDepth 8000 in
/-- A click in front of its install and behind it, with two costs, two
corrections and two sources of a day: two orders of each, and the same
output. -/
theorem click_behind_install :
    deliveredRecords (mixedInput installAndClick twoSources) ≠
        deliveredRecords (mixedInput installAndClick twoSources).reversed ∧
      Agree (evaluate (mixedInput installAndClick twoSources) fixtureCandidateProvider)
        (evaluate (mixedInput installAndClick twoSources).reversed
          fixtureCandidateProvider) := by
  have hdistinct : (deliveredRecords (mixedInput installAndClick twoSources)).Nodup := by
    decide
  have hapart : reportsApart (mixedInput installAndClick twoSources) = true := by
    decide +kernel
  have hapart' : reportsApart (mixedInput installAndClick twoSources).reversed = true := by
    decide +kernel
  exact And.intro (by decide) (evaluate_reorder
    (reorders_reversed installAndClick twoSources) (.inr twoSources_exact) hdistinct
    fun out hout => by
      rcases hout with hout | hout
      · exact digestsTellApart_of_reportsApart hapart hout
      · exact digestsTellApart_of_reportsApart hapart' hout)

/-- A source with `2 ^ 57` installs, around which numbers are 32 apart, and two
with half of that. -/
def roundedSources : List SourceDayAggregate :=
  [reorderedDay "snapshot-1" (2 ^ 57) (some 7205759403792795),
    reorderedDay "snapshot-2" 16 none, reorderedDay "snapshot-3" 16 none]

/-- The number of attributions an evaluation reports. -/
def attributionsOf (input : EvaluatorInput) : Option Nat :=
  (evaluate input fixtureCandidateProvider).toOption.map (·.attributions.length)

set_option maxRecDepth 8000 in
/-- **Rounded counts.**  In front of the small counts the large one absorbs
each of them, and the rate exceeds the threshold; behind them it does not.  The
same aggregates in two orders, and two outputs. -/
theorem rounded_counts_reorder :
    (mixedInput installAndClick roundedSources).Reorders
        (mixedInput installAndClick roundedSources).reversed ∧
      (deliveredRecords (mixedInput installAndClick roundedSources)).Nodup ∧
      ¬ Agree (evaluate (mixedInput installAndClick roundedSources) fixtureCandidateProvider)
        (evaluate (mixedInput installAndClick roundedSources).reversed
          fixtureCandidateProvider) := by
  have hattributions : attributionsOf (mixedInput installAndClick roundedSources) = some 2 := by
    decide +kernel
  have hattributions' :
      attributionsOf (mixedInput installAndClick roundedSources).reversed = some 1 := by
    decide +kernel
  refine ⟨reorders_reversed installAndClick roundedSources, by decide, fun hagree => ?_⟩
  unfold attributionsOf at hattributions hattributions'
  cases hout : evaluate (mixedInput installAndClick roundedSources) fixtureCandidateProvider with
  | error e =>
      rw [hout] at hattributions
      cases hattributions
  | ok out =>
      cases hout' : evaluate (mixedInput installAndClick roundedSources).reversed
          fixtureCandidateProvider with
      | error e =>
          rw [hout'] at hattributions'
          cases hattributions'
      | ok out' =>
          rw [hout, hout'] at hagree
          obtain rfl : out = out' := by
            unfold Agree at hagree
            exact hagree
          rw [hout] at hattributions
          rw [hout'] at hattributions'
          cases hattributions.symm.trans hattributions'

end Runs

end OpenMasu
