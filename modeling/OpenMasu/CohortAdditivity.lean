import OpenMasu.AttributionWindow
import OpenMasu.InstallAttributions
import OpenMasu.LatestRows

/-!
# Cohort metrics by install date

The value of a cohort should be the sum of the values of its install dates.
Revenue and size are: an accepted installation has one anchor and one date.
The cost of the cohort need not be: of each dimension digest only the latest
report counts, and the digest does not name the date, so a report of one date
overtakes those of the others.

* `SumsTo` — the values of the dates make the total;
* `IsCohortAdditive` — what a group owes to its dates;
* `revenueValue_sumsTo`, `cohortSize_sumsTo` — revenue and size;
* `IsOvertakenByDate` — the reports a total loses;
* `cohortAdditive_iff` — the law.
-/

namespace OpenMasu

open PartialList (bind_eq_ok pure_eq_ok)

section Sums

variable {δ : Type}

/-- All but finitely many values vanish, and the others sum to the total. -/
def SumsTo (f : δ → ℤ) (total : ℤ) : Prop :=
  ∃ s : Finset δ, (∀ d ∉ s, f d = 0) ∧ ∑ d ∈ s, f d = total

/-- The total may be taken over any finite set that misses only zeros. -/
theorem SumsTo.sum_eq [DecidableEq δ] {f : δ → ℤ} {total : ℤ} (h : SumsTo f total) {s : Finset δ}
    (hs : ∀ d ∉ s, f d = 0) : ∑ d ∈ s, f d = total := by
  obtain ⟨s', hs', hsum⟩ := h
  calc ∑ d ∈ s, f d
      = ∑ d ∈ s ∪ s', f d :=
        Finset.sum_subset Finset.subset_union_left fun d _ hd => hs d hd
    _ = ∑ d ∈ s', f d :=
        (Finset.sum_subset Finset.subset_union_right fun d _ hd => hs' d hd).symm
    _ = total := hsum

/-- One value on one date. -/
theorem sumsTo_single [DecidableEq δ] (d : δ) (x : ℤ) :
    SumsTo (fun d' => if d = d' then x else 0) x := by
  refine ⟨{d}, fun d' hd' => if_neg fun h : d = d' => hd' (Finset.mem_singleton.mpr h.symm), ?_⟩
  rw [Finset.sum_singleton, if_pos rfl]

/-- Nothing sums to nothing. -/
theorem sumsTo_zero : SumsTo (fun _ : δ => 0) 0 := ⟨∅, fun _ _ => rfl, rfl⟩

/-- Sums are added date by date. -/
theorem SumsTo.add [DecidableEq δ] {f g : δ → ℤ} {x y : ℤ} (hf : SumsTo f x) (hg : SumsTo g y) :
    SumsTo (fun d => f d + g d) (x + y) := by
  obtain ⟨s, hs, -⟩ := id hf
  obtain ⟨s', hs', -⟩ := id hg
  have hleft : ∀ d ∉ s ∪ s', f d = 0 := fun d hd => hs d (fun h => hd (Finset.mem_union_left _ h))
  have hright : ∀ d ∉ s ∪ s', g d = 0 := fun d hd => hs' d (fun h => hd (Finset.mem_union_right _ h))
  refine ⟨s ∪ s', fun d hd => by simp only [hleft d hd, hright d hd, add_zero], ?_⟩
  rw [Finset.sum_add_distrib, hf.sum_eq hleft, hg.sum_eq hright]

/-- Sums over a list, term by term. -/
theorem sumsTo_list [DecidableEq δ] {α : Type} {f : δ → α → ℤ} {g : α → ℤ} {l : List α}
    (h : ∀ a ∈ l, SumsTo (fun d => f d a) (g a)) :
    SumsTo (fun d => (l.map (f d)).sum) (l.map g).sum := by
  induction l with
  | nil => exact sumsTo_zero
  | cons a rest ih =>
      simp only [List.map_cons, List.sum_cons]
      exact (h a List.mem_cons_self).add (ih fun a' ha' => h a' (List.mem_cons_of_mem _ ha'))

end Sums

section Additivity

variable [Digest]

/-- The group, at one cohort date. -/
def groupAtDate (g : Option Grouping) (date : CalendarDate) : Grouping :=
  { g.getD {} with
    cohortDate := some date }

/-- The evaluation of the group at one cohort date. -/
def MetricEvaluation.atDate (e : MetricEvaluation) (date : CalendarDate) : MetricEvaluation :=
  { e with
    grouping := some (groupAtDate e.grouping date) }

/-- What the evaluations of an input are computed from. -/
structure CohortData where
  ingestion : Ingestion
  context : MetricContext
  definitions : List MetricDefinition
  costs : List CostRecord

variable (data : CohortData)

/-- The runs of an evaluation for one metric. -/
def CohortData.runs (e : MetricEvaluation) (name : String) : Except Failure (List MetricRun) :=
  evaluationRuns data.ingestion.all data.ingestion.decisions data.ingestion.lifecycle data.context
    data.definitions data.costs
    { e with
      metricNames := some [name] }

/-- What an evaluation sees. -/
def CohortData.view (e : MetricEvaluation) : Except Failure MetricView :=
  metricView data.ingestion.all data.ingestion.decisions data.ingestion.lifecycle
    data.context.statuses data.costs e

/-- The cost that `revenue_over_cost` divides by. -/
def CohortData.denominator (e : MetricEvaluation) : Except Failure Int := do
  let view ← data.view e
  PartialList.accumulate (addCost data.context.fx) 0 view.currentCosts

/-- The definition may be grouped by cohort date. -/
def MetricDefinition.admitsCohortDate (d : MetricDefinition) : Bool :=
  d.groupingDimensions.all (·.contains .cohortDate)

/-- The calculations that sum over a cohort. -/
def isCohortSum (c : Calculation) : Bool := c = .revenueSum || c = .cohortSize

/-- **What a group owes to its dates.**  A run of revenue or size has the sum of
the values of the runs at each date; the cost denominator is the sum of the
denominators at each date. -/
structure IsCohortAdditive (e : MetricEvaluation) : Prop where
  values : ∀ name d r, data.definitions.find? (fun d => d.metricName = name) = some d →
    isCohortSum d.definition.calculation = true → data.runs e name = .ok [r] →
    ∃ f total, r.value = .present total ∧ SumsTo f total ∧
      (d.admitsCohortDate = true → ∀ date, ∃ r', data.runs (e.atDate date) name = .ok [r'] ∧
        r'.value = .present (f date))
  costs : ∀ total, data.denominator e = .ok total →
    ∃ f, SumsTo f total ∧ ∀ date, data.denominator (e.atDate date) = .ok (f date)

/-- The input is about one app. -/
structure CohortData.IsSingleScope (scope : Scope) : Prop where
  attempts : ∀ a ∈ data.ingestion.all, a.scope = scope
  costs : ∀ c ∈ data.costs, c.scope = scope

/-- The cost reports a group counts, the latest last. -/
def countedCosts (costs : List CostRecord) (e : MetricEvaluation) : List CostRecord :=
  KeyedSort.sortOn (fun c : CostRecord => [codeUnits c.asOf.text, codeUnits c.costRecordId.text])
    (costs.filter (isGroupedCost e []))

/-- What the reports of one series have in common. -/
def costKey (c : CostRecord) : Scope × String := (c.scope, c.dimensionDigest)

/-- The report is the latest of its series on its date, and a later report of
another date is the latest of the series. -/
def IsOvertakenByDate (rows : List CostRecord) (c : CostRecord) : Prop :=
  LatestRows.lastOf costKey (costKey c) (rows.filter (fun c' => c'.date = c.date)) = some c ∧
    LatestRows.lastOf costKey (costKey c) rows ≠ some c

/-- The report counts for nothing in the target currency. -/
def IsWorthless (fx : FxPolicy) (c : CostRecord) : Prop :=
  c.money.currency = fx.targetCurrency ∧ scaleMoney c.money fx.targetScale = .ok 0

section Groups

variable {statuses : AttributionStatuses} {g : Option Grouping}

/-- The install belongs to the group, whatever its date. -/
def inGroup (statuses : AttributionStatuses) (g : Option Grouping) (a : Attempt) : Bool :=
  g.all (fun g => agrees g.campaignId (campaignOf a) &&
    agrees (g.network.map (·.text)) (networkOf a) && agrees g.country (countryOf a) &&
    matchesStatus statuses g a)

/-- The date an install is counted on. -/
def installDate (a : Attempt) : CalendarDate := dateOf (a.record.occurredAt.ms + TimeZone.utc.offset)

omit [Digest] in
/-- Without a cohort date the grouping is a test that cannot fail. -/
theorem matchesGrouping_undated (hg : g.bind (·.cohortDate) = none) (a : Attempt) :
    matchesGrouping statuses g a = .ok (inGroup statuses g a) := by
  cases g with
  | none => rfl
  | some g =>
      have hdate : g.cohortDate = none := hg
      have hnot : ¬ (g.cohortDate.isSome = true ∧ a.record.eventName = .install) := by simp [hdate]
      simp only [matchesGrouping, inGroup, Option.all_some, if_neg hnot]
      cases hrest : (agrees g.campaignId (campaignOf a) &&
        agrees (g.network.map (·.text)) (networkOf a) && agrees g.country (countryOf a)) with
      | false => rfl
      | true => rfl

omit [Digest] in
/-- With one it asks for the date of the install besides. -/
theorem matchesGrouping_atDate {date : CalendarDate} {a : Attempt}
    (hinstall : a.record.eventName = .install) (hcalendar : a.record.occurredAt.isCalendar = true) :
    matchesGrouping statuses (some (groupAtDate g date)) a
      = .ok (inGroup statuses g a && installDate a = date) := by
  have hdated : (groupAtDate g date).cohortDate.isSome = true ∧ a.record.eventName = .install :=
    ⟨rfl, hinstall⟩
  have hoccurred : dateAt a.record.occurredAt .utc "occurred_at" = .ok (installDate a) := by
    rw [dateAt, time_of_isCalendar hcalendar]
    rfl
  have hstatus : matchesStatus statuses (groupAtDate g date) a
      = g.all (fun g => matchesStatus statuses g a) := by
    cases g with
    | none => simp only [matchesStatus, groupAtDate, Option.getD_none, agrees, Option.isNone_none,
        Bool.true_or, ite_self, Option.all_none]
    | some g => rfl
  have hrest : (agrees (groupAtDate g date).campaignId (campaignOf a) &&
      agrees ((groupAtDate g date).network.map (·.text)) (networkOf a) &&
      agrees (groupAtDate g date).country (countryOf a))
      = g.all (fun g => agrees g.campaignId (campaignOf a) &&
        agrees (g.network.map (·.text)) (networkOf a) && agrees g.country (countryOf a)) := by
    cases g with
    | none => rfl
    | some g => rfl
  have hsame : (some (installDate a) = some date) = (installDate a = date) := by
    rw [Option.some.injEq]
  simp only [matchesGrouping, hrest, if_pos hdated, hoccurred, hstatus]
  cases g with
  | none =>
      simp only [Option.all_none, inGroup, Bool.not_true, Bool.false_eq_true, if_false, bind,
        Except.bind, pure, Except.pure, groupAtDate, Option.getD_none, Bool.and_true, Bool.true_and,
        Option.some.injEq, eq_comm]
  | some g =>
      simp only [Option.all_some, inGroup]
      cases (agrees g.campaignId (campaignOf a) &&
        agrees (g.network.map (·.text)) (networkOf a) && agrees g.country (countryOf a)) with
      | false => rfl
      | true =>
          simp only [Bool.not_true, Bool.false_eq_true, if_false, bind, Except.bind, pure,
            Except.pure, groupAtDate, Option.getD_some, Bool.true_and, Option.some.injEq,
            eq_comm, Bool.and_comm]

end Groups

section Views

variable {data : CohortData} {input : EvaluatorInput} {e : MetricEvaluation} {scope : Scope}

/-- The deliveries an evaluation may read. -/
def CohortData.visible (data : CohortData) (e : MetricEvaluation) : List Attempt :=
  visibleAttempts data.ingestion.lifecycle e.privacyState
    (includedAttempts data.ingestion.decisions data.ingestion.all e.inputReceivedAtWatermark)

/-- The installs of the group, on every date. -/
def CohortData.installs (data : CohortData) (e : MetricEvaluation) : List Attempt :=
  ((data.visible e).filter (fun a => a.record.eventName = .install)).filter
    (inGroup data.context.statuses e.grouping)

/-- What a computation sees was ingested and accepted as the only one of its
key. -/
theorem CohortData.mem_visible {a : Attempt} (ha : a ∈ data.visible e) :
    a ∈ data.ingestion.all ∧ isAcceptedUnique data.ingestion.decisions a = true := by
  have hincluded := (List.mem_filter.mp ha).1
  obtain ⟨hmem, haccepted⟩ := List.mem_filter.mp hincluded
  rw [Bool.and_eq_true] at haccepted
  exact ⟨hmem, haccepted.1⟩

/-- The group sees its installs. -/
theorem CohortData.view_eq (hgroup : e.grouping.bind (·.cohortDate) = none) :
    data.view e = .ok ⟨includedAttempts data.ingestion.decisions data.ingestion.all
      e.inputReceivedAtWatermark, data.visible e, data.installs e,
      currentCosts data.costs e (data.installs e)⟩ := by
  have hinstalls : cohortInstalls data.context.statuses e.grouping (data.visible e)
      = .ok (data.installs e) :=
    PartialList.select_of_total fun a _ => matchesGrouping_undated hgroup a
  rw [visible] at hinstalls
  simp only [view, metricView, hinstalls]
  rfl

variable (hi : ingest input fixtureCandidateProvider = .ok data.ingestion)

include hi

/-- A visible delivery has a date. -/
theorem CohortData.isCalendar_of_mem_visible {a : Attempt} (ha : a ∈ data.visible e) :
    a.record.occurredAt.isCalendar = true := by
  obtain ⟨hmem, haccepted⟩ := mem_visible ha
  obtain ⟨-, hcandidates, -, hlist, hdecisions, -⟩ := ingest_eq_ok hi
  rw [hcandidates] at hlist
  rw [hdecisions, isAcceptedUnique_eq hlist hmem, isWinner_iff hmem] at haccepted
  have hpass := haccepted.2.1
  simp only [passesOwnChecks, Bool.and_eq_true] at hpass
  exact hpass.1.2

/-- At a date the group sees its installs of the date. -/
theorem CohortData.view_atDate (date : CalendarDate) :
    data.view (e.atDate date) = .ok ⟨includedAttempts data.ingestion.decisions data.ingestion.all
      e.inputReceivedAtWatermark, data.visible e,
      (data.installs e).filter (fun a => installDate a = date),
      currentCosts data.costs (e.atDate date)
        ((data.installs e).filter (fun a => installDate a = date))⟩ := by
  have hinstalls : cohortInstalls data.context.statuses (e.atDate date).grouping
      (data.visible (e.atDate date)) = .ok ((data.installs e).filter (fun a => installDate a = date)) := by
    rw [installs, List.filter_filter]
    refine PartialList.select_of_total fun a ha => ?_
    obtain ⟨hvisible, hinstall⟩ := List.mem_filter.mp ha
    rw [Bool.and_comm]
    exact matchesGrouping_atDate (of_decide_eq_true hinstall) (isCalendar_of_mem_visible hi hvisible)
  rw [visible] at hinstalls
  simp only [view, metricView, hinstalls]
  rfl

/-- The visible installs anchor distinct installations. -/
theorem CohortData.nodup_installs : ((data.installs e).map anchorKey).Nodup := by
  obtain ⟨-, -, -, -, -, hanchors, -⟩ := ingest_eq_ok hi
  simp only [assertInstallationAnchors, bind_eq_ok] at hanchors
  obtain ⟨result, haccumulate, -⟩ := hanchors
  have hnodup := (nodup_anchors haccumulate).1
  have hsub : ((data.visible e).filter (fun a => a.record.eventName = .install)).Sublist
      (data.ingestion.all.filter (fun a => a.record.eventName = .install &&
        isAcceptedUnique data.ingestion.decisions a)) := by
    have hvisible : (data.visible e).Sublist
        (data.ingestion.all.filter (isAcceptedUnique data.ingestion.decisions)) := by
      refine List.filter_sublist.trans ?_
      exact List.monotone_filter_right _ fun a ha => (Bool.and_eq_true _ _ ▸ ha).1
    have hfilter := hvisible.filter (fun a : Attempt => a.record.eventName = .install)
    rw [List.filter_filter] at hfilter
    exact hfilter
  exact ((List.filter_sublist.trans hsub).map anchorKey).nodup hnodup

end Views

section Values

variable {d : MetricDefinition} {fx : FxPolicy} {installs visible : List Attempt}

/-- What one revenue delivery adds to a cohort. -/
def revenueOf (d : MetricDefinition) (fx : FxPolicy) (installs : List Attempt) (a : Attempt) :
    Except Failure Int :=
  match installationAmong installs a with
  | none => .ok 0
  | some install => do
      if ← eligibleRevenue d install.record a.record then convertMoney a.record.payload.money fx
      else return 0

omit [Digest] in
/-- Revenue is added record by record. -/
theorem addRevenue_eq (sum : Int) (a : Attempt) :
    addRevenue d fx installs sum a = (revenueOf d fx installs a).map (sum + ·) := by
  unfold addRevenue revenueOf
  cases installationAmong installs a with
  | none => simp only [Except.map, add_zero]
  | some install =>
      dsimp only
      cases eligibleRevenue d install.record a.record with
      | error failure => rfl
      | ok eligible =>
          cases eligible with
          | false =>
              change Except.ok sum = .ok (sum + 0)
              rw [add_zero]
          | true =>
              cases convertMoney a.record.payload.money fx with
              | error failure => rfl
              | ok amount => rfl

omit [Digest] in
/-- The revenue of a cohort is the sum of what its deliveries add. -/
theorem revenueValue_eq_ok {total : Int} :
    revenueValue d fx installs visible = .ok total ↔
      ∃ f : Attempt → Int, (∀ a ∈ revenueAttempts visible, revenueOf d fx installs a = .ok (f a)) ∧
        total = ((revenueAttempts visible).map f).sum := by
  have hgeneral : ∀ l : List Attempt, ∀ start : Int,
      PartialList.accumulate (addRevenue d fx installs) start l = .ok total ↔
        ∃ f : Attempt → Int, (∀ a ∈ l, revenueOf d fx installs a = .ok (f a)) ∧
          total = start + (l.map f).sum := by
    intro l
    induction l with
    | nil =>
        intro start
        simp only [PartialList.accumulate, List.not_mem_nil, false_imp_iff, implies_true, true_and,
          List.map_nil, List.sum_nil, add_zero, Except.ok.injEq, exists_const]
        exact eq_comm
    | cons a rest ih =>
        intro start
        rw [PartialList.accumulate_cons, addRevenue_eq]
        constructor
        · intro h
          cases hadds : revenueOf d fx installs a with
          | error failure =>
              rw [hadds] at h
              cases h
          | ok x =>
              rw [hadds] at h
              obtain ⟨f, hf, htotal⟩ := (ih (start + x)).mp h
              refine ⟨fun b => (revenueOf d fx installs b).toOption.getD 0, fun b hb => ?_, ?_⟩
              · rcases List.mem_cons.mp hb with rfl | hb
                · simp only [hadds, Except.toOption, Option.getD_some]
                · simp only [hf b hb, Except.toOption, Option.getD_some]
              · have hrest : rest.map (fun b => (revenueOf d fx installs b).toOption.getD 0)
                    = rest.map f := List.map_congr_left fun b hb => by
                  simp only [hf b hb, Except.toOption, Option.getD_some]
                rw [List.map_cons, List.sum_cons, hrest, hadds, htotal]
                simp only [Except.toOption, Option.getD_some]
                omega
        · rintro ⟨f, hf, htotal⟩
          rw [hf a List.mem_cons_self]
          refine (ih (start + f a)).mpr ⟨f, fun b hb => hf b (List.mem_cons_of_mem _ hb), ?_⟩
          rw [htotal, List.map_cons, List.sum_cons]
          omega
  rw [revenueValue, hgeneral]
  simp only [zero_add]

omit [Digest] in
/-- With distinct anchors the installation at a date is the installation, if it
has the date. -/
theorem installationAmong_atDate (hnodup : (installs.map anchorKey).Nodup) (date : CalendarDate)
    (a : Attempt) :
    installationAmong (installs.filter (fun x => installDate x = date)) a
      = (installationAmong installs a).filter (fun x => installDate x = date) := by
  have hmatch : ∀ x : Attempt, (x.scope = a.scope &&
      x.record.payload.installationId = a.record.payload.installationId) = true ↔
        anchorKey x = (a.scope, a.record.payload.installationId) := by
    intro x
    rw [Bool.and_eq_true, decide_eq_true_iff, decide_eq_true_iff, anchorKey, Prod.mk.injEq]
  have hmatched : ∀ (l : List Attempt) (x : Attempt), installationAmong l a = some x →
      anchorKey x = (a.scope, a.record.payload.installationId) := by
    intro l x hx
    rw [installationAmong] at hx
    exact (hmatch x).mp (by simpa using List.find?_some hx)
  cases hfound : installationAmong installs a with
  | none =>
      rw [Option.filter_none]
      refine List.find?_eq_none.mpr fun x hx => ?_
      exact List.find?_eq_none.mp hfound x (List.mem_filter.mp hx).1
  | some x =>
      have hx := List.mem_of_find?_eq_some hfound
      have hkey := hmatched installs x hfound
      have honly : ∀ y ∈ installs, anchorKey y = (a.scope, a.record.payload.installationId) →
          y = x := fun y hy h => List.inj_on_of_nodup_map hnodup hy hx (h.trans hkey.symm)
      by_cases hdate : installDate x = date
      · rw [Option.filter_some, if_pos (decide_eq_true hdate)]
        have hsome : (installationAmong (installs.filter (fun x => installDate x = date)) a).isSome := by
          rw [installationAmong, List.find?_isSome]
          exact ⟨x, List.mem_filter.mpr ⟨hx, decide_eq_true hdate⟩, (hmatch x).mpr hkey⟩
        obtain ⟨y, hy⟩ := Option.isSome_iff_exists.mp hsome
        rw [hy, honly y (List.mem_filter.mp (List.mem_of_find?_eq_some hy)).1 (hmatched _ y hy)]
      · rw [Option.filter_some, if_neg (by simpa using hdate)]
        refine List.find?_eq_none.mpr fun y hy hmatches => hdate ?_
        obtain ⟨hyInstalls, hyDate⟩ := List.mem_filter.mp hy
        rw [← honly y hyInstalls ((hmatch y).mp hmatches)]
        exact of_decide_eq_true hyDate

omit [Digest] in
/-- **Revenue adds up.**  Each install is on one date, and its revenue is
rounded before it is added. -/
theorem revenueValue_sumsTo (hnodup : (installs.map anchorKey).Nodup) {total : Int}
    (h : revenueValue d fx installs visible = .ok total) :
    ∃ f, SumsTo f total ∧ ∀ date,
      revenueValue d fx (installs.filter (fun x => installDate x = date)) visible = .ok (f date) := by
  obtain ⟨g, hg, rfl⟩ := revenueValue_eq_ok.mp h
  -- each delivery pays on the date of its installation, and only there
  let part : CalendarDate → Attempt → Int := fun date a =>
    match installationAmong installs a with
    | none => 0
    | some install => if installDate install = date then g a else 0
  have hpart : ∀ date, ∀ a ∈ revenueAttempts visible,
      revenueOf d fx (installs.filter (fun x => installDate x = date)) a = .ok (part date a) := by
    intro date a ha
    have hwhole := hg a ha
    simp only [part]
    unfold revenueOf at hwhole ⊢
    rw [installationAmong_atDate hnodup]
    cases hfound : installationAmong installs a with
    | none => rfl
    | some install =>
        rw [hfound] at hwhole
        by_cases hdate : installDate install = date
        · rw [Option.filter_some, if_pos (decide_eq_true hdate)]
          simp only [if_pos hdate]
          exact hwhole
        · rw [Option.filter_some, if_neg (by simpa using hdate)]
          simp only [if_neg hdate]
  refine ⟨fun date => ((revenueAttempts visible).map (part date)).sum, ?_, fun date =>
    revenueValue_eq_ok.mpr ⟨part date, hpart date, rfl⟩⟩
  refine sumsTo_list fun a ha => ?_
  simp only [part]
  cases hfound : installationAmong installs a with
  | none =>
      have hwhole := hg a ha
      rw [revenueOf, hfound] at hwhole
      have hzero : g a = 0 := (Except.ok.inj hwhole).symm
      rw [hzero]
      exact sumsTo_zero
  | some install => exact sumsTo_single (installDate install) (g a)

omit [Digest] in
/-- **Sizes add up.**  Each installation of the cohort is counted on the date
of its install and on no other. -/
theorem cohortSize_sumsTo {scope : Scope} (hnodup : (installs.map anchorKey).Nodup)
    (hscope : ∀ a ∈ installs, a.scope = scope) :
    SumsTo (fun date => (cohortSize (installs.filter (fun x => installDate x = date)) : Int))
      (cohortSize installs) := by
  have hsize : ∀ l : List Attempt, l.Sublist installs → cohortSize l = l.length := by
    intro l hl
    have hanchors : (l.map anchorKey).Nodup := (hl.map anchorKey).nodup hnodup
    have hids : l.map anchorKey = (l.map (·.record.payload.installationId)).map (fun id => (scope, id)) := by
      rw [List.map_map]
      exact List.map_congr_left fun a ha => by
        simp only [anchorKey, Function.comp, hscope a (hl.subset ha)]
    rw [hids] at hanchors
    rw [cohortSize, hanchors.of_map.dedup, List.length_map]
  have hone : ∀ l : List Attempt, (l.length : Int) = (l.map (fun _ => (1 : Int))).sum := by
    intro l
    simp
  have hcount : ∀ date, (cohortSize (installs.filter (fun x => installDate x = date)) : Int)
      = (installs.map (fun a => if installDate a = date then (1 : Int) else 0)).sum := by
    intro date
    rw [hsize _ List.filter_sublist]
    clear hnodup hscope hsize
    induction installs with
    | nil => rfl
    | cons a rest ih =>
        rw [List.filter_cons, List.map_cons, List.sum_cons, ← ih]
        by_cases hdate : installDate a = date
        · rw [if_pos (decide_eq_true hdate), if_pos hdate, List.length_cons]
          omega
        · rw [if_neg (by simpa using hdate), if_neg hdate, zero_add]
  rw [hsize _ (List.Sublist.refl _), hone installs]
  simp only [hcount]
  exact sumsTo_list fun a _ => sumsTo_single (installDate a) 1

end Values

section Runs

variable {data : CohortData} {input : EvaluatorInput} {e : MetricEvaluation} {scope : Scope}
  {d : MetricDefinition} {name : String}

omit [Digest] in
/-- The check of the metric date does not look at the cohort date. -/
theorem checkMetricDate_atDate (date : CalendarDate) :
    checkMetricDate d name (some (groupAtDate e.grouping date)) = checkMetricDate d name e.grouping := by
  cases hg : e.grouping with
  | none => rfl
  | some g => rfl

omit [Digest] in
/-- A definition that admits a cohort date admits every one. -/
theorem checkGrouping_atDate (hadmits : d.admitsCohortDate = true)
    (h : checkGrouping d name e.grouping = .ok ()) (date : CalendarDate) :
    checkGrouping d name (some (groupAtDate e.grouping date)) = .ok () := by
  cases hdims : d.groupingDimensions with
  | none => simp only [checkGrouping, hdims]
  | some dimensions =>
      have hcohort : dimensions.contains .cohortDate = true := by
        simpa [MetricDefinition.admitsCohortDate, hdims] using hadmits
      have hold : ∀ x ∈ (e.grouping.getD {}).dimensions, dimensions.contains x = true := by
        intro x hx
        cases hg : e.grouping with
        | none =>
            rw [hg] at hx
            exact absurd hx List.not_mem_nil
        | some g =>
            rw [hg] at hx
            simp only [checkGrouping, hg, hdims] at h
            split at h
            · rename_i hempty
              rw [List.isEmpty_iff, List.filter_eq_nil_iff] at hempty
              simpa using hempty x hx
            · cases h
      have hnew : ∀ x ∈ (groupAtDate e.grouping date).dimensions, dimensions.contains x = true := by
        intro x hx
        by_cases hx' : x = .cohortDate
        · rw [hx']
          exact hcohort
        · refine hold x ?_
          simp only [Grouping.dimensions, List.mem_filterMap] at hx ⊢
          obtain ⟨entry, hentry, hsome⟩ := hx
          refine ⟨entry, ?_, hsome⟩
          simp only [groupAtDate, List.mem_cons, List.not_mem_nil, or_false] at hentry ⊢
          rcases hentry with h | h | h | h | h | h | h
          · exact .inl h
          · exact .inr (.inl h)
          · exact .inr (.inr (.inl h))
          · subst h
            simp only [Option.isSome_some, if_true, Option.some.injEq] at hsome
            exact absurd hsome.symm hx'
          · exact .inr (.inr (.inr (.inr (.inl h))))
          · exact .inr (.inr (.inr (.inr (.inr (.inl h)))))
          · exact .inr (.inr (.inr (.inr (.inr (.inr h)))))
      have hempty : ((groupAtDate e.grouping date).dimensions.filter
          (fun x => !dimensions.contains x)).isEmpty = true := by
        rw [List.isEmpty_iff, List.filter_eq_nil_iff]
        intro x hx
        rw [hnew x hx]
        exact Bool.false_ne_true
      simp only [checkGrouping, hdims, if_pos hempty]

/-- What a run of one metric comes to. -/
theorem runs_eq_ok {r : MetricRun} :
    data.runs e name = .ok [r] ↔ ∃ view rate, data.view e = .ok view ∧
      data.context.fx.rates = [rate] ∧
      metricRun data.ingestion.lifecycle data.context data.definitions
        { e with
          metricNames := some [name] } view rate name = .ok r := by
  simp only [CohortData.runs, CohortData.view, evaluationRuns, bind_eq_ok]
  constructor
  · rintro ⟨view, hview, h⟩
    split at h
    · rename_i rate hrates
      simp only [Option.getD_some, PartialList.traverse_cons, bind_eq_ok, pure_eq_ok] at h
      obtain ⟨run, hrun, rest, hrest, hlist⟩ := h
      cases hrest
      cases hlist
      exact ⟨view, rate, hview, hrates, hrun⟩
    · cases h
  · rintro ⟨view, rate, hview, hrates, hrun⟩
    refine ⟨view, hview, ?_⟩
    rw [hrates]
    simp only [Option.getD_some, PartialList.traverse_cons, bind_eq_ok, pure_eq_ok]
    exact ⟨r, hrun, [], rfl, rfl⟩

/-- The value of a run of one metric. -/
theorem metricRun_value {view : MetricView} {rate : FxRate} {lifecycle : Lifecycle} {c : MetricContext}
    {definitions : List MetricDefinition} {v : MetricValue}
    (hdef : definitions.find? (fun d => d.metricName = name) = some d) :
    (∃ r, metricRun lifecycle c definitions e view rate name = .ok r ∧ r.value = v) ↔
      checkGrouping d name e.grouping = .ok () ∧
        metricValue c d name e.grouping view = .ok v ∧ checkMetricDate d name e.grouping = .ok () := by
  simp only [metricRun, hdef, bind_eq_ok, pure_eq_ok]
  constructor
  · rintro ⟨r, ⟨⟨⟩, hgroup, value, hvalue, ⟨⟩, hdate, hr⟩, hv⟩
    subst hr
    exact ⟨hgroup, hv ▸ hvalue, hdate⟩
  · rintro ⟨hgroup, hvalue, hdate⟩
    exact ⟨_, ⟨(), hgroup, v, hvalue, (), hdate, rfl⟩, rfl⟩

omit [Digest] in
/-- The value of a calculation that sums over a cohort. -/
theorem metricValue_cohortSum {c : MetricContext} {g : Option Grouping} {view : MetricView}
    {v : MetricValue} (hsum : isCohortSum d.definition.calculation = true) :
    metricValue c d name g view = .ok v ↔ ∃ revenue,
      revenueValue d c.fx (eligibleInstalls c.excluded d view.installs) view.visible = .ok revenue ∧
      v = .present (if d.definition.calculation = .revenueSum then revenue
        else cohortSize (eligibleInstalls c.excluded d view.installs)) := by
  simp only [metricValue, bind_eq_ok]
  simp only [isCohortSum, Bool.or_eq_true, decide_eq_true_eq] at hsum
  constructor
  · rintro ⟨revenue, hrevenue, h⟩
    refine ⟨revenue, hrevenue, ?_⟩
    rcases hsum with hcalc | hcalc
    · rw [hcalc] at h
      rw [if_pos hcalc]
      exact (Except.ok.inj h).symm
    · rw [hcalc] at h
      rw [if_neg (by rw [hcalc]; decide)]
      exact (Except.ok.inj h).symm
  · rintro ⟨revenue, hrevenue, hv⟩
    refine ⟨revenue, hrevenue, ?_⟩
    rcases hsum with hcalc | hcalc
    · rw [if_pos hcalc] at hv
      rw [hcalc, hv]
      rfl
    · rw [if_neg (by rw [hcalc]; decide)] at hv
      rw [hcalc, hv]
      rfl

end Runs

section Law

variable {data : CohortData} {input : EvaluatorInput} {e : MetricEvaluation} {scope : Scope}

omit [Digest] in
/-- The eligible installs are some of the installs, in their order. -/
theorem eligibleInstalls_sublist (excluded : List (Option Identifier)) (d : MetricDefinition)
    (installs : List Attempt) : (eligibleInstalls excluded d installs).Sublist installs := by
  unfold eligibleInstalls
  split
  · exact List.filter_sublist
  · exact List.Sublist.refl _

omit [Digest] in
/-- To choose eligible installs and to choose by another test are in any order.
-/
theorem eligibleInstalls_filter (excluded : List (Option Identifier)) (d : MetricDefinition)
    (installs : List Attempt) (p : Attempt → Bool) :
    eligibleInstalls excluded d (installs.filter p) = (eligibleInstalls excluded d installs).filter p := by
  unfold eligibleInstalls
  split
  · exact List.filter_comm _ _ _
  · rfl

/-- **Runs of revenue and size add up**, without any condition: the dates
divide the cohort, and each date is summed like the whole. -/
theorem values_addUp (hi : ingest input fixtureCandidateProvider = .ok data.ingestion)
    (hscope : data.IsSingleScope scope) (hgroup : e.grouping.bind (·.cohortDate) = none)
    {name : String} {d : MetricDefinition} {r : MetricRun}
    (hdef : data.definitions.find? (fun d => d.metricName = name) = some d)
    (hsum : isCohortSum d.definition.calculation = true) (hr : data.runs e name = .ok [r]) :
    ∃ f total, r.value = .present total ∧ SumsTo f total ∧
      (d.admitsCohortDate = true → ∀ date, ∃ r', data.runs (e.atDate date) name = .ok [r'] ∧
        r'.value = .present (f date)) := by
  obtain ⟨view, rate, hview, hrates, hrun⟩ := runs_eq_ok.mp hr
  rw [CohortData.view_eq hgroup] at hview
  cases hview
  obtain ⟨hchecked, hvalue, hdated⟩ := (metricRun_value hdef).mp ⟨r, hrun, rfl⟩
  obtain ⟨revenue, hrevenue, htotal⟩ := (metricValue_cohortSum hsum).mp hvalue
  have hnodup : ((eligibleInstalls data.context.excluded d (data.installs e)).map anchorKey).Nodup :=
    ((eligibleInstalls_sublist _ _ _).map anchorKey).nodup (CohortData.nodup_installs hi)
  have hinScope : ∀ a ∈ eligibleInstalls data.context.excluded d (data.installs e), a.scope = scope := by
    intro a ha
    have hmem := (eligibleInstalls_sublist _ _ _).subset ha
    have hvisible := (List.mem_filter.mp (List.mem_filter.mp hmem).1).1
    exact hscope.attempts a (CohortData.mem_visible hvisible).1
  obtain ⟨f, hf, hfdate⟩ := revenueValue_sumsTo hnodup hrevenue
  have hsize := cohortSize_sumsTo hnodup hinScope
  refine ⟨fun date => if d.definition.calculation = .revenueSum then f date
    else cohortSize ((eligibleInstalls data.context.excluded d (data.installs e)).filter
      (fun x => installDate x = date)), _, htotal, ?_, fun hadmits date => ?_⟩
  · by_cases hcalc : d.definition.calculation = .revenueSum
    · simp only [if_pos hcalc]
      exact hf
    · simp only [if_neg hcalc]
      exact hsize
  · let view : MetricView := ⟨includedAttempts data.ingestion.decisions data.ingestion.all
      e.inputReceivedAtWatermark, data.visible e,
      (data.installs e).filter (fun a => installDate a = date),
      currentCosts data.costs (e.atDate date)
        ((data.installs e).filter (fun a => installDate a = date))⟩
    have heligible : eligibleInstalls data.context.excluded d view.installs
        = (eligibleInstalls data.context.excluded d (data.installs e)).filter
          (fun x => installDate x = date) := eligibleInstalls_filter _ _ _ _
    have hvalueDate : metricValue data.context d name (some (groupAtDate e.grouping date)) view
        = .ok (.present (if d.definition.calculation = .revenueSum then f date
          else cohortSize (eligibleInstalls data.context.excluded d view.installs))) := by
      refine (metricValue_cohortSum hsum).mpr ⟨f date, ?_, rfl⟩
      rw [heligible]
      exact hfdate date
    rw [heligible] at hvalueDate
    have hrunDate : ∃ r', metricRun data.ingestion.lifecycle data.context data.definitions
        { e.atDate date with
          metricNames := some [name] } view rate name = .ok r' ∧ r'.value = _ :=
      (metricRun_value hdef).mpr ⟨checkGrouping_atDate hadmits hchecked date, hvalueDate,
        (checkMetricDate_atDate date).trans hdated⟩
    obtain ⟨r', hr', hvalue'⟩ := hrunDate
    exact ⟨r', runs_eq_ok.mpr ⟨_, rate, CohortData.view_atDate hi date, hrates, hr'⟩, hvalue'⟩

omit [Digest] in
/-- An amount at the target scale is a number of units. -/
theorem exists_scaleMoney (m : Money) (targetScale : Nat) :
    ∃ n : ℕ, scaleMoney m targetScale = .ok (n : Int) := by
  unfold scaleMoney
  split
  · exact ⟨_, rfl⟩
  · unfold roundHalfEven
    have hpos : ¬ ((10 ^ (m.amountScale - targetScale) : Nat) : Int) ≤ 0 := by
      have := Nat.pos_of_ne_zero (pow_ne_zero (m.amountScale - targetScale) (by decide : (10 : ℕ) ≠ 0))
      omega
    have hnonneg : ¬ ((m.amountUnscaled.value : Nat) : Int) < 0 := by omega
    rw [if_neg hpos]
    simp only [if_neg hnonneg]
    exact ⟨_, rfl⟩

/-- A report's amount at the target scale. -/
def costUnits (fx : FxPolicy) (c : CostRecord) : ℕ :=
  ((scaleMoney c.money fx.targetScale).toOption.getD 0).toNat

omit [Digest] in
/-- A cost is scaled to the units of the target. -/
theorem scaleMoney_costUnits (fx : FxPolicy) (c : CostRecord) :
    scaleMoney c.money fx.targetScale = .ok (costUnits fx c : Int) := by
  obtain ⟨n, hn⟩ := exists_scaleMoney c.money fx.targetScale
  rw [costUnits, hn]
  rfl

omit [Digest] in
/-- A cost is worth nothing where it is of the target currency and rounds to no
unit. -/
theorem isWorthless_iff {fx : FxPolicy} {c : CostRecord} :
    IsWorthless fx c ↔ c.money.currency = fx.targetCurrency ∧ costUnits fx c = 0 := by
  rw [IsWorthless, scaleMoney_costUnits, Except.ok.injEq, Int.natCast_eq_zero]

omit [Digest] in
/-- The denominator is the sum of the reports, all in the target currency. -/
theorem accumulate_addCost {fx : FxPolicy} {l : List CostRecord} {start total : Int} :
    PartialList.accumulate (addCost fx) start l = .ok total ↔
      (∀ c ∈ l, c.money.currency = fx.targetCurrency) ∧
        total = start + ((l.map (costUnits fx)).sum : ℕ) := by
  induction l generalizing start with
  | nil =>
      simp only [PartialList.accumulate, List.not_mem_nil, false_imp_iff, implies_true, true_and,
        List.map_nil, List.sum_nil, Nat.cast_zero, add_zero, Except.ok.injEq]
      exact eq_comm
  | cons c rest ih =>
      rw [PartialList.accumulate_cons, addCost, scaleMoney_costUnits]
      by_cases hcurrency : c.money.currency = fx.targetCurrency
      · rw [if_neg (not_not.mpr hcurrency)]
        refine (@ih (start + costUnits fx c)).trans ?_
        rw [List.forall_mem_cons, List.map_cons, List.sum_cons, Nat.cast_add, add_assoc]
        exact ⟨fun h => ⟨⟨hcurrency, h.1⟩, h.2⟩, fun h => ⟨h.1.2, h.2⟩⟩
      · rw [if_pos hcurrency]
        refine Iff.intro ?_ ?_
        · intro h
          cases h
        · intro h
          exact absurd (h.1 c List.mem_cons_self) hcurrency

omit [Digest] in
/-- With one app every cost is of the cohort's scope. -/
theorem isGroupedCost_eq (hscope : data.IsSingleScope scope) {installs : List Attempt}
    (hinstalls : ∀ a ∈ installs, a.scope = scope) {c : CostRecord} (hc : c ∈ data.costs) :
    isGroupedCost e (installs.map Attempt.scope) c = isGroupedCost e [] c := by
  have hscopes : ((installs.map Attempt.scope).isEmpty ||
      (installs.map Attempt.scope).contains c.scope) = true := by
    cases installs with
    | nil => rfl
    | cons a rest =>
        rw [Bool.or_eq_true, List.contains_iff_mem]
        refine .inr (List.mem_map.mpr ⟨a, List.mem_cons_self, ?_⟩)
        rw [hinstalls a List.mem_cons_self, hscope.costs c hc]
  simp only [isGroupedCost, hscopes, List.isEmpty_nil, Bool.true_or]

omit [Digest] in
/-- At a date a group counts the reports of the date. -/
theorem isGroupedCost_atDate (hgroup : e.grouping.bind (·.cohortDate) = none) (date : CalendarDate)
    (c : CostRecord) :
    isGroupedCost (e.atDate date) [] c = (isGroupedCost e [] c && c.date = date) := by
  cases hg : e.grouping with
  | none =>
      simp only [isGroupedCost, MetricEvaluation.atDate, groupAtDate, hg, Option.getD_none,
        Option.bind_some, Option.bind_none, Option.all_none, Option.all_some, agrees,
        Option.isNone_none, Option.isNone_some, Bool.true_or, Bool.false_or, Bool.true_and,
        Bool.and_true, List.isEmpty_nil, Option.some.injEq]
  | some g =>
      have hundated : g.cohortDate = none := by
        rw [hg] at hgroup
        exact hgroup
      simp only [isGroupedCost, MetricEvaluation.atDate, groupAtDate, hg, Option.getD_some,
        Option.bind_some, Option.all_some, agrees, hundated, List.isEmpty_nil, Bool.true_or,
        Option.isNone_none, Option.isNone_some, Bool.false_or, Bool.and_true, Option.some.injEq,
        Bool.and_assoc]

omit [Digest] in
/-- The current costs of a group are the latest of its reports. -/
theorem currentCosts_eq (hscope : data.IsSingleScope scope) {installs : List Attempt}
    (hinstalls : ∀ a ∈ installs, a.scope = scope) :
    currentCosts data.costs e installs = LatestRows.latest costKey (countedCosts data.costs e) := by
  have hfilter : data.costs.filter (isGroupedCost e (installs.map Attempt.scope))
      = data.costs.filter (isGroupedCost e []) :=
    List.filter_congr fun c hc => isGroupedCost_eq hscope hinstalls hc
  rw [currentCosts, hfilter]
  rfl

omit [Digest] in
/-- The costs of a date are those of all dates with that date. -/
theorem countedCosts_atDate (hgroup : e.grouping.bind (·.cohortDate) = none) (date : CalendarDate)
    (costs : List CostRecord) :
    countedCosts costs (e.atDate date) = (countedCosts costs e).filter (fun c => c.date = date) := by
  rw [countedCosts, countedCosts, KeyedSort.filter_sortOn, List.filter_filter]
  refine congrArg _ (List.filter_congr fun c _ => ?_)
  rw [isGroupedCost_atDate hgroup, Bool.and_comm]

/-- The installs of data of one app are of that app. -/
theorem CohortData.scope_of_mem_installs (hscope : data.IsSingleScope scope) {a : Attempt}
    (ha : a ∈ data.installs e) : a.scope = scope := by
  have hvisible := (List.mem_filter.mp (List.mem_filter.mp ha).1).1
  exact hscope.attempts a (CohortData.mem_visible hvisible).1

/-- The denominator of a group. -/
theorem denominator_eq_ok (hscope : data.IsSingleScope scope)
    (hgroup : e.grouping.bind (·.cohortDate) = none) {total : Int} :
    data.denominator e = .ok total ↔
      (∀ c ∈ LatestRows.latest costKey (countedCosts data.costs e),
        c.money.currency = data.context.fx.targetCurrency) ∧
      total = (((LatestRows.latest costKey (countedCosts data.costs e)).map
        (costUnits data.context.fx)).sum : ℕ) := by
  simp only [CohortData.denominator, CohortData.view_eq hgroup, bind_eq_ok, Except.ok.injEq,
    exists_eq_left', accumulate_addCost, zero_add,
    currentCosts_eq hscope fun a ha => CohortData.scope_of_mem_installs hscope ha]

/-- The denominator at a date. -/
theorem denominator_atDate_eq_ok (hi : ingest input fixtureCandidateProvider = .ok data.ingestion)
    (hscope : data.IsSingleScope scope) (hgroup : e.grouping.bind (·.cohortDate) = none)
    (date : CalendarDate) {total : Int} :
    data.denominator (e.atDate date) = .ok total ↔
      (∀ c ∈ LatestRows.latest costKey ((countedCosts data.costs e).filter (fun c => c.date = date)),
        c.money.currency = data.context.fx.targetCurrency) ∧
      total = (((LatestRows.latest costKey
        ((countedCosts data.costs e).filter (fun c => c.date = date))).map
          (costUnits data.context.fx)).sum : ℕ) := by
  have hcosts : currentCosts data.costs (e.atDate date)
      ((data.installs e).filter (fun a => installDate a = date))
        = LatestRows.latest costKey
          ((countedCosts data.costs e).filter (fun c => c.date = date)) := by
    rw [currentCosts_eq hscope fun a ha =>
      CohortData.scope_of_mem_installs hscope (List.mem_filter.mp ha).1, countedCosts_atDate hgroup]
  simp only [CohortData.denominator, CohortData.view_atDate hi, bind_eq_ok, Except.ok.injEq,
    exists_eq_left', accumulate_addCost, zero_add, hcosts]

omit [Digest] in
/-- A cost is overtaken by its date where it is the latest of its date, and not
the latest of all. -/
theorem isOvertakenByDate_iff {rows : List CostRecord} {c : CostRecord} :
    IsOvertakenByDate rows c ↔
      c ∈ LatestRows.latest costKey (rows.filter (fun c' => c'.date = c.date)) ∧
        c ∉ LatestRows.latest costKey rows := by
  rw [LatestRows.mem_latest, LatestRows.mem_latest]
  exact Iff.rfl

/-- The denominators of the dates sum to the denominator of the group. -/
def CohortData.CostsAddUp (data : CohortData) (e : MetricEvaluation) : Prop :=
  ∀ total, data.denominator e = .ok total →
    ∃ f, SumsTo f total ∧ ∀ date, data.denominator (e.atDate date) = .ok (f date)

/-- Where the latest reports of all series are in the target currency, every
report that another date overtakes counts for nothing. -/
def CohortData.LosesNoCost (data : CohortData) (e : MetricEvaluation) : Prop :=
  (∀ c, LatestRows.lastOf costKey (costKey c) (countedCosts data.costs e) = some c →
      c.money.currency = data.context.fx.targetCurrency) →
    ∀ c ∈ countedCosts data.costs e, IsOvertakenByDate (countedCosts data.costs e) c →
      IsWorthless data.context.fx c

/-- The units of the latest reports of a date. -/
def CohortData.unitsAt (data : CohortData) (e : MetricEvaluation) (date : CalendarDate) : ℕ :=
  ((LatestRows.latest costKey ((countedCosts data.costs e).filter (fun c => c.date = date))).map
    (costUnits data.context.fx)).sum

omit [Digest] in
/-- A date without counted costs contributes nothing. -/
theorem unitsAt_eq_zero {date : CalendarDate}
    (hdate : date ∉ ((countedCosts data.costs e).map (·.date)).toFinset) :
    (data.unitsAt e date : ℤ) = 0 := by
  have hnone : (countedCosts data.costs e).filter (fun c => c.date = date) = [] := by
    rw [List.filter_eq_nil_iff]
    intro c hc heq
    exact hdate (List.mem_toFinset.mpr (List.mem_map.mpr ⟨c, hc, of_decide_eq_true heq⟩))
  rw [CohortData.unitsAt, hnone]
  rfl

omit [Digest] in
/-- The dates make the whole exactly where the overtaken reports are of no
amount. -/
theorem sumsTo_unitsAt_iff :
    SumsTo (fun date => (data.unitsAt e date : ℤ))
        (((LatestRows.latest costKey (countedCosts data.costs e)).map
          (costUnits data.context.fx)).sum : ℕ) ↔
      ∀ c ∈ countedCosts data.costs e, IsOvertakenByDate (countedCosts data.costs e) c →
        costUnits data.context.fx c = 0 := by
  have hparts : ((LatestRows.latest costKey (countedCosts data.costs e)).map
      (costUnits data.context.fx)).sum
        = ∑ date ∈ ((countedCosts data.costs e).map CostRecord.date).toFinset,
          data.unitsAt e date ↔ _ := LatestRows.sum_parts_eq_iff CostRecord.date
  have hlost : (∀ c ∈ countedCosts data.costs e, IsOvertakenByDate (countedCosts data.costs e) c →
      costUnits data.context.fx c = 0) ↔
        ∀ c ∈ countedCosts data.costs e, c ∈ LatestRows.latest costKey
          ((countedCosts data.costs e).filter (fun c' => c'.date = c.date)) →
            c ∉ LatestRows.latest costKey (countedCosts data.costs e) →
              costUnits data.context.fx c = 0 :=
    forall₂_congr fun c _ => by rw [isOvertakenByDate_iff, and_imp]
  rw [hlost, ← hparts]
  constructor
  · intro h
    have hsum := h.sum_eq fun date hdate => unitsAt_eq_zero hdate
    rw [← Nat.cast_sum, Nat.cast_inj] at hsum
    exact hsum.symm
  · intro h
    refine ⟨_, fun date hdate => unitsAt_eq_zero hdate, ?_⟩
    rw [← Nat.cast_sum, Nat.cast_inj]
    exact h.symm

/-- **Costs add up** exactly where no report is lost to another date.  The
digest of a report leaves its date out, so a later report for another date can
take its place. -/
theorem costsAddUp_iff (hi : ingest input fixtureCandidateProvider = .ok data.ingestion)
    (hscope : data.IsSingleScope scope) (hgroup : e.grouping.bind (·.cohortDate) = none) :
    data.CostsAddUp e ↔ data.LosesNoCost e := by
  constructor
  · intro hadds hcurrent
    have hlatest : ∀ c ∈ LatestRows.latest costKey (countedCosts data.costs e),
        c.money.currency = data.context.fx.targetCurrency :=
      fun c hc => hcurrent c (LatestRows.mem_latest.mp hc)
    obtain ⟨f, hf, hfdate⟩ := hadds _ ((denominator_eq_ok hscope hgroup).mpr ⟨hlatest, rfl⟩)
    have hdates := fun date => (denominator_atDate_eq_ok hi hscope hgroup date).mp (hfdate date)
    obtain rfl : f = fun date => (data.unitsAt e date : ℤ) := funext fun date => (hdates date).2
    intro c hc hovertaken
    exact isWorthless_iff.mpr ⟨(hdates c.date).1 c (isOvertakenByDate_iff.mp hovertaken).1,
      sumsTo_unitsAt_iff.mp hf c hc hovertaken⟩
  · intro hloses total htotal
    obtain ⟨hlatest, rfl⟩ := (denominator_eq_ok hscope hgroup).mp htotal
    have hworthless := hloses fun c hc => hlatest c (LatestRows.mem_latest.mpr hc)
    refine ⟨fun date => (data.unitsAt e date : ℤ), sumsTo_unitsAt_iff.mpr fun c hc hovertaken =>
      (isWorthless_iff.mp (hworthless c hc hovertaken)).2, fun date =>
      (denominator_atDate_eq_ok hi hscope hgroup date).mpr ⟨fun c hc => ?_, rfl⟩⟩
    by_cases hcurrent : c ∈ LatestRows.latest costKey (countedCosts data.costs e)
    · exact hlatest c hcurrent
    · obtain ⟨hmem, -⟩ := LatestRows.key_of_lastOf (LatestRows.mem_latest.mp hc)
      obtain ⟨hmem, hdate⟩ := List.mem_filter.mp hmem
      rw [← of_decide_eq_true hdate] at hc
      exact (hworthless c hmem (isOvertakenByDate_iff.mpr ⟨hc, hcurrent⟩)).1

/-- **Cohorts and their dates.**  Over the deliveries of one app, the runs of
revenue and size of a group and its cost denominator are the sums over the
dates if and only if no cost report is lost to a report of another date. -/
theorem cohortAdditive_iff (hi : ingest input fixtureCandidateProvider = .ok data.ingestion)
    (hscope : data.IsSingleScope scope) (hgroup : e.grouping.bind (·.cohortDate) = none) :
    IsCohortAdditive data e ↔ data.LosesNoCost e := by
  constructor
  · intro hadditive
    exact (costsAddUp_iff hi hscope hgroup).mp hadditive.costs
  · intro hloses
    exact {
      values := fun name d r hdef hsum hr => values_addUp hi hscope hgroup hdef hsum hr
      costs := (costsAddUp_iff hi hscope hgroup).mpr hloses }

end Law

end Additivity

section Days

attribute [local instance] checksumDigest

/-- A day's cost of a campaign, reported in the evening. -/
def campaignCost (campaign name : Identifier) (day : Fin 100)
    (units : List (Fin 10)) : CostRecord where
  costRecordId := name
  tenantId := .named "tenant"
  appId := .named "app"
  network := .named "network"
  campaignId := campaign
  date := ⟨2026, 1, day⟩
  money := ⟨⟨units⟩, 2, "USD"⟩
  source := "report"
  asOf := ⟨2026, 1, day, 20, 0, 0, 0⟩
  reportSnapshotDigest := "report"
  dimensionDigest := sha256 (.object [
    member "network" (.named "network" : Identifier),
    member "campaign_id" campaign,
    ("ad_group_id", none),
    ("country", none)])

/-- A day's cost of one campaign. -/
def dayCost (name : Identifier) (day : Fin 100) (units : List (Fin 10)) :
    CostRecord :=
  campaignCost (.named "campaign") name day units

/-- Two days of one campaign. -/
def twoDays : List CostRecord :=
  [dayCost (.named "first") 2 [1, 0, 0],
   dayCost (.named "second") 3 [2, 0, 0]]

/-- An input without deliveries, with the costs of two days. -/
def costInput (costs : List CostRecord) : EvaluatorInput where
  ingress := .batches []
  fxPolicy := { (runtimeInput []).fxPolicy with
    targetScale := 2 }
  costRecords := costs

/-- What its evaluations are computed from. -/
def costData (costs : List CostRecord) : CohortData where
  ingestion := {
    all := []
    candidates := fixtureCandidateProvider []
    decisionsList := []
    decisions := decisionMap [] []
    lifecycle := privacyIndex (costInput costs)
    accepted := [] }
  context := ⟨attributionStatuses [], [], [], (costInput costs).fxPolicy⟩
  definitions := baseMetricDefinitions
  costs := costs

/-- The whole cohort, behind both days. -/
def wholeCohort : MetricEvaluation where
  metricRunIdPrefix := .named "run"
  inputReceivedAtWatermark := ⟨2026, 1, 5, 0, 0, 0, 0⟩
  computedAt := ⟨2026, 1, 5, 0, 0, 0, 0⟩
  dataFreshness := "complete"
  privacyState := .before

/-- Costs alone are ingested as no records. -/
theorem ingest_costInput (costs : List CostRecord) :
    ingest (costInput costs) fixtureCandidateProvider = .ok (costData costs).ingestion := rfl

/-- The ids of the latest reports of the first day's series: on its date, and
on all dates. -/
def latestIds (costs : List CostRecord) (c : CostRecord) : List (Option String) :=
  let rows := countedCosts costs wholeCohort
  [LatestRows.lastOf costKey (costKey c) (rows.filter (fun c' => c'.date = c.date)),
    LatestRows.lastOf costKey (costKey c) rows].map (·.map (·.costRecordId.text))

set_option maxRecDepth 4000 in
/-- The second day overtakes the first; the reports pass their checks. -/
theorem latestIds_twoDays :
    latestIds twoDays (dayCost (.named "first") 2 [1, 0, 0]) = [some "first", some "second"] ∧
      (costRecords (costInput twoDays)).isOk = true := by
  decide +kernel

/-- What is counted is one of the costs. -/
theorem mem_of_mem_countedCosts {costs : List CostRecord} {c : CostRecord}
    (hc : c ∈ countedCosts costs wholeCohort) : c ∈ costs := by
  rw [countedCosts, KeyedSort.mem_sortOn] at hc
  exact (List.mem_filter.mp hc).1

/-- **A day's cost is lost.**  The total of the two days is the cost of the
second day alone, because the digest of a report does not contain its date and
only the latest report of a digest is counted. -/
theorem twoDays_not_additive :
    ingest (costInput twoDays) fixtureCandidateProvider = .ok (costData twoDays).ingestion ∧
      (costRecords (costInput twoDays)).isOk = true ∧
      ¬ IsCohortAdditive (costData twoDays) wholeCohort := by
  obtain ⟨hids, hchecked⟩ := latestIds_twoDays
  refine ⟨ingest_costInput twoDays, hchecked, fun hadditive => ?_⟩
  have hscope : (costData twoDays).IsSingleScope ⟨⟨"tenant", by decide⟩, ⟨"app", by decide⟩⟩ :=
    { attempts := fun a ha => absurd ha List.not_mem_nil
      costs := by
        intro c hc
        rcases List.mem_cons.mp hc with rfl | hc
        · rfl
        · obtain rfl := List.mem_singleton.mp hc
          rfl }
  have hloses := (costsAddUp_iff (ingest_costInput twoDays) hscope rfl).mp hadditive.costs
  simp only [latestIds, List.map_cons, List.map_nil, List.cons.injEq, and_true] at hids
  obtain ⟨hday, hall⟩ := hids
  obtain ⟨c, hlast, hc⟩ := Option.map_eq_some_iff.mp hday
  obtain ⟨hmem, -⟩ := LatestRows.key_of_lastOf hlast
  have hcounted := (List.mem_filter.mp hmem).1
  have hfirst : c = dayCost (.named "first") 2 [1, 0, 0] := by
    rcases List.mem_cons.mp (mem_of_mem_countedCosts hcounted) with h | h
    · exact h
    · rw [List.mem_singleton.mp h] at hc
      exact absurd hc (by decide)
  rw [hfirst] at hlast hcounted
  have hworthless := hloses (fun c' hc' => ?_) _ hcounted ⟨hlast, fun h => ?_⟩
  · have hamount := hworthless.2
    exact absurd (Except.ok.inj hamount) (by decide)
  · have hmem' := mem_of_mem_countedCosts (LatestRows.key_of_lastOf hc').1
    rcases List.mem_cons.mp hmem' with rfl | h
    · rfl
    · obtain rfl := List.mem_singleton.mp h
      rfl
  · have hid : LatestRows.lastOf costKey (costKey (dayCost (.named "first") 2 [1, 0, 0]))
        (countedCosts twoDays wholeCohort) = some (dayCost (.named "first") 2 [1, 0, 0]) := h
    rw [hid] at hall
    exact absurd hall (by decide)

/-- An install of a day, received early on the fourth. -/
def datedInstall (name : Identifier) (day : Fin 100) : Record :=
  { (launchAttempt name {
      eventName := .install
      installationId := some name
      installType := some .firstInstall }).record with
    occurredAt := ⟨2026, 1, day, 3, 4, 0, 0⟩
    receivedAt := ⟨2026, 1, 4, 0, 0, 0, 0⟩ }

/-- Two days of two campaigns: a report of each day for one, a report of the
second day for the other, and a revision of that one. -/
def twoCampaigns : List CostRecord :=
  let other := campaignCost (.named "other")
  [dayCost (.named "first") 2 [1, 0, 0],
   other (.named "second") 3 [2, 0, 0],
   { other (.named "record") 3 [3, 0, 0] with
      asOf := ⟨2026, 1, 4, 20, 0, 0, 0⟩ }]

/-- Two installs of different days, with the costs of both. -/
def datedInput : EvaluatorInput :=
  { costInput twoCampaigns with
    ingress := .direct
      { (launchAttempt (.named "first") { eventName := .install }).server with
        receivedAt := ⟨2026, 1, 4, 0, 0, 0, 0⟩ }
      [datedInstall (.named "first") 2,
        datedInstall (.named "second") 3] }

/-- The cohort data behind an ingestion of the installs. -/
def datedData (i : Ingestion) : CohortData :=
  { costData twoCampaigns with
    ingestion := i }

set_option maxRecDepth 4000 in
/-- Both installs are accepted, and reports of one series are of one date. -/
theorem datedInput_ingested :
    (ingest datedInput fixtureCandidateProvider).toOption.any (fun i =>
      i.all.all (fun a => a.scope = launchInstall.scope) &&
        i.accepted.map installDate = [⟨2026, 1, 2⟩, ⟨2026, 1, 3⟩]) = true ∧
    (∀ c ∈ twoCampaigns, c.scope = launchInstall.scope) ∧
    ∀ c ∈ twoCampaigns, ∀ c' ∈ twoCampaigns, costKey c' = costKey c → c'.date = c.date := by
  decide +kernel

/-- Where the reports of a series are of one date, none is lost to another. -/
theorem losesNoCost_of_dates {data : CohortData} {e : MetricEvaluation}
    (h : ∀ c ∈ data.costs, ∀ c' ∈ data.costs, costKey c' = costKey c → c'.date = c.date) :
    data.LosesNoCost e := by
  intro _ c hc hovertaken
  have hcosts : ∀ c' ∈ countedCosts data.costs e, c' ∈ data.costs := by
    intro c' hc'
    rw [countedCosts, KeyedSort.mem_sortOn] at hc'
    exact (List.mem_filter.mp hc').1
  have hseries : ((countedCosts data.costs e).filter (fun c' => c'.date = c.date)).filter
      (fun c' => costKey c' = costKey c) =
        (countedCosts data.costs e).filter (fun c' => costKey c' = costKey c) := by
    rw [List.filter_filter]
    refine List.filter_congr fun c' hc' => ?_
    by_cases hkey : costKey c' = costKey c
    · simp [hkey, h c (hcosts c hc) c' (hcosts c' hc') hkey]
    · simp [hkey]
  have hlast := hovertaken.1
  rw [LatestRows.lastOf, hseries] at hlast
  exact absurd hlast hovertaken.2

/-- Two installs and the costs of two campaigns on two dates: the cohort is the
sum of its dates, as the digests of the reports differ. -/
theorem twoCampaigns_additive : ∃ i,
    ingest datedInput fixtureCandidateProvider = .ok i ∧
      i.accepted.map installDate = [⟨2026, 1, 2⟩, ⟨2026, 1, 3⟩] ∧
      IsCohortAdditive (datedData i) wholeCohort := by
  obtain ⟨hingested, hcosts, hdates⟩ := datedInput_ingested
  cases hi : ingest datedInput fixtureCandidateProvider with
  | error e =>
      rw [hi] at hingested
      cases hingested
  | ok i =>
      rw [hi] at hingested
      obtain ⟨hall, hinstalls⟩ := Bool.and_eq_true_iff.mp hingested
      have hscope : (datedData i).IsSingleScope launchInstall.scope :=
        { attempts := fun a ha => of_decide_eq_true (List.all_eq_true.mp hall a ha)
          costs := hcosts }
      exact ⟨i, rfl, of_decide_eq_true hinstalls,
        (cohortAdditive_iff hi hscope rfl).mpr (losesNoCost_of_dates hdates)⟩

end Days

end OpenMasu
