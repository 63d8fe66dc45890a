import OpenMasu.AcquisitionRestriction

/-!
# Re-engagement and acquisition

Deleting the deep-link opens of an input leaves what an evaluation reports
about acquisition as it is, where no accepted install has the subject of an
accepted open and no open binds the fraud bundle of a source day's scope.

* `metricView_acquisition`, `metricValue_acquisition` — a metric that does
  not count opens, on the view without them;
* `metricRuns_acquisition` — all runs of such metrics;
* `EngagementApart` — what the two evaluations have in common;
* `engagement_apart` — when they have it;
* `engagement_subject_collides` — an install named like an open's subject.
-/

namespace OpenMasu

open PartialList (bind_eq_ok pure_eq_ok)

/-- The runs of the definition count deep-link opens: as its events, or as
the activity of an installation. -/
def MetricDefinition.countsOpens (d : MetricDefinition) : Bool :=
  (d.definition.calculation = .eventCount && (d.eventNames.getD []).contains .deepLinkOpen) ||
    (d.definition.calculation = .activeInstallationsOverCohort &&
      (d.activityEvents.getD ["session_start"]).contains EventName.deepLinkOpen.text)

/-- The metric counts deep-link opens. -/
def countsOpens (definitions : List MetricDefinition) (name : String) : Bool :=
  (definitions.find? (fun d => d.metricName = name)).any MetricDefinition.countsOpens

/-- A run without the evidence it was taken from. -/
def MetricRun.withoutEvidence (r : MetricRun) : MetricRun :=
  { r with
    inputSnapshotId := ""
    inputLedgerPosition := ""
    reproducibilityStatus := .fullyReproducible
    evidenceRefs := [] }

/-- The runs of metrics that do not count opens. -/
def acquisitionRuns (definitions : List MetricDefinition) (runs : List MetricRun) :
    List MetricRun :=
  (runs.filter (fun r => !countsOpens definitions r.metricName)).map MetricRun.withoutEvidence

section Stages

variable [Digest] {all : List Attempt} {list list' : List Decision}

section Metrics

variable {statuses statuses' : AttributionStatuses} {lifecycle : Lifecycle}

/-- The installs of a list have the same status in both maps. -/
def StatusesAgree (statuses statuses' : AttributionStatuses) (l : List Attempt) : Prop :=
  ∀ a ∈ l, a.record.eventName = .install →
    statuses'.get (a.scope, a.record.payload.installationId.map (·.text))
      = statuses.get (a.scope, a.record.payload.installationId.map (·.text))

omit [Digest] in
/-- A delivery that is no open belongs to the same groups in both maps. -/
theorem matchesGrouping_acquisition {l : List Attempt} (h : StatusesAgree statuses statuses' l)
    {a : Attempt} (ha : a ∈ l) (hacquired : isAcquisition a = true) (grouping : Option Grouping) :
    matchesGrouping statuses' grouping a = matchesGrouping statuses grouping a := by
  have hstatus : ∀ g, matchesStatus statuses' g a = matchesStatus statuses g a := by
    intro g
    by_cases hinstall : a.record.eventName = .install
    · simp only [matchesStatus, attributionSubject, hinstall, if_true, true_or, h a ha hinstall]
    · have hno : ¬ (a.record.eventName = .install ∨ a.record.eventName = .deepLinkOpen) :=
        not_or.mpr ⟨hinstall, isAcquisition_eq_true.mp hacquired⟩
      simp only [matchesStatus, if_neg hno]
  cases grouping with
  | none => rfl
  | some g => simp only [matchesGrouping, hstatus]

/-- The deliveries an evaluation includes are winners. -/
theorem includedAttempts_eq (h : decisionsOf all (fixtureCandidateProvider all) = .ok list)
    (watermark : Timestamp) :
    includedAttempts (decisionMap all list) all watermark
      = (winners all).filter (fun a => isBefore a.record.receivedAt watermark) := by
  rw [winners, ← acceptedUnique_eq h, acceptedUnique, List.filter_filter, includedAttempts]
  refine List.filter_congr (fun a _ => ?_)
  rw [Bool.and_comm]

/-- The view of an evaluation without the opens. -/
def MetricView.withoutOpens (view : MetricView) : MetricView :=
  { view with included := acquisition view.included, visible := acquisition view.visible }

/-- **What an evaluation sees without the opens.**  Of the records visible to
it the same are left, and they have the same statuses. -/
theorem metricView_acquisition (hapart : OpensApart all)
    (h : decisionsOf all (fixtureCandidateProvider all) = .ok list)
    (h' : decisionsOf (acquisition all) (fixtureCandidateProvider (acquisition all)) = .ok list')
    (hstatuses : StatusesAgree statuses statuses' (winners all)) (costs : List CostRecord)
    (e : MetricEvaluation) :
    metricView (acquisition all) (decisionMap (acquisition all) list') lifecycle statuses' costs e
      = (metricView all (decisionMap all list) lifecycle statuses costs e).map
          MetricView.withoutOpens := by
  have hincluded : includedAttempts (decisionMap (acquisition all) list') (acquisition all)
        e.inputReceivedAtWatermark
      = acquisition (includedAttempts (decisionMap all list) all e.inputReceivedAtWatermark) := by
    rw [includedAttempts_eq h', includedAttempts_eq h, winners_acquisition hapart, acquisition,
      acquisition, List.filter_comm]
  have hsub : ∀ a ∈ visibleAttempts lifecycle e.privacyState
        (includedAttempts (decisionMap all list) all e.inputReceivedAtWatermark),
      a ∈ winners all := by
    intro a ha
    have ha := (List.mem_filter.mp ha).1
    rw [includedAttempts_eq h] at ha
    exact (List.mem_filter.mp ha).1
  simp only [metricView, hincluded]
  generalize includedAttempts (decisionMap all list) all e.inputReceivedAtWatermark = included
    at hsub ⊢
  have hvisible : visibleAttempts lifecycle e.privacyState (acquisition included)
      = acquisition (visibleAttempts lifecycle e.privacyState included) := by
    simp only [visibleAttempts, acquisition]
    exact List.filter_comm _ _ _
  rw [hvisible]
  generalize visibleAttempts lifecycle e.privacyState included = visible at hsub ⊢
  have hinstalls : (acquisition visible).filter (fun a => a.record.eventName = .install)
      = visible.filter (fun a => a.record.eventName = .install) := by
    refine filter_acquisition (fun a _ ha => ?_)
    rw [isAcquisition_eq_true, of_decide_eq_true ha]
    exact fun h => by cases h
  have hcohort : cohortInstalls statuses' e.grouping (acquisition visible)
      = cohortInstalls statuses e.grouping visible := by
    rw [cohortInstalls, cohortInstalls, hinstalls]
    refine PartialList.select_congr (fun a ha => ?_)
    obtain ⟨ha, hevent⟩ := List.mem_filter.mp ha
    refine matchesGrouping_acquisition hstatuses (hsub a ha) ?_ _
    rw [isAcquisition_eq_true, of_decide_eq_true hevent]
    exact fun h => by cases h
  rw [hcohort]
  cases cohortInstalls statuses e.grouping visible <;> rfl

/-- The context of the metrics without the engagement results. -/
def MetricContext.withoutOpens (c : MetricContext) (statuses : AttributionStatuses) :
    MetricContext :=
  { c with statuses := statuses, attributions := c.attributions.filter isAcquisitionRow }

variable {c : MetricContext} {d : MetricDefinition} {visible : List Attempt}

omit [Digest] in
/-- Aggregate credit is the same without the engagement results. -/
theorem isCredited_acquisition (attributions : List Attribution) (a : Attempt) :
    isCredited (attributions.filter isAcquisitionRow) a = isCredited attributions a := by
  rw [isCredited, isCredited, List.any_filter]
  congr 1
  funext t
  by_cases hscope : t.subjectScope = .aggregate
  · simp [isAcquisitionRow, hscope]
  · simp [hscope]

omit [Digest] in
/-- **A count of other events without the opens.**  The count reads the events
it names, and the opens are none of them. -/
theorem eventCountValue_acquisition
    (hcounts : (d.eventNames.getD []).contains .deepLinkOpen = false)
    (hstatuses : StatusesAgree c.statuses statuses' visible) (name : String)
    (grouping : Option Grouping) :
    eventCountValue (c.withoutOpens statuses') d name grouping (acquisition visible)
      = eventCountValue c d name grouping visible := by
  unfold eventCountValue
  split
  · case h_1 date g _ =>
      cases hevents : (d.eventNames.getD []).dedup with
      | nil => rfl
      | cons event rest =>
          cases rest with
          | cons _ _ => rfl
          | nil =>
              have hevent : event ≠ .deepLinkOpen := by
                intro hopen
                have hmem : event ∈ d.eventNames.getD [] :=
                  List.mem_dedup.mp (hevents ▸ List.mem_singleton_self event)
                rw [hopen, ← List.contains_iff_mem, hcounts] at hmem
                cases hmem
              have hother : ∀ a : Attempt, isAcquisition a = false →
                  a.record.eventName ≠ event := by
                intro a hopen hname
                rw [← Bool.not_eq_true, isAcquisition_eq_true, not_not] at hopen
                exact hevent (hname.symm.trans hopen)
              have hpostback : PartialList.select (countsAsPostback
                    (c.attributions.filter isAcquisitionRow) event date g.appleConversionBucket)
                    (acquisition visible)
                  = PartialList.select (countsAsPostback c.attributions event date
                    g.appleConversionBucket) visible := by
                rw [PartialList.select_filter (fun a _ hopen => by
                  rw [countsAsPostback, if_pos (hother a hopen)])]
                exact PartialList.select_congr (fun a _ => by
                  simp only [countsAsPostback, isCredited_acquisition])
              have hcount : PartialList.select (countsAsEvent d statuses' c.excluded event
                    (some g) date) (acquisition visible)
                  = PartialList.select (countsAsEvent d c.statuses c.excluded event (some g) date)
                    visible := by
                rw [PartialList.select_filter (fun a _ hopen => by
                  rw [countsAsEvent, if_pos (.inl (hother a hopen))])]
                refine PartialList.select_congr (fun a ha => ?_)
                by_cases hacquired : isAcquisition a = true
                · simp only [countsAsEvent,
                    matchesGrouping_acquisition hstatuses ha hacquired (some g)]
                · have hne := hother a (by simpa using hacquired)
                  rw [countsAsEvent, countsAsEvent, if_pos (.inl hne), if_pos (.inl hne)]
              simp only [MetricContext.withoutOpens, hpostback, hcount]
  · rfl

omit [Digest] in
/-- **The value of a metric that does not count opens.**  It is the same
without them, whatever it calculates. -/
theorem metricValue_acquisition (hcounts : d.countsOpens = false) {view : MetricView}
    (hstatuses : StatusesAgree c.statuses statuses' view.visible) (name : String)
    (grouping : Option Grouping) :
    metricValue (c.withoutOpens statuses') d name grouping view.withoutOpens
      = metricValue c d name grouping view := by
  have hrevenue : revenueAttempts (acquisition view.visible) = revenueAttempts view.visible := by
    refine filter_acquisition (fun a _ ha => ?_)
    simp only [Bool.and_eq_true, decide_eq_true_eq] at ha
    rw [isAcquisition_eq_true, ha.1]
    nofun
  simp only [MetricDefinition.countsOpens, Bool.or_eq_false_iff] at hcounts
  have hactive : d.definition.calculation = .activeInstallationsOverCohort →
      activeCount d view.installs (acquisition view.visible)
        = activeCount d view.installs view.visible := by
    intro hcalculation
    have hactivity : (acquisition view.visible).filter (isActivity d)
        = view.visible.filter (isActivity d) := by
      refine filter_acquisition (fun a _ ha => ?_)
      rw [isAcquisition_eq_true]
      intro hopen
      have hno := hcounts.2
      rw [isActivity, hopen] at ha
      rw [hcalculation, ha] at hno
      cases hno
    rw [activeCount, activeCount, hactivity]
  have hevents : d.definition.calculation = .eventCount →
      eventCountValue (c.withoutOpens statuses') d name grouping (acquisition view.visible)
        = eventCountValue c d name grouping view.visible := by
    intro hcalculation
    refine eventCountValue_acquisition ?_ hstatuses name grouping
    have hno := hcounts.1
    rwa [hcalculation, decide_eq_true rfl, Bool.true_and] at hno
  simp only [metricValue, revenueValue, MetricView.withoutOpens, hrevenue]
  cases hcalculation : d.definition.calculation with
  | activeInstallationsOverCohort =>
      simp only [hactive hcalculation]
      rfl
  | eventCount =>
      simp only [hevents hcalculation]
      rfl
  | _ => rfl

variable {definitions : List MetricDefinition} {e : MetricEvaluation} {rate : FxRate}

/-- A run carries the name it was asked for. -/
theorem metricName_of_metricRun {view : MetricView} {name : String} {r : MetricRun}
    (h : metricRun lifecycle c definitions e view rate name = .ok r) : r.metricName = name := by
  unfold metricRun at h
  split at h
  · cases h
  · simp only [bind_eq_ok, pure_eq_ok] at h
    obtain ⟨_, _, _, _, _, _, rfl⟩ := h
    rfl

/-- A run of a metric that does not count opens reports the same without
them. -/
theorem metricRun_acquisition {view : MetricView} {name : String} {r r' : MetricRun}
    (hcounts : countsOpens definitions name = false)
    (hstatuses : StatusesAgree c.statuses statuses' view.visible)
    (h : metricRun lifecycle c definitions e view rate name = .ok r)
    (h' : metricRun lifecycle (c.withoutOpens statuses') definitions e view.withoutOpens rate name
      = .ok r') : r'.withoutEvidence = r.withoutEvidence := by
  unfold metricRun at h h'
  cases hfind : definitions.find? (fun d => d.metricName = name) with
  | none =>
      rw [hfind] at h
      cases h
  | some d =>
      have hd : d.countsOpens = false := by simpa [countsOpens, hfind] using hcounts
      simp only [hfind, bind_eq_ok, pure_eq_ok, metricValue_acquisition hd hstatuses] at h h'
      obtain ⟨_, _, value, hvalue, _, _, rfl⟩ := h
      obtain ⟨_, _, value', hvalue', _, _, rfl⟩ := h'
      obtain rfl : value = value' := Except.ok.inj (hvalue.symm.trans hvalue')
      rfl

/-- The runs of one evaluation. -/
theorem evaluationRuns_acquisition (hapart : OpensApart all)
    (h : decisionsOf all (fixtureCandidateProvider all) = .ok list)
    (h' : decisionsOf (acquisition all) (fixtureCandidateProvider (acquisition all)) = .ok list')
    (hstatuses : StatusesAgree c.statuses statuses' (winners all)) {costs : List CostRecord}
    {rs rs' : List MetricRun}
    (hrs : evaluationRuns all (decisionMap all list) lifecycle c definitions costs e = .ok rs)
    (hrs' : evaluationRuns (acquisition all) (decisionMap (acquisition all) list') lifecycle
      (c.withoutOpens statuses') definitions costs e = .ok rs') :
    acquisitionRuns definitions rs' = acquisitionRuns definitions rs := by
  simp only [evaluationRuns, bind_eq_ok] at hrs hrs'
  obtain ⟨view, hview, hrs⟩ := hrs
  obtain ⟨view', hview', hrs'⟩ := hrs'
  rw [show (c.withoutOpens statuses').statuses = statuses' from rfl,
    metricView_acquisition hapart h h' hstatuses, hview] at hview'
  obtain rfl : view.withoutOpens = view' := Except.ok.inj hview'
  have hvisible : StatusesAgree c.statuses statuses' view.visible := by
    intro a ha
    refine hstatuses a ?_
    simp only [metricView, bind_eq_ok, pure_eq_ok] at hview
    obtain ⟨_, _, rfl⟩ := hview
    have ha := (List.mem_filter.mp ha).1
    rw [includedAttempts_eq h] at ha
    exact (List.mem_filter.mp ha).1
  rw [show (c.withoutOpens statuses').fx = c.fx from rfl] at hrs'
  split at hrs
  · case h_1 rate hrates =>
      simp only [hrates] at hrs'
      refine PartialList.map_filter_of_traverse hrs' hrs (fun name _ r' r hr' hr => ?_)
      rw [metricName_of_metricRun hr', metricName_of_metricRun hr]
      refine ⟨rfl, fun hcounts => ?_⟩
      exact metricRun_acquisition (by simpa using hcounts) hvisible hr hr'
  · cases hrs

/-- **All runs of metrics that do not count opens.**  They are listed by run
id and digest, so the evidence may change their order. -/
theorem metricRuns_acquisition (hapart : OpensApart all)
    (h : decisionsOf all (fixtureCandidateProvider all) = .ok list)
    (h' : decisionsOf (acquisition all) (fixtureCandidateProvider (acquisition all)) = .ok list')
    {input : EvaluatorInput} {attributions : List Attribution} {excluded : List (Option Identifier)}
    (hstatuses : StatusesAgree (attributionStatuses attributions)
      (attributionStatuses (attributions.filter isAcquisitionRow)) (winners all))
    (hdefinitions : metricDefinitions input = .ok definitions) {runs runs' : List MetricRun}
    (hruns : metricRuns input all (decisionMap all list) lifecycle attributions excluded
      = .ok runs)
    (hruns' : metricRuns input (acquisition all) (decisionMap (acquisition all) list') lifecycle
      (attributions.filter isAcquisitionRow) excluded = .ok runs') :
    (acquisitionRuns definitions runs').Perm (acquisitionRuns definitions runs) := by
  have hmap : ∀ l l' : List MetricRun, l.Perm l' →
      (acquisitionRuns definitions l).Perm (acquisitionRuns definitions l') :=
    fun l l' hl => (hl.filter _).map _
  have hflatten : ∀ ls : List (List MetricRun), acquisitionRuns definitions ls.flatten
      = (ls.map (acquisitionRuns definitions)).flatten := by
    intro ls
    simp only [acquisitionRuns, List.filter_flatten, List.map_flatten, List.map_map]
    rfl
  unfold metricRuns at hruns hruns'
  by_cases hempty : input.metricEvaluations.isEmpty = true
  · rw [if_pos hempty] at hruns hruns'
    obtain rfl := Except.ok.inj hruns
    obtain rfl := Except.ok.inj hruns'
    exact .refl _
  · rw [if_neg hempty] at hruns hruns'
    simp only [hdefinitions, bind_eq_ok, pure_eq_ok] at hruns hruns'
    obtain ⟨_, hdefs, costs, hcosts, ls, hls, rfl⟩ := hruns
    obtain ⟨_, hdefs', costs', hcosts', ls', hls', rfl⟩ := hruns'
    cases hdefs
    cases hdefs'
    obtain rfl : costs = costs' := Except.ok.inj (hcosts.symm.trans hcosts')
    have heq : ls'.map (acquisitionRuns definitions) = ls.map (acquisitionRuns definitions) := by
      have := PartialList.map_filter_of_traverse (p := fun _ => true)
        (F := acquisitionRuns definitions) hls' hls (fun e _ rs' rs hrs' hrs =>
          ⟨rfl, fun _ => evaluationRuns_acquisition hapart h h' hstatuses hrs hrs'⟩)
      simpa only [List.filter_true] using this
    refine (hmap _ _ (perm_sortByKey _ _)).trans (.trans ?_ (hmap _ _ (perm_sortByKey _ _)).symm)
    rw [hflatten, hflatten, heq]

omit [Digest] in
/-- Where no engagement has the subject of an accepted install, the status
of the installs is that of their own attributions. -/
theorem statusesAgree_of_priors {accepted : List Attempt} {attributions : List Attribution}
    (hprior : PriorsApart accepted attributions) :
    StatusesAgree (attributionStatuses attributions)
      (attributionStatuses (attributions.filter isAcquisitionRow)) accepted := by
  intro a ha hevent
  rw [attributionStatuses, attributionStatuses, InsertionMap.get_ofList_eq_getLast?,
    InsertionMap.get_ofList_eq_getLast?, List.filter_map, List.filter_map, List.filter_filter,
    List.filter_filter, List.filter_filter]
  congr 3
  refine List.filter_congr (fun t ht => ?_)
  by_cases href : t.subjectRef = a.record.payload.installationId.map (·.text)
  · simp [hprior a ha hevent t ht href]
  · simp [href]

end Metrics

section Law

/-- **What re-engagement leaves alone.**  Two outputs agree on acquisition,
and the engagement results of the first keep to subjects of their own. -/
structure EngagementApart (out out' : EvaluationOutput) : Prop where
  attributions : out.attributions.filter isAcquisitionRow
    = out'.attributions.filter isAcquisitionRow
  fraudDecisions : out.fraudDecisions = out'.fraudDecisions
  metricRuns : (acquisitionRuns out.metricDefinitions out.metricRuns).Perm
    (acquisitionRuns out'.metricDefinitions out'.metricRuns)
  subjects : ∀ t ∈ out.attributions, t.subjectScope = .engagementLevel →
    ∀ s ∈ out.attributions, s.subjectScope = .installationLevel → t.subjectRef ≠ s.subjectRef

variable {X : EvaluatorInput} {out out' : EvaluationOutput}

/-- The stages of an evaluation, over its accepted deliveries. -/
theorem evaluate_winners (h : evaluate X = .ok out) :
    ∃ list initial fraud,
      decisionsOf (orderedAttempts X) (fixtureCandidateProvider (orderedAttempts X)) = .ok list ∧
      initialAttributions (fixtureCandidateProvider (orderedAttempts X))
        (decisionMap (orderedAttempts X) list) (privacyIndex X) (winners (orderedAttempts X))
        = .ok initial ∧
      fraudStage X (winners (orderedAttempts X)) initial = .ok fraud ∧
      metricDefinitions X = .ok out.metricDefinitions ∧
      metricRuns X (orderedAttempts X) (decisionMap (orderedAttempts X) list) (privacyIndex X)
        out.attributions fraud.excludedInstallationIds = .ok out.metricRuns ∧
      out.attributions = sortAttributions (initial ++ fraud.provisional ++ fraud.excluded) ∧
      out.fraudDecisions = fraud.decisions := by
  simp only [evaluate, bind_eq_ok, pure_eq_ok] at h
  obtain ⟨i, hi, _, _, _, _, initial, hinitial, fraud, hfraud, _, _, definitions, hdefinitions,
    runs, hruns, _, _, rfl⟩ := h
  obtain ⟨hall, hcandidates, -, hlist, hdecisions, -, hlifecycle, haccepted⟩ := ingest_eq_ok hi
  rw [← orderedAttempts] at hall
  rw [hcandidates, hall] at hlist
  have hwinners : i.accepted = winners (orderedAttempts X) := by
    rw [haccepted, hdecisions, hall]
    exact acceptedUnique_eq hlist
  rw [hcandidates, hdecisions, hlifecycle, hall, hwinners] at hinitial
  rw [hwinners] at hfraud
  rw [hall, hdecisions, hall, hlifecycle] at hruns
  exact ⟨_, initial, fraud, hlist, hinitial, hfraud, hdefinitions, hruns, rfl, rfl⟩

/-- **Acquisition without the opens.**  Subjects that are apart and bundles
that stay the same are enough. -/
theorem engagementApart_of_subjects (h : evaluate X = .ok out)
    (h' : evaluate X.withoutOpens = .ok out') (hapart : OpensApart (attempts X))
    (hsubjects : SubjectsApart (winners (orderedAttempts X)))
    (hbundles : SameBundles X (winners (orderedAttempts X))) : EngagementApart out out' := by
  obtain ⟨list, initial, fraud, hlist, hinitial, hfraud, hdefinitions, hruns, hattributions,
    hdecisions⟩ := evaluate_winners h
  obtain ⟨list', initial', fraud', hlist', hinitial', hfraud', hdefinitions', hruns',
    hattributions', hdecisions'⟩ := evaluate_winners h'
  have hapart : OpensApart (orderedAttempts X) := by
    intro o ho a ha
    rw [orderedAttempts, mem_sortCandidateAttempts] at ho ha
    exact hapart o ho a ha
  rw [orderedAttempts_withoutOpens] at hlist' hinitial' hfraud' hruns'
  rw [winners_acquisition hapart] at hinitial' hfraud'
  -- the stages of the second run read the same input
  have hprior : PriorsApart (winners (orderedAttempts X)) initial :=
    priorsApart_of_subjects hsubjects hinitial
  obtain rfl : initial.filter isAcquisitionRow = initial' :=
    Except.ok.inj ((initialAttributions_acquisition hapart hlist hlist' hinitial).symm.trans
      hinitial')
  obtain rfl : fraud = fraud' :=
    Except.ok.inj ((fraudStage_acquisition hbundles hprior hfraud).symm.trans hfraud')
  have hsame : out.attributions.filter isAcquisitionRow = out'.attributions := by
    rw [hattributions, hattributions']
    exact attributions_acquisition hbundles hprior hfraud
  have hrow : ∀ t ∈ out.attributions, t ∈ initial ++ fraud.provisional ++ fraud.excluded := by
    intro t ht
    rwa [hattributions, sortAttributions, mem_sortByKey] at ht
  have hpriors : PriorsApart (winners (orderedAttempts X)) out.attributions := by
    intro i hi hevent t ht href
    by_contra hengaged
    have hscope : t.subjectScope = .engagementLevel := by simpa [isAcquisitionRow] using hengaged
    obtain ⟨o, ho, hopen, hsubject⟩ :=
      open_of_attribution hinitial hbundles hprior hfraud (hrow t ht) hscope
    exact hsubjects o ho i hi hopen hevent (href.symm.trans hsubject)
  refine ⟨?_, hdecisions.trans hdecisions'.symm, ?_, ?_⟩
  · rw [← hsame, List.filter_filter]
    simp only [Bool.and_self]
  · rw [← hsame] at hruns'
    obtain hdefs : out.metricDefinitions = out'.metricDefinitions :=
      Except.ok.inj (hdefinitions.symm.trans hdefinitions')
    rw [← hdefs]
    exact (metricRuns_acquisition hapart hlist hlist' (statusesAgree_of_priors hpriors)
      hdefinitions hruns hruns').symm
  · intro t ht hengaged s hs hinstalled heq
    obtain ⟨o, ho, hopen, hsubject⟩ :=
      open_of_attribution hinitial hbundles hprior hfraud (hrow t ht) hengaged
    obtain ⟨i, hi, hevent, href⟩ := install_of_attribution hinitial hfraud (hrow s hs) hinstalled
    exact hsubjects o ho i hi hopen hevent (href.symm.trans (heq.symm.trans hsubject))

/-- Engagement results with subjects of their own keep the accepted opens and
installs apart. -/
theorem subjectsApart_of_engagement (h : evaluate X = .ok out)
    (hsubjects : ∀ t ∈ out.attributions, t.subjectScope = .engagementLevel →
      ∀ s ∈ out.attributions, s.subjectScope = .installationLevel → t.subjectRef ≠ s.subjectRef) :
    SubjectsApart (winners (orderedAttempts X)) := by
  intro o ho i hi hopen hevent heq
  obtain ⟨list, initial, fraud, _, hinitial, _, _, _, hattributions, _⟩ := evaluate_winners h
  have hreported : ∀ t ∈ initial, t ∈ out.attributions := by
    intro t ht
    rw [hattributions, sortAttributions, mem_sortByKey, List.append_assoc]
    exact List.mem_append_left _ ht
  have ht := (initialAttributions_complete hinitial ho).2 hopen
  obtain ⟨s, hs, hscope, href⟩ := (initialAttributions_complete hinitial hi).1 hevent
  exact hsubjects _ (hreported _ ht) rfl s (hreported s hs) hscope (href.trans heq).symm

/-- **When re-engagement leaves acquisition alone.**  It does where no accepted
install has the subject of an accepted open and the opens bind no bundle of a
source day's scope; where an install has such a subject, it does not. -/
theorem engagement_apart (X : EvaluatorInput) (out out' : EvaluationOutput)
    (h : evaluate X = .ok out) (h' : evaluate X.withoutOpens = .ok out')
    (hapart : OpensApart (attempts X)) :
    (SubjectsApart (winners (orderedAttempts X)) ∧ SameBundles X (winners (orderedAttempts X)) →
        EngagementApart out out') ∧
      (EngagementApart out out' → SubjectsApart (winners (orderedAttempts X))) := by
  constructor
  · rintro ⟨hsubjects, hbundles⟩
    exact engagementApart_of_subjects h h' hapart hsubjects hbundles
  · intro hengagement
    exact subjectsApart_of_engagement h hengagement.subjects

end Law

end Stages

section Runs

attribute [local instance] checksumDigest

/-- A record of the home tenant. -/
def homeRecord (recordId : Identifier) (payload : Payload) : Record :=
  { sharedClickRecord (.named "home") payload with
    recordId := recordId
    deliveryId := recordId
    eventId := recordId
    payload := payload }

/-- The home tenant's batch with one record and an active link. -/
def linkedBatch (recordId : Identifier) (payload : Payload) : Batch where
  batchId := recordId
  serverContext := {
    homeBatch.serverContext with deepLinkResolution := some { status := .active } }
  records := [homeRecord recordId payload]

/-- The installs a credited attribution makes the cohort. -/
def creditedInstalls : MetricDefinition where
  metricName := "credited_installs"
  metricDefinitionVersion := "1"
  anchorEvent := "install"
  aggregationTimeZone := .utc
  valueType := .count
  definition := { calculation := .cohortSize, window := ⟨.elapsed, 0⟩, numerator := .cohortSize }
  groupingDimensions := some [.attributionStatus]
  ruleBundleId := "metrics"
  ruleBundleVersion := "1"
  ruleBundleHash := zeroHash

/-- An install without a click and an open of an active link, with the credited
installs counted. -/
def openedInstall (installationId : Identifier) : EvaluatorInput where
  ingress := .batches [
    linkedBatch ⟨"acquired", by decide⟩ {
      eventName := .install
      installationId := some installationId },
    linkedBatch (.named "open") {
      eventName := .deepLinkOpen
      installationId := some installationId }]
  fxPolicy := ⟨"1", "USD", 6, "half_even", [⟨"USD", ⟨[1]⟩, 0, "fixed", ⟨2026, 1, 1, 0, 0, 0, 0⟩⟩]⟩
  metricDefinitions := [creditedInstalls]
  metricEvaluations := [{
    metricRunIdPrefix := .named "run"
    inputReceivedAtWatermark := ⟨2026, 1, 5, 0, 0, 0, 0⟩
    computedAt := ⟨2026, 1, 5, 0, 0, 0, 0⟩
    dataFreshness := "complete"
    privacyState := .before
    metricNames := some ["credited_installs"]
    grouping := some { attributionStatus := some .nonOrganic } }]

/-- The values of the acquisition runs of an evaluation. -/
def acquisitionValues (input : EvaluatorInput) : Option (List MetricValue) :=
  match evaluate input with
  | .ok out => some ((acquisitionRuns out.metricDefinitions out.metricRuns).map (·.value))
  | .error _ => none

/-- An evaluation with values has an output with them. -/
theorem acquisitionValues_eq_some {input : EvaluatorInput} {values : List MetricValue}
    (h : acquisitionValues input = some values) :
    ∃ out, evaluate input = .ok out ∧
      (acquisitionRuns out.metricDefinitions out.metricRuns).map (·.value) = values := by
  unfold acquisitionValues at h
  split at h
  · case h_1 out hout => exact ⟨out, hout, Option.some.inj h⟩
  · cases h

set_option maxRecDepth 4000 in
/-- **An open credits an install that is named like its subject.**  The subject
of an open is made of its record id; an installation id of the same spelling
makes one subject of two, and the status of the open takes the place of the
install's. -/
theorem engagement_subject_collides :
    ∃ out out', evaluate (openedInstall ⟨"engagement:open", by decide⟩) = .ok out ∧
      evaluate (openedInstall ⟨"engagement:open", by decide⟩).withoutOpens = .ok out' ∧
      OpensApart (attempts (openedInstall ⟨"engagement:open", by decide⟩)) ∧
      ¬ EngagementApart out out' := by
  have hvalues : acquisitionValues (openedInstall ⟨"engagement:open", by decide⟩)
      = some [.present 1] := by
    decide +kernel
  have hvalues' : acquisitionValues (openedInstall ⟨"engagement:open", by decide⟩).withoutOpens
      = some [.present 0] := by
    decide +kernel
  obtain ⟨out, hout, hcredited⟩ := acquisitionValues_eq_some hvalues
  obtain ⟨out', hout', huncredited⟩ := acquisitionValues_eq_some hvalues'
  refine ⟨out, out', hout, hout', ?_, fun happart => ?_⟩
  · unfold OpensApart
    decide +kernel
  · have hperm := happart.metricRuns.map (·.value)
    rw [hcredited, huncredited, List.perm_singleton] at hperm
    cases hperm

set_option maxRecDepth 4000 in
/-- An install under another name keeps its attribution and its runs, whatever
is opened beside it. -/
theorem opened_install_apart :
    ∃ out out', evaluate (openedInstall ⟨"installation", by decide⟩) = .ok out ∧
      evaluate (openedInstall ⟨"installation", by decide⟩).withoutOpens = .ok out' ∧
      EngagementApart out out' := by
  have hvalues : acquisitionValues (openedInstall ⟨"installation", by decide⟩)
      = some [.present 0] := by
    decide +kernel
  have hvalues' : acquisitionValues (openedInstall ⟨"installation", by decide⟩).withoutOpens
      = some [.present 0] := by
    decide +kernel
  obtain ⟨out, hout, -⟩ := acquisitionValues_eq_some hvalues
  obtain ⟨out', hout', -⟩ := acquisitionValues_eq_some hvalues'
  refine ⟨out, out', hout, hout', (engagement_apart _ out out' hout hout' ?_).1 ⟨?_, ?_⟩⟩
  · unfold OpensApart
    decide +kernel
  · unfold SubjectsApart
    decide +kernel
  · intro g hg
    cases hg

end Runs

end OpenMasu
