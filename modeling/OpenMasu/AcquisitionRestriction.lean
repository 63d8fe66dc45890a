import OpenMasu.TenantIsolation

/-!
# An evaluation without its deep-link opens

Deleting the deep-link opens of an input and then running a stage gives the
stage's output without the engagement results, as long as no open shares a
record id or a logical key with another delivery.  The stages in order:

* `winners_acquisition` — the accepted deliveries;
* `initialAttributions_acquisition` — the attributions before fraud;
* `fraudStage_acquisition` — the fraud decisions and what they do, where the
  opens do not choose a scope's bundle and where no install has the subject
  of an open;
* `attributions_acquisition` — the attributions of the output.
-/

namespace OpenMasu

open PartialList (bind_eq_ok pure_eq_ok)

/-- The delivery is no deep-link open. -/
def isAcquisition (a : Attempt) : Bool := a.record.eventName ≠ .deepLinkOpen

/-- Everything but the opening of a deep link is about acquisition. -/
theorem isAcquisition_eq_true {a : Attempt} :
    isAcquisition a = true ↔ a.record.eventName ≠ .deepLinkOpen := decide_eq_true_iff

/-- The deliveries that are no deep-link opens. -/
abbrev acquisition (l : List Attempt) : List Attempt := l.filter isAcquisition

/-- The ingress without its deep-link opens; a batch stays when it is
emptied. -/
def Ingress.withoutOpens : Ingress → Ingress
  | .batches entries => .batches (entries.map (fun batch =>
      { batch with records := batch.records.filter (fun r => r.eventName ≠ .deepLinkOpen) }))
  | .direct server records => .direct server (records.filter (fun r => r.eventName ≠ .deepLinkOpen))
  | .none => .none

/-- The input with all its deep-link opens deleted. -/
def EvaluatorInput.withoutOpens (input : EvaluatorInput) : EvaluatorInput :=
  { input with ingress := input.ingress.withoutOpens }

/-- Without its opens an input has the attempts about acquisition. -/
theorem attempts_withoutOpens (input : EvaluatorInput) :
    attempts input.withoutOpens = acquisition (attempts input) := by
  simp only [attempts, EvaluatorInput.withoutOpens]
  cases input.ingress with
  | none => rfl
  | direct server records =>
      simp only [Ingress.withoutOpens, acquisition, List.filter_map]
      rfl
  | batches batches =>
      simp only [Ingress.withoutOpens, acquisition, List.flatMap_map, List.filter_flatMap,
        List.filter_map]
      rfl

/-- Opens share neither a record id nor a logical key with other deliveries. -/
def OpensApart (all : List Attempt) : Prop :=
  ∀ o ∈ all, ∀ a ∈ all, isAcquisition o = false → isAcquisition a = true →
    o.record.recordId ≠ a.record.recordId ∧ scopeKey o ≠ scopeKey a

/-- A test that opens fail selects the same deliveries without them. -/
theorem filter_acquisition {p : Attempt → Bool} {l : List Attempt}
    (h : ∀ c ∈ l, p c = true → isAcquisition c = true) : (acquisition l).filter p = l.filter p := by
  rw [acquisition, List.filter_filter]
  refine List.filter_congr (fun c hc => ?_)
  cases hp : p c with
  | false => rfl
  | true => rw [h c hc hp, Bool.and_self]

/-- A search for deliveries that are no opens finds the same without them. -/
theorem find?_acquisition {p : Attempt → Bool} {l : List Attempt}
    (h : ∀ c ∈ l, p c = true → isAcquisition c = true) : (acquisition l).find? p = l.find? p := by
  rw [← List.head?_filter, ← List.head?_filter, filter_acquisition h]

variable [Digest] {all : List Attempt} {a : Attempt}

section Winners

/-- They come in the same order. -/
theorem orderedAttempts_withoutOpens (input : EvaluatorInput) :
    orderedAttempts input.withoutOpens = acquisition (orderedAttempts input) := by
  rw [orderedAttempts, orderedAttempts, attempts_withoutOpens, acquisition, acquisition,
    filter_sortCandidateAttempts]

omit [Digest] in
/-- A delivery that is no open wins its key with or without the opens. -/
theorem isWinner_acquisition (hapart : OpensApart all) (ha : a ∈ all)
    (hacquired : isAcquisition a = true) : isWinner (acquisition all) a = isWinner all a := by
  have hother : ∀ c ∈ all, isAcquisition c = false →
      c.record.recordId ≠ a.record.recordId ∧ scopeKey c ≠ scopeKey a :=
    fun c hc hopen => hapart c hc a ha hopen hacquired
  have hids : (acquisition all).filter (fun c => c.record.recordId = a.record.recordId)
      = all.filter (fun c => c.record.recordId = a.record.recordId) := by
    refine filter_acquisition (fun c hc hid => ?_)
    by_contra hopen
    exact (hother c hc (by simpa using hopen)).1 (of_decide_eq_true hid)
  have hkeys : firstOfKey (acquisition all) (scopeKey a) = firstOfKey all (scopeKey a) := by
    refine find?_acquisition (fun c hc hkey => ?_)
    by_contra hopen
    exact (hother c hc (by simpa using hopen)).2 (of_decide_eq_true hkey)
  simp only [isWinner, isSole, hids, hkeys]

omit [Digest] in
/-- **The accepted deliveries without the opens.**  Taking the opens away
changes the winner of no other key, where no open shares an identifier with
another record. -/
theorem winners_acquisition (hapart : OpensApart all) :
    winners (acquisition all) = acquisition (winners all) := by
  rw [winners, winners, acquisition, acquisition, List.filter_comm isAcquisition]
  refine List.filter_congr (fun a ha => ?_)
  obtain ⟨ha, hacquired⟩ := List.mem_filter.mp ha
  exact isWinner_acquisition hapart ha hacquired

omit [Digest] in
/-- Clicks are no opens. -/
theorem isAcquisition_of_isClickOf {scope : Scope} {clickId : Option Identifier} {c : Attempt}
    (h : isClickOf scope clickId c = true) : isAcquisition c = true := by
  simp only [isClickOf, Bool.and_eq_true, decide_eq_true_eq] at h
  rw [isAcquisition_eq_true, h.1.2]
  exact fun hopen => by cases hopen

variable {list : List Decision}

/-- The accepted clicks an install names are winners. -/
theorem acceptedClicks_eq (h : decisionsOf all (fixtureCandidateProvider all) = .ok list)
    (a : Attempt) :
    acceptedClicks (fixtureCandidateProvider all) (decisionMap all list) a
      = (winners all).filter (isClickOf a.scope a.record.payload.clickId) := by
  simp only [acceptedClicks, fixtureCandidateProvider, winners]
  rw [List.filter_comm]
  exact congrArg _ (acceptedUnique_eq h)

/-- The accepted clicks an import refers to are winners. -/
theorem referencedClicks_eq (h : decisionsOf all (fixtureCandidateProvider all) = .ok list)
    (a : Attempt) (clickRef : Identifier) :
    referencedClicks (fixtureCandidateProvider all) (decisionMap all list) a clickRef
      = (winners all).filter (fun c => c.scope = a.scope && c.record.eventName = .click &&
        c.record.producer = .redirector && c.record.payload.remoteClickRef = some clickRef) := by
  rw [winners, ← acceptedUnique_eq h, acceptedUnique, List.filter_filter]
  rfl

end Winners

section Attributions

variable {list list' : List Decision}

/-- An install is attributed alike without the opens. -/
theorem makeAttribution_acquisition (hapart : OpensApart all)
    (h : decisionsOf all (fixtureCandidateProvider all) = .ok list)
    (h' : decisionsOf (acquisition all) (fixtureCandidateProvider (acquisition all)) = .ok list')
    (lifecycle : Lifecycle) :
    makeAttribution (fixtureCandidateProvider (acquisition all))
        (decisionMap (acquisition all) list') lifecycle
      = makeAttribution (fixtureCandidateProvider all) (decisionMap all list) lifecycle := by
  funext a
  have hclicks : acceptedClicks (fixtureCandidateProvider (acquisition all))
        (decisionMap (acquisition all) list') a
      = acceptedClicks (fixtureCandidateProvider all) (decisionMap all list) a := by
    rw [acceptedClicks_eq h', acceptedClicks_eq h, winners_acquisition hapart]
    exact filter_acquisition (fun c _ hc => isAcquisition_of_isClickOf hc)
  have hreferenced : referencedClicks (fixtureCandidateProvider (acquisition all))
        (decisionMap (acquisition all) list') a
      = referencedClicks (fixtureCandidateProvider all) (decisionMap all list) a := by
    funext clickRef
    rw [referencedClicks_eq h', referencedClicks_eq h, winners_acquisition hapart]
    refine filter_acquisition (fun c _ hc => ?_)
    simp only [Bool.and_eq_true, decide_eq_true_eq] at hc
    rw [isAcquisition_eq_true, hc.1.1.2]
    nofun
  have himported : importedVerdict (fixtureCandidateProvider (acquisition all))
        (decisionMap (acquisition all) list') a
      = importedVerdict (fixtureCandidateProvider all) (decisionMap all list) a := by
    funext context
    cases context with
    | none => rfl
    | some imported => simp only [importedVerdict, hreferenced]
  simp only [makeAttribution, installVerdict, referrerClickVerdict, himported, hclicks]

/-- The attribution is about an acquisition: an installation or an
aggregate. -/
def isAcquisitionRow (t : Attribution) : Bool := t.subjectScope ≠ .engagementLevel

/-- **The attributions before fraud, without the opens.**  Those of the
installs and postbacks, in the same order. -/
theorem initialAttributions_acquisition (hapart : OpensApart all)
    (h : decisionsOf all (fixtureCandidateProvider all) = .ok list)
    (h' : decisionsOf (acquisition all) (fixtureCandidateProvider (acquisition all)) = .ok list')
    {lifecycle : Lifecycle} {accepted : List Attempt} {rows : List Attribution}
    (hrows : initialAttributions (fixtureCandidateProvider all) (decisionMap all list) lifecycle
      accepted = .ok rows) :
    initialAttributions (fixtureCandidateProvider (acquisition all))
        (decisionMap (acquisition all) list') lifecycle (acquisition accepted)
      = .ok (rows.filter isAcquisitionRow) := by
  simp only [initialAttributions, bind_eq_ok, pure_eq_ok] at hrows ⊢
  obtain ⟨installs, hinstalls, rfl⟩ := hrows
  have hinstall : (acquisition accepted).filter (fun a => a.record.eventName = .install)
      = accepted.filter (fun a => a.record.eventName = .install) := by
    refine filter_acquisition (fun a _ ha => ?_)
    rw [isAcquisition_eq_true, of_decide_eq_true ha]
    nofun
  have hpostback : (acquisition accepted).filter (fun a => isApplePostback a.record.eventName)
      = accepted.filter (fun a => isApplePostback a.record.eventName) := by
    refine filter_acquisition (fun a _ ha => ?_)
    rw [isAcquisition_eq_true]
    intro hopen
    rw [hopen] at ha
    cases ha
  have hopen : (acquisition accepted).filter (fun a => a.record.eventName = .deepLinkOpen)
      = [] := by
    rw [acquisition, List.filter_filter]
    refine List.filter_eq_nil_iff.mpr (fun a _ => ?_)
    simp [isAcquisition]
  have hrowsInstall : ∀ t ∈ installs, isAcquisitionRow t = true := by
    intro t ht
    obtain ⟨a, _, hat⟩ := PartialList.exists_of_mem_traverse hinstalls ht
    simp only [makeAttribution, bind_eq_ok, pure_eq_ok] at hat
    obtain ⟨_, _, rfl⟩ := hat
    rfl
  refine ⟨installs, ?_, ?_⟩
  · rw [hinstall, makeAttribution_acquisition hapart h h']
    exact hinstalls
  · rw [hpostback, hopen, sortAttributions, sortAttributions, filter_sortByKey,
      List.filter_append, List.filter_append, List.filter_eq_self.mpr hrowsInstall]
    congr 2
    · congr 1
      refine (List.filter_eq_self.mpr (fun t ht => ?_)).symm
      obtain ⟨_, _, rfl⟩ := List.mem_map.mp ht
      rfl
    · refine (List.filter_eq_nil_iff.mpr (fun t ht => ?_)).symm
      obtain ⟨_, _, rfl⟩ := List.mem_map.mp ht
      exact Bool.false_ne_true

/-- The attributions before fraud are those of the accepted installs,
postbacks and opens. -/
theorem mem_initialAttributions {candidates : CandidateProvider} {decisions : Decisions}
    {lifecycle : Lifecycle} {accepted : List Attempt} {rows : List Attribution}
    (h : initialAttributions candidates decisions lifecycle accepted = .ok rows) {t : Attribution}
    (ht : t ∈ rows) :
    (∃ a ∈ accepted, a.record.eventName = .install ∧ t.subjectScope = .installationLevel ∧
        t.subjectRef = a.record.payload.installationId.map (·.text)) ∨
      t.subjectScope = .aggregate ∨
      ∃ o ∈ accepted, o.record.eventName = .deepLinkOpen ∧
        t = makeDeepLinkAttribution lifecycle o := by
  simp only [initialAttributions, bind_eq_ok, pure_eq_ok] at h
  obtain ⟨installs, hinstalls, rfl⟩ := h
  rw [sortAttributions, mem_sortByKey, List.mem_append, List.mem_append] at ht
  rcases ht with (ht | ht) | ht
  · obtain ⟨a, ha, hat⟩ := PartialList.exists_of_mem_traverse hinstalls ht
    obtain ⟨ha, hevent⟩ := List.mem_filter.mp ha
    simp only [makeAttribution, bind_eq_ok, pure_eq_ok] at hat
    obtain ⟨_, _, rfl⟩ := hat
    exact .inl ⟨a, ha, of_decide_eq_true hevent, rfl, rfl⟩
  · obtain ⟨_, _, rfl⟩ := List.mem_map.mp ht
    exact .inr (.inl rfl)
  · obtain ⟨o, ho, rfl⟩ := List.mem_map.mp ht
    obtain ⟨ho, hevent⟩ := List.mem_filter.mp ho
    exact .inr (.inr ⟨o, ho, of_decide_eq_true hevent, rfl⟩)

/-- An accepted install and an accepted open have their attributions. -/
theorem initialAttributions_complete {candidates : CandidateProvider} {decisions : Decisions}
    {lifecycle : Lifecycle} {accepted : List Attempt} {rows : List Attribution}
    (h : initialAttributions candidates decisions lifecycle accepted = .ok rows)
    (ha : a ∈ accepted) :
    (a.record.eventName = .install → ∃ t ∈ rows, t.subjectScope = .installationLevel ∧
        t.subjectRef = a.record.payload.installationId.map (·.text)) ∧
      (a.record.eventName = .deepLinkOpen → makeDeepLinkAttribution lifecycle a ∈ rows) := by
  simp only [initialAttributions, bind_eq_ok, pure_eq_ok] at h
  obtain ⟨installs, hinstalls, rfl⟩ := h
  simp only [sortAttributions, mem_sortByKey, List.mem_append]
  constructor
  · intro hevent
    obtain ⟨t, ht, hat⟩ := PartialList.ok_of_mem_traverse hinstalls
      (List.mem_filter.mpr ⟨ha, decide_eq_true hevent⟩)
    refine ⟨t, .inl (.inl ht), ?_⟩
    simp only [makeAttribution, bind_eq_ok, pure_eq_ok] at hat
    obtain ⟨_, _, rfl⟩ := hat
    exact ⟨rfl, rfl⟩
  · intro hevent
    exact .inr (List.mem_map_of_mem (List.mem_filter.mpr ⟨ha, decide_eq_true hevent⟩))

end Attributions

section Fraud

variable {accepted : List Attempt} {input : EvaluatorInput} {initial : List Attribution}

/-- The bundle of every source day's scope is bound by a delivery that is no
open, or by none. -/
def SameBundles (input : EvaluatorInput) (accepted : List Attempt) : Prop :=
  ∀ g ∈ input.sourceDayAggregates,
    scopeBundle (acquisition accepted) g.scope = scopeBundle accepted g.scope

/-- The rules on an install compare with clicks only. -/
theorem installFraud_acquisition (accepted : List Attempt) :
    installFraud (acquisition accepted) = installFraud accepted := by
  funext a
  have hclicks : matchingClicks (acquisition accepted) a = matchingClicks accepted a := by
    simp only [matchingClicks]
    split
    · refine filter_acquisition (fun c _ hc => ?_)
      simp only [Bool.and_eq_true] at hc
      exact isAcquisition_of_isClickOf hc.1.1
    · rfl
  simp only [installFraud, ruleClick, hclicks]

/-- **The fraud decisions without the opens.**  No rule judges an open, so the
decisions are the same. -/
theorem fraudDecisions_acquisition (hbundles : SameBundles input accepted)
    {ds : List FraudDecision} (h : fraudDecisions input accepted = .ok ds) :
    fraudDecisions input (acquisition accepted) = .ok ds := by
  simp only [fraudDecisions, bind_eq_ok, pure_eq_ok] at h ⊢
  obtain ⟨transport, htransport, install, hinstall, sourceDay, hsourceDay, rfl⟩ := h
  obtain ⟨transport', htransport', heqTransport⟩ := PartialList.flatten_filter_traverse htransport
    (p := isAcquisition) (q := fun _ => true) (fun a ha ds hds d hd => by
      rw [eq_comm, isAcquisition_eq_true, (subject_of_transport hds hd).2.2]
      nofun)
  obtain ⟨install', hinstall', heqInstall⟩ := PartialList.flatten_filter_traverse hinstall
    (p := isAcquisition) (q := fun _ => true) (fun a ha ds hds d hd => by
      rw [eq_comm, isAcquisition_eq_true, (subject_of_install hds hd).2.2]
      nofun)
  refine ⟨transport', htransport', install', ?_, sourceDay, ?_, ?_⟩
  · rw [installFraud_acquisition]
    exact hinstall'
  · rw [← hsourceDay]
    exact PartialList.traverse_congr (fun g hg => by simp only [sourceDayFraud, hbundles g hg])
  · rw [← heqTransport, ← heqInstall, List.filter_true, List.filter_true]

omit [Digest] in
/-- The click a decision excludes is found without the opens. -/
theorem excludedClick_acquisition (accepted : List Attempt) :
    excludedClick (acquisition accepted) = excludedClick accepted := by
  funext d
  have hfind : (acquisition accepted).find? (fun a =>
        a.record.recordId.text = d.subjectRef && a.record.eventName = .click)
      = accepted.find? (fun a =>
        a.record.recordId.text = d.subjectRef && a.record.eventName = .click) := by
    refine find?_acquisition (fun c _ hc => ?_)
    simp only [Bool.and_eq_true, decide_eq_true_eq] at hc
    rw [isAcquisition_eq_true, hc.2]
    nofun
  simp only [excludedClick, hfind]

omit [Digest] in
/-- The click of a source's day is none of the opens. -/
theorem sourceDayClick_acquisition (accepted : List Attempt) :
    sourceDayClick (acquisition accepted) = sourceDayClick accepted := by
  funext scope date install
  refine find?_acquisition (fun c _ hc => ?_)
  exact isAcquisition_of_isClickOf (Bool.and_eq_true_iff.mp hc).1

/-- No accepted install has the subject of an accepted open. -/
def SubjectsApart (accepted : List Attempt) : Prop :=
  ∀ o ∈ accepted, ∀ i ∈ accepted, o.record.eventName = .deepLinkOpen →
    i.record.eventName = .install →
    i.record.payload.installationId.map (·.text) ≠ some ("engagement:" ++ o.record.recordId.text)

/-- The prior attribution of every accepted install is no engagement. -/
def PriorsApart (accepted : List Attempt) (initial : List Attribution) : Prop :=
  ∀ i ∈ accepted, i.record.eventName = .install →
    ∀ t ∈ initial, t.subjectRef = i.record.payload.installationId.map (·.text) →
      isAcquisitionRow t = true

/-- Subjects that are apart keep the priors apart. -/
theorem priorsApart_of_subjects {candidates : CandidateProvider} {decisions : Decisions}
    {lifecycle : Lifecycle} (hapart : SubjectsApart accepted)
    (h : initialAttributions candidates decisions lifecycle accepted = .ok initial) :
    PriorsApart accepted initial := by
  intro i hi hevent t ht href
  rcases mem_initialAttributions h ht with ⟨_, _, _, hscope, _⟩ | hscope | ⟨o, ho, hopen, rfl⟩
  · simp [isAcquisitionRow, hscope]
  · simp [isAcquisitionRow, hscope]
  · exact absurd href.symm (hapart o ho i hi hopen hevent)

omit [Digest] in
/-- The prior attribution of an install is none of an open. -/
theorem priorAttribution_acquisition (hprior : PriorsApart accepted initial) (ha : a ∈ accepted)
    (hevent : a.record.eventName = .install) :
    priorAttribution (initial.filter isAcquisitionRow) a.record.payload.installationId
      = priorAttribution initial a.record.payload.installationId := by
  rw [priorAttribution, priorAttribution, ← List.head?_filter, ← List.head?_filter,
    List.filter_filter]
  congr 1
  refine List.filter_congr (fun t ht => ?_)
  by_cases href : t.subjectRef = a.record.payload.installationId.map (·.text)
  · simp [href, hprior a ha hevent t ht href]
  · simp [href]

/-- A day is judged alike without the opens. -/
theorem provisionalDay_acquisition (hprior : PriorsApart accepted initial)
    {day : List SourceDayAggregate} (hbundle : ∀ g ∈ day.head?,
      scopeBundle (acquisition accepted) g.scope = scopeBundle accepted g.scope) :
    provisionalDay (acquisition accepted) (initial.filter isAcquisitionRow) day
      = provisionalDay accepted initial day := by
  cases day with
  | nil => rfl
  | cons first rest =>
      have hinstalls : (acquisition accepted).filter (fun a => a.scope = first.scope &&
            a.record.eventName = .install && a.record.payload.clickId.isSome)
          = accepted.filter (fun a => a.scope = first.scope &&
            a.record.eventName = .install && a.record.payload.clickId.isSome) := by
        refine filter_acquisition (fun c _ hc => ?_)
        simp only [Bool.and_eq_true, decide_eq_true_eq] at hc
        rw [isAcquisition_eq_true, hc.1.2]
        nofun
      have hattribution : ∀ snapshotId computedAt,
          (accepted.filter (fun a => a.scope = first.scope && a.record.eventName = .install &&
              a.record.payload.clickId.isSome)).filterMap
            (provisionalAttribution (acquisition accepted) (initial.filter isAcquisitionRow)
              first.scope first.metricDate snapshotId computedAt)
          = (accepted.filter (fun a => a.scope = first.scope && a.record.eventName = .install &&
              a.record.payload.clickId.isSome)).filterMap
            (provisionalAttribution accepted initial first.scope first.metricDate snapshotId
              computedAt) := by
        intro snapshotId computedAt
        refine List.filterMap_congr (fun a ha => ?_)
        obtain ⟨ha, hsel⟩ := List.mem_filter.mp ha
        simp only [Bool.and_eq_true, decide_eq_true_eq] at hsel
        simp only [provisionalAttribution, sourceDayClick_acquisition,
          priorAttribution_acquisition hprior ha hsel.1.2]
      unfold provisionalDay
      cases latestComputedAt (first :: rest) with
      | none => rfl
      | some computedAt => simp only [hbundle first rfl, hinstalls, hattribution]

omit [Digest] in
/-- Opens exclude no install. -/
theorem excludedInstalls_acquisition (accepted : List Attempt)
    (excluded : InsertionMap Identifier FraudDecision) :
    excludedInstalls (acquisition accepted) excluded = excludedInstalls accepted excluded := by
  refine filter_acquisition (fun c _ hc => ?_)
  simp only [Bool.and_eq_true, decide_eq_true_eq] at hc
  rw [isAcquisition_eq_true, hc.1]
  nofun

omit [Digest] in
/-- The attributions exclusion leaves are the same without the opens. -/
theorem fraudAttributions_acquisition (hprior : PriorsApart accepted initial)
    (excluded : InsertionMap Identifier FraudDecision) :
    fraudAttributions (acquisition accepted) (initial.filter isAcquisitionRow) excluded
      = fraudAttributions accepted initial excluded := by
  rw [fraudAttributions, fraudAttributions, excludedInstalls_acquisition]
  refine List.filterMap_congr (fun a ha => ?_)
  obtain ⟨ha, hsel⟩ := List.mem_filter.mp ha
  simp only [Bool.and_eq_true, decide_eq_true_eq] at hsel
  simp only [fraudAttribution, priorAttribution_acquisition hprior ha hsel.1]

/-- **The fraud stage without the opens.**  What it appends depends on the
installs and their clicks, and on prior attributions that are none of an open.
-/
theorem fraudStage_acquisition (hbundles : SameBundles input accepted)
    (hprior : PriorsApart accepted initial) {fraud : FraudOutput}
    (h : fraudStage input accepted initial = .ok fraud) :
    fraudStage input (acquisition accepted) (initial.filter isAcquisitionRow) = .ok fraud := by
  simp only [fraudStage, bind_eq_ok, pure_eq_ok] at h ⊢
  obtain ⟨ds, hds, provisional, hprovisional, rfl⟩ := h
  refine ⟨ds, fraudDecisions_acquisition hbundles hds, provisional, ?_, ?_⟩
  · rw [← hprovisional, provisionalClockAttributions, provisionalClockAttributions]
    congr 1
    refine PartialList.traverse_congr (fun day hday => ?_)
    refine provisionalDay_acquisition hprior (fun g hg => hbundles g ?_)
    obtain ⟨e, he, rfl⟩ := List.mem_map.mp hday
    have hg := List.mem_of_mem_head? hg
    rw [(InsertionMap.mem_group he).1] at hg
    exact (List.mem_filter.mp hg).1
  · simp only [excludedClickIds, excludedClick_acquisition, fraudAttributions_acquisition hprior,
      excludedInstallationIds, excludedInstalls_acquisition]

/-- What the fraud stage adds has the subject of an attribution before it. -/
theorem mem_fraudStage {fraud : FraudOutput} (h : fraudStage input accepted initial = .ok fraud)
    {t : Attribution} (ht : t ∈ fraud.provisional ++ fraud.excluded) :
    ∃ p ∈ initial, t.subjectScope = p.subjectScope ∧ t.subjectRef = p.subjectRef := by
  simp only [fraudStage, bind_eq_ok, pure_eq_ok] at h
  obtain ⟨ds, hds, provisional, hprovisional, rfl⟩ := h
  rcases List.mem_append.mp ht with ht | ht
  · simp only [provisionalClockAttributions, bind_eq_ok, pure_eq_ok] at hprovisional
    obtain ⟨days, hdays, rfl⟩ := hprovisional
    obtain ⟨rows, hrows, ht⟩ := List.mem_flatten.mp ht
    obtain ⟨day, _, hday⟩ := PartialList.exists_of_mem_traverse hdays hrows
    rcases provisionalDay_eq_ok hday with rfl | ⟨first, _, computedAt, _, _, rfl⟩
    · cases ht
    obtain ⟨a, _, hat⟩ := List.mem_filterMap.mp ht
    simp only [provisionalAttribution] at hat
    split at hat
    · case h_1 click p _ hp =>
        split at hat
        · cases hat
        · cases hat
          exact ⟨p, List.mem_of_find?_eq_some hp, rfl, rfl⟩
    · cases hat
  · obtain ⟨a, _, hat⟩ := List.mem_filterMap.mp ht
    simp only [fraudAttribution] at hat
    split at hat
    · case h_1 d p _ hp =>
        cases hat
        exact ⟨p, List.mem_of_find?_eq_some hp, rfl, rfl⟩
    · cases hat

/-- The fraud stage adds no engagement results. -/
theorem isAcquisitionRow_of_fraudStage (hbundles : SameBundles input accepted)
    (hprior : PriorsApart accepted initial) {fraud : FraudOutput}
    (h : fraudStage input accepted initial = .ok fraud) :
    ∀ t ∈ fraud.provisional ++ fraud.excluded, isAcquisitionRow t = true := by
  intro t ht
  obtain ⟨p, hp, hscope, _⟩ := mem_fraudStage (fraudStage_acquisition hbundles hprior h) ht
  rw [isAcquisitionRow, hscope]
  exact (List.mem_filter.mp hp).2

/-- **The attributions of an output, without the engagement results.** Sorted
alone they stand in the order they have among the others. -/
theorem attributions_acquisition (hbundles : SameBundles input accepted)
    (hprior : PriorsApart accepted initial) {fraud : FraudOutput}
    (h : fraudStage input accepted initial = .ok fraud) :
    (sortAttributions (initial ++ fraud.provisional ++ fraud.excluded)).filter isAcquisitionRow
      = sortAttributions (initial.filter isAcquisitionRow ++ fraud.provisional ++
          fraud.excluded) := by
  rw [sortAttributions, filter_sortByKey, List.append_assoc, List.filter_append,
    List.filter_eq_self.mpr (isAcquisitionRow_of_fraudStage hbundles hprior h),
    ← List.append_assoc]
  rfl

/-- An attribution of an installation has an accepted install's subject. -/
theorem install_of_attribution {candidates : CandidateProvider} {decisions : Decisions}
    {lifecycle : Lifecycle} {fraud : FraudOutput}
    (hinitial : initialAttributions candidates decisions lifecycle accepted = .ok initial)
    (h : fraudStage input accepted initial = .ok fraud) {t : Attribution}
    (ht : t ∈ initial ++ fraud.provisional ++ fraud.excluded)
    (hscope : t.subjectScope = .installationLevel) :
    ∃ a ∈ accepted, a.record.eventName = .install ∧
      t.subjectRef = a.record.payload.installationId.map (·.text) := by
  obtain ⟨p, hp, hpscope, hpref⟩ : ∃ p ∈ initial, t.subjectScope = p.subjectScope ∧
      t.subjectRef = p.subjectRef := by
    rw [List.append_assoc, List.mem_append] at ht
    rcases ht with ht | ht
    · exact ⟨t, ht, rfl, rfl⟩
    · exact mem_fraudStage h ht
  rw [hpscope] at hscope
  rw [hpref]
  rcases mem_initialAttributions hinitial hp with ⟨a, ha, hevent, -, href⟩ | haggregate |
    ⟨o, _, _, rfl⟩
  · exact ⟨a, ha, hevent, href⟩
  · rw [hscope] at haggregate
    cases haggregate
  · cases hscope

/-- An engagement result has an accepted open's subject. -/
theorem open_of_attribution {candidates : CandidateProvider} {decisions : Decisions}
    {lifecycle : Lifecycle} {fraud : FraudOutput}
    (hinitial : initialAttributions candidates decisions lifecycle accepted = .ok initial)
    (hbundles : SameBundles input accepted) (hprior : PriorsApart accepted initial)
    (h : fraudStage input accepted initial = .ok fraud) {t : Attribution}
    (ht : t ∈ initial ++ fraud.provisional ++ fraud.excluded)
    (hscope : t.subjectScope = .engagementLevel) :
    ∃ o ∈ accepted, o.record.eventName = .deepLinkOpen ∧
      t.subjectRef = some ("engagement:" ++ o.record.recordId.text) := by
  rw [List.append_assoc, List.mem_append] at ht
  rcases ht with ht | ht
  · rcases mem_initialAttributions hinitial ht with ⟨_, _, _, hinstall, _⟩ | haggregate |
      ⟨o, ho, hopen, rfl⟩
    · rw [hscope] at hinstall
      cases hinstall
    · rw [hscope] at haggregate
      cases haggregate
    · exact ⟨o, ho, hopen, rfl⟩
  · have hrow := isAcquisitionRow_of_fraudStage hbundles hprior h t ht
    rw [isAcquisitionRow, hscope] at hrow
    cases hrow

end Fraud

end OpenMasu
