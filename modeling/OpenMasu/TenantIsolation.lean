import Mathlib.Data.List.Find
import OpenMasu.ScopeRestriction

/-!
# Tenant isolation

Two evaluations whose inputs agree on one scope agree on what they report
about it, as long as two lookups that are not keyed by the scope stay inside
it: the excluded click an install names, and the attribution an excluded or
provisional install supersedes.

* `LookupsStayInScope` — the condition on an input;
* `fraudDecisions_restrict`, `fraudAttributions_restrict`,
  `provisional_restrict` — the fraud stage, restricted to a scope;
* `scopeRun_of_evaluate` — the reports on a scope are those of a run over the
  scope alone;
* `tenant_isolation` — the two-run law;
* `foreign_exclusion_leaks` — without the condition it fails.
-/

namespace OpenMasu

open PartialList (bind_eq_ok pure_eq_ok)

section Law

variable [Digest] {A : Scope}

/-- The accepted deliveries: the winners of their logical keys. -/
def winners (all : List Attempt) : List Attempt := all.filter (isWinner all)

/-- The delivery is a click that the transport rules exclude. -/
def excludesClick (c : Attempt) : Bool :=
  truthy c.server.fraudActionsEnabled &&
    match transportFraud c with
    | .ok decisions => decisions.any (fun d => d.action = .exclude)
    | .error _ => false

/-- An install names a click that some scope excludes. -/
def NamesExcludedClick (accepted : List Attempt) (a : Attempt) : Prop :=
  ∃ c ∈ accepted, excludesClick c = true ∧ c.record.payload.clickId.isSome ∧
    c.record.payload.clickId = a.record.payload.clickId

/-- The clock anomalies of a scope's day exceed the threshold of its bundle. -/
def IsAnomalousDay (accepted : List Attempt) (day : List SourceDayAggregate) : Prop :=
  ∃ first ∈ day.head?, ∃ b, scopeBundle accepted first.scope = .ok (some b) ∧
    let installCount := BinaryFloat.total (day.map (·.installs))
    let negativeCount := BinaryFloat.total (day.map (·.ctitNegativeCount.getD 0))
    installCount ≠ .finite 0 ∧ exceedsNegativeRate negativeCount installCount b.definition = true

/-- An install names a click of an anomalous day of its scope. -/
def IsOnAnomalousDay (input : EvaluatorInput) (accepted : List Attempt) (a : Attempt) : Prop :=
  ∃ day ∈ sourceDays input.sourceDayAggregates, ∃ first ∈ day.head?,
    IsAnomalousDay accepted day ∧ a.scope = first.scope ∧ a.record.payload.clickId.isSome ∧
    (sourceDayClick accepted first.scope first.metricDate a).isSome

/-- The subjects the attributions of an accepted delivery have. -/
def subjectRefs (a : Attempt) : List (Option String) :=
  (if a.record.eventName = .install then [a.record.payload.installationId.map (·.text)] else []) ++
  (if isApplePostback a.record.eventName then [some ("aggregate:" ++
    (if a.record.eventName = .skanPostback then AttributionMethod.skadnetwork
      else AttributionMethod.adattributionkit).text ++ ":" ++ a.record.recordId.text)] else []) ++
  (if a.record.eventName = .deepLinkOpen then
    [some ("engagement:" ++ a.record.recordId.text)] else [])

/-- **The lookups stay in the scope.**  No install of the scope names a click
that another scope excludes, and where an attribution is superseded, the
attributed subject of that name is on the same side of the scope as the
install. -/
structure LookupsStayInScope (A : Scope) (input : EvaluatorInput) : Prop where
  clicks : ∀ a ∈ winners (orderedAttempts input), a.record.eventName = .install → a.scope = A →
    ∀ c ∈ winners (orderedAttempts input), excludesClick c = true →
      c.record.payload.clickId.isSome → c.record.payload.clickId = a.record.payload.clickId →
      c.scope = A
  subjects : ∀ a ∈ winners (orderedAttempts input), a.record.eventName = .install →
    (NamesExcludedClick (winners (orderedAttempts input)) a ∨
      IsOnAnomalousDay input (winners (orderedAttempts input)) a) →
    ∀ b ∈ winners (orderedAttempts input),
      a.record.payload.installationId.map (·.text) ∈ subjectRefs b →
      (b.scope = A ↔ a.scope = A)

section FraudDecisions

variable {all accepted : List Attempt} {input : EvaluatorInput}

/-- The decision is about a record among the deliveries. -/
def isAbout (own : List Attempt) (d : FraudDecision) : Bool :=
  d.subjectScope = .record && own.any (fun a => a.record.recordId.text = d.subjectRef)

omit [Digest] in
/-- A text names a record of the scope or one of the others. -/
theorem any_recordId (hapart : RecordsApart A all) {a : Attempt} (ha : a ∈ all) :
    (inside A all).any (fun b => b.record.recordId.text = a.record.recordId.text)
      = inScope A a := by
  by_cases hA : a.scope = A
  · rw [inScope_eq_true.mpr hA, List.any_eq_true]
    exact ⟨a, List.mem_filter.mpr ⟨ha, inScope_eq_true.mpr hA⟩, by simp⟩
  · have hnot : inScope A a = false := by simpa [inScope] using hA
    rw [hnot, List.any_eq_false]
    intro b hb
    obtain ⟨hb, hbA⟩ := List.mem_filter.mp hb
    have hne := hapart b hb a ha (inScope_eq_true.mp hbA) hA
    simpa using fun h => hne (Identifier.text_injective h)

/-- What the transport rules decide is about the click. -/
theorem subject_of_transport {a : Attempt} {ds : List FraudDecision}
    (h : transportFraud a = .ok ds) {d : FraudDecision} (hd : d ∈ ds) :
    d.subjectScope = .record ∧ d.subjectRef = a.record.recordId.text ∧
      a.record.eventName = .click := by
  have hdecision : ∀ {b : BoundFraudBundle} {r i e} {x : FraudDecision},
      transportDecision a b r i e = .ok x →
      x.subjectScope = .record ∧ x.subjectRef = a.record.recordId.text := by
    intro b r i e x hx
    simp only [transportDecision, bind_eq_ok, pure_eq_ok] at hx
    obtain ⟨_, _, rfl⟩ := hx
    exact ⟨rfl, rfl⟩
  simp only [transportFraud] at h
  split at h
  · cases h; cases hd
  · case isFalse hclick =>
      rw [not_or, not_not] at hclick
      obtain ⟨bound, _, h⟩ := bind_eq_ok.mp h
      cases bound with
      | none => cases h; cases hd
      | some b =>
          dsimp only at h
          split at h
          all_goals
            obtain ⟨x, hx, h⟩ := bind_eq_ok.mp h
            cases pure_eq_ok.mp h
            obtain rfl := List.mem_singleton.mp hd
            exact ⟨(hdecision hx).1, (hdecision hx).2, hclick.1⟩

/-- What the install rules decide is about the install. -/
theorem subject_of_install {a : Attempt} {ds : List FraudDecision}
    (h : installFraud accepted a = .ok ds) {d : FraudDecision} (hd : d ∈ ds) :
    d.subjectScope = .record ∧ d.subjectRef = a.record.recordId.text ∧
      a.record.eventName = .install := by
  unfold installFraud at h
  split at h
  · cases h; cases hd
  · case isFalse hinstall =>
      rw [not_not] at hinstall
      obtain ⟨bound, _, h⟩ := bind_eq_ok.mp h
      cases bound with
      | none => cases h; cases hd
      | some b =>
          obtain ⟨hits, _, h⟩ := bind_eq_ok.mp h
          obtain ⟨hit, _, hhit⟩ := PartialList.exists_of_mem_traverse h hd
          simp only [installDecision, bind_eq_ok, pure_eq_ok] at hhit
          obtain ⟨_, _, rfl⟩ := hhit
          exact ⟨rfl, rfl, hinstall⟩

/-- What the source-day rule decides is about a source. -/
theorem subject_of_sourceDay {a : SourceDayAggregate} {ds : List FraudDecision}
    (h : sourceDayFraud accepted a = .ok ds) {d : FraudDecision} (hd : d ∈ ds) :
    d.subjectScope = .source := by
  unfold sourceDayFraud at h
  obtain ⟨bound, _, h⟩ := bind_eq_ok.mp h
  cases bound with
  | none => cases h; cases hd
  | some b =>
      dsimp only at h
      split at h
      · cases h; cases hd
      · obtain ⟨_, _, h⟩ := bind_eq_ok.mp h
        cases pure_eq_ok.mp h
        obtain rfl := List.mem_singleton.mp hd
        rfl

/-- The rules on an install of the scope compare with its clicks only. -/
theorem installFraud_restrict {a : Attempt} (hA : a.scope = A) :
    installFraud accepted a = installFraud (inside A accepted) a := by
  have hclicks : matchingClicks accepted a = matchingClicks (inside A accepted) a := by
    simp only [matchingClicks, inside, List.filter_filter]
    split
    · refine List.filter_congr (fun c _ => ?_)
      by_cases hc : c.scope = A
      · simp [inScope, hc]
      · simp [isClickOf, hA, hc]
    · rfl
  simp only [installFraud, ruleClick, hclicks]

/-- **The fraud decisions about the scope's records.**  They are what the
rules decide over the scope alone. -/
theorem fraudDecisions_restrict (hapart : RecordsApart A all) (hsub : ∀ a ∈ accepted, a ∈ all)
    {ds : List FraudDecision} (h : fraudDecisions input accepted = .ok ds) :
    ∃ transport install,
      PartialList.traverse transportFraud (inside A accepted) = .ok transport ∧
      PartialList.traverse (installFraud (inside A accepted)) (inside A accepted) = .ok install ∧
      ds.filter (isAbout (inside A all))
        = sortFraudDecisions (transport.flatten ++ install.flatten) := by
  simp only [fraudDecisions, bind_eq_ok, pure_eq_ok] at h
  obtain ⟨transport, htransport, install, hinstall, sourceDay, hsourceDay, rfl⟩ := h
  have habout : ∀ {a : Attempt} {d : FraudDecision}, a ∈ accepted → d.subjectScope = .record →
      d.subjectRef = a.record.recordId.text → isAbout (inside A all) d = inScope A a := by
    intro a d ha hscope href
    rw [isAbout, hscope, href, any_recordId hapart (hsub a ha)]
    simp
  obtain ⟨transportA, htransportA, heqTransport⟩ := PartialList.flatten_filter_traverse htransport
    (p := inScope A) (q := isAbout (inside A all)) (fun a ha ds hds d hd =>
      habout ha (subject_of_transport hds hd).1 (subject_of_transport hds hd).2.1)
  obtain ⟨installA, hinstallA, heqInstall⟩ := PartialList.flatten_filter_traverse hinstall
    (p := inScope A) (q := isAbout (inside A all)) (fun a ha ds hds d hd =>
      habout ha (subject_of_install hds hd).1 (subject_of_install hds hd).2.1)
  have hsource : sourceDay.flatten.filter (isAbout (inside A all)) = [] := by
    refine List.filter_eq_nil_iff.mpr (fun d hd => ?_)
    obtain ⟨ds, hds, hd⟩ := List.mem_flatten.mp hd
    obtain ⟨a, _, ha⟩ := PartialList.exists_of_mem_traverse hsourceDay hds
    simp [isAbout, subject_of_sourceDay ha hd]
  refine ⟨transportA, installA, htransportA, ?_, ?_⟩
  · rw [← hinstallA]
    exact PartialList.traverse_congr (fun a ha =>
      (installFraud_restrict (inScope_eq_true.mp (List.mem_filter.mp ha).2)).symm)
  · rw [sortFraudDecisions, filter_sortByKey, List.filter_append, List.filter_append,
      heqTransport, heqInstall, hsource, List.append_nil]
    rfl

end FraudDecisions

section Exclusion

variable {all : List Attempt} {input : EvaluatorInput}

omit [Digest] in
/-- The click a decision about a record of the scope is about is in the
scope. -/
theorem excludedClick_restrict {accepted : List Attempt} (hapart : RecordsApart A all)
    (hsub : ∀ a ∈ accepted, a ∈ all) {d : FraudDecision} (hd : isAbout (inside A all) d = true) :
    excludedClick accepted d = excludedClick (inside A accepted) d := by
  obtain ⟨-, hown⟩ := Bool.and_eq_true_iff.mp hd
  obtain ⟨own, hown, href⟩ := List.any_eq_true.mp hown
  obtain ⟨hownAll, hownA⟩ := List.mem_filter.mp hown
  have hfind : accepted.find? (fun a =>
        a.record.recordId.text = d.subjectRef && a.record.eventName = .click)
      = (inside A accepted).find? (fun a =>
        a.record.recordId.text = d.subjectRef && a.record.eventName = .click) := by
    rw [inside, List.find?_filter]
    refine List.find?_congr (fun a ha => ?_)
    by_cases hA : a.scope = A
    · simp [inScope, hA]
    · have hne : a.record.recordId.text ≠ d.subjectRef := by
        intro h
        refine hapart own hownAll a (hsub a ha) (inScope_eq_true.mp hownA) hA ?_
        exact Identifier.text_injective ((of_decide_eq_true href).trans h.symm)
      simp [hne]
  simp only [excludedClick, hfind]

omit [Digest] in
/-- The click of a decision is kept with that decision. -/
theorem excludedClick_snd {accepted : List Attempt} {d : FraudDecision}
    {e : Identifier × FraudDecision} (h : excludedClick accepted d = some e) : e.2 = d := by
  simp only [excludedClick] at h
  split at h
  · split at h
    · split at h
      · obtain ⟨_, _, rfl⟩ := Option.map_eq_some_iff.mp h
        rfl
      · cases h
    · cases h
  · cases h

omit [Digest] in
/-- Accepted deliveries with one record id are one delivery. -/
theorem eq_of_winners {a b : Attempt} (ha : a ∈ winners all) (hb : b ∈ winners all)
    (h : a.record.recordId.text = b.record.recordId.text) : a = b := by
  obtain ⟨ha, hwin⟩ := List.mem_filter.mp ha
  have hsole := ((isWinner_iff ha).mp hwin).1
  exact (eq_of_isSole ha (List.mem_filter.mp hb).1 hsole
    (Identifier.text_injective h.symm)).symm

/-- **What excludes a click id.**  An accepted click that the transport rules
exclude. -/
theorem excludes_of_excludedClick {ds : List FraudDecision}
    (h : fraudDecisions input (winners all) = .ok ds) {d : FraudDecision} (hd : d ∈ ds)
    {e : Identifier × FraudDecision} (he : excludedClick (winners all) d = some e) :
    ∃ c ∈ winners all, excludesClick c = true ∧ c.record.payload.clickId = some e.1 ∧
      c.record.recordId.text = d.subjectRef ∧ d.subjectScope = .record := by
  simp only [excludedClick] at he
  split at he
  · case isTrue haction =>
      split at he
      · case h_1 c hfind =>
          have hc := List.mem_of_find?_eq_some hfind
          have hclick := List.find?_some hfind
          simp only [Bool.and_eq_true, decide_eq_true_eq] at hclick
          split at he
          · case isTrue henabled =>
              obtain ⟨id, hid, rfl⟩ := Option.map_eq_some_iff.mp he
              simp only [fraudDecisions, bind_eq_ok, pure_eq_ok] at h
              obtain ⟨transport, htransport, install, hinstall, sourceDay, hsourceDay, rfl⟩ := h
              rw [sortFraudDecisions, mem_sortByKey, List.mem_append, List.mem_append] at hd
              rcases hd with (hd | hd) | hd
              · obtain ⟨l, hl, hd⟩ := List.mem_flatten.mp hd
                obtain ⟨a, ha, hla⟩ := PartialList.exists_of_mem_traverse htransport hl
                obtain ⟨hscope, href, -⟩ := subject_of_transport hla hd
                obtain rfl : c = a := eq_of_winners hc ha (hclick.1.trans href)
                refine ⟨c, hc, ?_, hid, hclick.1, hscope⟩
                rw [excludesClick, henabled, hla, Bool.true_and]
                exact List.any_eq_true.mpr ⟨d, hd, by simpa using haction.1⟩
              · obtain ⟨l, hl, hd⟩ := List.mem_flatten.mp hd
                obtain ⟨a, ha, hla⟩ := PartialList.exists_of_mem_traverse hinstall hl
                obtain ⟨-, href, hevent⟩ := subject_of_install hla hd
                obtain rfl : c = a := eq_of_winners hc ha (hclick.1.trans href)
                rw [hclick.2] at hevent
                cases hevent
              · obtain ⟨l, hl, hd⟩ := List.mem_flatten.mp hd
                obtain ⟨a, _, hla⟩ := PartialList.exists_of_mem_traverse hsourceDay hl
                exact absurd (subject_of_sourceDay hla hd) haction.2
          · cases he
      · cases he
  · cases he

/-- An install with an excluding decision names an excluded click. -/
theorem namesExcludedClick_of_excluding {ds : List FraudDecision}
    (h : fraudDecisions input (winners all) = .ok ds) {a : Attempt}
    (ha : (excludingDecision (excludedClickIds (winners all) ds) a).isSome) :
    NamesExcludedClick (winners all) a := by
  obtain ⟨d, hd⟩ := Option.isSome_iff_exists.mp ha
  obtain ⟨id, hid, hget⟩ := Option.bind_eq_some_iff.mp hd
  obtain ⟨d', hd', he⟩ := List.mem_filterMap.mp (InsertionMap.mem_of_get_ofList hget)
  obtain ⟨c, hc, hexcludes, hclick, -, -⟩ := excludes_of_excludedClick h hd' he
  exact ⟨c, hc, hexcludes, by simp [hclick], by rw [hclick, hid]⟩

/-- The decision that excludes the click of the scope's install is one about
the scope. -/
theorem excludingDecision_restrict (hapart : RecordsApart A all) {ds : List FraudDecision}
    (h : fraudDecisions input (winners all) = .ok ds) {a : Attempt}
    (hclicks : ∀ c ∈ winners all, excludesClick c = true → c.record.payload.clickId.isSome →
      c.record.payload.clickId = a.record.payload.clickId → c.scope = A) :
    excludingDecision (excludedClickIds (winners all) ds) a
      = excludingDecision (excludedClickIds (inside A (winners all))
          (ds.filter (isAbout (inside A all)))) a := by
  have hsub : ∀ b ∈ winners all, b ∈ all := fun b hb => (List.mem_filter.mp hb).1
  have hentries : (ds.filter (isAbout (inside A all))).filterMap
        (excludedClick (inside A (winners all)))
      = (ds.filterMap (excludedClick (winners all))).filter
        (fun e => isAbout (inside A all) e.2) := by
    rw [List.filter_filterMap, List.filterMap_filter]
    refine List.filterMap_congr (fun d _ => ?_)
    by_cases hd : isAbout (inside A all) d = true
    · rw [if_pos hd, ← excludedClick_restrict hapart hsub hd]
      cases he : excludedClick (winners all) d with
      | none => rfl
      | some e => simp [Option.filter, excludedClick_snd he, hd]
    · rw [if_neg hd]
      cases he : excludedClick (winners all) d with
      | none => rfl
      | some e => simp [Option.filter, excludedClick_snd he, hd]
  cases hid : a.record.payload.clickId with
  | none => simp [excludingDecision, hid]
  | some id =>
      simp only [excludingDecision, hid, Option.bind_some, excludedClickIds, hentries]
      refine (InsertionMap.get_ofList_filter (fun e he hkey => ?_)).symm
      obtain ⟨d, hd, hed⟩ := List.mem_filterMap.mp he
      obtain ⟨c, hc, hexcludes, hclick, href, hscope⟩ := excludes_of_excludedClick h hd hed
      have hcA := hclicks c hc hexcludes (by simp [hclick]) (by rw [hclick, hkey, hid])
      rw [excludedClick_snd hed, isAbout, hscope, ← href, any_recordId hapart (hsub c hc),
        inScope_eq_true.mpr hcA]
      rfl

end Exclusion

section Superseding

variable {accepted : List Attempt} {initial : List Attribution} {input : EvaluatorInput}

/-- The attributions before fraud have the subjects of the accepted
deliveries, in their scopes. -/
theorem subject_of_initial {candidates : CandidateProvider} {decisions : Decisions}
    {lifecycle : Lifecycle}
    (h : initialAttributions candidates decisions lifecycle accepted = .ok initial)
    {p : Attribution} (hp : p ∈ initial) :
    ∃ b ∈ accepted, p.scope = b.scope ∧ p.subjectRef ∈ subjectRefs b := by
  simp only [initialAttributions, bind_eq_ok, pure_eq_ok] at h
  obtain ⟨installs, hinstalls, rfl⟩ := h
  rw [sortAttributions, mem_sortByKey, List.mem_append, List.mem_append] at hp
  rcases hp with (hp | hp) | hp
  · obtain ⟨b, hb, hpb⟩ := PartialList.exists_of_mem_traverse hinstalls hp
    obtain ⟨hb, hevent⟩ := List.mem_filter.mp hb
    simp only [makeAttribution, bind_eq_ok, pure_eq_ok] at hpb
    obtain ⟨_, _, rfl⟩ := hpb
    refine ⟨b, hb, rfl, List.mem_append_left _ (List.mem_append_left _ ?_)⟩
    rw [if_pos (of_decide_eq_true hevent)]
    exact List.mem_singleton_self _
  · obtain ⟨b, hb, rfl⟩ := List.mem_map.mp hp
    obtain ⟨hb, hevent⟩ := List.mem_filter.mp hb
    refine ⟨b, hb, rfl, List.mem_append_left _ (List.mem_append_right _ ?_)⟩
    rw [if_pos hevent]
    exact List.mem_singleton_self _
  · obtain ⟨b, hb, rfl⟩ := List.mem_map.mp hp
    obtain ⟨hb, hevent⟩ := List.mem_filter.mp hb
    refine ⟨b, hb, rfl, List.mem_append_right _ ?_⟩
    rw [if_pos (of_decide_eq_true hevent)]
    exact List.mem_singleton_self _

omit [Digest] in
/-- The prior attribution is found in the scope when it is in the scope. -/
theorem priorAttribution_restrict {installationId : Option Identifier}
    (h : ∀ p, priorAttribution initial installationId = some p → p.scope = A) :
    priorAttribution initial installationId
      = priorAttribution (initial.filter (fun r => r.scope = A)) installationId := by
  rw [priorAttribution, priorAttribution, List.find?_filter]
  rw [priorAttribution] at h
  induction initial with
  | nil => rfl
  | cons x rest ih =>
      by_cases hx : x.subjectRef = installationId.map (·.text)
      · have hxA : x.scope = A := h x (by simp [hx])
        simp [hx, hxA]
      · rw [List.find?_cons_of_neg (by simpa using hx), List.find?_cons_of_neg (by simp [hx])]
        exact ih (fun p hp => h p (by rwa [List.find?_cons_of_neg (by simpa using hx)]))

/-- The superseded attribution of an install is on its side of the scope. -/
def PriorInScope (A : Scope) (initial : List Attribution) (a : Attempt) : Prop :=
  ∀ p, priorAttribution initial a.record.payload.installationId = some p →
    (p.scope = A ↔ a.scope = A)

variable {excluded excludedA : InsertionMap Identifier FraudDecision}

omit [Digest] in
/-- The row that excludes an attempt is of the scope exactly where the attempt
is, when its predecessor is one of the scope. -/
theorem fraudAttribution_scope {a : Attempt} (hprior : (excludingDecision excluded a).isSome →
    PriorInScope A initial a) {x : Attribution} (h : fraudAttribution initial excluded a = some x) :
    x.scope = A ↔ a.scope = A := by
  unfold fraudAttribution at h
  split at h
  · case h_1 d p hd hp =>
      cases h
      exact hprior (by rw [hd]; rfl) p hp
  · cases h

omit [Digest] in
/-- **The attributions that exclusion leaves in the scope.**  Those of its own
installs, where their clicks are excluded alike and their predecessors are of
the scope. -/
theorem fraudAttributions_restrict (accepted : List Attempt) (initial : List Attribution)
    (hclicks : ∀ a ∈ accepted, a.record.eventName = .install → a.scope = A →
      excludingDecision excluded a = excludingDecision excludedA a)
    (hprior : ∀ a ∈ accepted, a.record.eventName = .install →
      (excludingDecision excluded a).isSome → PriorInScope A initial a) :
    (fraudAttributions accepted initial excluded).filter (fun r => r.scope = A)
      = fraudAttributions (inside A accepted) (initial.filter (fun r => r.scope = A))
        excludedA := by
  simp only [fraudAttributions, excludedInstalls, inside]
  rw [List.filter_filterMap, List.filterMap_filter, List.filterMap_filter, List.filterMap_filter]
  refine List.filterMap_congr (fun a ha => ?_)
  by_cases hevent : a.record.eventName = .install
  · have hscope : ∀ x, fraudAttribution initial excluded a = some x → (x.scope = A ↔ a.scope = A) :=
      fun x => fraudAttribution_scope (hprior a ha hevent)
    by_cases hA : a.scope = A
    · have hsame : excludingDecision excluded a = excludingDecision excludedA a :=
        hclicks a ha hevent hA
      have hattr : (excludingDecision excludedA a).isSome = true →
          fraudAttribution initial excluded a
            = fraudAttribution (initial.filter (fun r => r.scope = A)) excludedA a := by
        intro hsome
        have hfind := priorAttribution_restrict
          (fun p hp => (hprior a ha hevent (hsame ▸ hsome) p hp).mpr hA)
        simp only [fraudAttribution, hsame, hfind]
      by_cases hsome : (excludingDecision excludedA a).isSome = true
      · rw [if_pos (by simp [hevent, hsame, hsome]), if_pos (inScope_eq_true.mpr hA),
          if_pos (by simp [hevent, hsome]), ← hattr hsome]
        cases hx : fraudAttribution initial excluded a with
        | none => rfl
        | some x => simp [Option.filter, (hscope x hx).mpr hA]
      · rw [if_neg (by simp [hevent, hsame, hsome]), if_pos (inScope_eq_true.mpr hA),
          if_neg (by simp [hevent, hsome])]
    · rw [if_neg (show ¬ inScope A a = true by simpa using hA)]
      split
      · cases hx : fraudAttribution initial excluded a with
        | none => rfl
        | some x => simp [Option.filter, (not_congr (hscope x hx)).mpr hA]
      · rfl
  · simp [hevent]

/-- The day belongs to the scope. -/
def isDayOf (A : Scope) (day : List SourceDayAggregate) : Bool :=
  day.head?.any (fun first => first.scope = A)

omit [Digest] in
/-- The days of the scope's aggregates are the scope's days. -/
theorem sourceDays_restrict (aggregates : List SourceDayAggregate) :
    sourceDays (aggregates.filter (fun a => a.scope = A))
      = (sourceDays aggregates).filter (isDayOf A) := by
  simp only [sourceDays, InsertionMap.values]
  rw [InsertionMap.entries_group_filter (fun a : SourceDayAggregate => (a.scope, a.metricDate))
    (fun k => k.1 = A), List.filter_map]
  congr 1
  refine List.filter_congr (fun e he => ?_)
  obtain ⟨hvalues, hne⟩ := InsertionMap.mem_group he
  obtain ⟨first, rest, hday⟩ := List.exists_cons_of_ne_nil hne
  have hfirst : first ∈ e.2 := hday ▸ List.mem_cons_self
  rw [hvalues] at hfirst
  have hscope : (first.scope, first.metricDate) = e.1 :=
    of_decide_eq_true (List.mem_filter.mp hfirst).2
  simp [isDayOf, hday, ← hscope]

/-- The bundle of a scope depends on the attempts of the scope alone. -/
theorem scopeBundle_restrict : scopeBundle accepted A = scopeBundle (inside A accepted) A := by
  have hfind : accepted.find? (fun a => a.scope = A)
      = (inside A accepted).find? (fun a => a.scope = A) := by
    rw [inside, List.find?_filter]
    refine List.find?_congr (fun a _ => ?_)
    simp [inScope]
  simp only [scopeBundle, hfind]

omit [Digest] in
/-- So does the click a source's day is compared with. -/
theorem sourceDayClick_restrict (date : CalendarDate) (install : Attempt) :
    sourceDayClick accepted A date install = sourceDayClick (inside A accepted) A date install := by
  rw [sourceDayClick, sourceDayClick, inside, List.find?_filter]
  refine List.find?_congr (fun c _ => ?_)
  by_cases hc : c.scope = A
  · simp [inScope, hc]
  · simp [isClickOf, hc]

/-- The provisional attributions of a day are those of its installs, when the
day is anomalous. -/
theorem provisionalDay_eq_ok {day : List SourceDayAggregate} {rows : List Attribution}
    (h : provisionalDay accepted initial day = .ok rows) :
    rows = [] ∨ ∃ first ∈ day.head?, ∃ computedAt, latestComputedAt day = some computedAt ∧
      IsAnomalousDay accepted day ∧
      rows = (accepted.filter (fun a => a.scope = first.scope &&
        a.record.eventName = .install && a.record.payload.clickId.isSome)).filterMap
          (provisionalAttribution accepted initial first.scope first.metricDate
            (dailySnapshotId day) computedAt) := by
  unfold provisionalDay at h
  split at h
  · case h_1 first rest computedAt hcomputed =>
      obtain ⟨bound, hbound, h⟩ := bind_eq_ok.mp h
      cases bound with
      | none => exact .inl (pure_eq_ok.mp h).symm
      | some b =>
          dsimp only at h
          split at h
          · exact .inl (pure_eq_ok.mp h).symm
          · case isFalse hcount =>
              split at h
              · exact .inl (pure_eq_ok.mp h).symm
              · case isFalse hrate =>
                  refine .inr ⟨first, rfl, computedAt, hcomputed, ?_, (pure_eq_ok.mp h).symm⟩
                  rw [Bool.not_eq_true', Bool.not_eq_false] at hrate
                  exact ⟨first, rfl, b, hbound, hcount, hrate⟩
  · exact .inl (Except.ok.inj h).symm

omit [Digest] in
/-- An install of the scope finds its click and its prior attribution in the
scope. -/
theorem provisionalAttribution_restrict {date : CalendarDate} {snapshotId : String}
    {computedAt : Timestamp} {a : Attempt} (hA : a.scope = A)
    (hprior : (sourceDayClick accepted A date a).isSome → PriorInScope A initial a) :
    provisionalAttribution accepted initial A date snapshotId computedAt a
      = provisionalAttribution (inside A accepted) (initial.filter (fun r => r.scope = A)) A date
        snapshotId computedAt a := by
  unfold provisionalAttribution
  rw [← sourceDayClick_restrict]
  cases hclick : sourceDayClick accepted A date a with
  | none => rfl
  | some click =>
      have hstay := hprior (by rw [hclick]; rfl)
      rw [priorAttribution_restrict (fun p hp => (hstay p hp).mpr hA)]

/-- A day of the scope is judged by the scope alone. -/
theorem provisionalDay_restrict {day : List SourceDayAggregate} (hday : isDayOf A day = true)
    (hprior : ∀ a ∈ accepted, a.record.eventName = .install → IsAnomalousDay accepted day →
      ∀ first ∈ day.head?, a.scope = first.scope → a.record.payload.clickId.isSome →
      (sourceDayClick accepted first.scope first.metricDate a).isSome → PriorInScope A initial a) :
    provisionalDay accepted initial day
      = provisionalDay (inside A accepted) (initial.filter (fun r => r.scope = A)) day := by
  cases day with
  | nil => cases hday
  | cons first rest =>
      have hA : first.scope = A := by simpa [isDayOf] using hday
      unfold provisionalDay
      cases hlatest : latestComputedAt (first :: rest) with
      | none => rfl
      | some computedAt =>
          simp only [hA, ← scopeBundle_restrict]
          cases hb : scopeBundle accepted A with
          | error e => rfl
          | ok bound =>
              cases bound with
              | none => rfl
              | some b =>
                  simp only [bind, Except.bind]
                  refine ite_congr rfl (fun _ => rfl) (fun hcount => ?_)
                  refine ite_congr rfl (fun _ => rfl) (fun hrate => congrArg Except.ok ?_)
                  have hanomalous : IsAnomalousDay accepted (first :: rest) :=
                    ⟨first, rfl, b, hA ▸ hb, hcount, by
                      rwa [Bool.not_eq_true', Bool.not_eq_false] at hrate⟩
                  rw [inside, List.filter_filter]
                  have hinstalls : accepted.filter (fun a => a.scope = A &&
                        a.record.eventName = .install && a.record.payload.clickId.isSome)
                      = accepted.filter (fun a => (a.scope = A && a.record.eventName = .install &&
                        a.record.payload.clickId.isSome) && inScope A a) := by
                    refine List.filter_congr (fun a _ => ?_)
                    by_cases ha : a.scope = A <;> simp [inScope, ha]
                  rw [← hinstalls]
                  refine List.filterMap_congr (fun a ha => ?_)
                  obtain ⟨ha, hsel⟩ := List.mem_filter.mp ha
                  simp only [Bool.and_eq_true, decide_eq_true_eq] at hsel
                  exact provisionalAttribution_restrict hsel.1.1 (fun hclick =>
                    hprior a ha hsel.1.2 hanomalous first rfl (hsel.1.1.trans hA.symm) hsel.2
                      (hA.symm ▸ hclick))

/-- **The provisional attributions of the scope.**  Those of its own installs,
where their predecessors are of the scope. -/
theorem provisional_restrict {rows : List Attribution}
    (hprior : ∀ a ∈ accepted, a.record.eventName = .install →
      IsOnAnomalousDay input accepted a → PriorInScope A initial a)
    (h : provisionalClockAttributions input accepted initial = .ok rows) :
    provisionalClockAttributions (input.restrict A) (inside A accepted)
        (initial.filter (fun r => r.scope = A))
      = .ok (rows.filter (fun r => r.scope = A)) := by
  simp only [provisionalClockAttributions, bind_eq_ok, pure_eq_ok] at h ⊢
  obtain ⟨days, hdays, rfl⟩ := h
  have hscope : ∀ day ∈ sourceDays input.sourceDayAggregates, ∀ l,
      provisionalDay accepted initial day = .ok l →
      ∀ x ∈ l, Decidable.decide (x.scope = A) = isDayOf A day := by
    intro day hday l hl x hx
    rcases provisionalDay_eq_ok hl with rfl | ⟨first, hhead, computedAt, _, hanomalous, rfl⟩
    · cases hx
    obtain ⟨a, ha, hax⟩ := List.mem_filterMap.mp hx
    obtain ⟨ha, hsel⟩ := List.mem_filter.mp ha
    simp only [Bool.and_eq_true, decide_eq_true_eq] at hsel
    simp only [provisionalAttribution] at hax
    split at hax
    · case h_1 click p hclick hp =>
        split at hax
        · cases hax
        · cases hax
          have hstay := hprior a ha hsel.1.2 ⟨day, hday, first, hhead, hanomalous, hsel.1.1,
            hsel.2, by rw [hclick]; rfl⟩ p hp
          rw [isDayOf, Option.mem_def.mp hhead, Option.any_some, ← hsel.1.1]
          exact decide_eq_decide.mpr hstay
    · cases hax
  obtain ⟨daysA, hdaysA, heq⟩ := PartialList.flatten_filter_traverse hdays hscope
  refine ⟨daysA, ?_, heq.symm⟩
  rw [← hdaysA]
  simp only [EvaluatorInput.restrict, sourceDays_restrict]
  refine PartialList.traverse_congr (fun day hday => (provisionalDay_restrict ?_ ?_).symm)
  · exact (List.mem_filter.mp hday).2
  · intro a ha hevent hanomalous first hhead hscope hclickId hclick
    exact hprior a ha hevent ⟨day, (List.mem_filter.mp hday).1, first, hhead, hanomalous, hscope,
      hclickId, hclick⟩

end Superseding

section TwoRuns

/-- What an evaluation reports about one scope. -/
structure ScopeView where
  deliveries : List Delivery
  rawRecords : List RawRecord
  logicalEvents : List LogicalEvent
  attributions : List Attribution
  rejections : List Rejection
  corrections : List Correction
  fraudDecisions : List FraudDecision
  reconciliation : List Reconciliation

/-- The rows of an output that belong to a scope; a fraud decision belongs to
the scope of the record it is about. -/
def EvaluationOutput.view (A : Scope) (input : EvaluatorInput) (out : EvaluationOutput) :
    ScopeView where
  deliveries := out.deliveries.filter (fun d => d.scope = A)
  rawRecords := out.rawRecords.filter (fun r => r.scope = A)
  logicalEvents := out.logicalEvents.filter (fun e => e.scope = A)
  attributions := out.attributions.filter (fun r => r.scope = A)
  rejections := out.rejections.filter (fun r => r.scope = A)
  corrections := out.corrections.filter (fun c => c.scope = A)
  fraudDecisions := out.fraudDecisions.filter (isAbout (inside A (orderedAttempts input)))
  reconciliation := out.reconciliation.filter (fun r => r.scope = A)

/-- The reports on a scope, computed from its own deliveries and its own part
of the input. -/
def scopeRun (own : List Attempt) (input : EvaluatorInput) : Except Failure ScopeView := do
  let candidates := fixtureCandidateProvider own
  let list ← decisionsOf own candidates
  let decisions := decisionMap own list
  let lifecycle := privacyIndex input
  let accepted := acceptedUnique decisions own
  let raws ← rawRecords decisions lifecycle own
  let rows ← deliveries input decisions own
  let initial ← initialAttributions candidates decisions lifecycle accepted
  let transport ← PartialList.traverse transportFraud accepted
  let install ← PartialList.traverse (installFraud accepted) accepted
  let fraud := sortFraudDecisions (transport.flatten ++ install.flatten)
  let provisional ← provisionalClockAttributions input accepted initial
  let excluded := fraudAttributions accepted initial (excludedClickIds accepted fraud)
  let reconciliation ← reconciliationResults input accepted
  return {
    deliveries := rows
    rawRecords := raws
    logicalEvents := logicalEvents decisions lifecycle own
    attributions := sortAttributions (initial ++ provisional ++ excluded)
    rejections := rejections input list
    corrections := corrections input decisions own
    fraudDecisions := fraud
    reconciliation := reconciliation }

variable {X Y : EvaluatorInput} {outX outY : EvaluationOutput}

/-- **One run and its scope.**  Where the lookups stay in the scope, an
evaluation reports about it what the scope's own part of the input gives. -/
theorem scopeRun_of_evaluate (h : evaluate X = .ok outX)
    (hapart : RecordsApart A (attempts X)) (hstay : LookupsStayInScope A X) :
    scopeRun (inside A (orderedAttempts X)) (X.restrict A) = .ok (outX.view A X) := by
  obtain ⟨i, initial, fraud, hi, hraws, hrows, hinitial, hfraud, hrec, hlogical, hcorrections,
    hattributions, hdecisions, hrejections⟩ := evaluate_eq_ok h
  obtain ⟨hall, hcandidates, -, hlist, hdecisionMap, -, hlifecycle, haccepted⟩ := ingest_eq_ok hi
  rw [← orderedAttempts] at hall
  have hapart : RecordsApart A i.all := by
    intro a ha b hb
    rw [hall, orderedAttempts, mem_sortCandidateAttempts] at ha hb
    exact hapart a ha b hb
  rw [hcandidates] at hlist hinitial
  rw [hdecisionMap] at hraws hrows hinitial hlogical hcorrections haccepted
  rw [hlifecycle] at hraws hinitial hlogical
  have hwinners : i.accepted = winners i.all := haccepted.trans (acceptedUnique_eq hlist)
  have hinside : acceptedUnique (decisionsInside A i.all i.decisionsList) (inside A i.all)
      = inside A (winners i.all) := by
    rw [← acceptedUnique_restrict hapart hlist, ← haccepted, hwinners]
  rw [hwinners] at hinitial hfraud hrec
  simp only [fraudStage, bind_eq_ok, pure_eq_ok] at hfraud
  obtain ⟨ds, hds, provisional, hprovisional, rfl⟩ := hfraud
  have hsubjects : ∀ a ∈ winners i.all, a.record.eventName = .install →
      (NamesExcludedClick (winners i.all) a ∨ IsOnAnomalousDay X (winners i.all) a) →
      PriorInScope A initial a := by
    intro a ha hevent hcase p hp
    obtain ⟨b, hb, hscope, href⟩ := subject_of_initial hinitial (List.mem_of_find?_eq_some hp)
    have hsubject : p.subjectRef = a.record.payload.installationId.map (·.text) := by
      simpa using List.find?_some hp
    rw [hscope]
    rw [hall] at ha hb hcase
    exact hstay.subjects a ha hevent hcase b hb (hsubject ▸ href)
  obtain ⟨transport, install, htransport, hinstall, hfraudA⟩ :=
    fraudDecisions_restrict hapart (fun a ha => (List.mem_filter.mp ha).1) hds
  have hexcluded := fraudAttributions_restrict (A := A) (winners i.all) initial
    (fun a ha hevent hA => excludingDecision_restrict hapart hds (fun c hc =>
      hstay.clicks a (hall ▸ ha) hevent hA c (hall ▸ hc)))
    (fun a ha hevent hsome => hsubjects a ha hevent
      (.inl (namesExcludedClick_of_excluding hds hsome)))
  simp only [scopeRun, bind_eq_ok, pure_eq_ok]
  rw [← hall]
  refine ⟨_, decisionsOf_restrict hapart hlist, _, rawRecords_restrict hapart hlist hraws, _,
    deliveries_restrict hlist hrows, initial.filter (fun r => r.scope = A), ?_, transport, ?_,
    install, ?_, provisional.filter (fun r => r.scope = A), ?_,
    outX.reconciliation.filter (fun r => r.scope = A), ?_, ?_⟩
  · rw [hinside]
    exact initialAttributions_restrict hlist hinitial
  · rw [hinside]
    exact htransport
  · rw [hinside]
    exact hinstall
  · rw [hinside]
    exact provisional_restrict (fun a ha hevent hday => hsubjects a ha hevent (.inr hday))
      hprovisional
  · rw [hinside]
    exact reconciliation_restrict hrec
  · rw [hinside, ← hfraudA, ← hexcluded, rejections_restrict, corrections_restrict hapart hlist,
      logicalEvents_restrict hapart hlist]
    simp only [EvaluationOutput.view, hattributions, hdecisions, hlogical, hcorrections,
      hrejections, hall, sortAttributions, filter_sortByKey, List.filter_append]

/-- The inputs agree on what belongs to the scope. -/
structure AgreeOn (A : Scope) (X Y : EvaluatorInput) : Prop where
  deliveries : inside A (attempts X) = inside A (attempts Y)
  privacyRequests : (X.restrict A).privacyRequests = (Y.restrict A).privacyRequests
  retentionExpirations : (X.restrict A).retentionExpirations = (Y.restrict A).retentionExpirations
  correctionInputs : (X.restrict A).correctionInputs = (Y.restrict A).correctionInputs
  preIngestionRejections :
    (X.restrict A).preIngestionRejections = (Y.restrict A).preIngestionRejections
  sourceDayAggregates : (X.restrict A).sourceDayAggregates = (Y.restrict A).sourceDayAggregates
  reconciliationInputs : (X.restrict A).reconciliationInputs = (Y.restrict A).reconciliationInputs

/-- A run over a scope reads the scope's part of the input only. -/
theorem scopeRun_congr (h : AgreeOn A X Y) (own : List Attempt) :
    scopeRun own (X.restrict A) = scopeRun own (Y.restrict A) := by
  simp only [scopeRun, deliveries, rejections, corrections, privacyIndex, completedRedactions,
    provisionalClockAttributions, reconciliationResults, h.privacyRequests,
    h.retentionExpirations, h.correctionInputs, h.preIngestionRejections, h.sourceDayAggregates,
    h.reconciliationInputs]

/-- **Tenant isolation.**  Two evaluations whose inputs agree on a scope, have
no record id of the scope in another one, and keep their lookups in the scope
report the same about it. -/
theorem tenant_isolation (A : Scope) (X Y : EvaluatorInput) (outX outY : EvaluationOutput)
    (hX : evaluate X = .ok outX) (hY : evaluate Y = .ok outY) (hagree : AgreeOn A X Y)
    (hapartX : RecordsApart A (attempts X)) (hapartY : RecordsApart A (attempts Y))
    (hstayX : LookupsStayInScope A X) (hstayY : LookupsStayInScope A Y) :
    outX.view A X = outY.view A Y := by
  have hown : inside A (orderedAttempts X) = inside A (orderedAttempts Y) := by
    simp only [inside, orderedAttempts, filter_sortCandidateAttempts]
    exact congrArg sortCandidateAttempts hagree.deliveries
  have hrunX := scopeRun_of_evaluate hX hapartX hstayX
  have hrunY := scopeRun_of_evaluate hY hapartY hstayY
  rw [hown, scopeRun_congr hagree, hrunY] at hrunX
  exact (Except.ok.inj hrunX).symm

/-- Without exclusions and source days no lookup leaves a scope. -/
theorem lookupsStayInScope_of_none
    (hclicks : ∀ c ∈ winners (orderedAttempts X), excludesClick c = false)
    (hdays : X.sourceDayAggregates = []) : LookupsStayInScope A X where
  clicks := by
    intro _ _ _ _ c hc hexcludes
    rw [hclicks c hc] at hexcludes
    cases hexcludes
  subjects := by
    rintro _ _ _ (⟨c, hc, hexcludes, -⟩ | ⟨day, hday, -⟩)
    · rw [hclicks c hc] at hexcludes
      cases hexcludes
    · rw [hdays] at hday
      cases hday

/-- How many attributions an evaluation reports for a scope. -/
def attributionCount (A : Scope) (input : EvaluatorInput) : Option Nat :=
  match evaluate input with
  | .ok out => some (out.attributions.filter (fun r => r.scope = A)).length
  | .error _ => none

/-- An evaluation with a count has an output with that many attributions. -/
theorem attributionCount_eq_some {n : Nat} (h : attributionCount A X = some n) :
    ∃ out, evaluate X = .ok out ∧ (out.view A X).attributions.length = n := by
  unfold attributionCount at h
  split at h
  · case h_1 out hout => exact ⟨out, hout, Option.some.inj h⟩
  · cases h

end TwoRuns

end Law

section Runs

attribute [local instance] checksumDigest

/-- The app of a tenant. -/
def appOf (tenant : Identifier) : Scope := ⟨tenant, .named "app"⟩

def homeScope : Scope := appOf (.named "home")

/-- A record under its own tenant with the click id both tenants use. -/
def sharedClickRecord (tenant : Identifier) (payload : Payload) : Record where
  recordId := tenant
  deliveryId := tenant
  tenantId := tenant
  appId := .named "app"
  producer := .redirector
  producerVersion := "1.0.0"
  eventId := .named "event"
  schemaVersion := "0.4.0"
  occurredAt := ⟨2026, 1, 2, 3, 4, 0, 0⟩
  occurredAtSource := "server"
  receivedAt := ⟨2026, 1, 2, 3, 4, 5, 0⟩
  payload := { payload with clickId := some (.named "click") }
  processingSequence := 0

/-- The batch of a tenant with one record. -/
def tenantBatch (tenant : Identifier) (payload : Payload) : Batch where
  batchId := tenant
  serverContext := {
    tenantId := tenant
    appId := .named "app"
    receivedAt := ⟨2026, 1, 2, 3, 4, 5, 0⟩
    policyDigest := "policy"
    fraudActionsEnabled := some true }
  records := [sharedClickRecord tenant payload]

/-- An install of the home tenant. -/
def homeBatch : Batch := tenantBatch (.named "home") {
  eventName := .install
  installationId := some (.named "installation") }

/-- A click of another tenant, replayed or not. -/
def foreignBatch (replayed : Bool) : Batch := tenantBatch (.named "other") {
  eventName := .click
  replaySuspected := some replayed }

/-- The home tenant's install, next to the batches of other tenants. -/
def homeInstall (others : List Batch) : EvaluatorInput where
  ingress := .batches (homeBatch :: others)
  fxPolicy := ⟨"1", "USD", 6, "half_even", []⟩

/-- With the foreign batch and without it the input agrees on the home scope.
-/
theorem homeInstall_agree (replayed : Bool) :
    AgreeOn homeScope (homeInstall [foreignBatch replayed]) (homeInstall []) :=
  ⟨rfl, rfl, rfl, rfl, rfl, rfl, rfl⟩

/-- The records of the two scopes are apart. -/
theorem homeInstall_apart (replayed : Bool) :
    RecordsApart homeScope (attempts (homeInstall [foreignBatch replayed])) := by
  unfold RecordsApart
  cases replayed <;> decide

/-- Without the foreign batch they are apart as well. -/
theorem homeInstall_alone : RecordsApart homeScope (attempts (homeInstall [])) := by
  unfold RecordsApart
  decide

set_option maxRecDepth 4000 in
/-- The home install alone is attributed once. -/
theorem homeInstall_count : attributionCount homeScope (homeInstall []) = some 1 := by
  decide +kernel

set_option maxRecDepth 4000 in
/-- **A foreign exclusion leaks.**  A click that another tenant excludes takes
the attribution away from an install that names the same click id, since
excluded clicks are looked up by their id alone. -/
theorem foreign_exclusion_leaks :
    ∃ outX outY, evaluate (homeInstall [foreignBatch true]) = .ok outX ∧
      evaluate (homeInstall []) = .ok outY ∧
      AgreeOn homeScope (homeInstall [foreignBatch true]) (homeInstall []) ∧
      RecordsApart homeScope (attempts (homeInstall [foreignBatch true])) ∧
      RecordsApart homeScope (attempts (homeInstall [])) ∧
      outX.view homeScope (homeInstall [foreignBatch true])
        ≠ outY.view homeScope (homeInstall []) := by
  have hcount : attributionCount homeScope (homeInstall [foreignBatch true]) = some 2 := by
    decide +kernel
  obtain ⟨outX, hX, hlengthX⟩ := attributionCount_eq_some hcount
  obtain ⟨outY, hY, hlengthY⟩ := attributionCount_eq_some homeInstall_count
  refine ⟨outX, outY, hX, hY, homeInstall_agree true, homeInstall_apart true, homeInstall_alone,
    fun h => ?_⟩
  rw [h, hlengthY] at hlengthX
  cases hlengthX

set_option maxRecDepth 4000 in
/-- A click that the other tenant keeps does not reach the home tenant. -/
theorem foreign_click_isolated :
    ∃ outX outY, evaluate (homeInstall [foreignBatch false]) = .ok outX ∧
      evaluate (homeInstall []) = .ok outY ∧
      outX.view homeScope (homeInstall [foreignBatch false])
        = outY.view homeScope (homeInstall []) := by
  have hcount : attributionCount homeScope (homeInstall [foreignBatch false]) = some 1 := by
    decide +kernel
  obtain ⟨outX, hX, -⟩ := attributionCount_eq_some hcount
  obtain ⟨outY, hY, -⟩ := attributionCount_eq_some homeInstall_count
  refine ⟨outX, outY, hX, hY, tenant_isolation homeScope _ _ outX outY hX hY
    (homeInstall_agree false) (homeInstall_apart false) homeInstall_alone
    (lookupsStayInScope_of_none ?_ rfl) (lookupsStayInScope_of_none ?_ rfl)⟩
  · decide +kernel
  · decide +kernel

end Runs

end OpenMasu
