import OpenMasu.DerivedRows
import OpenMasu.FraudExclusion

/-!
# The attributions of an evaluation, by subject

An evaluation derives attributions from initial ones twice, independently: on
an anomalous day from those of the installs clicked on it, and from those of
the installs whose click is excluded.  Each derived attribution supersedes the
first that bears the installation id, in any scope.  The attributions form one
chain a subject exactly when nothing is derived from twice and the first of an
installation id is the one meant.

* `derivations` — the installs derived for, with the derived attributions;
* `derives_derivations` — what they supersede;
* `AttributionChains` — the law, on an output;
* `RowsDeriveOnce` — the condition, on initial and derived rows;
* `attributionChains_iff_rows` — the equivalence.
-/

namespace OpenMasu

open PartialList (bind_eq_ok pure_eq_ok)
open Supersession (IsHead IsForm)

section Derivations

variable [Digest] (accepted : List Attempt) (initial : List Attribution)

/-- The clock anomalies of a scope's day exceed the threshold of its bundle. -/
def isAnomalousDay (aggregates : List SourceDayAggregate) : Bool :=
  match aggregates with
  | [] => false
  | first :: _ =>
      match scopeBundle accepted first.scope with
      | .ok (some b) =>
          BinaryFloat.total (aggregates.map (·.installs)) ≠ .finite 0 &&
            exceedsNegativeRate (BinaryFloat.total (aggregates.map (·.ctitNegativeCount.getD 0)))
              (BinaryFloat.total (aggregates.map (·.installs))) b.definition
      | _ => false

/-- The installs of an anomalous day with what is derived for them. -/
def clockDerivations (aggregates : List SourceDayAggregate) : List (Attempt × Attribution) :=
  match aggregates, latestComputedAt aggregates with
  | first :: _, some computedAt =>
      if isAnomalousDay accepted aggregates then
        (accepted.filter (fun a => a.scope = first.scope && a.record.eventName = .install &&
          a.record.payload.clickId.isSome)).filterMap (fun a =>
            (provisionalAttribution accepted initial first.scope first.metricDate
              (dailySnapshotId aggregates) computedAt a).map (fun t => (a, t)))
      else []
  | _, _ => []

/-- The installs whose click is excluded with what is derived for them. -/
def fraudDerivations (excluded : InsertionMap Identifier FraudDecision) :
    List (Attempt × Attribution) :=
  (excludedInstalls accepted excluded).filterMap (fun a =>
    (fraudAttribution initial excluded a).map (fun t => (a, t)))

/-- The installs an evaluation derives attributions for, once for each of
them. -/
def derivations (input : EvaluatorInput) (decisions : List FraudDecision) :
    List (Attempt × Attribution) :=
  (sourceDays input.sourceDayAggregates).flatMap (clockDerivations accepted initial) ++
    fraudDerivations accepted initial (excludedClickIds accepted decisions)

variable {accepted initial}

omit [Digest] in
/-- Rows kept beside their attempts are the rows. -/
theorem map_snd_filterMap {f : Attempt → Option Attribution} (l : List Attempt) :
    (l.filterMap (fun a => (f a).map (fun t => (a, t)))).map Prod.snd = l.filterMap f := by
  rw [List.map_filterMap]
  refine List.filterMap_congr fun a _ => ?_
  cases f a with
  | none => rfl
  | some t => rfl

/-- Without a bundle no day is anomalous. -/
theorem isAnomalousDay_none {first : SourceDayAggregate} {rest : List SourceDayAggregate}
    (h : scopeBundle accepted first.scope = .ok none) :
    isAnomalousDay accepted (first :: rest) = false := by
  rw [isAnomalousDay, h]

/-- With a bundle a day is anomalous where its installs are counted and their
negative share passes the threshold. -/
theorem isAnomalousDay_some {first : SourceDayAggregate} {rest : List SourceDayAggregate}
    {b : BoundFraudBundle} (h : scopeBundle accepted first.scope = .ok (some b)) :
    isAnomalousDay accepted (first :: rest) = true ↔
      BinaryFloat.total ((first :: rest).map (·.installs)) ≠ .finite 0 ∧
        exceedsNegativeRate
          (BinaryFloat.total ((first :: rest).map (·.ctitNegativeCount.getD 0)))
          (BinaryFloat.total ((first :: rest).map (·.installs))) b.definition = true := by
  rw [isAnomalousDay, h]
  simp only [Bool.and_eq_true, decide_eq_true_iff]

/-- The provisional attributions of a day are those derived for its
installs. -/
theorem provisionalDay_eq {aggregates : List SourceDayAggregate} {rows : List Attribution}
    (h : provisionalDay accepted initial aggregates = .ok rows) :
    rows = (clockDerivations accepted initial aggregates).map Prod.snd := by
  unfold provisionalDay at h
  unfold clockDerivations
  cases aggregates with
  | nil => exact (Except.ok.inj h).symm
  | cons first rest =>
      cases hcomputed : latestComputedAt (first :: rest) with
      | none =>
          rw [hcomputed] at h
          exact (Except.ok.inj h).symm
      | some computedAt =>
          rw [hcomputed] at h
          simp only [bind_eq_ok] at h ⊢
          obtain ⟨bound, hbound, h⟩ := h
          cases bound with
          | none =>
              rw [if_neg (by simp [isAnomalousDay_none hbound])]
              exact (pure_eq_ok.mp h).symm
          | some b =>
              have hday : isAnomalousDay accepted (first :: rest) = true ↔ _ :=
                isAnomalousDay_some hbound
              dsimp only at h
              split at h
              · rename_i hzero
                rw [if_neg (fun hanomalous => (hday.mp hanomalous).1 hzero)]
                exact (pure_eq_ok.mp h).symm
              · rename_i hinstalls
                split at h
                · rename_i hrate
                  rw [Bool.not_eq_true'] at hrate
                  rw [if_neg (fun hanomalous => Bool.false_ne_true
                    (hrate.symm.trans (hday.mp hanomalous).2))]
                  exact (pure_eq_ok.mp h).symm
                · rename_i hrate
                  rw [Bool.not_eq_true', Bool.not_eq_false] at hrate
                  rw [if_pos (hday.mpr ⟨hinstalls, hrate⟩), map_snd_filterMap]
                  exact (pure_eq_ok.mp h).symm

/-- The attributions a fraud stage derives. -/
theorem fraudStage_rows {input : EvaluatorInput} {fraud : FraudOutput}
    (h : fraudStage input accepted initial = .ok fraud) :
    fraud.provisional ++ fraud.excluded =
      (derivations accepted initial input fraud.decisions).map Prod.snd := by
  simp only [fraudStage, bind_eq_ok, pure_eq_ok] at h
  obtain ⟨decisions, -, provisional, hprovisional, rfl⟩ := h
  simp only [provisionalClockAttributions, bind_eq_ok, pure_eq_ok] at hprovisional
  obtain ⟨days, hdays, rfl⟩ := hprovisional
  have hrows : days = (sourceDays input.sourceDayAggregates).map
      (fun day => (clockDerivations accepted initial day).map Prod.snd) := by
    have hmap : days.map id = (sourceDays input.sourceDayAggregates).map _ :=
      PartialList.map_of_traverse hdays (fun day _ rows hday => provisionalDay_eq hday)
    rw [List.map_id] at hmap
    exact hmap
  rw [derivations, List.map_append, List.map_flatMap, fraudDerivations, map_snd_filterMap, hrows,
    List.flatMap_def]
  rfl

variable (initial) in
/-- The attribution a derivation starts from. -/
def derivationPrior (d : Attempt × Attribution) : Attribution :=
  (priorAttribution initial d.1.record.payload.installationId).getD d.2

omit [Digest] in
/-- The attribution found for an installation is one of the initial ones about
it. -/
theorem priorAttribution_eq_some {installationId : Option Identifier} {prior : Attribution}
    (h : priorAttribution initial installationId = some prior) :
    prior ∈ initial ∧ prior.subjectRef = installationId.map (·.text) := by
  unfold priorAttribution at h
  have href := List.find?_some h
  exact ⟨List.mem_of_find?_eq_some h, of_decide_eq_true href⟩

/-- What a derivation starts from, and what it makes of it. -/
theorem derivation_cases {input : EvaluatorInput} {decisions : List FraudDecision}
    {d : Attempt × Attribution} (h : d ∈ derivations accepted initial input decisions) :
    ∃ prior, priorAttribution initial d.1.record.payload.installationId = some prior ∧
      d.2.supersedesAttributionId = some prior.attributionId ∧
      d.2.installation = prior.installation ∧
      (∃ suffix, suffix ≠ "" ∧ d.2.attributionId = prior.attributionId ++ suffix) ∧
      (d.2.reasonCode = prior.reasonCode ∨
        d.2.status = .unattributed ∧ d.2.reasonCode = .fraudExcluded) := by
  rcases List.mem_append.mp h with h | h
  · obtain ⟨aggregates, -, h⟩ := List.mem_flatMap.mp h
    unfold clockDerivations at h
    split at h
    · split at h
      · obtain ⟨a, -, h⟩ := List.mem_filterMap.mp h
        obtain ⟨t, ht, rfl⟩ := Option.map_eq_some_iff.mp h
        unfold provisionalAttribution at ht
        split at ht
        · rename_i prior _ hprior
          split at ht
          · cases ht
          · obtain rfl := Option.some.inj ht
            refine ⟨prior, hprior, rfl, rfl, ⟨_, ?_, String.append_assoc⟩, .inl rfl⟩
            exact fun hempty => by simpa using congrArg String.toList hempty
        · cases ht
      · cases h
    · cases h
  · obtain ⟨a, -, h⟩ := List.mem_filterMap.mp h
    obtain ⟨t, ht, rfl⟩ := Option.map_eq_some_iff.mp h
    unfold fraudAttribution at ht
    split at ht
    · rename_i prior _ hprior
      obtain rfl := Option.some.inj ht
      exact ⟨prior, hprior, rfl, rfl, ⟨":fraud", by decide, rfl⟩, .inr ⟨rfl, rfl⟩⟩
    · cases ht

variable (accepted initial) in
/-- Derived attributions supersede initial ones. -/
theorem derives_derivations (input : EvaluatorInput) (decisions : List FraudDecision) :
    Supersession.Derives attributionTable initial (derivationPrior initial) Prod.snd
      (derivations accepted initial input decisions) := by
  have hprior : ∀ d ∈ derivations accepted initial input decisions,
      ∃ prior, derivationPrior initial d = prior ∧ prior ∈ initial ∧
        d.2.supersedesAttributionId = some prior.attributionId ∧
        d.2.installation = prior.installation ∧
        ∃ suffix, suffix ≠ "" ∧ d.2.attributionId = prior.attributionId ++ suffix := by
    intro d hd
    obtain ⟨prior, hprior, hsupersedes, hinstallation, hid, -⟩ := derivation_cases hd
    refine ⟨prior, ?_, (priorAttribution_eq_some hprior).1, hsupersedes, hinstallation, hid⟩
    rw [derivationPrior, hprior]
    rfl
  refine ⟨fun d hd => ?_, fun d hd => ?_, fun d hd => ?_, fun d hd => ?_⟩
  · obtain ⟨prior, rfl, hmem, -⟩ := hprior d hd
    exact hmem
  · obtain ⟨prior, rfl, -, hsupersedes, -⟩ := hprior d hd
    exact hsupersedes
  · obtain ⟨prior, rfl, -, -, hinstallation, -⟩ := hprior d hd
    exact hinstallation
  · obtain ⟨prior, rfl, -, -, -, suffix, hsuffix, hid⟩ := hprior d hd
    intro hsame
    change d.2.attributionId = (derivationPrior initial d).attributionId at hsame
    rw [hid] at hsame
    exact hsuffix (by simpa using hsame)

end Derivations

section First

variable [Digest] {candidates : CandidateProvider} {decisions : Decisions} {lifecycle : Lifecycle}
  {accepted : List Attempt} {initial : List Attribution}

/-- The id that the attribution of a record has as long as its evidence is
available. -/
def Attribution.rootId (t : Attribution) : String :=
  t.supersedesAttributionId.getD t.attributionId

omit [Digest] in
/-- The first row of an install is named by its record. -/
theorem rootId_installAttribution (a : Attempt) (v : Verdict) :
    (installAttribution lifecycle a v).rootId = "attr:" ++ a.record.recordId.text := by
  unfold Attribution.rootId installAttribution
  dsimp only
  split
  · rfl
  · rfl

omit [Digest] in
/-- A first row that supersedes another supersedes the one named by its record.
-/
theorem target_installAttribution {a : Attempt} {v : Verdict} {x : String}
    (h : (installAttribution lifecycle a v).supersedesAttributionId = some x) :
    x = (installAttribution lifecycle a v).rootId := by
  rw [Attribution.rootId, h]
  rfl

omit [Digest] in
/-- A row of an installation is at the level of installations. -/
theorem level_of_installation {t : Attribution} {k : Scope × Option String}
    (h : t.installation = some k) :
    t.subjectScope = .installationLevel ∧ k = (t.scope, t.subjectRef) := by
  unfold Attribution.installation at h
  split at h
  · rename_i hlevel
    exact ⟨hlevel, (Option.some.inj h).symm⟩
  · cases h

/-- The attributions of accepted installs, postbacks and opens, one a
record. -/
structure InitialParts (candidates : CandidateProvider) (decisions : Decisions)
    (lifecycle : Lifecycle) (accepted : List Attempt) (initial : List Attribution) where
  installs : List Attribution
  made : PartialList.traverse (makeAttribution candidates decisions lifecycle)
    (accepted.filter (fun a => a.record.eventName = .install)) = .ok installs
  perm : initial.Perm (installs ++
    ((accepted.filter (fun a => isApplePostback a.record.eventName)).map
      (makeAggregatePostbackAttribution lifecycle) ++
    (accepted.filter (fun a => a.record.eventName = .deepLinkOpen)).map
      (makeDeepLinkAttribution lifecycle)))

/-- Initial attributions have such parts. -/
theorem initialParts (h : initialAttributions candidates decisions lifecycle accepted = .ok initial) :
    Nonempty (InitialParts candidates decisions lifecycle accepted initial) := by
  simp only [initialAttributions, bind_eq_ok, pure_eq_ok] at h
  obtain ⟨installs, hinstalls, rfl⟩ := h
  refine ⟨⟨installs, hinstalls, ?_⟩⟩
  rw [← List.append_assoc]
  exact perm_sortByKey _ _

namespace InitialParts

variable (parts : InitialParts candidates decisions lifecycle accepted initial)

include parts

/-- An initial attribution about an installation is that of an install. -/
theorem install_of_level {t : Attribution} (ht : t ∈ initial)
    (hlevel : t.subjectScope = .installationLevel) : t ∈ parts.installs := by
  rcases List.mem_append.mp (parts.perm.mem_iff.mp ht) with ht | ht
  · exact ht
  · rcases List.mem_append.mp ht with ht | ht
    · obtain ⟨a, -, rfl⟩ := List.mem_map.mp ht
      cases hlevel
    · obtain ⟨a, -, rfl⟩ := List.mem_map.mp ht
      cases hlevel

/-- Each of the first part is made for an accepted install by its verdict. -/
theorem exists_install {t : Attribution} (ht : t ∈ parts.installs) :
    ∃ a ∈ accepted, a.record.eventName = .install ∧
      makeAttribution candidates decisions lifecycle a = .ok t ∧
      ∃ v, installVerdict candidates decisions a = .ok v ∧ t = installAttribution lifecycle a v := by
  obtain ⟨a, ha, hmade⟩ := PartialList.exists_of_mem_traverse parts.made ht
  obtain ⟨hmem, hinstall⟩ := List.mem_filter.mp ha
  refine ⟨a, hmem, of_decide_eq_true hinstall, hmade, ?_⟩
  simp only [makeAttribution, bind_eq_ok, pure_eq_ok] at hmade
  obtain ⟨v, hv, rfl⟩ := hmade
  exact ⟨v, hv, rfl⟩

/-- Only attributions of installs supersede something. -/
theorem install_of_target {t : Attribution} (ht : t ∈ initial) {x : String}
    (hx : t.supersedesAttributionId = some x) : t ∈ parts.installs ∧ x = t.rootId := by
  rcases List.mem_append.mp (parts.perm.mem_iff.mp ht) with ht | ht
  · refine ⟨ht, ?_⟩
    obtain ⟨a, -, -, -, v, -, rfl⟩ := parts.exists_install ht
    exact target_installAttribution hx
  · rcases List.mem_append.mp ht with ht | ht
    · obtain ⟨a, -, rfl⟩ := List.mem_map.mp ht
      cases hx
    · obtain ⟨a, -, rfl⟩ := List.mem_map.mp ht
      cases hx

/-- No initial attribution excludes. -/
theorem reasonCode_of_level {t : Attribution} (ht : t ∈ initial)
    (hlevel : t.subjectScope = .installationLevel) : t.reasonCode ≠ .fraudExcluded := by
  obtain ⟨a, -, -, -, v, hv, rfl⟩ := parts.exists_install (parts.install_of_level ht hlevel)
  exact reasonCode_of_installVerdict hv

variable (hrecords : (accepted.map (·.record.recordId)).Nodup)

include hrecords

/-- The first rows of installs are named apart. -/
theorem nodup_roots : (parts.installs.map (·.rootId)).Nodup := by
  have hroots : parts.installs.map (·.rootId) =
      (accepted.filter (fun a => a.record.eventName = .install)).map
        (fun a => "attr:" ++ a.record.recordId.text) := by
    refine PartialList.map_of_traverse parts.made fun a _ t hmade => ?_
    simp only [makeAttribution, bind_eq_ok, pure_eq_ok] at hmade
    obtain ⟨v, -, rfl⟩ := hmade
    exact rootId_installAttribution a v
  rw [hroots]
  refine List.Nodup.map_on (fun a ha b hb hid => ?_) (hrecords.of_map.filter _)
  have htext := Identifier.text_injective ((String.append_right_inj _).mp hid)
  exact List.inj_on_of_nodup_map hrecords (List.mem_filter.mp ha).1 (List.mem_filter.mp hb).1 htext

/-- No record has two initial attributions. -/
theorem nodup_initial : initial.Nodup := by
  have hpart : ∀ (p : Attempt → Bool) (f : Attempt → Attribution) (pre : String),
      (∀ a, (f a).attributionId = pre ++ a.record.recordId.text) →
      ((accepted.filter p).map f).Nodup := by
    intro p f pre hid
    refine List.Nodup.map_on (fun a ha b hb heq => ?_) (hrecords.of_map.filter _)
    have hids := congrArg Attribution.attributionId heq
    rw [hid, hid] at hids
    have htext := Identifier.text_injective ((String.append_right_inj _).mp hids)
    exact List.inj_on_of_nodup_map hrecords (List.mem_filter.mp ha).1 (List.mem_filter.mp hb).1 htext
  refine parts.perm.nodup_iff.mpr (List.nodup_append.mpr ⟨?_, ?_, ?_⟩)
  · exact (parts.nodup_roots hrecords).of_map
  · refine List.nodup_append.mpr ⟨hpart _ _ "attr:" fun _ => rfl,
      hpart _ _ "attr:engagement:" fun _ => rfl, ?_⟩
    rintro t ht t' ht' rfl
    obtain ⟨a, -, rfl⟩ := List.mem_map.mp ht
    obtain ⟨b, -, heq⟩ := List.mem_map.mp ht'
    cases congrArg Attribution.subjectScope heq
  · rintro t ht t' ht' rfl
    obtain ⟨a, -, -, -, v, -, rfl⟩ := parts.exists_install ht
    rcases List.mem_append.mp ht' with ht' | ht'
    · obtain ⟨b, -, heq⟩ := List.mem_map.mp ht'
      cases congrArg Attribution.subjectScope heq
    · obtain ⟨b, -, heq⟩ := List.mem_map.mp ht'
      cases congrArg Attribution.subjectScope heq

omit hrecords in
/-- The initial attribution of an accepted install. -/
theorem exists_initial {a : Attempt} (ha : a ∈ accepted) (hinstall : a.record.eventName = .install) :
    ∃ t ∈ initial, t.installation = some a.installation := by
  obtain ⟨t, ht, hmade⟩ := PartialList.ok_of_mem_traverse parts.made
    (List.mem_filter.mpr ⟨ha, decide_eq_true hinstall⟩)
  refine ⟨t, parts.perm.mem_iff.mpr (List.mem_append_left _ ht), ?_⟩
  simp only [makeAttribution, bind_eq_ok, pure_eq_ok] at hmade
  obtain ⟨v, -, rfl⟩ := hmade
  rfl

/-- **First rows.**  Where accepted installs anchor distinct installations,
each has one initial attribution. -/
theorem firstRows {subjects : Scope × Option String → Prop}
    (hanchors : ((accepted.filter (fun a => a.record.eventName = .install)).map anchorKey).Nodup)
    (hsubjects : ∀ k, subjects k → ∃ a ∈ accepted, a.record.eventName = .install ∧
      a.installation = k) :
    Supersession.FirstRows attributionTable initial subjects := by
  refine ⟨parts.nodup_initial hrecords, ?_, ?_, ?_⟩
  · intro s hs s' hs' x hx hx'
    obtain ⟨hinstall, hroot⟩ := parts.install_of_target hs hx
    obtain ⟨hinstall', hroot'⟩ := parts.install_of_target hs' hx'
    exact List.inj_on_of_nodup_map (parts.nodup_roots hrecords) hinstall hinstall'
      (hroot.symm.trans hroot')
  · intro k hk
    obtain ⟨a, ha, hinstall, rfl⟩ := hsubjects k hk
    exact parts.exists_initial ha hinstall
  · intro k _ p hp p' hp' hpk hpk'
    obtain ⟨a, ha, hinstall, hmade, v, -, hrow⟩ :=
      parts.exists_install (parts.install_of_level hp (level_of_installation hpk).1)
    obtain ⟨b, hb, hinstall', hmade', v', -, hrow'⟩ :=
      parts.exists_install (parts.install_of_level hp' (level_of_installation hpk').1)
    have hsame : a.installation = b.installation := by
      rw [hrow] at hpk
      rw [hrow'] at hpk'
      exact Option.some.inj (hpk.trans hpk'.symm)
    have heq : a = b := List.inj_on_of_nodup_map hanchors
      (List.mem_filter.mpr ⟨ha, decide_eq_true hinstall⟩)
      (List.mem_filter.mpr ⟨hb, decide_eq_true hinstall'⟩) (anchorKey_of_installation hsame)
    rw [heq] at hmade
    exact Except.ok.inj (hmade.symm.trans hmade')

end InitialParts

end First

section Law

variable [Digest]

/-- The click an install names is accepted in its scope, its actions are
enabled, and a decision excludes it. -/
def IsClickExcluded (accepted : List Attempt) (decisions : List FraudDecision) (a : Attempt) :
    Prop :=
  ∃ click ∈ accepted, isClickOf a.scope a.record.payload.clickId click = true ∧
    a.record.payload.clickId.isSome ∧ truthy click.server.fraudActionsEnabled = true ∧
    ∃ d ∈ decisions, d.action = .exclude ∧ d.subjectScope ≠ .source ∧
      d.subjectRef = click.record.recordId.text

/-- A completed privacy request names the record. -/
def IsPrivacyAffected (input : EvaluatorInput) (a : Attempt) : Prop :=
  ∃ e ∈ completedRedactions input, e.1.scope = a.scope ∧ e.2.recordId = a.record.recordId

/-- The installations of the accepted installs that no privacy request
names. -/
def KeptInstallation (input : EvaluatorInput) (accepted : List Attempt)
    (k : Scope × Option String) : Prop :=
  ∃ a ∈ accepted, a.record.eventName = .install ∧ ¬ IsPrivacyAffected input a ∧ a.installation = k

/-- **The law.**  All attribution ids are distinct, no attribution is
superseded twice, and every installation has one attribution without
successor, which is an exclusion where the click of its install is
excluded. -/
structure AttributionChains (input : EvaluatorInput) (accepted : List Attempt)
    (out : EvaluationOutput) : Prop where
  ids : (out.attributions.map (·.attributionId)).Nodup
  once : ∀ p ∈ out.attributions, ∀ s ∈ out.attributions, ∀ s' ∈ out.attributions,
    s.supersedesAttributionId = some p.attributionId →
    s'.supersedesAttributionId = some p.attributionId → s = s'
  head : ∀ a ∈ accepted, a.record.eventName = .install → ¬ IsPrivacyAffected input a →
    ∃ h, IsHead attributionTable out.attributions h ∧ h.installation = some a.installation ∧
      (∀ h', IsHead attributionTable out.attributions h' →
        h'.installation = some a.installation → h' = h) ∧
      (IsClickExcluded accepted out.fraudDecisions a →
        h.status = .unattributed ∧ h.reasonCode = .fraudExcluded)

/-- The condition on initial and derived rows.  No installation id is derived
for twice; where an install's click is excluded, the first attribution that
bears its installation id is its own; the ids made from different initial
attributions differ; and what a recalculated attribution supersedes is not one
of them. -/
structure RowsDeriveOnce (input : EvaluatorInput) (accepted : List Attempt)
    (initial : List Attribution) (decisions : List FraudDecision) : Prop where
  once : ((derivations accepted initial input decisions).map
    (·.1.record.payload.installationId)).Nodup
  own : ∀ a ∈ accepted, a.record.eventName = .install → ¬ IsPrivacyAffected input a →
    IsClickExcluded accepted decisions a →
    ∃ prior, priorAttribution initial a.record.payload.installationId = some prior ∧
      prior.installation = some a.installation
  forms : ∀ p ∈ initial, ∀ q ∈ initial, ∀ x,
    IsForm attributionTable (derivationPrior initial) Prod.snd
      (derivations accepted initial input decisions) p x →
    IsForm attributionTable (derivationPrior initial) Prod.snd
      (derivations accepted initial input decisions) q x → p = q
  bases : ∀ s ∈ initial, ∀ x, s.supersedesAttributionId = some x → ∀ p ∈ initial,
    IsForm attributionTable (derivationPrior initial) Prod.snd
      (derivations accepted initial input decisions) p x →
    (∀ k, KeptInstallation input accepted k → p.installation ≠ some k) ∧
      (x = p.attributionId → ∀ d ∈ derivations accepted initial input decisions,
        derivationPrior initial d ≠ p)

variable {input : EvaluatorInput} {accepted : List Attempt} {initial : List Attribution}
  {decisions : List FraudDecision}

/-- Derivations start from one attribution exactly when they are for one
installation id. -/
theorem derivationPrior_eq_iff {d d' : Attempt × Attribution}
    (hd : d ∈ derivations accepted initial input decisions)
    (hd' : d' ∈ derivations accepted initial input decisions) :
    derivationPrior initial d = derivationPrior initial d' ↔
      d.1.record.payload.installationId = d'.1.record.payload.installationId := by
  obtain ⟨prior, hprior, -⟩ := derivation_cases hd
  obtain ⟨prior', hprior', -⟩ := derivation_cases hd'
  unfold derivationPrior
  constructor
  · intro h
    rw [hprior, hprior', Option.getD_some, Option.getD_some] at h
    have href := (priorAttribution_eq_some hprior).2
    have href' := (priorAttribution_eq_some hprior').2
    rw [← h, href] at href'
    exact Option.map_injective Identifier.text_injective href'
  · intro h
    rw [h, hprior', Option.getD_some, Option.getD_some]

/-- Derivations have different predecessors exactly where they are of different
installations. -/
theorem nodup_priors_iff :
    ((derivations accepted initial input decisions).map (derivationPrior initial)).Nodup ↔
      ((derivations accepted initial input decisions).map
        (·.1.record.payload.installationId)).Nodup := by
  constructor
  · intro h
    exact List.Nodup.map_on (fun d hd d' hd' hsame => List.inj_on_of_nodup_map h hd hd'
      ((derivationPrior_eq_iff hd hd').mpr hsame)) h.of_map
  · intro h
    exact List.Nodup.map_on (fun d hd d' hd' hsame => List.inj_on_of_nodup_map h hd hd'
      ((derivationPrior_eq_iff hd hd').mp hsame)) h.of_map

omit [Digest] in
/-- An install whose click is excluded is one of those derived for. -/
theorem mem_excludedInstalls (hrecords : (accepted.map (·.record.recordId)).Nodup) {a : Attempt}
    (ha : a ∈ accepted) (hinstall : a.record.eventName = .install)
    (h : IsClickExcluded accepted decisions a) :
    a ∈ excludedInstalls accepted (excludedClickIds accepted decisions) := by
  obtain ⟨click, hclick, hof, hnamed, henabled, d, hd, haction, hscope, href⟩ := h
  obtain ⟨clickId, hclickId⟩ := Option.isSome_iff_exists.mp hnamed
  rw [isClickOf, Bool.and_eq_true, Bool.and_eq_true, decide_eq_true_iff, decide_eq_true_iff,
    decide_eq_true_iff] at hof
  obtain ⟨⟨-, hevent⟩, hsame⟩ := hof
  -- the decision is about this click: record ids are distinct
  have hfound : ∃ c, accepted.find? (fun c => c.record.recordId.text = d.subjectRef &&
      c.record.eventName = .click) = some c := by
    rw [← Option.isSome_iff_exists, List.find?_isSome]
    refine ⟨click, hclick, ?_⟩
    rw [Bool.and_eq_true, decide_eq_true_iff, decide_eq_true_iff]
    exact ⟨href.symm, hevent⟩
  obtain ⟨c, hfind⟩ := hfound
  have hc : c = click := by
    have hkept := List.find?_some hfind
    rw [Bool.and_eq_true, decide_eq_true_iff] at hkept
    exact List.inj_on_of_nodup_map hrecords (List.mem_of_find?_eq_some hfind) hclick
      (Identifier.text_injective (hkept.1.trans href))
  have hpair : excludedClick accepted d = some (clickId, d) := by
    rw [excludedClick, if_pos ⟨haction, hscope⟩, hfind, hc]
    dsimp only
    rw [if_pos henabled, hsame, hclickId]
    rfl
  refine List.mem_filter.mpr ⟨ha, ?_⟩
  rw [Bool.and_eq_true, decide_eq_true_iff, excludingDecision, hclickId]
  refine ⟨hinstall, ?_⟩
  rw [Option.bind_some, excludedClickIds, InsertionMap.get_ofList_isSome]
  exact List.mem_map.mpr ⟨(clickId, d), List.mem_filterMap.mpr ⟨d, hd, hpair⟩, rfl⟩

variable (input) in
/-- What is derived for an install whose click is excluded. -/
theorem exists_exclusion {a : Attempt} {prior : Attribution}
    (ha : a ∈ excludedInstalls accepted (excludedClickIds accepted decisions))
    (hprior : priorAttribution initial a.record.payload.installationId = some prior) :
    ∃ d ∈ derivations accepted initial input decisions, derivationPrior initial d = prior ∧
      d.2.status = .unattributed ∧ d.2.reasonCode = .fraudExcluded := by
  obtain ⟨-, hexcluded⟩ := List.mem_filter.mp ha
  rw [Bool.and_eq_true] at hexcluded
  obtain ⟨decision, hdecision⟩ := Option.isSome_iff_exists.mp hexcluded.2
  refine ⟨(a, excludedAttribution prior decision.fraudDecisionId), List.mem_append_right _
    (List.mem_filterMap.mpr ⟨a, ha, ?_⟩), ?_, ?_, ?_⟩
  · rw [fraudAttribution, hdecision, hprior]
    rfl
  · rw [derivationPrior, hprior]
    rfl
  · rfl
  · rfl

/-- **Exclusions.**  Where every installation has one head, those of the
installs whose click is excluded are exclusions exactly when the first
attribution that bears the installation id is theirs. -/
theorem head_excluded_iff {subjects : Scope × Option String → Prop}
    (hrecords : (accepted.map (·.record.recordId)).Nodup)
    (hlevels : ∀ t ∈ initial, t.subjectScope = .installationLevel →
      t.reasonCode ≠ .fraudExcluded)
    (hapart : Supersession.DerivesApart attributionTable initial (derivationPrior initial) Prod.snd
      (derivations accepted initial input decisions) subjects)
    {a : Attempt} (ha : a ∈ accepted) (hinstall : a.record.eventName = .install)
    (hk : subjects a.installation) (hclick : IsClickExcluded accepted decisions a)
    {h : Attribution}
    (hhead : IsHead attributionTable
      (initial ++ (derivations accepted initial input decisions).map Prod.snd) h)
    (habout : h.installation = some a.installation)
    (honly : ∀ h', IsHead attributionTable
      (initial ++ (derivations accepted initial input decisions).map Prod.snd) h' →
        h'.installation = some a.installation → h' = h) :
    (h.status = .unattributed ∧ h.reasonCode = .fraudExcluded) ↔
      ∃ prior, priorAttribution initial a.record.payload.installationId = some prior ∧
        prior.installation = some a.installation := by
  have hderives := derives_derivations accepted initial input decisions
  constructor
  · rintro ⟨-, hreason⟩
    rcases Supersession.mem_rows.mp hhead.1 with hfirst | ⟨d, hd, rfl⟩
    · exact absurd hreason (hlevels h hfirst (level_of_installation habout).1)
    · obtain ⟨prior, hprior, -, hinstallation, -⟩ := derivation_cases hd
      rw [habout] at hinstallation
      refine ⟨prior, ?_, hinstallation.symm⟩
      obtain ⟨-, hkey⟩ := level_of_installation hinstallation.symm
      have href := (priorAttribution_eq_some hprior).2
      have htext : a.record.payload.installationId.map (·.text) =
          d.1.record.payload.installationId.map (·.text) :=
        (congrArg Prod.snd hkey).trans href
      rw [Option.map_injective Identifier.text_injective htext]
      exact hprior
  · rintro ⟨prior, hprior, hinstallation⟩
    obtain ⟨d, hd, hparent, hstatus, hreason⟩ := exists_exclusion input
      (mem_excludedInstalls hrecords ha hinstall hclick) hprior
    have hdk : attributionTable.subject (derivationPrior initial d) = some a.installation := by
      rw [hparent]
      exact hinstallation
    have hrow := honly d.2 (hapart.isHead_row hderives hd hk hdk)
      ((hderives.subject d hd).trans hdk)
    rw [← hrow]
    exact ⟨hstatus, hreason⟩

end Law

section Evaluation

variable [Digest] {input : EvaluatorInput} {accepted : List Attempt} {candidates : CandidateProvider}
  {decisions : Decisions} {lifecycle : Lifecycle} {initial : List Attribution}
  {fraud : FraudOutput} {out : EvaluationOutput}

/-- The attributions of an evaluation form chains exactly when its rows derive
once from what is meant. -/
theorem attributionChains_iff_rows (hkeys : (accepted.map (·.record.recordId)).Nodup)
    (hanchors : ((accepted.filter (fun a => a.record.eventName = .install)).map anchorKey).Nodup)
    (hinitial : initialAttributions candidates decisions lifecycle accepted = .ok initial)
    (hfraud : fraudStage input accepted initial = .ok fraud)
    (hout : out.attributions = sortAttributions (initial ++ fraud.provisional ++ fraud.excluded))
    (hdecisions : out.fraudDecisions = fraud.decisions) :
    AttributionChains input accepted out ↔
      RowsDeriveOnce input accepted initial fraud.decisions := by
  have hrows := fraudStage_rows hfraud
  obtain ⟨parts⟩ := initialParts hinitial
  have hfirst : Supersession.FirstRows attributionTable initial
      (KeptInstallation input accepted) := by
    refine parts.firstRows hkeys hanchors fun k hk => ?_
    obtain ⟨a, ha, hinstall, -, hkey⟩ := hk
    exact ⟨a, ha, hinstall, hkey⟩
  have hderives := derives_derivations accepted initial input fraud.decisions
  have hperm : out.attributions.Perm
      (initial ++ (derivations accepted initial input fraud.decisions).map Prod.snd) := by
    rw [hout, List.append_assoc, hrows]
    exact perm_sortByKey _ _
  have hchain := (Supersession.oneChain_perm hperm).trans
    (Supersession.oneChain_iff hderives hfirst)
  have hlevels : ∀ t ∈ initial, t.subjectScope = .installationLevel →
      t.reasonCode ≠ .fraudExcluded := fun t ht hlevel => parts.reasonCode_of_level ht hlevel
  constructor
  · rintro ⟨hids, honce, hheads⟩
    have hone : Supersession.OneChain attributionTable (KeptInstallation input accepted)
        out.attributions := by
      refine ⟨hids, honce, fun k hk => ?_⟩
      obtain ⟨a, ha, hinstall, hkept, rfl⟩ := hk
      obtain ⟨r, hr, habout, honly, -⟩ := hheads a ha hinstall hkept
      exact ⟨r, hr, habout, honly⟩
    have hapart := hchain.mp hone
    refine ⟨nodup_priors_iff.mp hapart.parents, ?_, hapart.forms, hapart.bases⟩
    intro a ha hinstall hkept hclick
    obtain ⟨r, hr, habout, honly, hexcluded⟩ := hheads a ha hinstall hkept
    refine (head_excluded_iff hkeys hlevels hapart ha hinstall
      ⟨a, ha, hinstall, hkept, rfl⟩ hclick ((Supersession.isHead_perm hperm).mp hr) habout
      fun r' hr' => honly r' ((Supersession.isHead_perm hperm).mpr hr')).mp ?_
    rw [hdecisions] at hexcluded
    exact hexcluded hclick
  · rintro ⟨honce, hown, hforms, hbases⟩
    have hapart : Supersession.DerivesApart attributionTable initial (derivationPrior initial)
        Prod.snd (derivations accepted initial input fraud.decisions)
        (KeptInstallation input accepted) :=
      ⟨nodup_priors_iff.mpr honce, hforms, hbases⟩
    have hone := hchain.mpr hapart
    refine ⟨hone.ids, hone.once, fun a ha hinstall hkept => ?_⟩
    have hk : KeptInstallation input accepted a.installation := ⟨a, ha, hinstall, hkept, rfl⟩
    obtain ⟨r, hr, habout, honly⟩ := hone.head _ hk
    refine ⟨r, hr, habout, honly, fun hclick => ?_⟩
    rw [hdecisions] at hclick
    exact (head_excluded_iff hkeys hlevels hapart ha hinstall hk hclick
      ((Supersession.isHead_perm hperm).mp hr) habout
      fun r' hr' => honly r' ((Supersession.isHead_perm hperm).mpr hr')).mpr
        (hown a ha hinstall hkept hclick)

end Evaluation

end OpenMasu
