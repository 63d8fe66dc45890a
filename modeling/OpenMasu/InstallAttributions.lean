import OpenMasu.AttributionWorkers

/-!
# The attributions a call inserts

The attributions an evaluation gives installs are of two kinds: the initial
one of an accepted install, and the one that excludes it when the click of an
install with its installation id is excluded.  Accepted installs anchor
distinct installations, so an installation has one of each at most.

* `initialOf`, `isExcludedInstall` — the two, as functions of the evaluated
  attempts;
* `PlainIds` — ids that do not look like those the evaluation makes up;
* `AttributionKind`, `kind_of_attribution` — what a reported attribution is;
* `attributionRow_callTransactions` — a call inserts those it selects.
-/

namespace OpenMasu

open PartialList (bind_eq_ok pure_eq_ok)

section Anchors

variable [Digest] {all : List Attempt}

omit [Digest] in
/-- The anchors of installs that pass the check are distinct, also from those
before them. -/
theorem nodup_anchors {installs l : List Attempt} {anchors result : List (Scope × Option Identifier)}
    (h : PartialList.accumulate (assertInstallationAnchor installs) anchors l = .ok result) :
    (l.map anchorKey).Nodup ∧ ∀ a ∈ l, anchorKey a ∉ anchors := by
  induction l generalizing anchors with
  | nil => exact ⟨List.nodup_nil, fun _ ha => nomatch ha⟩
  | cons a rest ih =>
      simp only [PartialList.accumulate, bind_eq_ok] at h
      obtain ⟨next, hnext, hrest⟩ := h
      have hstep : anchorKey a ∉ anchors ∧ next = anchorKey a :: anchors := by
        unfold assertInstallationAnchor at hnext
        split at hnext
        · cases hnext
        · case isFalse hnew =>
            refine ⟨hnew, ?_⟩
            dsimp only at hnext
            split at hnext
            · split at hnext
              · cases hnext
              · split at hnext
                · cases hnext
                  rfl
                · cases hnext
            · split at hnext
              · cases hnext
              · cases hnext
                rfl
      obtain ⟨hnew, rfl⟩ := hstep
      obtain ⟨hnodup, hapart⟩ := ih hrest
      refine ⟨?_, fun b hb => ?_⟩
      · rw [List.map_cons, List.nodup_cons]
        refine ⟨fun hmem => ?_, hnodup⟩
        obtain ⟨b, hb, heq⟩ := List.mem_map.mp hmem
        exact hapart b hb (heq ▸ List.mem_cons_self)
      · rcases List.mem_cons.mp hb with rfl | hb
        · exact hnew
        · exact fun hmem => hapart b hb (List.mem_cons_of_mem _ hmem)

/-- The accepted installs of an evaluation. -/
def winningInstalls (all : List Attempt) : List Attempt :=
  (all.filter (isWinner all)).filter (fun a => a.record.eventName = .install)

/-- **Anchors.**  The accepted installs of an evaluation anchor distinct
installations. -/
theorem nodup_winningInstalls {out : EvaluationOutput} (hsorted : sortCandidateAttempts all = all)
    (h : evaluate (runtimeInput all) indexedCandidateProvider = .ok out) :
    ((winningInstalls all).map anchorKey).Nodup := by
  have hprovider : indexedCandidateProvider = fixtureCandidateProvider :=
    funext indexedCandidateProvider_eq
  rw [hprovider] at h
  obtain ⟨i, _, _, hi, -⟩ := evaluate_eq_ok h
  obtain ⟨hall, hcandidates, -, hlist, hdecisions, hanchors, -⟩ := ingest_eq_ok hi
  rw [attempts_runtimeInput, hsorted] at hall
  rw [hcandidates, hall] at hlist
  rw [hdecisions, hall] at hanchors
  simp only [assertInstallationAnchors, bind_eq_ok] at hanchors
  obtain ⟨result, haccumulate, -⟩ := hanchors
  have hnodup := (nodup_anchors haccumulate).1
  have hinstalls : all.filter (fun a => a.record.eventName = .install &&
      isAcceptedUnique (decisionMap all i.decisionsList) a) = winningInstalls all := by
    rw [winningInstalls, List.filter_filter]
    refine List.filter_congr (fun a ha => ?_)
    rw [isAcceptedUnique_eq hlist ha]
  rw [hinstalls] at hnodup
  exact hnodup

/-- Two accepted installs of one installation are one. -/
theorem eq_of_anchorKey {out : EvaluationOutput} (hsorted : sortCandidateAttempts all = all)
    (h : evaluate (runtimeInput all) indexedCandidateProvider = .ok out) {a b : Attempt}
    (ha : a ∈ winningInstalls all) (hb : b ∈ winningInstalls all)
    (hkey : anchorKey a = anchorKey b) : a = b :=
  List.inj_on_of_nodup_map (nodup_winningInstalls hsorted h) ha hb hkey

end Anchors

section Initial

variable [Digest] {all : List Attempt} {a b : Attempt} {t : Attribution}

/-- The attribution an evaluation first gives an install. -/
def initialOf (all : List Attempt) (a : Attempt) : Option Attribution :=
  match decisionsOf all (fixtureCandidateProvider all) with
  | .error _ => none
  | .ok list =>
      (makeAttribution (fixtureCandidateProvider all) (decisionMap all list) noLifecycle a).toOption

/-- The fraud rules exclude a click that an install with the installation id
names. -/
def isExcludedInstall (all : List Attempt) (a : Attempt) : Bool :=
  let accepted := all.filter (isWinner all)
  match fraudDecisions (runtimeInput all) accepted with
  | .error _ => false
  | .ok decisions => (excludedInstalls accepted (excludedClickIds accepted decisions)).any
      (fun x => x.record.payload.installationId = a.record.payload.installationId)

/-- The installation an install is about. -/
def Attempt.installation (a : Attempt) : Scope × Option String :=
  (a.scope, a.record.payload.installationId.map (·.text))

omit [Digest] in
theorem lifecycleStatus_noLifecycle (key : EvidenceKey) :
    lifecycleStatus noLifecycle key = .available := rfl

/-- Without privacy requests the attribution of an install is no
recalculation. -/
theorem initialOf_eq_some (h : initialOf all a = some t) :
    t.attributionId = "attr:" ++ a.record.recordId.text ∧ t.installation = some a.installation ∧
      t.supersedesAttributionId = none ∧ t.decidedAt = a.server.receivedAt ∧
      ∃ list v, installVerdict (fixtureCandidateProvider all) (decisionMap all list) a = .ok v ∧
        t = installAttribution noLifecycle a v := by
  unfold initialOf at h
  split at h
  · cases h
  · case h_2 list hlist =>
      cases hmade : makeAttribution (fixtureCandidateProvider all) (decisionMap all list)
          noLifecycle a with
      | error e =>
          rw [hmade] at h
          cases h
      | ok made =>
          rw [hmade] at h
          obtain rfl : made = t := Option.some.inj h
          simp only [makeAttribution, bind_eq_ok, pure_eq_ok] at hmade
          obtain ⟨v, hv, rfl⟩ := hmade
          have hcurrent : ((v.evidence.getD [a.record.recordId]).map
              (evidenceRef noLifecycle a.scope)).any (fun e => e.lifecycleStatus ≠ .available)
              = false := by
            simp [evidenceRef, lifecycleStatus_noLifecycle]
          refine ⟨?_, rfl, ?_, rfl, list, v, hv, rfl⟩
          · simp only [installAttribution, hcurrent]
            rfl
          · simp only [installAttribution, hcurrent]
            rfl

/-- No verdict on an install excludes it. -/
theorem reasonCode_of_installVerdict {candidates : CandidateProvider} {decisions : Decisions}
    {v : Verdict} (h : installVerdict candidates decisions a = .ok v) :
    v.reasonCode ≠ .fraudExcluded := by
  have himported : ∀ context, (importedVerdict candidates decisions a context).reasonCode
      ≠ .fraudExcluded := by
    intro context
    unfold importedVerdict
    split
    · exact fun hreason => by cases hreason
    · dsimp only
      repeat' split
      all_goals exact fun hreason => by cases hreason
  have hclick : ∀ click v, clickVerdict a click = .ok v → v.reasonCode ≠ .fraudExcluded := by
    intro click v h
    unfold clickVerdict at h
    dsimp only at h
    generalize a.record.payload.installBeginAtServerStatus.getD _ = installStatus at h
    split at h
    · cases h
      exact fun hreason => by cases hreason
    · split at h
      · cases h
        exact fun hreason => by cases hreason
      · split at h
        · cases h
          exact fun hreason => by cases hreason
        · split at h
          · simp only [bind_eq_ok] at h
            obtain ⟨begun, -, clicked, -, h⟩ := h
            split at h
            · rw [pure_eq_ok] at h
              rw [← h]
              exact fun hreason => by cases hreason
            · rw [pure_eq_ok] at h
              rw [← h]
              exact fun hreason => by cases hreason
          · cases h
            exact fun hreason => by cases hreason
  have hreferrer : ∀ p v, referrerVerdict p = some v → v.reasonCode ≠ .fraudExcluded := by
    intro p v h
    unfold referrerVerdict at h
    repeat' split at h
    all_goals cases h
    all_goals exact fun hreason => by cases hreason
  unfold installVerdict at h
  dsimp only at h
  split at h
  · cases h
    exact himported _
  · split at h
    · split at h
      · cases h
        exact fun hreason => by cases hreason
      · cases h
    · cases h
      exact fun hreason => by cases hreason
    · cases h
      exact fun hreason => by cases hreason
    · split at h
      · case h_1 context _ =>
          cases h
          cases context.status <;> exact fun hreason => by cases hreason
      · split at h
        · case h_1 verdict hverdict =>
            cases h
            exact hreferrer _ _ hverdict
        · unfold referrerClickVerdict at h
          split at h
          · cases h
            exact fun hreason => by cases hreason
          · exact hclick _ _ h
          · cases h
            exact fun hreason => by cases hreason

end Initial

section Kinds

variable [Digest] {all : List Attempt} {out : EvaluationOutput} {a b : Attempt} {t : Attribution}

/-- The ids of an install are not of a form that the evaluation gives
attributions and their subjects. -/
structure PlainIds (a : Attempt) : Prop where
  engagement : ∀ rest, a.record.recordId.text ≠ "engagement:" ++ rest
  fraud : ∀ rest, a.record.recordId.text ≠ rest ++ ":fraud"
  installation : ∀ id, a.record.payload.installationId = some id →
    ∀ rest, id.text ≠ "engagement:" ++ rest ∧ id.text ≠ "aggregate:" ++ rest

/-- The attribution that excludes an install for a fraud decision. -/
def excludedAttribution (prior : Attribution) (fraudDecisionId : String) : Attribution :=
  { prior with
    attributionId := prior.attributionId ++ ":fraud"
    status := .unattributed
    method := .none
    model := .none
    reasonCode := .fraudExcluded
    finality := .final
    fraudDecisionRef := some fraudDecisionId
    supersedesAttributionId := some prior.attributionId }

/-- What an attribution of an evaluation is. -/
inductive AttributionKind (all : List Attempt) (out : EvaluationOutput) (t : Attribution) : Prop
  | other (y : Attempt) (mem : y ∈ all.filter (isWinner all)) (event : y.record.eventName ≠ .install)
      (id : t.attributionId = "attr:" ++ y.record.recordId.text ∨
        t.attributionId = "attr:engagement:" ++ y.record.recordId.text)
      (installation : t.installation = none) (original : t.supersedesAttributionId = none)
  | initial (a : Attempt) (mem : a ∈ winningInstalls all) (made : initialOf all a = some t)
  | excluded (a : Attempt) (mem : a ∈ winningInstalls all) (prior : Attribution)
      (made : initialOf all a = some prior) (reported : prior ∈ out.attributions)
      (excluded : isExcludedInstall all a = true) (decision : String)
      (row : t = excludedAttribution prior decision)

/-- What an initial attribution is. -/
theorem kind_of_initial {list : List Decision} {initial : List Attribution}
    (hlist : decisionsOf all (fixtureCandidateProvider all) = .ok list)
    (hinitial : initialAttributions (fixtureCandidateProvider all) (decisionMap all list) noLifecycle
      (all.filter (isWinner all)) = .ok initial) (ht : t ∈ initial) :
    (∃ a ∈ winningInstalls all, initialOf all a = some t) ∨
    ∃ y ∈ all.filter (isWinner all), (isApplePostback y.record.eventName = true ∧
        t = makeAggregatePostbackAttribution noLifecycle y) ∨
      (y.record.eventName = .deepLinkOpen ∧ t = makeDeepLinkAttribution noLifecycle y) := by
  simp only [initialAttributions, bind_eq_ok, pure_eq_ok] at hinitial
  obtain ⟨installs, hinstalls, rfl⟩ := hinitial
  rw [sortAttributions, mem_sortByKey] at ht
  rcases List.mem_append.mp ht with ht | ht
  · rcases List.mem_append.mp ht with ht | ht
    · obtain ⟨a, ha, hmade⟩ := PartialList.exists_of_mem_traverse hinstalls ht
      refine .inl ⟨a, ha, ?_⟩
      simp only [initialOf, hlist, hmade]
      rfl
    · obtain ⟨y, hy, rfl⟩ := List.mem_map.mp ht
      obtain ⟨hmem, hpostback⟩ := List.mem_filter.mp hy
      exact .inr ⟨y, hmem, .inl ⟨hpostback, rfl⟩⟩
  · obtain ⟨y, hy, rfl⟩ := List.mem_map.mp ht
    obtain ⟨hmem, hopen⟩ := List.mem_filter.mp hy
    exact .inr ⟨y, hmem, .inr ⟨of_decide_eq_true hopen, rfl⟩⟩

/-- **Kinds.**  Every attribution of an evaluation is that of another event,
the initial one of an install, or the one that excludes an install. -/
theorem kind_of_attribution (hsorted : sortCandidateAttempts all = all)
    (h : evaluate (runtimeInput all) indexedCandidateProvider = .ok out)
    (hplain : ∀ a ∈ winningInstalls all, PlainIds a) (ht : t ∈ out.attributions) :
    AttributionKind all out t := by
  obtain ⟨list, initial, decisions, hlist, hinitial, hdecisions, hout⟩ :=
    attributions_of_runtime hsorted h
  have hreported : ∀ prior ∈ initial, prior ∈ out.attributions := by
    intro prior hprior
    rw [hout, sortAttributions, mem_sortByKey]
    exact List.mem_append_left _ hprior
  rw [hout, sortAttributions, mem_sortByKey] at ht
  rcases List.mem_append.mp ht with ht | ht
  · rcases kind_of_initial hlist hinitial ht with ⟨a, ha, hmade⟩ | ⟨y, hy, ⟨hevent, rfl⟩ | ⟨hevent, rfl⟩⟩
    · exact .initial a ha hmade
    · refine .other y hy (fun hinstall => ?_) (.inl rfl) rfl rfl
      rw [hinstall] at hevent
      cases hevent
    · refine .other y hy (fun hinstall => ?_) (.inr rfl) rfl rfl
      rw [hinstall] at hevent
      cases hevent
  · obtain ⟨x, hx, hrow⟩ := List.mem_filterMap.mp ht
    unfold fraudAttribution at hrow
    split at hrow
    · case h_1 d prior _ hprior =>
        unfold priorAttribution at hprior
        have hmem := List.mem_of_find?_eq_some hprior
        have href := List.find?_some hprior
        rw [decide_eq_true_eq] at href
        have hxplain : PlainIds x := by
          obtain ⟨hwinner, hcond⟩ := List.mem_filter.mp hx
          rw [Bool.and_eq_true] at hcond
          exact hplain x (List.mem_filter.mpr ⟨hwinner, hcond.1⟩)
        rcases kind_of_initial hlist hinitial hmem with
          ⟨a, ha, hmade⟩ | ⟨y, -, ⟨-, rfl⟩ | ⟨-, rfl⟩⟩
        · refine .excluded a ha prior hmade (hreported _ hmem) ?_ d.fraudDecisionId
            (Option.some.inj hrow).symm
          -- the excluded install has the installation id of this one
          obtain ⟨-, hinstallation, -⟩ := initialOf_eq_some hmade
          have hsame : x.record.payload.installationId = a.record.payload.installationId := by
            have hlevel : prior.subjectRef = a.record.payload.installationId.map (·.text) := by
              unfold Attribution.installation at hinstallation
              split at hinstallation
              · exact congrArg Prod.snd (Option.some.inj hinstallation)
              · cases hinstallation
            rw [hlevel] at href
            cases hxid : x.record.payload.installationId with
            | none =>
                rw [hxid] at href
                cases haid : a.record.payload.installationId with
                | none => rfl
                | some aid =>
                    rw [haid] at href
                    cases href
            | some xid =>
                rw [hxid] at href
                cases haid : a.record.payload.installationId with
                | none =>
                    rw [haid] at href
                    cases href
                | some aid =>
                    rw [haid] at href
                    have htext : aid.text = xid.text := Option.some.inj href
                    have hid : xid = aid := by
                      cases xid
                      cases aid
                      cases htext
                      rfl
                    rw [hid]
          simp only [isExcludedInstall, hdecisions, List.any_eq_true]
          exact ⟨x, hx, by simpa using hsame⟩
        · exfalso
          cases hxid : x.record.payload.installationId with
          | none =>
              rw [hxid] at href
              cases href
          | some xid =>
              rw [hxid] at href
              have htext := Option.some.inj href
              exact (hxplain.installation xid hxid _).2
                (htext.symm.trans (by rw [String.append_assoc, String.append_assoc]))
        · exfalso
          cases hxid : x.record.payload.installationId with
          | none =>
              rw [hxid] at href
              cases href
          | some xid =>
              rw [hxid] at href
              exact (hxplain.installation xid hxid _).1 (Option.some.inj href).symm
    · cases hrow

/-- An attribution with the id of an install's initial one is that. -/
theorem initialOf_of_id (hplain : ∀ a ∈ winningInstalls all, PlainIds a)
    (hkind : AttributionKind all out t) (ha : a ∈ winningInstalls all)
    (hid : t.attributionId = "attr:" ++ a.record.recordId.text) : initialOf all a = some t := by
  have hsole : ∀ y ∈ all.filter (isWinner all), y.record.recordId.text = a.record.recordId.text →
      y = a := by
    intro y hy htext
    obtain ⟨hymem, hywin⟩ := List.mem_filter.mp hy
    obtain ⟨hamem, -⟩ := List.mem_filter.mp (List.mem_filter.mp ha).1
    refine (eq_of_isSole hymem hamem ((isWinner_iff hymem).mp hywin).1 ?_).symm
    cases hya : y.record.recordId
    cases haa : a.record.recordId
    rw [hya, haa] at htext
    cases htext
    rfl
  cases hkind with
  | other y hy hevent hform _ _ =>
      exfalso
      rcases hform with hform | hform
      · rw [hform] at hid
        have htext := (String.append_right_inj _).mp hid
        obtain rfl := hsole y hy htext
        exact hevent (of_decide_eq_true (List.mem_filter.mp ha).2)
      · have hsplit : ("attr:engagement:" : String) = "attr:" ++ "engagement:" := rfl
        rw [hform, hsplit, String.append_assoc] at hid
        exact (hplain a ha).engagement _ ((String.append_right_inj _).mp hid).symm
  | initial a' ha' hmade =>
      obtain ⟨hown, -⟩ := initialOf_eq_some hmade
      rw [hown] at hid
      obtain rfl := hsole a' (List.mem_filter.mp ha').1 ((String.append_right_inj _).mp hid)
      exact hmade
  | excluded a' ha' prior hmade _ _ d hrow =>
      exfalso
      obtain ⟨hown, -⟩ := initialOf_eq_some hmade
      have hid' : "attr:" ++ (a'.record.recordId.text ++ ":fraud")
          = "attr:" ++ a.record.recordId.text := by
        rw [← hid, hrow, ← String.append_assoc, ← hown]
        rfl
      exact (hplain a ha).fraud _ ((String.append_right_inj _).mp hid').symm

end Kinds

section Order

variable [Digest]

omit [Digest] in
/-- A text is in front of the text that continues it. -/
theorem codeUnits_lt_append (s rest : String) (hrest : codeUnits rest ≠ []) :
    codeUnits s < codeUnits (s ++ rest) := by
  have happend : codeUnits (s ++ rest) = codeUnits s ++ codeUnits rest := by
    simp [codeUnits, String.toList_append]
  rw [happend]
  obtain ⟨x, xs, hx⟩ := List.exists_cons_of_ne_nil hrest
  rw [hx]
  induction codeUnits s with
  | nil => exact List.nil_lt_cons _ _
  | cons y ys ih => exact List.cons_lt_cons_iff.mpr (.inr ⟨rfl, ih⟩)

/-- **Order.**  Among the selected attributions the initial one stands in
front of the one that excludes it. -/
theorem initial_before_excluded {l done : List Attribution} {p : Attribution → Bool}
    {prior row : Attribution} (hprior : prior ∈ (sortAttributions l).filter p)
    (hid : row.attributionId = prior.attributionId ++ ":fraud")
    (hdone : done ++ [row] <+: (sortAttributions l).filter p) : prior ∈ done := by
  obtain ⟨rest, hrest⟩ := hdone
  have hordered : ((sortAttributions l).filter p).Pairwise (fun s t =>
      textKey (fun a : Attribution => [a.attributionId, a.tenantId.text, a.appId.text]) s
        ≤ textKey (fun a : Attribution => [a.attributionId, a.tenantId.text, a.appId.text]) t) :=
    (KeyedSort.pairwise_sortOn _ l).filter p
  rw [← hrest] at hprior hordered
  have hless : textKey (fun a : Attribution => [a.attributionId, a.tenantId.text, a.appId.text]) prior
      < textKey (fun a : Attribution => [a.attributionId, a.tenantId.text, a.appId.text]) row := by
    refine List.cons_lt_cons_iff.mpr (.inl ?_)
    rw [hid]
    exact codeUnits_lt_append _ _ (by decide)
  rcases List.mem_append.mp hprior with hprior | hprior
  · rcases List.mem_append.mp hprior with hprior | hprior
    · exact hprior
    · rw [List.mem_singleton.mp hprior] at hless
      exact absurd hless (lt_irrefl _)
  · have hle := (List.pairwise_append.mp hordered).2.2 row
      (List.mem_append_right _ List.mem_cons_self) prior hprior
    exact absurd hless (not_lt.mpr hle)

end Order

section Transactions

variable {context : CallContext} {all attempts : List Attempt} {selected : Selected}

/-- A call inserts the attributions it selects, in order. -/
theorem attributionRow_callTransactions (bulk : Bool) :
    (callTransactions context bulk all selected attempts).flatten.filterMap Write.attributionRow
      = selected.attributions := by
  have hattributions : (selected.attributions.map Write.attribution).filterMap Write.attributionRow
      = selected.attributions := by
    rw [List.filterMap_map]
    exact List.filterMap_some
  have hnone : ∀ t : Transaction, (∀ a, Write.attribution a ∉ t) →
      t.filterMap Write.attributionRow = [] := by
    intro t ht
    rw [List.filterMap_eq_nil_iff]
    intro w hw
    cases w with
    | attribution a => exact absurd hw (ht a)
    | raw | payloadState | delivery | logical | fact | rejection | fraud | reconciliation => rfl
  cases bulk with
  | true =>
      have hbefore : (selected.rawRecords.map Write.raw ++
          selected.rawRecords.map (fun r => Write.payloadState r.availableState) ++
          selected.deliveries.flatMap (fun d =>
            (((all ++ attempts).find? (fun a => deliveryKey a = d.key)).map
              (fun a => Write.delivery ⟨a, d⟩)).toList) ++
          selected.logicalEvents.flatMap (fun e => (logicalWrite all.reverse e).toList) ++
          bulkFacts context all selected.logicalEvents ++
          selected.rejections.map Write.rejection).filterMap Write.attributionRow = [] := by
        refine hnone _ (fun a => ?_)
        simp [notMem_bulkFacts, logicalWrite]
      have hbehind : (selected.fraudDecisions.map
            (fun d => Write.fraud context.activeRevision ((attempts.map (·.scope)).take 1) d) ++
          selected.reconciliations.map Write.reconciliation).filterMap Write.attributionRow = [] := by
        refine hnone _ (fun a => ?_)
        simp
      rw [callTransactions, if_pos rfl, List.flatten_singleton, bulkTransaction,
        List.append_assoc _ (selected.fraudDecisions.map _), List.filterMap_append,
        List.filterMap_append, hbefore, hattributions, hbehind]
      simp
  | false =>
      have hattempts : (attempts.map (attemptTransaction context all selected)).flatten.filterMap
          Write.attributionRow = [] := by
        refine hnone _ (fun a ha => ?_)
        obtain ⟨t, ht, ha⟩ := List.mem_flatten.mp ha
        obtain ⟨x, -, rfl⟩ := List.mem_map.mp ht
        exact attribution_notMem_attemptTransaction ha
      have hbehind : (selected.fraudDecisions.map (fun d =>
            [Write.fraud context.activeRevision (fraudScopes attempts d) d]) ++
          selected.reconciliations.map (fun r => [Write.reconciliation r])).flatten.filterMap
            Write.attributionRow = [] := by
        refine hnone _ (fun a => ?_)
        simp
      have hsingle : (selected.attributions.map (fun t => [Write.attribution t])).flatten
          = selected.attributions.map Write.attribution := by
        rw [← List.flatMap_def]
        exact List.flatMap_pure_eq_map _ _
      rw [callTransactions, if_neg Bool.false_ne_true, rowTransactions,
        List.append_assoc _ (selected.fraudDecisions.map _), List.flatten_append,
        List.flatten_append, List.filterMap_append, List.filterMap_append, hattempts, hsingle,
        hattributions, hbehind]
      simp
end Transactions

end OpenMasu
