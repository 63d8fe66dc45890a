import OpenMasu.AppendOnly
import OpenMasu.RuntimeFacts

/-!
# The double-count guard of deferred deep links

A deferred open whose click already credited the install of its installation
must not be attributed again.  The guard reads the credited click from the
install facts before it evaluates a call, and an attribution is persisted only
once, so the law depends on the order in which open and install come.

* `GuardHolds` — the law, for a ledger;
* `CallMeetsGuard` — the condition on a call;
* `guard_holds` — the law, for every run whose calls meet it;
* `install_with_open_escapes` — a call that breaks it.
-/

namespace OpenMasu

open AppendOnly (StepsMeet invariant_of_steps)

section Law

/-- The deep-link open is a deferred one. -/
def isDeferredOpen (p : Payload) : Bool :=
  p.eventName = .deepLinkOpen && p.openSource = some .androidDeferredReferrer

/-- The attribution is the engagement-level one of the open with this key, not
one that supersedes it. -/
structure IsEngagementOf (t : Attribution) (open_ : EvidenceKey) : Prop where
  level : t.subjectScope = .engagementLevel
  original : t.supersedesAttributionId = none
  scope : t.scope = open_.scope
  id : t.attributionId = "attr:engagement:" ++ open_.recordId.text

/-- Whenever the accepted install of an accepted deferred open's installation
is there, the open's attribution names a reused click if and only if the
install names the open's click. -/
def GuardHolds (l : Ledger) : Prop :=
  ∀ s ∈ l.deliveries, s.row.ingestionStatus = .accepted →
    isDeferredOpen s.attempt.record.payload = true →
  ∀ e ∈ l.logicalEvents, e.event.eventName = .install → e.attempt.scope = s.attempt.scope →
    e.attempt.record.payload.installationId = s.attempt.record.payload.installationId →
  ∀ t ∈ l.attributions, IsEngagementOf t s.attempt.evidenceKey →
    (e.attempt.record.payload.clickId = s.attempt.record.payload.clickId →
      t.status = .unattributed ∧ t.reasonCode = .deepLinkInstallClickReused) ∧
    (e.attempt.record.payload.clickId ≠ s.attempt.record.payload.clickId →
      t.reasonCode ≠ .deepLinkInstallClickReused)

end Law

section Projection

/-- Every install among the logical events has its fact, and an installation
has one fact. -/
structure InstallsProjected (l : Ledger) : Prop where
  event : ∀ e ∈ l.logicalEvents, e.event.eventName = .install →
    ∃ installationId, e.attempt.record.payload.installationId = some installationId ∧
      e.installFact installationId ∈ l.installFacts
  once : (l.installFacts.map (·.installation)).Nodup
  known : ∀ f ∈ l.installFacts, f.logicalEventId ∈ l.logicalEvents.map (·.event.logicalEventId)

variable {l l' : Ledger}

/-- Every insertion keeps the installs projected. -/
theorem installsProjected_write (hl : InstallsProjected l) {w : Write} (h : l.write w = some l') :
    InstallsProjected l' := by
  cases w with
  | raw | payloadState | delivery | fact | rejection | attribution | reconciliation =>
      cases h
      exact ⟨hl.event, hl.once, hl.known⟩
  | fraud revision scopes d =>
      obtain ⟨_, _, rfl⟩ := Ledger.write_fraud_eq_some h
      exact ⟨hl.event, hl.once, hl.known⟩
  | logical e =>
      obtain ⟨-, facts, rfl, hfacts⟩ := Ledger.write_logical_eq_some h
      have hgrow : ∀ f ∈ l.installFacts, f.logicalEventId ∈
          (AppendOnly.insertOnce (·.event.logicalEventId) e l.logicalEvents).map
            (·.event.logicalEventId) := by
        intro f hf
        obtain ⟨known, hknown, hid⟩ := List.mem_map.mp (hl.known f hf)
        exact List.mem_map.mpr ⟨known, AppendOnly.mem_insertOnce_of_mem hknown, hid⟩
      split at hfacts
      · case isTrue hinstall =>
          obtain ⟨installationId, hid, ⟨rfl, htaken⟩ | ⟨rfl, hfree⟩⟩ :=
            Ledger.projectInstall_eq_some hfacts
          · refine ⟨fun e' he' hinstall' => ?_, hl.once, hgrow⟩
            rcases AppendOnly.mem_insertOnce he' with he' | ⟨rfl, hnew⟩
            · exact hl.event e' he' hinstall'
            · -- a fact under the id of the event means the event was there
              obtain ⟨f, hf, hfid⟩ := List.mem_map.mp htaken
              exact absurd (hfid ▸ hl.known f hf) hnew
          · refine ⟨fun e' he' hinstall' => ?_, ?_, fun f hf => ?_⟩
            · rcases AppendOnly.mem_insertOnce he' with he' | ⟨rfl, -⟩
              · obtain ⟨id', hid', hmem⟩ := hl.event e' he' hinstall'
                exact ⟨id', hid', List.mem_append_left _ hmem⟩
              · exact ⟨installationId, hid, List.mem_append_right _ List.mem_cons_self⟩
            · rw [List.map_append, List.map_singleton]
              refine hl.once.append (List.nodup_singleton _) ?_
              intro k hk hk'
              rw [List.mem_singleton] at hk'
              exact hfree (hk' ▸ hk)
            · rcases List.mem_append.mp hf with hf | hf
              · exact hgrow f hf
              · rw [List.mem_singleton.mp hf]
                exact AppendOnly.key_mem_insertOnce (·.event.logicalEventId) e l.logicalEvents
      · case isFalse hother =>
          subst hfacts
          refine ⟨fun e' he' hinstall' => ?_, hl.once, hgrow⟩
          rcases AppendOnly.mem_insertOnce he' with he' | ⟨rfl, -⟩
          · exact hl.event e' he' hinstall'
          · exact absurd hinstall' hother

/-- The fact of an installation, if there is one. -/
def HasFact (l : Ledger) (scope : Scope) (p : Payload) : Prop :=
  ∃ f ∈ l.installFacts, f.scope = scope ∧ some f.installationId = p.installationId ∧
    f.clickId = p.clickId

/-- The facts of one installation are at most one. -/
theorem facts_of_installation (hl : InstallsProjected l) (scope : Scope)
    (installationId : Option Identifier) :
    l.installFacts.filter (fun f => f.scope = scope && some f.installationId = installationId) = [] ∨
    ∃ f, l.installFacts.filter
      (fun f => f.scope = scope && some f.installationId = installationId) = [f] := by
  have hnodup := hl.once.sublist ((List.filter_sublist
    (p := fun f : InstallFact => f.scope = scope && some f.installationId = installationId)).map
      (·.installation))
  have hsame : ∀ f ∈ l.installFacts.filter
      (fun f => f.scope = scope && some f.installationId = installationId),
      f.scope = scope ∧ some f.installationId = installationId := by
    intro f hf
    simpa using (List.mem_filter.mp hf).2
  cases hfacts : l.installFacts.filter
      (fun f => f.scope = scope && some f.installationId = installationId) with
  | nil => exact .inl rfl
  | cons f rest =>
      rw [hfacts] at hnodup hsame
      cases rest with
      | nil => exact .inr ⟨f, rfl⟩
      | cons g rest =>
          exfalso
          obtain ⟨hf₁, hf₂⟩ := hsame f List.mem_cons_self
          obtain ⟨hg₁, hg₂⟩ := hsame g (List.mem_cons_of_mem _ List.mem_cons_self)
          have hkey : f.installation = g.installation :=
            Prod.ext (hf₁.trans hg₁.symm) (Option.some.inj (hf₂.trans hg₂.symm))
          exact (List.nodup_cons.mp hnodup).1 (List.mem_map.mpr ⟨g, List.mem_cons_self, hkey.symm⟩)

/-- The click that credited an install is the one its fact names. -/
theorem installClickId_eq_iff (hl : InstallsProjected l) {a : Attempt}
    (hclick : a.record.payload.clickId.isSome) :
    installClickId l a = a.record.payload.clickId ↔ HasFact l a.scope a.record.payload := by
  have hmem : HasFact l a.scope a.record.payload ↔ ∃ f ∈ l.installFacts.filter (fun f =>
      f.scope = a.scope && some f.installationId = a.record.payload.installationId),
      f.clickId = a.record.payload.clickId := by
    simp only [HasFact, List.mem_filter, Bool.and_eq_true, decide_eq_true_eq, and_assoc]
  rw [hmem, installClickId]
  rcases facts_of_installation hl a.scope a.record.payload.installationId with hnone | ⟨f, hone⟩
  · rw [hnone]
    obtain ⟨c, hc⟩ := Option.isSome_iff_exists.mp hclick
    simp [hc]
  · rw [hone]
    simp

end Projection

section Condition

/-- A call of the runtime ingestion. -/
structure RuntimeCall where
  contexts : Scope → CallContext
  attempts : List Attempt
  history : List Attempt
  bulkPersistence : Bool

/-- The call persists the attribution it gives the open. -/
def RuntimeCall.concerns (call : RuntimeCall) (y : Attempt) : Bool :=
  call.attempts.any (fun x => x.record.recordId.text = "engagement:" ++ y.record.recordId.text) ||
    call.attempts.any (fun x => x.record.recordId = y.record.recordId)

/-- A deferred open of the scope names the installation and the click of the
install. -/
def NamesClickOf (p : Payload) (scope : Scope) (x : Attempt) : Prop :=
  isDeferredOpen p = true ∧ scope = x.scope ∧
    p.installationId = x.record.payload.installationId ∧
    p.clickId = x.record.payload.clickId

variable [Digest] [PayloadSchemas]

/-- What a call leaves of the ledger. -/
def Ledger.ingest (l : Ledger) (call : RuntimeCall) : Ledger :=
  (ingestRuntimeBatch l call.contexts call.attempts call.history call.bulkPersistence).ledger

/-- The attempt is an acceptable install of an installation without a fact. -/
structure BringsInstall (l : Ledger) (x : Attempt) : Prop where
  install : x.record.eventName = .install
  valid : isSchemaValid x = true
  passes : passesOwnChecks x = true
  first : ∀ f ∈ l.installFacts, ¬ (f.scope = x.scope ∧
    some f.installationId = x.record.payload.installationId)

/-- The condition on a call.  A record id stands for one payload among the
opens, and no new install of the call names the click of a deferred open whose
attribution is persisted or is persisted by this call. -/
structure CallMeetsGuard (payloadOf : EvidenceKey → Payload) (l : Ledger) (call : RuntimeCall) :
    Prop where
  identified : ∀ y ∈ call.attempts ++ call.history, y.record.eventName = .deepLinkOpen →
    y.record.payload = payloadOf y.evidenceKey
  persisted : ∀ x ∈ call.attempts, BringsInstall l x → ∀ t ∈ l.attributions, ∀ k,
    IsEngagementOf t k → ¬ NamesClickOf (payloadOf k) k.scope x
  evaluated : ∀ x ∈ call.attempts, BringsInstall l x → ∀ y ∈ call.attempts ++ call.history,
    call.concerns y = true → ¬ NamesClickOf y.record.payload y.scope x

end Condition

section Calls

variable [Digest] [PayloadSchemas]

variable {l : Ledger} {context : CallContext} {attempts history : List Attempt} {bulk : Bool}

/-- The fact was brought by the attempt. -/
structure FactOfAttempt (f : InstallFact) (x : Attempt) : Prop where
  scope : f.scope = x.scope
  installation : some f.installationId = x.record.payload.installationId
  click : f.clickId = x.record.payload.clickId

omit [Digest] [PayloadSchemas] in
/-- An insertion keeps the install facts. -/
theorem installFacts_subset_write {l l' : Ledger} {w : Write} (h : l.write w = some l') :
    l.installFacts ⊆ l'.installFacts := by
  intro f hf
  rcases Ledger.installFacts_of_write h with hfacts | ⟨e, installationId, -, -, -, hfacts, -⟩
  · exact hfacts ▸ hf
  · exact hfacts ▸ List.mem_append_left _ hf

/-- A call keeps the install facts. -/
theorem installFacts_subset_ingestScope :
    l.installFacts ⊆ (ingestScope l context attempts history bulk).ledger.installFacts := by
  rcases ingestScope_cases l context attempts history bulk with hsame | ⟨out, -, -, hledger⟩
  · rw [hsame]
    exact fun _ hf => hf
  · rw [hledger]
    exact Ledger.invariant_of_writes (fun l' => l.installFacts ⊆ l'.installFacts)
      (fun _ _ _ _ _ _ hm hwrite _ hf => installFacts_subset_write hwrite (hm hf))
      (fun _ hf => hf)

/-- **Where an install fact comes from.**  It was there, or a winning install of
the call brought the first one of its installation. -/
theorem installFact_of_ingestScope {f : InstallFact}
    (hf : f ∈ (ingestScope l context attempts history bulk).ledger.installFacts) :
    f ∈ l.installFacts ∨ ∃ x ∈ validAttempts attempts, x.record.eventName = .install ∧
      passesOwnChecks x = true ∧ FactOfAttempt f x ∧
      f.installation ∉ l.installFacts.map (·.installation) := by
  rcases ingestScope_cases l context attempts history bulk with hsame | ⟨out, ⟨report⟩, -, hledger⟩
  · rw [hsame] at hf
    exact .inl hf
  · rw [hledger] at hf
    let Known : Ledger → Prop := fun l' => l.installFacts ⊆ l'.installFacts ∧
      ∀ g ∈ l'.installFacts, g ∈ l.installFacts ∨
        ∃ x ∈ validAttempts attempts, x.record.eventName = .install ∧
          passesOwnChecks x = true ∧ FactOfAttempt g x ∧
          g.installation ∉ l.installFacts.map (·.installation)
    have hknown : Known (l.persist (callTransactions context bulk
        (evaluatedAttempts l context attempts history) (select context attempts out) attempts)
        context.fault).1 := by
      refine Ledger.invariant_of_writes Known (fun t ht w hw m m' hm hwrite => ?_)
        ⟨fun _ hg => hg, fun _ hg => .inl hg⟩
      have hgrow := List.Subset.trans hm.1 (installFacts_subset_write hwrite)
      rcases Ledger.installFacts_of_write hwrite with
        hfacts | ⟨e, installationId, rfl, hname, hid, hfacts, hfree⟩
      · exact ⟨hgrow, hfacts ▸ hm.2⟩
      · refine ⟨hgrow, fun g hg => ?_⟩
        rw [hfacts] at hg
        rcases List.mem_append.mp hg with hg | hg
        · exact hm.2 g hg
        · obtain rfl := List.mem_singleton.mp hg
          obtain ⟨hmem, hwin, hlogical, hrecord⟩ := logical_of_callTransactions report ht hw
          obtain ⟨x, hx, hxid⟩ := List.mem_map.mp hrecord
          have hprepared : prepareAttempt l context x = e.attempt := by
            refine eq_of_isSole hmem (prepared_mem l context history hx) ((isWinner_iff hmem).mp hwin).1 ?_
            rw [prepareAttempt_record, hxid, ← hlogical]
            rfl
          have hpasses := ((isWinner_iff hmem).mp hwin).2.1
          rw [← hprepared, passesOwnChecks_prepareAttempt] at hpasses
          rw [← hprepared, prepareAttempt_record] at hid
          rw [← hlogical, ← hprepared] at hname
          refine .inr ⟨x, hx, ?_, hpasses, ⟨?_, hid.symm, ?_⟩, ?_⟩
          · simpa [logicalEvent, Record.eventName] using hname
          · simp only [StoredEvent.installFact, ← hlogical, ← hprepared, logicalEvent]
            exact prepareAttempt_scope l context x
          · simp only [StoredEvent.installFact, ← hprepared, prepareAttempt_record]
          · intro htaken
            obtain ⟨g, hg, hsame⟩ := List.mem_map.mp htaken
            exact hfree (List.mem_map.mpr ⟨g, hm.1 hg, hsame⟩)
    exact hknown.2 f hf

/-- **Where an engagement-level attribution comes from.**  It was there, or the
call gives it to an open whose record it selects. -/
theorem engagement_of_ingestScope {t : Attribution} {k : EvidenceKey} (hk : IsEngagementOf t k)
    (ht : t ∈ (ingestScope l context attempts history bulk).ledger.attributions) :
    t ∈ l.attributions ∨ ∃ x, (x ∈ history ∨ x ∈ attempts) ∧ isSchemaValid x = true ∧
      x.record.eventName = .deepLinkOpen ∧ x.evidenceKey = k ∧
      (attempts.any (fun z => z.record.recordId.text = "engagement:" ++ x.record.recordId.text) ||
        attempts.any (fun z => z.record.recordId = x.record.recordId)) = true ∧
      t = makeDeepLinkAttribution noLifecycle (prepareAttempt l context x) := by
  rcases ingestScope_cases l context attempts history bulk with hsame | ⟨out, -, hevaluate, hledger⟩
  · rw [hsame] at ht
    exact .inl ht
  · rw [hledger] at ht
    refine (Ledger.mem_attributions_of_persist ht).imp_right fun ⟨tr, htr, hwrite⟩ => ?_
    obtain ⟨hout, hbelongs⟩ := List.mem_filter.mp (attribution_of_callTransactions htr hwrite)
    obtain ⟨y, hy, -, hopen, rfl⟩ := engagement_of_runtime
      (evaluatedAttempts_sorted l context attempts history) hevaluate hout hk.level hk.original
    obtain ⟨x, hx, hvalid, rfl⟩ : ∃ x, (x ∈ history ∨ x ∈ attempts) ∧ isSchemaValid x = true ∧
        prepareAttempt l context x = y := by
      obtain ⟨x, hx, rfl⟩ := List.mem_map.mp (mem_sortCandidateAttempts.mp hy)
      rcases List.mem_append.mp hx with hx | hx
      · obtain ⟨hmem, hvalid⟩ := List.mem_filter.mp hx
        exact ⟨x, .inl hmem, hvalid, rfl⟩
      · exact ⟨x, .inr (List.mem_filter.mp hx).1, isSchemaValid_of_mem hx, rfl⟩
    rw [prepareAttempt_record] at hopen
    refine ⟨x, hx, hvalid, hopen, ?_, ?_, rfl⟩
    · have hscope : x.scope = k.scope := by
        rw [← prepareAttempt_scope l context x, ← hk.scope]
        rfl
      have hid : x.record.recordId = k.recordId := by
        have htext := hk.id
        simp only [makeDeepLinkAttribution, prepareAttempt_record] at htext
        exact Identifier.text_injective (String.append_right_inj _ |>.mp htext)
      simp only [Attempt.evidenceKey, hscope, hid]
    · have hsub : ∀ i ∈ (validAttempts attempts).map (·.record.recordId),
          ∃ z ∈ attempts, z.record.recordId = i := by
        intro i hi
        obtain ⟨z, hz, rfl⟩ := List.mem_map.mp hi
        exact ⟨z, (List.mem_filter.mp hz).1, rfl⟩
      simp only [attributionBelongs, makeDeepLinkAttribution, evidenceRef, prepareAttempt_record,
        Bool.or_eq_true, List.any_eq_true, List.any_cons, List.any_nil, Bool.or_false,
        decide_eq_true_eq, Option.some.injEq, List.contains_iff_mem] at hbelongs ⊢
      rcases hbelongs with ⟨i, hi, halias⟩ | hi
      · obtain ⟨z, hz, rfl⟩ := hsub i hi
        exact .inl ⟨z, hz, halias.symm⟩
      · obtain ⟨z, hz, hid⟩ := hsub _ hi
        exact .inr ⟨z, hz, hid⟩

/-- An open is told that its click was reused when the fact of its installation
names the click. -/
theorem reused_iff_hasFact (context : CallContext) (hl : InstallsProjected l) {x : Attempt} (hvalid : isSchemaValid x = true)
    (hdeferred : isDeferredOpen x.record.payload = true) :
    (makeDeepLinkAttribution noLifecycle (prepareAttempt l context x)).reasonCode
        = .deepLinkInstallClickReused ↔ HasFact l x.scope x.record.payload := by
  simp only [isDeferredOpen, Bool.and_eq_true, decide_eq_true_eq] at hdeferred
  obtain ⟨hopen, hsource⟩ := hdeferred
  have hclick := PayloadSchemas.deferredOpenNamesClick x.record.payload hvalid hopen hsource
  obtain ⟨_, _, _, hbound⟩ := bindFraudBundle_shape context x
  have hresolved : (prepareAttempt l context x).server.deepLinkResolution.bind
      (·.installAttributionClickId) = installClickId l x := by
    rw [prepareAttempt, hbound, resolveDeepLinkAttempt]
    simp only [Record.eventName, hopen, hsource, ne_eq, not_true_eq_false, if_false, if_true,
      Option.bind_some]
    rfl
  have hreused : reusedInstallClick (prepareAttempt l context x) = true ↔
      HasFact l x.scope x.record.payload := by
    rw [← installClickId_eq_iff hl hclick]
    simp [reusedInstallClick, hresolved, hsource]
  rw [← hreused]
  simp only [makeDeepLinkAttribution, deepLinkReason]
  by_cases h : reusedInstallClick (prepareAttempt l context x) = true
  · simp [h]
  · rw [if_neg h]
    cases linkStatus (prepareAttempt l context x) <;> simp [h]

omit [Digest] [PayloadSchemas] in
/-- An open whose click was reused is not attributed. -/
theorem status_of_reused {y : Attempt}
    (h : (makeDeepLinkAttribution noLifecycle y).reasonCode = .deepLinkInstallClickReused) :
    (makeDeepLinkAttribution noLifecycle y).status = .unattributed := by
  have hreused : reusedInstallClick y = true := by
    by_contra hne
    simp only [makeDeepLinkAttribution, deepLinkReason, if_neg hne] at h
    cases hlink : linkStatus y <;> rw [hlink] at h <;> cases h
  simp [makeDeepLinkAttribution, hreused]

end Calls

section Invariant

/-- What holds of the ledger between calls: the installs are projected, stored
opens have the payload of their record id, and a deferred open is told that its
click was reused exactly when a fact of its installation names the click. -/
structure GuardInvariant (payloadOf : EvidenceKey → Payload) (l : Ledger) : Prop where
  installs : InstallsProjected l
  events : ∀ e ∈ l.logicalEvents, logicalEvent e.attempt = e.event
  opens : ∀ s ∈ l.deliveries, s.row.ingestionStatus = .accepted →
    s.attempt.record.eventName = .deepLinkOpen →
    s.attempt.record.payload = payloadOf s.attempt.evidenceKey
  verdicts : ∀ t ∈ l.attributions, ∀ k, IsEngagementOf t k → isDeferredOpen (payloadOf k) = true →
    (t.reasonCode = .deepLinkInstallClickReused ↔ HasFact l k.scope (payloadOf k)) ∧
    (t.reasonCode = .deepLinkInstallClickReused → t.status = .unattributed)

variable {payloadOf : EvidenceKey → Payload}

theorem guardInvariant_initial : GuardInvariant payloadOf {} where
  installs := ⟨fun _ h => absurd h List.not_mem_nil, List.nodup_nil,
    fun _ h => absurd h List.not_mem_nil⟩
  events := fun _ h => absurd h List.not_mem_nil
  opens := fun _ h => absurd h List.not_mem_nil
  verdicts := fun _ h => absurd h List.not_mem_nil

/-- The invariant gives the law. -/
theorem guardHolds_of_invariant {l : Ledger} (h : GuardInvariant payloadOf l) : GuardHolds l := by
  intro s hs hacc hdeferred e he hinstall hscope hinstallation t ht hk
  have hopen : s.attempt.record.eventName = .deepLinkOpen := by
    simp only [isDeferredOpen, Bool.and_eq_true, decide_eq_true_eq] at hdeferred
    exact hdeferred.1
  have hpayload := h.opens s hs hacc hopen
  obtain ⟨hverdict, hstatus⟩ := h.verdicts t ht s.attempt.evidenceKey hk (hpayload ▸ hdeferred)
  rw [← hpayload] at hverdict
  obtain ⟨installationId, hid, hfact⟩ := h.installs.event e he hinstall
  have hfactScope : (e.installFact installationId).scope = s.attempt.scope := by
    rw [← hscope, StoredEvent.installFact, ← h.events e he]
    rfl
  constructor
  · intro hclick
    have hreused := hverdict.mpr ⟨_, hfact, hfactScope, hid.symm.trans hinstallation, hclick⟩
    exact ⟨hstatus hreused, hreused⟩
  · intro hclick hreused
    obtain ⟨f, hf, hfscope, hfid, hfclick⟩ := hverdict.mp hreused
    -- an installation has one fact, so this is the install's
    have hsame : f.installation = (e.installFact installationId).installation := by
      refine Prod.ext (hfscope.trans hfactScope.symm) ?_
      exact Option.some.inj (hfid.trans (hinstallation.symm.trans hid))
    obtain rfl := List.inj_on_of_nodup_map h.installs.once hf hfact hsame
    exact hclick hfclick

variable [Digest] [PayloadSchemas]

/-- What a call has reached of a ledger it started from: facts stay, and the
engagement-level attributions are those of before or of opens the call
concerns. -/
structure Reached (start : Ledger) (call : RuntimeCall) (l : Ledger) : Prop where
  facts : ∀ f ∈ start.installFacts, f ∈ l.installFacts
  verdicts : ∀ t ∈ l.attributions, ∀ k, IsEngagementOf t k → t ∈ start.attributions ∨
    ∃ y ∈ call.attempts ++ call.history, y.record.eventName = .deepLinkOpen ∧
      call.concerns y = true ∧ y.evidenceKey = k

variable {start l : Ledger} {call : RuntimeCall} {context : CallContext} {history : List Attempt}
  {scope : Scope}

/-- A scope's part of the call persists the engagement-level attributions of
opens the call concerns. -/
theorem concerned_of_ingestScope {t : Attribution} {k : EvidenceKey} (hk : IsEngagementOf t k)
    (hhistory : history ⊆ call.history)
    (ht : t ∈ (ingestScope l context (call.attempts.filter (fun a => a.scope = scope)) history
      call.bulkPersistence).ledger.attributions) :
    t ∈ l.attributions ∨ ∃ y ∈ call.attempts ++ call.history, isSchemaValid y = true ∧
      y.record.eventName = .deepLinkOpen ∧ call.concerns y = true ∧ y.evidenceKey = k ∧
      t = makeDeepLinkAttribution noLifecycle (prepareAttempt l context y) := by
  refine (engagement_of_ingestScope hk ht).imp_right ?_
  rintro ⟨x, hx, hvalid, hopen, hkey, hconcerned, rfl⟩
  refine ⟨x, ?_, hvalid, hopen, ?_, hkey, rfl⟩
  · rcases hx with hx | hx
    · exact List.mem_append_right _ (hhistory hx)
    · exact List.mem_append_left _ (List.mem_filter.mp hx).1
  · simp only [RuntimeCall.concerns, Bool.or_eq_true, List.any_eq_true] at hconcerned ⊢
    rcases hconcerned with ⟨z, hz, halias⟩ | ⟨z, hz, hid⟩
    · exact .inl ⟨z, (List.mem_filter.mp hz).1, halias⟩
    · exact .inr ⟨z, (List.mem_filter.mp hz).1, hid⟩

/-- A scope's part of the call keeps what it has reached. -/
theorem reached_ingestScope (hr : Reached start call l) (hhistory : history ⊆ call.history) :
    Reached start call (ingestScope l context (call.attempts.filter (fun a => a.scope = scope))
      history call.bulkPersistence).ledger where
  facts f hf := installFacts_subset_ingestScope (hr.facts f hf)
  verdicts t ht k hk := by
    rcases concerned_of_ingestScope hk hhistory ht with hold | ⟨y, hy, -, hopen, hconcerned, hkey, -⟩
    · exact hr.verdicts t hold k hk
    · exact .inr ⟨y, hy, hopen, hconcerned, hkey⟩

/-- No fact the call brings names the click of a deferred open whose
attribution is persisted by then. -/
theorem hasFact_of_ingestScope (context : CallContext) (history : List Attempt) (scope : Scope)
    (hr : Reached start call l)
    (hmeets : CallMeetsGuard payloadOf start call) {k : EvidenceKey}
    (hdeferred : isDeferredOpen (payloadOf k) = true)
    (hknown : (∃ t ∈ start.attributions, IsEngagementOf t k) ∨
      ∃ y ∈ call.attempts ++ call.history, y.record.eventName = .deepLinkOpen ∧
        call.concerns y = true ∧ y.evidenceKey = k)
    (h : HasFact (ingestScope l context (call.attempts.filter (fun a => a.scope = scope)) history
      call.bulkPersistence).ledger k.scope (payloadOf k)) : HasFact l k.scope (payloadOf k) := by
  obtain ⟨f, hf, hscope, hinstallation, hclick⟩ := h
  rcases installFact_of_ingestScope hf with hold | ⟨x, hx, hname, hpasses, hfact, hfree⟩
  · exact ⟨f, hold, hscope, hinstallation, hclick⟩
  · exfalso
    have hxcall : x ∈ call.attempts := (List.mem_filter.mp (List.mem_filter.mp hx).1).1
    have hbrings : BringsInstall start x := by
      refine ⟨hname, isSchemaValid_of_mem hx, hpasses, fun g hg ⟨hgscope, hginst⟩ => hfree ?_⟩
      refine List.mem_map.mpr ⟨g, hr.facts g hg, Prod.ext ?_ ?_⟩
      · exact hgscope.trans hfact.scope.symm
      · exact Option.some.inj (hginst.trans hfact.installation.symm)
    have hnames : NamesClickOf (payloadOf k) k.scope x :=
      ⟨hdeferred, hscope.symm.trans hfact.scope, hinstallation.symm.trans hfact.installation,
        hclick.symm.trans hfact.click⟩
    rcases hknown with ⟨t, ht, hk⟩ | ⟨y, hy, hopen, hconcerned, rfl⟩
    · exact hmeets.persisted x hxcall hbrings t ht k hk hnames
    · have hpayload := hmeets.identified y hy hopen
      rw [← hpayload] at hnames
      exact hmeets.evaluated x hxcall hbrings y hy hconcerned hnames

/-- **Step lemma.**  A scope's part of a call that meets the condition keeps
the invariant. -/
theorem guardInvariant_ingestScope (hmeets : CallMeetsGuard payloadOf start call)
    (hr : Reached start call l) (hl : GuardInvariant payloadOf l)
    (hhistory : history ⊆ call.history) :
    GuardInvariant payloadOf (ingestScope l context
      (call.attempts.filter (fun a => a.scope = scope)) history call.bulkPersistence).ledger where
  installs := by
    rcases ingestScope_cases l context (call.attempts.filter (fun a => a.scope = scope))
      history call.bulkPersistence with hsame | ⟨out, -, -, hledger⟩
    · rw [hsame]
      exact hl.installs
    · rw [hledger]
      exact Ledger.invariant_of_writes InstallsProjected
        (fun _ _ _ _ _ _ hm hwrite => installsProjected_write hm hwrite) hl.installs
  events e he := by
    rcases logical_of_ingestScope he with hold | ⟨x, -, -, -, hlogical⟩
    · exact hl.events e hold
    · exact hlogical
  opens s hs hacc hopen := by
    rcases delivery_of_ingestScope hs (.inl hacc) with hold | ⟨y, d, hsource, -⟩
    · exact hl.opens s hold hacc hopen
    · obtain ⟨x, hx, rfl⟩ := exists_prepared hsource.mem
      have hrecord := hsource.record
      have hkey : s.attempt.evidenceKey = x.evidenceKey := by
        simp only [Attempt.evidenceKey, hsource.scope, hrecord, prepareAttempt_record,
          prepareAttempt_scope]
      rw [prepareAttempt_record] at hrecord
      rw [hkey, hrecord]
      rw [hrecord] at hopen
      refine hmeets.identified x ?_ hopen
      rcases hx with hx | hx
      · exact List.mem_append_right _ (hhistory hx)
      · exact List.mem_append_left _ (List.mem_filter.mp (List.mem_filter.mp hx).1).1
  verdicts t ht k hk hdeferred := by
    have hgrow : HasFact l k.scope (payloadOf k) → HasFact (ingestScope l context
        (call.attempts.filter (fun a => a.scope = scope)) history
          call.bulkPersistence).ledger k.scope (payloadOf k) := by
      rintro ⟨f, hf, hnames⟩
      exact ⟨f, installFacts_subset_ingestScope hf, hnames⟩
    have hback := fun hknown => hasFact_of_ingestScope context history scope hr hmeets hdeferred hknown
    rcases concerned_of_ingestScope hk hhistory ht with
      hold | ⟨y, hy, hvalid, hopen, hconcerned, hkey, rfl⟩
    · obtain ⟨hverdict, hstatus⟩ := hl.verdicts t hold k hk hdeferred
      refine ⟨hverdict.trans ⟨hgrow, hback ?_⟩, hstatus⟩
      exact (hr.verdicts t hold k hk).imp_left (fun hstart => ⟨t, hstart, hk⟩)
    · have hpayload := hmeets.identified y hy hopen
      subst hkey
      rw [← hpayload] at hdeferred hback hgrow ⊢
      have hreused := reused_iff_hasFact context hl.installs hvalid hdeferred
      exact ⟨hreused.trans ⟨hgrow, hback (.inr ⟨y, hy, hopen, hconcerned, rfl⟩)⟩,
        status_of_reused⟩

/-- **The guard over runs.**  After every run whose calls meet the condition
the law holds.  The condition reads a call and the ledger before it; the
invariant ties the verdict on every deferred open to whether an install names
its click. -/
theorem guard_holds (payloadOf : EvidenceKey → Payload) {calls : List RuntimeCall}
    (h : StepsMeet Ledger.ingest (CallMeetsGuard payloadOf) {} calls) :
    GuardHolds (calls.foldl Ledger.ingest {}) := by
  have hstep : ∀ (l : Ledger) (call : RuntimeCall), GuardInvariant payloadOf l →
      CallMeetsGuard payloadOf l call → GuardInvariant payloadOf (l.ingest call) := by
    intro l call hl hmeets
    have hcall := invariant_of_ingestRuntimeBatch
      (fun m => GuardInvariant payloadOf m ∧ Reached l call m) call.contexts
      (fun _ _ hhistory _ _ hm => ⟨guardInvariant_ingestScope hmeets hm.2 hm.1 hhistory,
        reached_ingestScope hm.2 hhistory⟩)
      ⟨hl, ⟨fun _ hf => hf, fun _ ht _ _ => .inl ht⟩⟩
    exact hcall.1
  exact guardHolds_of_invariant (invariant_of_steps hstep h guardInvariant_initial)

end Invariant

section Runs

attribute [local instance] checksumDigest memberSchemas

/-- An accepted deferred open is credited beside the install with its click. -/
def creditsTwice (l : Ledger) : Bool :=
  match l.deliveries.find? (fun s => s.row.ingestionStatus = .accepted &&
      isDeferredOpen s.attempt.record.payload),
    l.logicalEvents.find? (fun e => e.event.eventName = .install),
    l.attributions.find? (fun t => t.subjectScope = .engagementLevel &&
      t.reasonCode ≠ .deepLinkInstallClickReused) with
  | some s, some e, some t =>
      e.attempt.scope = s.attempt.scope &&
        e.attempt.record.payload.installationId = s.attempt.record.payload.installationId &&
        e.attempt.record.payload.clickId = s.attempt.record.payload.clickId &&
        t.supersedesAttributionId = none && t.scope = s.attempt.scope &&
        t.attributionId = "attr:engagement:" ++ s.attempt.record.recordId.text
  | _, _, _ => false

/-- A ledger that credits a click twice breaks the law. -/
theorem not_guardHolds_of_creditsTwice {l : Ledger} (h : creditsTwice l = true) :
    ¬ GuardHolds l := by
  unfold creditsTwice at h
  split at h
  · case h_1 s e t hs he ht =>
      simp only [Bool.and_eq_true, decide_eq_true_eq] at h
      obtain ⟨⟨⟨⟨⟨hscope, hinstallation⟩, hclick⟩, horiginal⟩, htscope⟩, hid⟩ := h
      have hopen := List.find?_some hs
      have hinstall := List.find?_some he
      have hlevel := List.find?_some ht
      simp only [Bool.and_eq_true, decide_eq_true_eq] at hopen hinstall hlevel
      intro hguard
      have hlaw := hguard s (List.mem_of_find?_eq_some hs) hopen.1 hopen.2
        e (List.mem_of_find?_eq_some he) hinstall hscope hinstallation
        t (List.mem_of_find?_eq_some ht) ⟨hlevel.1, horiginal, htscope, hid⟩
      exact hlevel.2 (hlaw.1 hclick).2
  · cases h

/-- A record of one installation, under its server context. -/
def launchAttempt (name : Identifier) (payload : Payload) : Attempt where
  server := {
    tenantId := .named "tenant"
    appId := .named "app"
    receivedAt := ⟨2026, 1, 2, 3, 4, 5, 0⟩
    policyDigest := "policy" }
  record := {
    recordId := name
    deliveryId := name
    tenantId := .named "tenant"
    appId := .named "app"
    producer := .sdkAndroid
    producerVersion := "1.0.0"
    eventId := name
    schemaVersion := "0.4.0"
    occurredAt := ⟨2026, 1, 2, 3, 4, 0, 0⟩
    occurredAtSource := "device"
    receivedAt := ⟨2026, 1, 2, 3, 4, 5, 0⟩
    processingSequence := 0
    payload := payload }
  batchId := .named "batch"

/-- The install of the first launch. -/
def launchInstall : Attempt :=
  launchAttempt (.named "install") {
    eventName := .install
    installationId := some (.named "installation")
    installType := some .firstInstall
    clickId := some (.named "click") }

/-- The deferred open of the first launch. -/
def launchOpen : Attempt :=
  launchAttempt (.named "open") {
    eventName := .deepLinkOpen
    openSource := some .androidDeferredReferrer
    installationId := some (.named "installation")
    clickId := some (.named "click") }

/-- A call without history; its link is active. -/
def launchCall (attempts history : List Attempt) : RuntimeCall where
  contexts := fun _ => {
    activeRevision := none
    trackingLink := fun _ => some { campaignId := none, active := true }
    fault := none }
  attempts := attempts
  history := history
  bulkPersistence := false

set_option maxRecDepth 4000 in
/-- **The usual first launch escapes.**  Install and deferred open in one call:
the open is credited although the install names its click, because the click
ids of installs are read before the call is stored. -/
theorem install_with_open_escapes :
    ¬ GuardHolds ([launchCall [launchInstall, launchOpen] []].foldl Ledger.ingest {}) :=
  not_guardHolds_of_creditsTwice (by decide +kernel)

/-- Install and deferred open in two calls: the law holds. -/
theorem install_before_open_guarded :
    GuardHolds ([launchCall [launchInstall] [], launchCall [launchOpen] [launchInstall]].foldl
      Ledger.ingest {}) := by
  have hopen : ∀ y ∈ [launchInstall, launchOpen], y.record.eventName = .deepLinkOpen →
      y.record.payload = launchOpen.record.payload := by
    intro y hy hname
    simp only [List.mem_cons, List.not_mem_nil, or_false] at hy
    rcases hy with rfl | rfl
    · cases hname
    · rfl
  have hplain : isDeferredOpen launchInstall.record.payload = false := by decide
  refine guard_holds (fun _ => launchOpen.record.payload) ⟨⟨?_, ?_, ?_⟩, ⟨?_, ?_, ?_⟩, trivial⟩
  · intro y hy
    exact hopen y (List.mem_cons.mpr (.inl (List.mem_singleton.mp hy)))
  · intro x _ _ t ht
    exact absurd ht List.not_mem_nil
  · intro x _ _ y hy _ hnames
    obtain rfl : y = launchInstall := List.mem_singleton.mp hy
    rw [NamesClickOf, hplain] at hnames
    cases hnames.1
  · intro y hy
    refine hopen y ?_
    simp only [launchCall, List.mem_append, List.mem_cons, List.not_mem_nil, or_false] at hy ⊢
    exact hy.symm
  · intro x hx hbrings
    obtain rfl : x = launchOpen := List.mem_singleton.mp hx
    cases hbrings.install
  · intro x hx hbrings
    obtain rfl : x = launchOpen := List.mem_singleton.mp hx
    cases hbrings.install

end Runs

end OpenMasu
