import OpenMasu.DeepLinkGuard

/-!
# The attribution window

An install that no provider, no lookup and no referrer status speaks for is
judged by the click it names.  It is credited exactly when one accepted click
of its app bears its click id, that click is no prefetch, both authoritative
times are known, and the install begins within seven days behind the click.

* `NeedsClick` — the installs that are judged so;
* `CreditsInstall`, `clickVerdict_spec` — the click speaks for the install;
* `IsCountedClick`, `IsCredited` — the clicks that count, and the only one;
* `attribution_window` — the law.
-/

namespace OpenMasu

open PartialList (bind_eq_ok pure_eq_ok)

/-- No import, no Meta referrer, no AdServices lookup and no referrer status
settles the attribution of the install. -/
structure NeedsClick (a : Attempt) : Prop where
  direct : a.record.producer.isImport = false
  metaReferrer : a.record.payload.metaReferrerStatus ∉
    [some .decrypted, some .decryptFailed, some .authFailed]
  adservices : a.record.payload.adservicesContext = none
  referrer : a.record.payload.referrerStatus ∉
    [some .none, some .thirdParty, some .unsupported, some .unavailable, some .notApplicable]

/-- The click speaks for the install: it is no prefetch, both authoritative
times are available and valid, and the install begins within the window. -/
structure CreditsInstall (click install : Attempt) : Prop where
  genuine : truthy click.record.payload.botPrefetch = false
  clickStatus : click.record.payload.redirectorTimeStatus.getD .available = .available
  installStatus : install.record.payload.installBeginAtServerStatus.getD .available = .available
  window : ∃ clickAt installAt, click.record.payload.redirectorClickAt = some clickAt ∧
    install.record.payload.installBeginAtServer = some installAt ∧
    clickAt.isCalendar = true ∧ installAt.isCalendar = true ∧
    0 ≤ installAt.ms - clickAt.ms ∧ installAt.ms - clickAt.ms < 7 * dayMs

/-- The verdict credits the install to its click. -/
def Verdict.IsValidReferrer (v : Verdict) : Prop :=
  v.status = .nonOrganic ∧ v.reasonCode = .validInstallReferrer

/-- **The click's verdict.**  It credits exactly where the click speaks for the
install, and then names both as evidence. -/
theorem clickVerdict_spec {a click : Attempt} {v : Verdict} (h : clickVerdict a click = .ok v) :
    (v.IsValidReferrer ↔ CreditsInstall click a) ∧
      (CreditsInstall click a → v.evidence = some [click.record.recordId, a.record.recordId]) := by
  have hother : v.reasonCode ≠ .validInstallReferrer → ¬ CreditsInstall click a →
      (v.IsValidReferrer ↔ CreditsInstall click a) ∧
        (CreditsInstall click a → v.evidence = some [click.record.recordId, a.record.recordId]) :=
    fun hreason hnot => ⟨⟨fun hv => absurd hv.2 hreason, fun hc => absurd hc hnot⟩,
      fun hc => absurd hc hnot⟩
  have hpresent : ∀ installAt, a.record.payload.installBeginAtServer = some installAt →
      a.record.payload.installBeginAtServerStatus.getD
        (if a.record.payload.installBeginAtServer.isSome then TimeStatus.available else .missing)
        = a.record.payload.installBeginAtServerStatus.getD .available := by
    intro installAt hinstall
    rw [hinstall, Option.isSome_some, if_pos rfl]
  unfold clickVerdict at h
  dsimp only at h
  generalize a.record.payload.installBeginAtServerStatus.getD
    (if a.record.payload.installBeginAtServer.isSome then TimeStatus.available else .missing)
    = installStatus at h hpresent
  split at h
  · rename_i hbot
    cases h
    refine hother (fun h => by cases h) fun hc => ?_
    rw [hc.genuine] at hbot
    cases hbot
  · rename_i hbot
    split at h
    · rename_i hinvalid
      cases h
      refine hother (fun h => by cases h) fun hc => ?_
      obtain ⟨clickAt, installAt, -, hinstall, -⟩ := hc.window
      rw [hpresent installAt hinstall, hc.clickStatus, hc.installStatus] at hinvalid
      rcases hinvalid with hinvalid | hinvalid
      · cases hinvalid
      · cases hinvalid
    · split at h
      · rename_i hmissing
        cases h
        refine hother (fun h => by cases h) fun hc => ?_
        obtain ⟨clickAt, installAt, -, hinstall, -⟩ := hc.window
        rw [hpresent installAt hinstall, hc.clickStatus, hc.installStatus] at hmissing
        rcases hmissing with hmissing | hmissing
        · exact hmissing rfl
        · exact hmissing rfl
      · rename_i havailable
        rw [not_or, not_not, not_not] at havailable
        split at h
        · rename_i clickAt installAt hclick hinstall
          simp only [bind_eq_ok, time_eq_ok] at h
          obtain ⟨begun, ⟨hinstallCalendar, rfl⟩, clicked, ⟨hclickCalendar, rfl⟩, h⟩ := h
          split at h
          · rename_i houtside
            cases pure_eq_ok.mp h
            refine hother (fun h => by cases h) fun hc => ?_
            obtain ⟨clickAt', installAt', hclick', hinstall', -, -, hlow, hhigh⟩ := hc.window
            cases hclick.symm.trans hclick'
            cases hinstall.symm.trans hinstall'
            unfold clickWindowMs at houtside
            omega
          · rename_i hinside
            unfold clickWindowMs at hinside
            cases pure_eq_ok.mp h
            have hcredits : CreditsInstall click a :=
              { genuine := Bool.not_eq_true _ ▸ hbot
                clickStatus := havailable.1
                installStatus := (hpresent installAt hinstall).symm.trans havailable.2
                window := ⟨clickAt, installAt, hclick, hinstall, hclickCalendar,
                  hinstallCalendar, by omega, by omega⟩ }
            exact ⟨⟨fun _ => hcredits, fun _ => ⟨rfl, rfl⟩⟩, fun _ => rfl⟩
        · rename_i hnone
          cases h
          refine hother (fun h => by cases h) fun hc => ?_
          obtain ⟨clickAt, installAt, hclick, hinstall, -⟩ := hc.window
          exact hnone clickAt installAt hclick hinstall

section Window

variable [Digest]

/-- The install is judged by the clicks it names. -/
theorem NeedsClick.installVerdict {a : Attempt} (h : NeedsClick a) (candidates : CandidateProvider)
    (decisions : Decisions) :
    installVerdict candidates decisions a = referrerClickVerdict candidates decisions a := by
  obtain ⟨hdirect, hmeta, hadservices, hreferrer⟩ := h
  have hnone : referrerVerdict a.record.payload = none := by
    unfold referrerVerdict
    split
    · rename_i hstatus
      simp [hstatus] at hreferrer
    · rename_i hstatus
      simp [hstatus] at hreferrer
    · rename_i hstatus
      simp [hstatus] at hreferrer
    · rename_i hstatus
      simp [hstatus] at hreferrer
    · rename_i hstatus
      simp [hstatus] at hreferrer
    · rfl
  unfold OpenMasu.installVerdict
  rw [if_neg (by rw [hdirect]; exact Bool.false_ne_true)]
  split
  · rename_i hstatus
    simp [hstatus] at hmeta
  · rename_i hstatus
    simp [hstatus] at hmeta
  · rename_i hstatus
    simp [hstatus] at hmeta
  · rw [hadservices, hnone]

/-- An accepted click of the install's app that bears its click id. -/
structure IsCountedClick (i : Ingestion) (a click : Attempt) : Prop where
  mem : click ∈ i.all
  accepted : isAcceptedUnique i.decisions click = true
  scope : click.scope = a.scope
  event : click.record.eventName = .click
  clickId : click.record.payload.clickId = a.record.payload.clickId

/-- The click is the only one that counts for the install, and speaks for
it. -/
structure IsCredited (i : Ingestion) (a click : Attempt) : Prop where
  counted : IsCountedClick i a click
  only : ∀ c, IsCountedClick i a c → c = click
  credits : CreditsInstall click a

section Ingested

variable {input : EvaluatorInput} {i : Ingestion} {a : Attempt}
  (hi : ingest input fixtureCandidateProvider = .ok i)

include hi

theorem mem_acceptedClicks {click : Attempt} :
    click ∈ acceptedClicks i.candidates i.decisions a ↔ IsCountedClick i a click := by
  obtain ⟨-, hcandidates, -⟩ := ingest_eq_ok hi
  rw [acceptedClicks, hcandidates, List.mem_filter, fixtureCandidateProvider, List.mem_filter,
    isClickOf, Bool.and_eq_true, Bool.and_eq_true, decide_eq_true_iff, decide_eq_true_iff,
    decide_eq_true_iff]
  constructor
  · rintro ⟨⟨hmem, ⟨hscope, hevent⟩, hid⟩, haccepted⟩
    exact ⟨hmem, haccepted, hscope, hevent, hid⟩
  · rintro ⟨hmem, haccepted, hscope, hevent, hid⟩
    exact ⟨⟨hmem, ⟨hscope, hevent⟩, hid⟩, haccepted⟩

/-- The accepted deliveries are distinct. -/
theorem nodup_accepted : i.accepted.Nodup := by
  obtain ⟨-, hcandidates, -, hlist, hdecisions, -, -, haccepted⟩ := ingest_eq_ok hi
  rw [hcandidates] at hlist
  rw [haccepted, hdecisions, acceptedUnique_eq hlist]
  refine List.nodup_iff_sublist.mpr fun x htwice => ?_
  have hwins : x ∈ i.all.filter (isWinner i.all) := htwice.subset List.mem_cons_self
  obtain ⟨hmem, hwins⟩ := List.mem_filter.mp hwins
  have hsole := ((isWinner_iff hmem).mp hwins).1
  have htwo : [x, x].Sublist (i.all.filter (fun c => c.record.recordId = x.record.recordId)) := by
    have hall := (htwice.trans List.filter_sublist).filter
      (fun c : Attempt => c.record.recordId = x.record.recordId)
    simpa using hall
  have hlength := htwo.length_le
  have hone : (i.all.filter (fun c => c.record.recordId = x.record.recordId)).length ≤ 1 := by
    simpa [isSole] using hsole
  simp only [List.length_cons, List.length_nil] at hlength
  omega

/-- The clicks an install names are distinct. -/
theorem nodup_acceptedClicks : (acceptedClicks i.candidates i.decisions a).Nodup := by
  obtain ⟨-, hcandidates, -, -, -, -, -, haccepted⟩ := ingest_eq_ok hi
  have hsub : (acceptedClicks i.candidates i.decisions a).Sublist i.accepted := by
    rw [acceptedClicks, hcandidates, fixtureCandidateProvider, haccepted, acceptedUnique,
      List.filter_comm]
    exact List.filter_sublist
  exact hsub.nodup (nodup_accepted hi)

/-- **The verdict of the named clicks.**  It credits exactly where one click
counts and speaks for the install. -/
theorem referrerClickVerdict_spec {v : Verdict}
    (hv : referrerClickVerdict i.candidates i.decisions a = .ok v) :
    (v.IsValidReferrer ↔ ∃ click, IsCredited i a click) ∧
      ∀ click, IsCredited i a click →
        v.evidence = some [click.record.recordId, a.record.recordId] := by
  have hnodup := nodup_acceptedClicks (a := a) hi
  have hmem : ∀ c, c ∈ acceptedClicks i.candidates i.decisions a ↔ IsCountedClick i a c :=
    fun c => mem_acceptedClicks hi
  unfold referrerClickVerdict at hv
  split at hv
  · rename_i hnone
    cases hv
    have hcredited : ∀ click, ¬ IsCredited i a click := by
      intro click hclick
      have hcounted := (hmem click).mpr hclick.counted
      rw [hnone] at hcounted
      exact List.not_mem_nil hcounted
    exact ⟨⟨fun h => absurd h.2 nofun, fun ⟨click, hclick⟩ => absurd hclick (hcredited click)⟩,
      fun click hclick => absurd hclick (hcredited click)⟩
  · rename_i click hone
    have honly : ∀ c, IsCountedClick i a c ↔ c = click := by
      intro c
      rw [← hmem c, hone, List.mem_singleton]
    obtain ⟨hvalid, hevidence⟩ := clickVerdict_spec hv
    refine ⟨hvalid.trans ⟨fun hcredits => ?_, ?_⟩, ?_⟩
    · exact ⟨click, (honly click).mpr rfl, fun c hc => (honly c).mp hc, hcredits⟩
    · intro ⟨c, hc⟩
      obtain rfl := (honly c).mp hc.counted
      exact hc.credits
    · intro c hc
      obtain rfl := (honly c).mp hc.counted
      exact hevidence hc.credits
  · rename_i hnotNone hnotOne
    cases hv
    have hcredited : ∀ click, ¬ IsCredited i a click := by
      intro click hclick
      cases hlist : acceptedClicks i.candidates i.decisions a with
      | nil => exact hnotNone hlist
      | cons first rest =>
          cases rest with
          | nil => exact hnotOne first hlist
          | cons second rest =>
              have hsame : ∀ c ∈ first :: second :: rest, c = click :=
                fun c hc => hclick.only c ((hmem c).mp (hlist ▸ hc))
              rw [hlist] at hnodup
              have hne : first ≠ second :=
                fun h => (List.nodup_cons.mp hnodup).1 (h ▸ List.mem_cons_self)
              exact hne ((hsame first List.mem_cons_self).trans
                (hsame second (List.mem_cons_of_mem _ List.mem_cons_self)).symm)
    exact ⟨⟨fun h => absurd h.2 nofun, fun ⟨click, hclick⟩ => absurd hclick (hcredited click)⟩,
      fun click hclick => absurd hclick (hcredited click)⟩

end Ingested

/-- **The attribution window.**  In an evaluation that returns, by either
provider, the initial attribution of an accepted install that is judged by its
click credits it exactly where one click counts and speaks for it; the evidence
is then that click and the install. -/
theorem attribution_window {input : EvaluatorInput} {factory : List Attempt → CandidateProvider}
    {i : Ingestion} {out : EvaluationOutput} {a : Attempt}
    (hfactory : factory = fixtureCandidateProvider ∨ factory = indexedCandidateProvider)
    (hi : ingest input factory = .ok i) (hout : evaluate input factory = .ok out)
    (ha : a ∈ i.accepted) (hinstall : a.record.eventName = .install) (hneeds : NeedsClick a) :
    ∃ t ∈ out.attributions,
      makeAttribution i.candidates i.decisions i.lifecycle a = .ok t ∧
      ((t.status = .nonOrganic ∧ t.reasonCode = .validInstallReferrer) ↔
        ∃ click, IsCredited i a click) ∧
      ∀ click, IsCredited i a click →
        t.evidenceRefs =
          [click, a].map (fun x => evidenceRef i.lifecycle a.scope x.record.recordId) := by
  obtain rfl : factory = fixtureCandidateProvider := by
    rcases hfactory with hfixture | hindexed
    · exact hfixture
    · rw [hindexed]
      exact funext indexedCandidateProvider_eq
  obtain ⟨i', initial, fraud, hi', -, -, hinitial, -, -, -, -, hattributions, -⟩ :=
    evaluate_eq_ok hout
  cases hi.symm.trans hi'
  simp only [initialAttributions, bind_eq_ok, pure_eq_ok] at hinitial
  obtain ⟨installs, hinstalls, rfl⟩ := hinitial
  obtain ⟨t, ht, hmake⟩ := PartialList.ok_of_mem_traverse hinstalls
    (List.mem_filter.mpr ⟨ha, decide_eq_true hinstall⟩)
  have hout : t ∈ out.attributions := by
    simp only [hattributions, sortAttributions, mem_sortByKey, List.mem_append]
    exact .inl (.inl (.inl (.inl ht)))
  refine ⟨t, hout, hmake, ?_⟩
  simp only [makeAttribution, bind_eq_ok, pure_eq_ok] at hmake
  obtain ⟨v, hv, rfl⟩ := hmake
  rw [hneeds.installVerdict] at hv
  obtain ⟨hvalid, hevidence⟩ := referrerClickVerdict_spec hi hv
  refine ⟨hvalid, fun click hclick => ?_⟩
  simp only [installAttribution, hevidence click hclick, Option.getD_some, List.map_cons,
    List.map_nil]

end Window

section Runs

attribute [local instance] checksumDigest

/-- A click and the install that names it, an hour behind. -/
def creditedLaunch : EvaluatorInput where
  ingress := .direct
    (launchAttempt (.named "click") { eventName := .click }).server [
    (launchAttempt (.named "click") {
      eventName := .click
      clickId := some (.named "click")
      redirectorClickAt := some ⟨2026, 1, 2, 3, 3, 0, 0⟩ }).record,
    (launchAttempt (.named "install") {
      eventName := .install
      installationId := some (.named "installation")
      installType := some .firstInstall
      clickId := some (.named "click")
      installBeginAtServer := some ⟨2026, 1, 2, 3, 4, 0, 0⟩ }).record]
  fxPolicy := (runtimeInput []).fxPolicy

/-- The evaluation of the launch returns, and accepts an install that needs
its click. -/
def evaluatesLaunch (a : Attempt) : Bool :=
  (evaluate creditedLaunch).toOption.isSome &&
    a.record.eventName = .install && !a.record.producer.isImport &&
    a.record.payload.metaReferrerStatus.isNone && a.record.payload.adservicesContext.isNone &&
    a.record.payload.referrerStatus.isNone

set_option maxRecDepth 4000 in
theorem creditedLaunch_evaluates :
    (ingest creditedLaunch fixtureCandidateProvider).toOption.any
      (fun i => i.accepted.any evaluatesLaunch) = true := by
  decide +kernel

/-- The install of the launch is credited if and only if its click counts. -/
theorem creditedLaunch_window : ∃ i out a,
    ingest creditedLaunch fixtureCandidateProvider = .ok i ∧
    evaluate creditedLaunch = .ok out ∧ a ∈ i.accepted ∧
    ∃ t ∈ out.attributions, makeAttribution i.candidates i.decisions i.lifecycle a = .ok t ∧
      ((t.status = .nonOrganic ∧ t.reasonCode = .validInstallReferrer) ↔
        ∃ click, IsCredited i a click) := by
  have hevaluates := creditedLaunch_evaluates
  cases hi : ingest creditedLaunch fixtureCandidateProvider with
  | error e =>
      rw [hi] at hevaluates
      cases hevaluates
  | ok i =>
      rw [hi] at hevaluates
      obtain ⟨a, ha, hlaunch⟩ := List.any_eq_true.mp hevaluates
      simp only [evaluatesLaunch, Bool.and_eq_true, Bool.not_eq_true', decide_eq_true_eq,
        Option.isNone_iff_eq_none] at hlaunch
      obtain ⟨⟨⟨⟨⟨hreturns, hinstall⟩, hdirect⟩, hmeta⟩, hadservices⟩, hreferrer⟩ := hlaunch
      have hneeds : NeedsClick a :=
        { direct := hdirect
          metaReferrer := by simp [hmeta]
          adservices := hadservices
          referrer := by simp [hreferrer] }
      cases hout : evaluate creditedLaunch with
      | error e =>
          rw [hout] at hreturns
          cases hreturns
      | ok out =>
          obtain ⟨t, ht, hmake, hcredited, -⟩ :=
            attribution_window (.inl rfl) hi hout ha hinstall hneeds
          exact ⟨i, out, a, rfl, rfl, ha, t, ht, hmake, hcredited⟩

end Runs

end OpenMasu
