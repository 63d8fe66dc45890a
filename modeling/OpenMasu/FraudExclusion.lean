import OpenMasu.InstallAttributions
import OpenMasu.Supersession
import OpenMasu.WatermarkStability

/-!
# Fraud exclusion in the ledger

Four workers append attributions, and each supersedes the row it takes for
the current one.  While every one of them supersedes the head of its
installation, and none credits an installation that was excluded, every
installation keeps one head, and the metric engines never read a credit for an
excluded installation.

* `RowsKept` — the invariant, on the rows of `attribution_results`;
* `CallFits`, `LateFits`, `LookupFits`, `StepFits` — the condition on a step;
* `rowsKept_ingestScope`, `rowsKept_step` — what a step preserves;
* `ExclusionDominates`, `exclusion_dominates` — the law over runs;
* `late_referrer_credits` — a late referrer verdict behind an exclusion.
-/

namespace OpenMasu

open AppendOnly (insertOnce latest StepsMeet invariant_of_steps)
open Supersession (Chained Dominated Fits Respects)

/-- The attributions of the ledger, as rows that supersede rows. -/
def attributionTable : Supersession.Table Attribution String (Scope × Option String) where
  id := (·.attributionId)
  target := (·.supersedesAttributionId)
  subject := Attribution.installation

/-- The attribution excludes its subject for fraud. -/
def Attribution.Excludes (t : Attribution) : Prop := t.reasonCode = .fraudExcluded

/-- The attribution credits its subject to an ad. -/
def Attribution.Credits (t : Attribution) : Prop := t.status = .nonOrganic

/-- One head an installation, and none that credits an excluded one. -/
def RowsKept (db : Database) (rows : List Attribution) : Prop :=
  Chained attributionTable rows ∧
    Dominated attributionTable (fun a b => isLaterAttribution db a b = true) Attribution.Excludes
      Attribution.Credits rows

/-- The order of texts in the database: strict, and a text stands in front of
those that continue it. -/
structure OrdersTexts (db : Database) : Prop where
  irrefl : ∀ s, db.sortsBefore s s = false
  trans : ∀ r s t, db.sortsBefore r s = true → db.sortsBefore s t = true →
    db.sortsBefore r t = true
  longer : ∀ s rest, rest ≠ "" → db.sortsBefore s (s ++ rest) = true

section Order

variable {db : Database} (hdb : OrdersTexts db)

include hdb

/-- No row is later than itself. -/
theorem isLaterAttribution_irrefl (t : Attribution) : isLaterAttribution db t t = false := by
  simp [isLaterAttribution, isLaterRow, isBefore, hdb.irrefl]

/-- Later than a later row is later. -/
theorem isLaterAttribution_trans (a b c : Attribution) (hab : isLaterAttribution db a b = true)
    (hbc : isLaterAttribution db b c = true) : isLaterAttribution db a c = true := by
  simp only [isLaterAttribution, isLaterRow, isBefore, Bool.or_eq_true, Bool.and_eq_true,
    Bool.not_eq_true', decide_eq_false_iff_not, decide_eq_true_eq, not_le] at *
  rcases hab with hab | ⟨hsame, hab⟩
  · rcases hbc with hbc | ⟨hsame', -⟩
    · exact .inl (hbc.trans hab)
    · exact .inl (hsame' ▸ hab)
  · rcases hbc with hbc | ⟨hsame', hbc⟩
    · exact .inl (hsame ▸ hbc)
    · exact .inr ⟨hsame.trans hsame', hdb.trans _ _ _ hbc hab⟩

end Order

section Condition

variable [Digest] [PayloadSchemas] (db : Database) (l : Ledger)

/-- The condition on a call at a scope.  An install whose attribution the call
selects is the first of its installation, or its attribution was inserted
before; and where it is excluded for the first time, nothing has superseded
that attribution and no credit lies behind it. -/
structure CallFits (context : CallContext) (attempts history : List Attempt) : Prop where
  plain : ∀ a ∈ winningInstalls (evaluatedAttempts l context attempts history), PlainIds a
  first : ∀ a ∈ winningInstalls (evaluatedAttempts l context attempts history), ∀ b,
    initialOf (evaluatedAttempts l context attempts history) a = some b →
    attributionBelongs ((validAttempts attempts).map (·.record.recordId)) b = true →
    (∀ t ∈ l.attributions, t.attributionId = b.attributionId → t.installation = b.installation) ∧
    ∀ t ∈ l.attributions, t.installation = b.installation →
      b.attributionId ∈ l.attributions.map (·.attributionId)
  excluded : ∀ a ∈ winningInstalls (evaluatedAttempts l context attempts history), ∀ b,
    initialOf (evaluatedAttempts l context attempts history) a = some b →
    attributionBelongs ((validAttempts attempts).map (·.record.recordId)) b = true →
    isExcludedInstall (evaluatedAttempts l context attempts history) a = true →
    b.attributionId ++ ":fraud" ∉ l.attributions.map (·.attributionId) →
    (∀ s ∈ l.attributions, s.supersedesAttributionId ≠ some b.attributionId) ∧
    ∀ n ∈ l.attributions, n.Credits → n.installation = b.installation →
      isLaterRow db b.decidedAt n.decidedAt (b.attributionId ++ ":fraud") n.attributionId = true

omit [Digest] [PayloadSchemas] in
/-- Some attribution excludes the installation. -/
def Ledger.isExcluded (installation : Option (Scope × Option String)) : Prop :=
  ∃ e ∈ l.attributions, e.Excludes ∧ e.installation = installation

/-- The condition on a late referrer verdict.  Where it supersedes a verdict,
that is the head of the same installation, and the installation is not
excluded. -/
def LateFits (t : Attribution) : Prop :=
  ∀ prior ∈ l.attributions, prior.attributionId = t.attributionId → prior.scope = t.scope →
    prior.reasonCode ≠ t.reasonCode → t.reasonCode = .validInstallReferrer →
    (lateAttribution t).attributionId ∉ l.attributions.map (·.attributionId) →
    prior.installation = t.installation ∧
    (∀ s ∈ l.attributions, s.supersedesAttributionId ≠ some t.attributionId) ∧
    (l.isExcluded t.installation → ¬ t.Credits)

omit [Digest] [PayloadSchemas] in
/-- The condition on the answer of a lookup.  What it supersedes is a head, and
it does not credit an excluded installation. -/
def LookupFits (textDigest : String → String) (w : AttributionWorld) (row : LookupRow)
    (answer : LookupAnswer) : Prop :=
  ∀ prior, w.ledger.lookupPrior db row = some prior →
    (lookupReplacement textDigest row answer prior).attributionId
      ∉ w.ledger.attributions.map (·.attributionId) →
    (⟨row.scope, row.installRecordId⟩ : EvidenceKey) ∉ w.lookupResults →
    (∀ s ∈ w.ledger.attributions, s.supersedesAttributionId ≠ some prior.attributionId) ∧
    (w.ledger.isExcluded prior.installation → answer.status ≠ .attributed)

/-- What each scope of a batch meets, in the ledger it is ingested into. -/
def ScopesMeet (cond : Ledger → CallContext → List Attempt → List Attempt → Prop)
    (contexts : Scope → CallContext) (attempts history : List Attempt) (bulk : Bool) :
    List Scope → Ledger → Prop
  | [], _ => True
  | s :: rest, l =>
      let result := ingestScope l (contexts s) (attempts.filter (fun a => a.scope = s))
        (history.filter (fun a => a.scope = s)) bulk
      cond l (contexts s) (attempts.filter (fun a => a.scope = s))
          (history.filter (fun a => a.scope = s)) ∧
        (result.completed = true →
          ScopesMeet cond contexts attempts history bulk rest result.ledger)

/-- What a call meets at each of its scopes. -/
def CallMeets (cond : Ledger → CallContext → List Attempt → List Attempt → Prop) (l : Ledger)
    (call : RuntimeCall) : Prop :=
  match scopesOf call.attempts with
  | [] => True
  | [s] => cond l (call.contexts s) call.attempts call.history
  | scopes => ScopesMeet cond call.contexts call.attempts call.history call.bulkPersistence scopes l

/-- The condition on the evaluation of a call at a scope. -/
def EvaluationFits (l : Ledger) (context : CallContext) (attempts history : List Attempt) : Prop :=
  (evaluate (runtimeInput (evaluatedAttempts l context attempts history))
    indexedCandidateProvider).isOk = true → CallFits db l context attempts history

/-- The condition on a call. -/
def IngestFits (call : RuntimeCall) : Prop :=
  match scopesOf call.attempts with
  | [] => True
  | [s] => EvaluationFits db l (call.contexts s) call.attempts call.history
  | scopes => ScopesMeet (EvaluationFits db) call.contexts call.attempts call.history
      call.bulkPersistence scopes l

/-- The condition on a step.  Clock anomalies need none. -/
def StepFits (textDigest : String → String) (w : AttributionWorld) : AttributionStep → Prop
  | .ingest call => IngestFits db w.ledger call
  | .late attribution => LateFits w.ledger attribution
  | .clockAnomaly .. => True
  | .lookup row answer => LookupFits db textDigest w row answer

end Condition

section Ingest

variable [Digest] [PayloadSchemas] {db : Database} {l : Ledger} {context : CallContext}
  {attempts history : List Attempt} {out : EvaluationOutput}

omit [Digest] [PayloadSchemas] in
/-- Installs of one installation have one anchor. -/
theorem anchorKey_of_installation {a b : Attempt} (h : a.installation = b.installation) :
    anchorKey a = anchorKey b := by
  obtain ⟨hscope, htext⟩ := Prod.ext_iff.mp h
  have hid : a.record.payload.installationId = b.record.payload.installationId :=
    Option.map_injective Identifier.text_injective htext
  exact Prod.ext hscope hid

/-- The rows while a call inserts its attributions: those of before, and those
inserted so far. -/
structure RowsBetween (db : Database) (old done rows : List Attribution) : Prop where
  kept : RowsKept db rows
  source : ∀ t ∈ rows, t ∈ old ∨ t ∈ done
  old : ∀ t ∈ old, t ∈ rows
  taken : ∀ t ∈ done, t.attributionId ∈ rows.map (·.attributionId)

/-- What is known of the attributions a call selects. -/
structure SelectsBetween (all : List Attempt) (out : EvaluationOutput) (ids : List Identifier)
    (done : List Attribution) (r : Attribution) : Prop where
  front : done ++ [r] <+: out.attributions.filter (attributionBelongs ids)
  kinds : ∀ t ∈ out.attributions, AttributionKind all out t
  sorted : ∃ reported, out.attributions = sortAttributions reported
  anchors : ∀ a ∈ winningInstalls all, ∀ b ∈ winningInstalls all, anchorKey a = anchorKey b → a = b

omit [PayloadSchemas] in
/-- The exclusion of an install stands behind its initial attribution. -/
theorem prior_mem_done {all : List Attempt} {ids : List Identifier} {done : List Attribution}
    {r prior : Attribution} {decision : String} (hsel : SelectsBetween all out ids done r)
    {front : List Attribution} {s : Attribution} (hfront : front ++ [s] <+: done ++ [r])
    (hrow : s = excludedAttribution prior decision) (hreported : prior ∈ out.attributions) :
    prior ∈ front := by
  obtain ⟨reported, hout⟩ := hsel.sorted
  have hprefix := hfront.trans hsel.front
  have hs : s ∈ out.attributions.filter (attributionBelongs ids) :=
    hprefix.subset (List.mem_append_right _ List.mem_cons_self)
  have hbelongs : attributionBelongs ids prior = true := by
    have hsame : attributionBelongs ids s = attributionBelongs ids prior := by
      rw [hrow]
      rfl
    rw [← hsame]
    exact (List.mem_filter.mp hs).2
  have hprior : prior ∈ out.attributions.filter (attributionBelongs ids) :=
    List.mem_filter.mpr ⟨hreported, hbelongs⟩
  rw [hout] at hprior hprefix
  exact initial_before_excluded hprior (by rw [hrow]; rfl) hprefix

omit [PayloadSchemas] in
/-- An attribution inserted so far about an installation is the initial one of
its install, or excludes it behind that. -/
theorem kind_of_done {all : List Attempt} {ids : List Identifier} {done : List Attribution}
    {r t : Attribution} (hsel : SelectsBetween all out ids done r) (ht : t ∈ done) {a : Attempt}
    (ha : a ∈ winningInstalls all) (habout : t.installation = some a.installation) :
    initialOf all a = some t ∨ ∃ prior decision, initialOf all a = some prior ∧
      t = excludedAttribution prior decision ∧ prior ∈ done := by
  have hreported : t ∈ out.attributions := by
    have hmem := hsel.front.subset (List.mem_append_left _ ht)
    exact (List.mem_filter.mp hmem).1
  have hsame : ∀ a' ∈ winningInstalls all, t.installation = some a'.installation → a' = a := by
    intro a' ha' habout'
    refine hsel.anchors a' ha' a ha (anchorKey_of_installation ?_)
    exact Option.some.inj (habout'.symm.trans habout)
  cases hsel.kinds t hreported with
  | other y hy hevent hid hnone horiginal =>
      rw [hnone] at habout
      cases habout
  | initial a' ha' hmade =>
      obtain ⟨-, hinstallation, -⟩ := initialOf_eq_some hmade
      rw [← hsame a' ha' hinstallation]
      exact .inl hmade
  | excluded a' ha' prior hmade hprior hexcluded decision hrow =>
      obtain ⟨-, hinstallation, -⟩ := initialOf_eq_some hmade
      have habout' : t.installation = some a'.installation := by
        rw [hrow]
        exact hinstallation
      rw [← hsame a' ha' habout']
      refine .inr ⟨prior, decision, hmade, hrow, ?_⟩
      obtain ⟨front, back, hdone⟩ := List.append_of_mem ht
      have hfront : front ++ [t] <+: done ++ [r] := by
        rw [hdone]
        exact ⟨back ++ [r], by simp⟩
      have hmem := prior_mem_done hsel hfront hrow hprior
      rw [hdone]
      exact List.mem_append_left _ hmem

section Row

variable {done rows : List Attribution} {r : Attribution}

/-- The initial attribution of an install is the first row about its
installation. -/
theorem fits_initial (hfits : CallFits db l context attempts history)
    (hsel : SelectsBetween (evaluatedAttempts l context attempts history) out
      ((validAttempts attempts).map (·.record.recordId)) done r)
    (hrows : RowsBetween db l.attributions done rows)
    (hfresh : r.attributionId ∉ rows.map (·.attributionId)) {a : Attempt}
    (ha : a ∈ winningInstalls (evaluatedAttempts l context attempts history))
    (hmade : initialOf (evaluatedAttempts l context attempts history) a = some r) :
    Fits attributionTable rows r ∧
      Respects attributionTable (fun a b => isLaterAttribution db a b = true) Attribution.Excludes
        Attribution.Credits rows r := by
  obtain ⟨-, hinstallation, horiginal, -, list, v, hv, hrow⟩ := initialOf_eq_some hmade
  have hbelongs := (List.mem_filter.mp
    (hsel.front.subset (List.mem_append_right _ List.mem_cons_self))).2
  have hnone : ∀ s ∈ rows, s.installation ≠ r.installation := by
    intro s hs hsame
    rcases hrows.source s hs with hold | hdone
    · have htaken := (hfits.first a ha r hmade hbelongs).2 s hold hsame
      obtain ⟨t, ht, hid⟩ := List.mem_map.mp htaken
      exact hfresh (List.mem_map.mpr ⟨t, hrows.old t ht, hid⟩)
    · have hid : r ∈ done := by
        rcases kind_of_done hsel hdone ha (hsame.trans hinstallation) with
          hinitial | ⟨prior, decision, hprior, -, hmem⟩
        · rw [hmade] at hinitial
          rw [Option.some.inj hinitial]
          exact hdone
        · rw [hmade] at hprior
          rw [Option.some.inj hprior]
          exact hmem
      exact hfresh (hrows.taken r hid)
  refine ⟨⟨hfresh, fun _ k hk s hs hsame => ?_, fun x hx => ?_⟩,
    fun e he k _ hk hk' => ?_, fun k hexcludes _ => ?_⟩
  · exact hnone s hs (hsame.trans hk.symm)
  · rw [show r.supersedesAttributionId = some x from hx] at horiginal
    cases horiginal
  · exact absurd (hk.trans hk'.symm) (hnone e he)
  · rw [Attribution.Excludes, hrow] at hexcludes
    exact absurd hexcludes (reasonCode_of_installVerdict hv)

/-- The exclusion of an install supersedes its initial attribution. -/
theorem fits_excluded (hdb : OrdersTexts db) (hfits : CallFits db l context attempts history)
    (hsel : SelectsBetween (evaluatedAttempts l context attempts history) out
      ((validAttempts attempts).map (·.record.recordId)) done r)
    (hrows : RowsBetween db l.attributions done rows)
    (hfresh : r.attributionId ∉ rows.map (·.attributionId)) {a : Attempt}
    (ha : a ∈ winningInstalls (evaluatedAttempts l context attempts history)) {prior : Attribution}
    (hmade : initialOf (evaluatedAttempts l context attempts history) a = some prior)
    (hreported : prior ∈ out.attributions)
    (hexcluded : isExcludedInstall (evaluatedAttempts l context attempts history) a = true)
    {decision : String} (hrow : r = excludedAttribution prior decision) :
    Fits attributionTable rows r ∧
      Respects attributionTable (fun a b => isLaterAttribution db a b = true) Attribution.Excludes
        Attribution.Credits rows r := by
  obtain ⟨-, hinstallation, -, -, -⟩ := initialOf_eq_some hmade
  have hid : r.attributionId = prior.attributionId ++ ":fraud" := by
    rw [hrow]
    rfl
  have hsame : r.installation = prior.installation := by
    rw [hrow]
    rfl
  have htarget : r.supersedesAttributionId = some prior.attributionId := by
    rw [hrow]
    rfl
  have hbelongs : attributionBelongs ((validAttempts attempts).map (·.record.recordId)) prior
      = true := by
    have hr := (List.mem_filter.mp
      (hsel.front.subset (List.mem_append_right _ List.mem_cons_self))).2
    rw [hrow] at hr
    exact hr
  have hprior : prior ∈ done := prior_mem_done hsel List.prefix_rfl hrow hreported
  have hfresh' : prior.attributionId ++ ":fraud" ∉ l.attributions.map (·.attributionId) := by
    intro htaken
    obtain ⟨t, ht, htid⟩ := List.mem_map.mp htaken
    exact hfresh (List.mem_map.mpr ⟨t, hrows.old t ht, htid.trans hid.symm⟩)
  obtain ⟨hfirst, -⟩ := hfits.first a ha prior hmade hbelongs
  obtain ⟨hhead, hlater⟩ := hfits.excluded a ha prior hmade hbelongs hexcluded hfresh'
  have hcredits : ¬ r.Credits := by
    rw [Attribution.Credits, hrow]
    nofun
  refine ⟨⟨hfresh, fun hnone => ?_, fun x hx => ?_⟩, fun _ _ _ _ _ _ => hcredits,
    fun k _ hk => ⟨hcredits, fun n hn hncredits hnk => ?_⟩⟩
  · rw [show r.supersedesAttributionId = none from hnone] at htarget
    cases htarget
  · obtain rfl : prior.attributionId = x := Option.some.inj (htarget.symm.trans hx)
    obtain ⟨p, hp, hpid⟩ := List.mem_map.mp (hrows.taken prior hprior)
    refine ⟨p, hp, hpid, ?_, fun k _ => ⟨hp, fun s hs hsuper => ?_⟩⟩
    · rcases hrows.source p hp with hold | hdone
      · exact (hfirst p hold hpid).trans hsame.symm
      · obtain ⟨hown, -⟩ := initialOf_eq_some hmade
        have hpreported : p ∈ out.attributions :=
          (List.mem_filter.mp (hsel.front.subset (List.mem_append_left _ hdone))).1
        have hinitial := initialOf_of_id hfits.plain (hsel.kinds p hpreported) ha (hpid.trans hown)
        rw [hmade] at hinitial
        rw [← Option.some.inj hinitial]
        exact hsame.symm
    · have hsuper' : s.supersedesAttributionId = some prior.attributionId := by
        rw [← hpid]
        exact hsuper
      rcases hrows.source s hs with hold | hdone
      · exact hhead s hold hsuper'
      · have hsreported : s ∈ out.attributions :=
          (List.mem_filter.mp (hsel.front.subset (List.mem_append_left _ hdone))).1
        cases hsel.kinds s hsreported with
        | other y hy hevent hform hnone horiginal =>
            rw [horiginal] at hsuper'
            cases hsuper'
        | initial a' ha' hmade' =>
            obtain ⟨-, -, horiginal, -⟩ := initialOf_eq_some hmade'
            rw [horiginal] at hsuper'
            cases hsuper'
        | excluded a' ha' prior' hmade' _ _ decision' hrow' =>
            -- it would have the id of the row
            have hpriors : prior'.attributionId = prior.attributionId := by
              rw [hrow'] at hsuper'
              exact Option.some.inj hsuper'
            have hsid : s.attributionId = r.attributionId := by
              rw [hid, ← hpriors, hrow']
              rfl
            exact hfresh (hsid ▸ hrows.taken s hdone)
  · have hdecided : r.decidedAt = prior.decidedAt := by
      rw [hrow]
      rfl
    have habout : n.installation = prior.installation :=
      (show n.installation = some k from hnk).trans
        ((show r.installation = some k from hk).symm.trans hsame)
    rw [isLaterAttribution, hdecided, hid]
    rcases hrows.source n hn with hold | hdone
    · exact hlater n hold hncredits habout
    · rcases kind_of_done hsel hdone ha (habout.trans hinstallation) with
        hinitial | ⟨prior', decision', -, hrow', -⟩
      · rw [hmade] at hinitial
        rw [← Option.some.inj hinitial, isLaterRow, hdb.longer _ _ (by decide)]
        simp
      · rw [Attribution.Credits, hrow'] at hncredits
        cases hncredits

end Row

/-- **Insertion.**  Every attribution a call inserts keeps the rows: it
continues the row that the evaluation saw, and one inserted before stays. -/
theorem rowsBetween_insertOnce (hdb : OrdersTexts db)
    (hfits : CallFits db l context attempts history) {done rows : List Attribution}
    {r : Attribution}
    (hsel : SelectsBetween (evaluatedAttempts l context attempts history) out
      ((validAttempts attempts).map (·.record.recordId)) done r)
    (hrows : RowsBetween db l.attributions done rows) :
    RowsBetween db l.attributions (done ++ [r]) (insertOnce (·.attributionId) r rows) := by
  have hreported : r ∈ out.attributions :=
    (List.mem_filter.mp (hsel.front.subset (List.mem_append_right _ List.mem_cons_self))).1
  have hrow : r.attributionId ∉ rows.map (·.attributionId) →
      Fits attributionTable rows r ∧
        Respects attributionTable (fun a b => isLaterAttribution db a b = true)
          Attribution.Excludes Attribution.Credits rows r := by
    intro hfresh
    cases hsel.kinds r hreported with
    | other y hy hevent hid hnone horiginal =>
        have hsubject : ∀ k, attributionTable.subject r ≠ some k := by
          intro k hk
          rw [show attributionTable.subject r = none from hnone] at hk
          cases hk
        refine ⟨⟨hfresh, fun _ k hk => absurd hk (hsubject k), fun x hx => ?_⟩,
          fun _ _ k _ _ hk => absurd hk (hsubject k), fun k _ hk => absurd hk (hsubject k)⟩
        rw [show r.supersedesAttributionId = some x from hx] at horiginal
        cases horiginal
    | initial a ha hmade => exact fits_initial hfits hsel hrows hfresh ha hmade
    | excluded a ha prior hmade hprior hexcluded decision hrow =>
        exact fits_excluded hdb hfits hsel hrows hfresh ha hmade hprior hexcluded hrow
  refine ⟨Supersession.kept_by_insertOnce hrows.kept hrow, fun t ht => ?_, fun t ht => ?_,
    fun t ht => ?_⟩
  · rcases AppendOnly.mem_insertOnce ht with ht | ⟨rfl, -⟩
    · exact (hrows.source t ht).imp_right (List.mem_append_left _)
    · exact .inr (List.mem_append_right _ List.mem_cons_self)
  · exact AppendOnly.mem_insertOnce_of_mem (hrows.old t ht)
  · rcases List.mem_append.mp ht with ht | ht
    · obtain ⟨s, hs, hid⟩ := List.mem_map.mp (hrows.taken t ht)
      exact List.mem_map.mpr ⟨s, AppendOnly.mem_insertOnce_of_mem hs, hid⟩
    · rw [List.mem_singleton.mp ht]
      exact AppendOnly.key_mem_insertOnce _ r rows

/-- **Call.**  A call at a scope keeps the rows, attribution by attribution. -/
theorem rowsKept_ingestScope (hdb : OrdersTexts db) (bulk : Bool)
    (hfits : EvaluationFits db l context attempts history) (hkept : RowsKept db l.attributions) :
    RowsKept db (ingestScope l context attempts history bulk).ledger.attributions := by
  rcases ingestScope_cases l context attempts history bulk with hsame | ⟨out, -, hout, hledger⟩
  · rw [hsame]
    exact hkept
  · have hcall : CallFits db l context attempts history := hfits (by rw [hout]; rfl)
    have hsorted := evaluatedAttempts_sorted l context attempts history
    obtain ⟨done, hdone, hrows⟩ := Ledger.attributions_of_persist l
      (callTransactions context bulk (evaluatedAttempts l context attempts history)
        (select context attempts out) attempts) context.fault
    rw [attributionRow_callTransactions] at hdone
    rw [hledger, hrows]
    obtain ⟨_, initial, decisions, -, -, -, hreported⟩ := attributions_of_runtime hsorted hout
    -- induction on the attributions inserted so far
    have hbetween : ∀ front, front <+: done →
        RowsBetween db l.attributions front (addAttributions l.attributions front) := by
      intro front
      induction front using List.reverseRecOn with
      | nil =>
          intro _
          exact ⟨hkept, fun t ht => .inl ht, fun t ht => ht, fun t ht => nomatch ht⟩
      | append_singleton front r ih =>
          intro hfront
          have hsel : SelectsBetween (evaluatedAttempts l context attempts history) out
              ((validAttempts attempts).map (·.record.recordId)) front r :=
            { front := hfront.trans hdone
              kinds := fun t ht => kind_of_attribution hsorted hout hcall.plain ht
              sorted := ⟨_, hreported⟩
              anchors := fun a ha b hb => eq_of_anchorKey hsorted hout ha hb }
          rw [addAttributions_append]
          exact rowsBetween_insertOnce hdb hcall hsel
            (ih ((List.prefix_append front [r]).trans hfront))
    exact (hbetween done List.prefix_rfl).kept

/-- What each scope of a call keeps the call keeps. -/
theorem ingestScopes_keeps (Inv : Ledger → Prop)
    {cond : Ledger → CallContext → List Attempt → List Attempt → Prop}
    (hscope : ∀ l context attempts history bulk, cond l context attempts history → Inv l →
      Inv (ingestScope l context attempts history bulk).ledger)
    (contexts : Scope → CallContext) (bulk : Bool) {scopes : List Scope}
    (hmeet : ScopesMeet cond contexts attempts history bulk scopes l) (hl : Inv l) :
    Inv (ingestScopes contexts attempts history bulk scopes l).ledger := by
  induction scopes generalizing l with
  | nil => exact hl
  | cons s rest ih =>
      have hstep := hscope _ _ _ _ bulk hmeet.1 hl
      rw [ingestScopes]
      dsimp only
      split
      · case isTrue hcompleted => exact ih (hmeet.2 hcompleted) hstep
      · exact hstep

/-- **Call rule.**  What the calls at scopes that meet a condition keep, a call
keeps that meets it at each scope. -/
theorem ingest_keeps (Inv : Ledger → Prop)
    {cond : Ledger → CallContext → List Attempt → List Attempt → Prop}
    (hscope : ∀ l context attempts history bulk, cond l context attempts history → Inv l →
      Inv (ingestScope l context attempts history bulk).ledger)
    {call : RuntimeCall} (hmeet : CallMeets cond l call) (hl : Inv l) : Inv (l.ingest call) := by
  unfold CallMeets at hmeet
  unfold Ledger.ingest ingestRuntimeBatch
  cases hscopes : scopesOf call.attempts with
  | nil => exact hl
  | cons s rest =>
      rw [hscopes] at hmeet
      cases rest with
      | nil => exact hscope _ _ _ _ call.bulkPersistence hmeet hl
      | cons s' rest =>
          exact ingestScopes_keeps Inv hscope call.contexts call.bulkPersistence hmeet hl

/-- A call whose attempts fit keeps the rows. -/
theorem rowsKept_ingest (hdb : OrdersTexts db) {call : RuntimeCall} (hfits : IngestFits db l call)
    (hkept : RowsKept db l.attributions) : RowsKept db (l.ingest call).attributions := by
  have hmeet : CallMeets (EvaluationFits db) l call := by
    unfold IngestFits at hfits
    unfold CallMeets
    exact hfits
  exact ingest_keeps (fun l => RowsKept db l.attributions)
    (fun _ _ _ _ bulk hscope hrows => rowsKept_ingestScope hdb bulk hscope hrows) hmeet hkept

end Ingest

section Workers

variable [Digest] {db : Database} {l : Ledger}

/-- **Late verdict.**  It keeps the rows. -/
theorem rowsKept_late {t : Attribution} (hfits : LateFits l t) (hkept : RowsKept db l.attributions) :
    RowsKept db (persistLateAttribution l t).attributions := by
  unfold persistLateAttribution
  split
  · exact hkept
  · case h_2 prior hprior =>
      split
      · exact hkept
      · case isFalse hlate =>
          rw [not_or, not_not] at hlate
          obtain ⟨hother, hreferrer⟩ := hlate
          have hmem := List.mem_of_find?_eq_some hprior
          have hfound := List.find?_some hprior
          simp only [Bool.and_eq_true, decide_eq_true_eq] at hfound
          obtain ⟨hid, hscope⟩ := hfound
          show RowsKept db (insertOnce (·.attributionId) (lateAttribution t) l.attributions)
          refine Supersession.kept_by_insertOnce hkept fun hfresh => ?_
          obtain ⟨hsame, hhead, hexcluded⟩ :=
            hfits prior hmem hid hscope hother hreferrer hfresh
          refine ⟨⟨hfresh, fun hnone => ?_, fun x hx => ?_⟩, fun e he k hexcl hk hk' => ?_,
            fun k hexcl _ => ?_⟩
          · cases hnone
          · obtain rfl : t.attributionId = x := Option.some.inj hx
            refine ⟨prior, hmem, hid, hsame, fun k _ => ⟨hmem, fun s hs => ?_⟩⟩
            rw [show attributionTable.id prior = t.attributionId from hid]
            exact hhead s hs
          · exact hexcluded ⟨e, he, hexcl, hk.trans hk'.symm⟩
          · have hreason : t.reasonCode = .fraudExcluded := hexcl
            rw [hreason] at hreferrer
            cases hreferrer

/-- **Clock anomaly.**  It supersedes heads, and says of each installation
what was said before. -/
theorem rowsKept_clockAnomaly (scope : Scope) (metricDate : CalendarDate)
    (negativeCount installCount : BinaryFloat.Number) (bundle : FraudBundle) (now : Timestamp)
    (hkept : RowsKept db l.attributions) :
    RowsKept db (markClockAnomalyAttributionsProvisional db l scope metricDate negativeCount
      installCount bundle now).attributions := by
  unfold markClockAnomalyAttributionsProvisional
  split
  · exact hkept
  · split
    · exact hkept
    · have hpriors : ∀ p ∈ l.clickAttributions db scope metricDate, p ∈ l.attributions ∧
          p.reasonCode = .validInstallReferrer ∧ l.isSuperseded p = false := by
        intro p hp
        rw [Ledger.clickAttributions, List.mem_mergeSort, List.mem_filter] at hp
        simp only [Bool.and_eq_true, decide_eq_true_eq, Bool.not_eq_true'] at hp
        exact ⟨hp.1, hp.2.1.1.2, hp.2.2⟩
      have hnodup : ((l.clickAttributions db scope metricDate).map (·.attributionId)).Nodup := by
        have hperm : (l.clickAttributions db scope metricDate).Perm _ := List.mergeSort_perm _ _
        refine ((hperm.map _).nodup_iff).mpr (hkept.1.nodup.sublist ?_)
        exact List.filter_sublist.map _
      refine Supersession.kept_by_supersedeAll (clockProvisional metricDate now)
        (l.clickAttributions db scope metricDate) hkept hnodup (fun p hp => ?_)
        (fun p _ => rfl) (fun p _ => rfl) (fun p _ hcredits => hcredits) (fun p hp hexcl => ?_)
      · obtain ⟨hmem, -, hsuperseded⟩ := hpriors p hp
        refine ⟨hmem, fun k hk => ⟨hmem, fun s hs hsuper => ?_⟩⟩
        -- the row that supersedes it is about the same installation, in its scope
        obtain ⟨q, hq, hqid, hsubject⟩ := hkept.1.refers s hs _ hsuper
        obtain rfl : q = p := List.inj_on_of_nodup_map hkept.1.nodup hq hmem hqid
        have hscope : s.scope = q.scope := by
          have hs' : s.installation = some k := hsubject.symm.trans hk
          have hq' : q.installation = some k := hk
          unfold Attribution.installation at hs' hq'
          split at hs'
          · split at hq'
            · rw [← hq'] at hs'
              exact congrArg Prod.fst (Option.some.inj hs')
            · cases hq'
          · cases hs'
        have hany : l.isSuperseded q = true := by
          refine List.any_eq_true.mpr ⟨s, hs, ?_⟩
          rw [Bool.and_eq_true]
          exact ⟨decide_eq_true hscope, decide_eq_true hsuper⟩
        rw [hany] at hsuperseded
        cases hsuperseded
      · obtain ⟨-, hreferrer, -⟩ := hpriors p hp
        have hreason : p.reasonCode = .fraudExcluded := hexcl
        rw [hreason] at hreferrer
        cases hreferrer

omit [Digest] in
/-- An attribution the engines read is one of the installation. -/
theorem installation_of_engineAttribution {scope : Scope} {ref : String}
    {watermark : Option Timestamp} {t : Attribution}
    (h : l.engineAttribution db scope ref watermark = some t) :
    t ∈ l.attributions ∧ t.installation = some (scope, some ref) := by
  obtain ⟨hmem, hcond⟩ := List.mem_filter.mp (AppendOnly.mem_of_latest h)
  rw [Bool.and_eq_true, decide_eq_true_eq] at hcond
  exact ⟨hmem, hcond.1⟩

omit [Digest] in
/-- What a lookup says of an install. -/
theorem adservicesVerdict_status (status : AdservicesStatus) :
    (adservicesVerdict status).reasonCode ≠ .fraudExcluded ∧
      ((adservicesVerdict status).status = .nonOrganic → status = .attributed) := by
  cases status <;> exact ⟨nofun, by first | exact fun _ => rfl | nofun⟩

omit [Digest] in
/-- **Lookup.**  Its answer keeps the rows. -/
theorem rowsKept_lookup (textDigest : String → String) {w : AttributionWorld} {row : LookupRow}
    {answer : LookupAnswer} (hfits : LookupFits db textDigest w row answer)
    (hkept : RowsKept db w.ledger.attributions) :
    RowsKept db (completeLookup db textDigest w row answer).ledger.attributions := by
  unfold completeLookup
  split
  · exact hkept
  · case h_2 prior hprior =>
      dsimp only
      split
      · exact hkept
      · case isFalse hnew =>
          obtain ⟨hfresh, hfirst⟩ := not_or.mp hnew
          obtain ⟨hhead, hexcluded⟩ := hfits prior hprior hfresh hfirst
          obtain ⟨ref, -, hread⟩ := Option.bind_eq_some_iff.mp hprior
          obtain ⟨hmem, -⟩ := installation_of_engineAttribution hread
          obtain ⟨hreason, hstatus⟩ := adservicesVerdict_status answer.status
          have hfits' : Fits attributionTable w.ledger.attributions
              (lookupReplacement textDigest row answer prior) := by
            refine ⟨hfresh, (fun hnone => nomatch hnone), fun x hx => ?_⟩
            obtain rfl : prior.attributionId = x := Option.some.inj hx
            exact ⟨prior, hmem, rfl, rfl, fun k _ => ⟨hmem, hhead⟩⟩
          have hrespects : Respects attributionTable (fun a b => isLaterAttribution db a b = true)
              Attribution.Excludes Attribution.Credits w.ledger.attributions
              (lookupReplacement textDigest row answer prior) := by
            refine ⟨fun e he k hexcl hk hk' hcredits => ?_, fun k hexcl _ => absurd hexcl hreason⟩
            exact hexcluded ⟨e, he, hexcl, hk.trans hk'.symm⟩ (hstatus hcredits)
          exact ⟨hkept.1.append hfits', hkept.2.append hkept.1 hfits' hrespects⟩

variable [PayloadSchemas]

/-- **Step.**  Every step under its condition keeps the rows.  The cases are
the writers of the table. -/
theorem rowsKept_step (hdb : OrdersTexts db) (textDigest : String → String) (w : AttributionWorld)
    (step : AttributionStep) (hkept : RowsKept db w.ledger.attributions)
    (hfits : StepFits db textDigest w step) :
    RowsKept db (AttributionWorld.step db textDigest w step).ledger.attributions := by
  cases step with
  | ingest call => exact rowsKept_ingest hdb hfits hkept
  | late attribution => exact rowsKept_late hfits hkept
  | clockAnomaly scope metricDate negativeCount installCount bundle now =>
      exact rowsKept_clockAnomaly scope metricDate negativeCount installCount bundle now hkept
  | lookup row answer => exact rowsKept_lookup textDigest hfits hkept

end Workers

section Law

/-- An attribution stands at the head of its installation. -/
def Ledger.IsCurrent (l : Ledger) (t : Attribution) : Prop :=
  t ∈ l.attributions ∧ ∀ s ∈ l.attributions, s.supersedesAttributionId ≠ some t.attributionId

/-- Every attributed installation has one attribution without a successor, and
behind an exclusion the engines read no credit for its installation, at any
watermark from the exclusion on. -/
structure ExclusionDominates (db : Database) (l : Ledger) : Prop where
  oneHead : ∀ t ∈ l.attributions, ∀ installation, t.installation = some installation →
    ∃! head, l.IsCurrent head ∧ head.installation = some installation
  excluded : ∀ e ∈ l.attributions, e.Excludes → ∀ scope ref,
    e.installation = some (scope, some ref) →
    ∀ watermark : Option Timestamp, watermark.all (isBefore e.decidedAt) = true →
    ∀ t, l.engineAttribution db scope ref watermark = some t → ¬ t.Credits

variable {db : Database} {l : Ledger}

/-- In a ledger with such rows the exclusions dominate. -/
theorem exclusionDominates_of_rowsKept (hdb : OrdersTexts db) (hkept : RowsKept db l.attributions) :
    ExclusionDominates db l := by
  obtain ⟨hchained, hdominated⟩ := hkept
  constructor
  · intro t ht installation habout
    obtain ⟨head, hhead, hsame⟩ := hchained.hasHead t ht installation habout
    refine ⟨head, ⟨hhead, hsame⟩, ?_⟩
    rintro other ⟨hother, hsame'⟩
    exact hchained.oneHead other head installation hother hhead hsame' hsame
  · intro e he hexcludes scope ref habout watermark hwatermark t ht
    have hread : ∀ s ∈ l.attributions.filter (fun s =>
        s.installation = some (scope, some ref) && watermark.all (isBefore s.decidedAt)),
        attributionTable.subject s = some (scope, some ref) := by
      intro s hs
      have hcond := (List.mem_filter.mp hs).2
      rw [Bool.and_eq_true, decide_eq_true_eq] at hcond
      exact hcond.1
    have hread_e : e ∈ l.attributions.filter (fun s =>
        s.installation = some (scope, some ref) && watermark.all (isBefore s.decidedAt)) := by
      refine List.mem_filter.mpr ⟨he, ?_⟩
      rw [Bool.and_eq_true]
      exact ⟨decide_eq_true habout, hwatermark⟩
    exact Supersession.not_credits_of_latest (isLaterAttribution_trans hdb)
      (isLaterAttribution_irrefl hdb) hdominated (List.filter_subset_self _) hread hread_e hexcludes
      ht

/-- What an attribution says of an installation, read field by field. -/
theorem installation_iff (t : Attribution) (scope : Scope) (ref : Option String) :
    t.installation = some (scope, ref) ↔
      t.scope = scope ∧ t.subjectScope = .installationLevel ∧ t.subjectRef = ref := by
  unfold Attribution.installation
  split
  · case isTrue hlevel =>
      rw [Option.some.injEq, Prod.mk.injEq]
      exact ⟨fun h => ⟨h.1, hlevel, h.2⟩, fun h => ⟨h.1, h.2.2⟩⟩
  · case isFalse hlevel => exact ⟨nofun, fun h => absurd h.2.1 hlevel⟩

/-- The cohort query reads the attribution of the engines, without a
watermark. -/
theorem currentAttribution_eq (tables : MetricTables) (i : InstallRow)
    (htables : tables.attributionResults = l.attributions) :
    tables.currentAttribution db i = l.engineAttribution db i.scope i.installationId.text none := by
  unfold MetricTables.currentAttribution Ledger.engineAttribution
  rw [htables]
  congr 1
  refine List.filter_congr fun t _ => ?_
  rw [Bool.eq_iff_iff]
  simp only [Bool.and_eq_true, decide_eq_true_eq, installation_iff, Option.all_none, and_true,
    and_assoc]

/-- The event query reads the attribution of the engines at its watermark. -/
theorem eventAttribution_eq (tables : MetricTables) (q : MetricQuery) (e : EventRow × RecordRow)
    (installationId : Identifier) (htables : tables.attributionResults = l.attributions)
    (hinstall : e.1.eventName = .install) :
    tables.eventAttribution db q e (some installationId) =
      l.engineAttribution db e.1.scope installationId.text (some q.watermark) := by
  unfold MetricTables.eventAttribution Ledger.engineAttribution
  rw [htables]
  congr 1
  refine List.filter_congr fun t _ => ?_
  rw [Bool.eq_iff_iff]
  simp [installation_iff, hinstall, and_assoc]

variable [Digest] [PayloadSchemas]

/-- **Fraud exclusion over runs.**  In every run of the workers whose steps
all meet their conditions, every attributed installation has one head, and the
engines read no credit for an excluded one. -/
theorem exclusion_dominates (db : Database) (hdb : OrdersTexts db) (textDigest : String → String)
    (steps : List AttributionStep)
    (hmeet : StepsMeet (AttributionWorld.step db textDigest) (StepFits db textDigest) {} steps) :
    ExclusionDominates db (steps.foldl (AttributionWorld.step db textDigest) {}).ledger := by
  have hstart : RowsKept db ({} : AttributionWorld).ledger.attributions :=
    ⟨Supersession.chained_nil, Supersession.dominated_nil⟩
  have hstep : ∀ (w : AttributionWorld) (step : AttributionStep),
      RowsKept db w.ledger.attributions → StepFits db textDigest w step →
        RowsKept db (AttributionWorld.step db textDigest w step).ledger.attributions :=
    fun w step hw hfits => rowsKept_step hdb textDigest w step hw hfits
  exact exclusionDominates_of_rowsKept hdb (invariant_of_steps hstep hmeet hstart)

end Law

section Runs

attribute [local instance] checksumDigest memberSchemas

/-- Rules that exclude replayed clicks. -/
def replayRules : FraudBundle where
  id := .named "replay"
  version := .named "1"
  layers := { base := [] }
  rules := [⟨"transport-replay-v1", ["replay_signal"], .exclude⟩]

/-- The rules as the active revision. -/
def replayRevision : FraudRuleBundleContext where
  ruleBundleId := replayRules.id
  ruleBundleVersion := replayRules.version
  ruleBundleHash := sha256 (toJson replayRules)
  definitionDigest := sha256 (toJson replayRules)
  definition := replayRules

/-- An install that names a click. -/
def referredInstall : Attempt :=
  launchAttempt (.named "install") {
    eventName := .install
    installationId := some (.named "installation")
    installType := some .firstInstall
    clickId := some (.named "click")
    installBeginAtServer := some ⟨2026, 1, 2, 3, 4, 0, 0⟩ }

/-- The click it names, a replayed one. -/
def replayedClick : Attempt :=
  let click := launchAttempt (.named "click") {
    eventName := .click
    clickId := some (.named "click")
    redirectorClickAt := some ⟨2026, 1, 2, 3, 3, 0, 0⟩
    replaySuspected := some true }
  { click with server := { click.server with fraudActionsEnabled := some true } }

/-- A call under the rules. -/
def judgedCall (attempts history : List Attempt) : RuntimeCall :=
  { launchCall attempts history with
    contexts := fun _ => {
      activeRevision := some replayRevision
      trackingLink := fun _ => none
      fault := none } }

/-- The second of two calls on an empty ledger. -/
def secondCall (first second : RuntimeCall) : CallResult :=
  ingestRuntimeBatch (({} : Ledger).ingest first) second.contexts second.attempts second.history
    second.bulkPersistence

/-- Two passes, the second with the late verdicts of its attributions. -/
def passSteps (first second : RuntimeCall) : List AttributionStep :=
  [.ingest first, .ingest second] ++ (secondCall first second).attributions.map .late

/-- The passes that bring first the install and then its click. -/
def installThenClick : List AttributionStep :=
  passSteps (judgedCall [referredInstall] []) (judgedCall [replayedClick] [referredInstall])

/-- The engines read a credit for an excluded installation. -/
def creditsExcluded (l : Ledger) : Bool :=
  match l.attributions.find? (fun t => t.reasonCode = .fraudExcluded &&
      t.installation = some (referredInstall.scope, some "installation")),
    l.engineAttribution plainDatabase referredInstall.scope "installation" none with
  | some _, some t => t.status = .nonOrganic
  | _, _ => false

/-- The credit breaks the law. -/
theorem not_exclusionDominates_of_creditsExcluded {l : Ledger} (h : creditsExcluded l = true) :
    ¬ ExclusionDominates plainDatabase l := by
  unfold creditsExcluded at h
  split at h
  · case h_1 e t he ht =>
      have hcond := List.find?_some he
      simp only [Bool.and_eq_true, decide_eq_true_eq] at hcond
      obtain ⟨hexcludes, habout⟩ := hcond
      have hstatus : t.status = .nonOrganic := of_decide_eq_true h
      intro hlaw
      exact hlaw.excluded e (List.mem_of_find?_eq_some he) hexcludes _ _ habout none rfl t ht hstatus
  · cases h

/-- What late verdicts leave of a call. -/
def CallResult.withLate (result : CallResult) : Ledger :=
  match result with
  | ⟨l, _, attributions⟩ => attributions.foldl persistLateAttribution l

/-- What two passes leave in the ledger. -/
theorem ledger_of_passSteps (textDigest : String → String) (first second : RuntimeCall) :
    ((passSteps first second).foldl (AttributionWorld.step plainDatabase textDigest) {}).ledger =
      (secondCall first second).withLate := by
  have hlate : ∀ (verdicts : List Attribution) (w : AttributionWorld),
      ((verdicts.map AttributionStep.late).foldl (AttributionWorld.step plainDatabase textDigest)
        w).ledger = verdicts.foldl persistLateAttribution w.ledger := by
    intro verdicts
    induction verdicts with
    | nil => exact fun _ => rfl
    | cons t rest ih => exact fun w => ih _
  rw [passSteps, List.foldl_append, hlate]
  rfl

set_option maxRecDepth 4000 in
/-- **An escaped exclusion.**  The click of an install comes behind it and is
excluded.  The same pass stores the exclusion and then the referrer verdict
behind it, both superseding the first verdict, and the engines read the
credit. -/
theorem late_referrer_credits :
    ¬ ExclusionDominates plainDatabase
      (installThenClick.foldl (AttributionWorld.step plainDatabase (fun s => s)) {}).ledger := by
  have hcredits : creditsExcluded (secondCall (judgedCall [referredInstall] [])
      (judgedCall [replayedClick] [referredInstall])).withLate = true := by decide +kernel
  rw [installThenClick, ledger_of_passSteps]
  exact not_exclusionDominates_of_creditsExcluded hcredits

/-- The plain database orders texts as it should. -/
theorem ordersTexts_plainDatabase : OrdersTexts plainDatabase where
  irrefl s := by simp [plainDatabase]
  trans r s t hrs hst := by
    simp only [plainDatabase, decide_eq_true_eq] at *
    exact hrs.trans hst
  longer s rest hrest := by
    have hunits : codeUnits rest ≠ [] := fun hempty => hrest (codeUnits_injective hempty)
    exact decide_eq_true (codeUnits_lt_append s rest hunits)

/-- A call of one scope fits where its evaluation does. -/
theorem ingestFits_of_scope {db : Database} {l : Ledger} {call : RuntimeCall} {s : Scope}
    (hscopes : scopesOf call.attempts = [s])
    (hfits : EvaluationFits db l (call.contexts s) call.attempts call.history) :
    IngestFits db l call := by
  unfold IngestFits
  rw [hscopes]
  exact hfits

/-- The ids of the pass are plain. -/
theorem plainIds_of_record {a : Attempt}
    (h : a.record = referredInstall.record ∨ a.record = replayedClick.record) : PlainIds a := by
  have hfront : ∀ s t rest : String, s.toList.head? ≠ t.toList.head? → t.toList ≠ [] →
      s ≠ t ++ rest := by
    intro s t rest hhead hne heq
    rw [heq, String.toList_append, List.head?_append_of_ne_nil _ hne] at hhead
    exact hhead rfl
  have hend : ∀ s t rest : String, s.toList.getLast? ≠ t.toList.getLast? → t.toList ≠ [] →
      s ≠ rest ++ t := by
    intro s t rest hlast hne heq
    rw [heq, String.toList_append, List.getLast?_append_of_ne_nil _ hne] at hlast
    exact hlast rfl
  rcases h with h | h
  · constructor
    · exact fun rest => hfront _ _ rest (by rw [h]; decide) (by decide)
    · exact fun rest => hend _ _ rest (by rw [h]; decide) (by decide)
    · intro id hid rest
      rw [h] at hid
      obtain rfl : (⟨"installation", by decide⟩ : Identifier) = id := Option.some.inj hid
      exact ⟨hfront _ _ rest (by decide) (by decide), hfront _ _ rest (by decide) (by decide)⟩
  · constructor
    · exact fun rest => hfront _ _ rest (by rw [h]; decide) (by decide)
    · exact fun rest => hend _ _ rest (by rw [h]; decide) (by decide)
    · intro id hid
      rw [h] at hid
      cases hid

/-- The install and its click in one pass, and the clock anomalies of the day
behind it: the exclusion stands, and no later row credits the install. -/
theorem exclusion_dominates_onePass :
    ExclusionDominates plainDatabase
      ([.ingest (judgedCall [referredInstall, replayedClick] []),
        .clockAnomaly referredInstall.scope ⟨2026, 1, 2⟩ (.finite 1) (.finite 1) replayRules
          ⟨2026, 1, 3, 0, 0, 0, 0⟩].foldl
          (AttributionWorld.step plainDatabase (fun s => s)) {}).ledger := by
  have hscopes : scopesOf (judgedCall [referredInstall, replayedClick] []).attempts =
      [referredInstall.scope] := by decide
  have hcall : IngestFits plainDatabase {} (judgedCall [referredInstall, replayedClick] []) := by
    refine ingestFits_of_scope hscopes fun _ => ⟨fun a ha => ?_, ?_, ?_⟩
    · have hmem := (List.mem_filter.mp (List.mem_filter.mp ha).1).1
      obtain ⟨x, hx, rfl⟩ := exists_prepared hmem
      refine plainIds_of_record ?_
      rw [prepareAttempt_record]
      rcases hx with hx | hx
      · cases hx
      · rcases List.mem_cons.mp (List.mem_filter.mp hx).1 with rfl | hx
        · exact .inl rfl
        · rw [List.mem_singleton.mp hx]
          exact .inr rfl
    · exact fun _ _ _ _ _ => ⟨fun _ ht => absurd ht List.not_mem_nil,
        fun _ ht => absurd ht List.not_mem_nil⟩
    · exact fun _ _ _ _ _ _ _ => ⟨fun _ ht => absurd ht List.not_mem_nil,
        fun _ ht => absurd ht List.not_mem_nil⟩
  exact exclusion_dominates plainDatabase ordersTexts_plainDatabase (fun s => s) _
    ⟨hcall, trivial, trivial⟩

end Runs

end OpenMasu
