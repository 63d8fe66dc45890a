import OpenMasu.SourceDayIdempotence

/-!
# Quarantines

A fraud decision may quarantine its subject for some hours.  The decision and
the row that waits for its deadline are written together; a worker clears what
is due by a decision that supersedes it, and deletes the row.

* `resolveExpiredQuarantines` — the worker that clears what is due;
* `QuarantinesKept` — the invariant, on the three tables;
* `QuarantinesKept.insertAll`, `QuarantinesKept.resolve` — what insertions and
  a resolution preserve;
* `resolveExpired_kept` — a pass of the worker.
-/

namespace OpenMasu

open AppendOnly (insertAll insertOnce StepsMeet)
open PartialList (bind_eq_ok pure_eq_ok)

section Resolution

variable (db : Database)

/-- `resolve_after <= now`: timestamps of the canonical form compare as their
texts do. -/
def FraudQuarantine.isDue (now : Timestamp) (q : FraudQuarantine) : Bool :=
  q.resolveAfter.any (fun deadline => codeUnits deadline ≤ codeUnits now.text)

/-- `ORDER BY quarantine.resolve_after,quarantine.fraud_decision_id`. -/
def dueOrder (a b : FraudQuarantine × StoredFraud) : Bool :=
  if a.1.resolveAfter = b.1.resolveAfter then
    !db.sortsBefore b.1.fraudDecisionId a.1.fraudDecisionId
  else codeUnits (a.1.resolveAfter.getD "") ≤ codeUnits (b.1.resolveAfter.getD "")

/-- A quarantine of the tenant that is due, joined with its decision. -/
def FraudWorld.dueRow (w : FraudWorld) (tenantId : Identifier) (now : Timestamp)
    (q : FraudQuarantine) : Option (FraudQuarantine × StoredFraud) :=
  if q.scope.tenantId = tenantId && q.isDue now then
    (w.ledger.fraudDecisions.find? (fun s =>
      s.decision.fraudDecisionId = q.fraudDecisionId && s.scope = q.scope)).map (fun s => (q, s))
  else none

/-- The quarantines of a tenant that are due, each with its decision. -/
def FraudWorld.dueQuarantines (w : FraudWorld) (tenantId : Identifier) (now : Timestamp) :
    List (FraudQuarantine × StoredFraud) :=
  (w.ledger.fraudQuarantines.filterMap (w.dueRow tenantId now)).insertionSort
    (fun a b => dueOrder db a b = true)

/-- The decision that clears another. -/
def clearDecision (id : String) (now : Timestamp) (prior : StoredFraud) : StoredFraud :=
  ⟨prior.scope, { prior.decision with
    fraudDecisionId := id
    decision := .clear
    action := .allow
    evaluatedAt := now
    resolutionDeadlineAt := none }⟩

/-- The tables with a quarantine resolved. -/
def FraudWorld.resolved (w : FraudWorld) (now : Timestamp) (id : String)
    (due : FraudQuarantine × StoredFraud) : FraudWorld :=
  { w with
    ledger := { w.ledger with
      fraudDecisions := w.ledger.fraudDecisions ++ [clearDecision id now due.2]
      fraudQuarantines := w.ledger.fraudQuarantines.filter
        (fun q => q.fraudDecisionId ≠ due.1.fraudDecisionId) }
    resolutions := w.resolutions ++ [⟨id, due.2.scope, due.2.decision, now⟩] }

/-- One row of the worker: the clearing decision is inserted, whose key has to
be free, and the quarantine is deleted. -/
def resolveRow (now : Timestamp) (id : String) (due : FraudQuarantine × StoredFraud)
    (w : FraudWorld) : Except Failure FraudWorld :=
  if id ∈ w.ledger.fraudDecisions.map (·.decision.fraudDecisionId) then
    .error (.error "duplicate key value violates unique constraint")
  else .ok (w.resolved now id due)

/-- The rows of the worker one after another; the identifiers are numbered. -/
def resolveRows (now : Timestamp) (uuid : Nat → String) :
    Nat → List (FraudQuarantine × StoredFraud) → FraudWorld → Except Failure FraudWorld
  | _, [], w => .ok w
  | n, due :: rest, w => do
      resolveRows now uuid (n + 1) rest (← resolveRow now ("fraud:" ++ uuid n) due w)

/-- `resolveExpiredQuarantines`: one transaction, under the identifiers
`uuidV7` gives it. -/
def resolveExpiredQuarantines (w : FraudWorld) (tenantId : Identifier) (now : Timestamp)
    (uuid : Nat → String) : Except Failure FraudWorld :=
  resolveRows now uuid 0 (w.dueQuarantines db tenantId now) w

end Resolution

section Tables

/-- A decision with the id has been superseded. -/
def IsResolved (resolutions : List FraudResolution) (id : String) : Prop :=
  ∃ r ∈ resolutions, r.prior.fraudDecisionId = id

/-- A quarantine is the scope's, and has been resolved. -/
def IsClosed (resolutions : List FraudResolution) (scope : Scope) (id : String) : Prop :=
  ∃ r ∈ resolutions, r.prior.action = .quarantine ∧ r.prior.fraudDecisionId = id ∧ r.scope = scope

/-- **Quarantines.**  A decision that quarantines has a deadline and, until it
is superseded, its row; then it has none, was due, and is not superseded
again. -/
structure QuarantinesKept (decisions : List StoredFraud) (quarantines : List FraudQuarantine)
    (resolutions : List FraudResolution) : Prop where
  ids : (decisions.map (·.decision.fraudDecisionId)).Nodup
  rows : (quarantines.map (·.fraudDecisionId)).Nodup
  deadline : ∀ s ∈ decisions, s.decision.action = .quarantine →
    s.decision.resolutionDeadlineAt.isSome = true
  pending : ∀ s ∈ decisions, s.decision.action = .quarantine →
    ¬ IsResolved resolutions s.decision.fraudDecisionId →
      s.decision.quarantine s.scope ∈ quarantines
  live : ∀ s ∈ decisions, s.decision.action = .quarantine → ∀ q ∈ quarantines,
    q.fraudDecisionId = s.decision.fraudDecisionId → q.scope = s.scope →
      ¬ IsResolved resolutions s.decision.fraudDecisionId
  rowsKnown : ∀ q ∈ quarantines,
    q.fraudDecisionId ∈ decisions.map (·.decision.fraudDecisionId)
  known : ∀ r ∈ resolutions, ∃ s ∈ decisions, s.decision = r.prior ∧ s.scope = r.scope
  once : ((resolutions.filter (fun r => r.prior.action = .quarantine)).map
    (·.prior.fraudDecisionId)).Nodup
  due : ∀ r ∈ resolutions, r.prior.action = .quarantine →
    ∃ deadline, r.prior.resolutionDeadlineAt = some deadline ∧
      codeUnits deadline ≤ codeUnits r.evaluatedAt.text
  cleared : ∀ r ∈ resolutions,
    clearDecision r.fraudDecisionId r.evaluatedAt ⟨r.scope, r.prior⟩ ∈ decisions

variable {decisions : List StoredFraud} {quarantines : List FraudQuarantine}
  {resolutions : List FraudResolution}

theorem quarantinesKept_nil : QuarantinesKept [] [] [] where
  ids := List.nodup_nil
  rows := List.nodup_nil
  deadline _ h := absurd h List.not_mem_nil
  pending _ h := absurd h List.not_mem_nil
  live _ h := absurd h List.not_mem_nil
  rowsKnown _ h := absurd h List.not_mem_nil
  known _ h := absurd h List.not_mem_nil
  once := List.nodup_nil
  due _ h := absurd h List.not_mem_nil
  cleared _ h := absurd h List.not_mem_nil

section Kept

variable (h : QuarantinesKept decisions quarantines resolutions)

include h

/-- What is superseded is a decision of the table. -/
theorem QuarantinesKept.not_isResolved {id : String}
    (hfresh : id ∉ decisions.map (·.decision.fraudDecisionId)) : ¬ IsResolved resolutions id := by
  rintro ⟨r, hr, rfl⟩
  obtain ⟨s, hs, hprior, -⟩ := h.known r hr
  exact hfresh (List.mem_map.mpr ⟨s, hs, by rw [hprior]⟩)

/-- Decisions with one id are one. -/
theorem QuarantinesKept.eq_of_id {s s' : StoredFraud} (hs : s ∈ decisions) (hs' : s' ∈ decisions)
    (hid : s.decision.fraudDecisionId = s'.decision.fraudDecisionId) : s = s' :=
  List.inj_on_of_nodup_map h.ids hs hs' hid

/-- A decision that quarantines and has been superseded is closed. -/
theorem QuarantinesKept.isClosed {s : StoredFraud} (hs : s ∈ decisions)
    (haction : s.decision.action = .quarantine)
    (hresolved : IsResolved resolutions s.decision.fraudDecisionId) :
    IsClosed resolutions s.scope s.decision.fraudDecisionId := by
  obtain ⟨r, hr, hid⟩ := hresolved
  obtain ⟨s', hs', hprior, hscope⟩ := h.known r hr
  have heq : s' = s := h.eq_of_id hs' hs (by rw [hprior, hid])
  refine ⟨r, hr, ?_, hid, ?_⟩
  · rw [← hprior, heq]
    exact haction
  · rw [← hscope, heq]

/-- A decision under a free id that does not quarantine changes nothing. -/
theorem QuarantinesKept.append_decision {s : StoredFraud}
    (haction : s.decision.action ≠ .quarantine)
    (hfresh : s.decision.fraudDecisionId ∉ decisions.map (·.decision.fraudDecisionId)) :
    QuarantinesKept (decisions ++ [s]) quarantines resolutions := by
  have hold : ∀ s' ∈ decisions ++ [s], s'.decision.action = .quarantine → s' ∈ decisions := by
    intro s' hs' hquarantine
    rcases List.mem_append.mp hs' with hs' | hs'
    · exact hs'
    · rw [List.mem_singleton.mp hs'] at hquarantine
      exact absurd hquarantine haction
  refine ⟨?_, h.rows, ?_, ?_, ?_, ?_, ?_, h.once, h.due, ?_⟩
  · rw [List.map_append]
    refine h.ids.append (List.nodup_singleton _) fun id hid hid' => ?_
    rw [List.map_singleton, List.mem_singleton] at hid'
    exact hfresh (hid' ▸ hid)
  · exact fun s' hs' hq => h.deadline s' (hold s' hs' hq) hq
  · exact fun s' hs' hq => h.pending s' (hold s' hs' hq) hq
  · exact fun s' hs' hq => h.live s' (hold s' hs' hq) hq
  · intro q hq
    rw [List.map_append]
    exact List.mem_append_left _ (h.rowsKnown q hq)
  · intro r hr
    obtain ⟨s', hs', hrest⟩ := h.known r hr
    exact ⟨s', List.mem_append_left _ hs', hrest⟩
  · exact fun r hr => List.mem_append_left _ (h.cleared r hr)

/-- A decision under a free id comes with its row. -/
theorem QuarantinesKept.append_quarantine {s : StoredFraud}
    (hdeadline : s.decision.resolutionDeadlineAt.isSome = true)
    (hfresh : s.decision.fraudDecisionId ∉ decisions.map (·.decision.fraudDecisionId)) :
    QuarantinesKept (decisions ++ [s]) (quarantines ++ [s.decision.quarantine s.scope])
      resolutions := by
  have hopen := h.not_isResolved hfresh
  refine ⟨?_, ?_, ?_, ?_, ?_, ?_, ?_, h.once, h.due, ?_⟩
  · rw [List.map_append]
    refine h.ids.append (List.nodup_singleton _) fun id hid hid' => ?_
    rw [List.map_singleton, List.mem_singleton] at hid'
    exact hfresh (hid' ▸ hid)
  · rw [List.map_append]
    refine h.rows.append (List.nodup_singleton _) fun id hid hid' => ?_
    rw [List.map_singleton, List.mem_singleton] at hid'
    obtain ⟨q, hq, rfl⟩ := List.mem_map.mp hid
    refine hfresh ?_
    have hknown := h.rowsKnown q hq
    rw [hid'] at hknown
    exact hknown
  · intro s' hs' hq
    rcases List.mem_append.mp hs' with hs' | hs'
    · exact h.deadline s' hs' hq
    · rw [List.mem_singleton.mp hs']
      exact hdeadline
  · intro s' hs' hq hnone
    rcases List.mem_append.mp hs' with hs' | hs'
    · exact List.mem_append_left _ (h.pending s' hs' hq hnone)
    · rw [List.mem_singleton.mp hs']
      exact List.mem_append_right _ List.mem_cons_self
  · intro s' hs' hquarantine q hq hid hscope
    rcases List.mem_append.mp hs' with hs' | hs'
    · rcases List.mem_append.mp hq with hq | hq
      · exact h.live s' hs' hquarantine q hq hid hscope
      · rw [List.mem_singleton.mp hq] at hid
        refine absurd ?_ hfresh
        exact List.mem_map.mpr ⟨s', hs', hid.symm⟩
    · rw [List.mem_singleton.mp hs']
      exact hopen
  · intro q hq
    rw [List.map_append]
    rcases List.mem_append.mp hq with hq | hq
    · exact List.mem_append_left _ (h.rowsKnown q hq)
    · rw [List.mem_singleton.mp hq]
      exact List.mem_append_right _ List.mem_cons_self
  · intro r hr
    obtain ⟨s', hs', hrest⟩ := h.known r hr
    exact ⟨s', List.mem_append_left _ hs', hrest⟩
  · exact fun r hr => List.mem_append_left _ (h.cleared r hr)

/-- A row for a decision that is there, unless that is a closed quarantine of
its scope, changes nothing either. -/
theorem QuarantinesKept.insert_row {d : FraudDecision} {scope : Scope}
    (hopen : ¬ IsClosed resolutions scope d.fraudDecisionId)
    (htaken : d.fraudDecisionId ∈ decisions.map (·.decision.fraudDecisionId)) :
    QuarantinesKept decisions (insertOnce (·.fraudDecisionId) (d.quarantine scope) quarantines)
      resolutions := by
  refine ⟨h.ids, AppendOnly.nodup_insertOnce h.rows, h.deadline, ?_, ?_, ?_, h.known, h.once, h.due,
    h.cleared⟩
  · exact fun s hs hq hnone => AppendOnly.mem_insertOnce_of_mem (h.pending s hs hq hnone)
  · intro s hs haction q hq hid hscope hresolved
    rcases AppendOnly.mem_insertOnce hq with hq | ⟨rfl, -⟩
    · exact h.live s hs haction q hq hid hscope hresolved
    · refine hopen ?_
      change d.fraudDecisionId = s.decision.fraudDecisionId at hid
      change scope = s.scope at hscope
      rw [hid, hscope]
      exact h.isClosed hs haction hresolved
  · intro q hq
    rcases AppendOnly.mem_insertOnce hq with hq | ⟨rfl, -⟩
    · exact h.rowsKnown q hq
    · exact htaken

/-- **Insertion.**  A decision that has a deadline where it quarantines, and
does not reopen a quarantine, keeps the tables. -/
theorem QuarantinesKept.insert (scope : Scope) (d : FraudDecision)
    (hdeadline : d.action = .quarantine → d.resolutionDeadlineAt.isSome = true)
    (hopen : d.action = .quarantine → ¬ IsClosed resolutions scope d.fraudDecisionId) :
    QuarantinesKept (insertOnce (·.decision.fraudDecisionId) ⟨scope, d⟩ decisions)
      (if d.action = .quarantine then
        insertOnce (·.fraudDecisionId) (d.quarantine scope) quarantines else quarantines)
      resolutions := by
  by_cases htaken : d.fraudDecisionId ∈ decisions.map (·.decision.fraudDecisionId)
  · rw [insertOnce, if_pos htaken]
    split
    · rename_i haction
      exact h.insert_row (hopen haction) htaken
    · exact h
  · rw [insertOnce, if_neg htaken]
    split
    · rename_i haction
      have hrow : (d.quarantine scope).fraudDecisionId ∉ quarantines.map (·.fraudDecisionId) := by
        intro hmem
        obtain ⟨q, hq, hid⟩ := List.mem_map.mp hmem
        have hknown := h.rowsKnown q hq
        rw [hid] at hknown
        exact htaken hknown
      rw [insertOnce, if_neg hrow]
      exact h.append_quarantine (hdeadline haction) htaken
    · rename_i haction
      exact h.append_decision haction htaken

omit h in
/-- Several decisions that do not quarantine keep the tables. -/
theorem QuarantinesKept.insertAll (h : QuarantinesKept decisions quarantines resolutions)
    {new : List StoredFraud} (hflags : ∀ s ∈ new, s.decision.action ≠ .quarantine) :
    QuarantinesKept (AppendOnly.insertAll (·.decision.fraudDecisionId) new decisions) quarantines
      resolutions := by
  induction new generalizing decisions with
  | nil => exact h
  | cons s new ih =>
      rw [AppendOnly.insertAll_cons]
      refine ih ?_ fun s' hs' => hflags s' (List.mem_cons_of_mem _ hs')
      have haction := hflags s List.mem_cons_self
      have hinsert := h.insert s.scope s.decision
        (fun hq => absurd hq haction) (fun hq => absurd hq haction)
      rw [if_neg haction] at hinsert
      exact hinsert

/-- **Resolution.**  A due row is closed by a clearing decision, which
supersedes the one the row is about; every other row is as it was. -/
theorem QuarantinesKept.resolve {q : FraudQuarantine} {s : StoredFraud} {id : String}
    {now : Timestamp} (hq : q ∈ quarantines) (hs : s ∈ decisions)
    (hid : q.fraudDecisionId = s.decision.fraudDecisionId) (hscope : q.scope = s.scope)
    (hdue : q.isDue now = true)
    (hfresh : id ∉ decisions.map (·.decision.fraudDecisionId)) :
    QuarantinesKept (decisions ++ [clearDecision id now s])
      (quarantines.filter (fun q' => q'.fraudDecisionId ≠ q.fraudDecisionId))
      (resolutions ++ [⟨id, s.scope, s.decision, now⟩]) := by
  have hold : ∀ s' ∈ decisions ++ [clearDecision id now s], s'.decision.action = .quarantine →
      s' ∈ decisions := by
    intro s' hs' haction
    rcases List.mem_append.mp hs' with hs' | hs'
    · exact hs'
    · rw [List.mem_singleton.mp hs'] at haction
      cases haction
  have hnew : ∀ {x : String}, IsResolved (resolutions ++ [⟨id, s.scope, s.decision, now⟩]) x →
      IsResolved resolutions x ∨ x = s.decision.fraudDecisionId := by
    rintro x ⟨r, hr, rfl⟩
    rcases List.mem_append.mp hr with hr | hr
    · exact .inl ⟨r, hr, rfl⟩
    · rw [List.mem_singleton.mp hr]
      exact .inr rfl
  refine ⟨?_, (List.filter_sublist.map _).nodup h.rows, ?_, ?_, ?_, ?_, ?_, ?_, ?_, ?_⟩
  · rw [List.map_append]
    refine h.ids.append (List.nodup_singleton _) fun x hx hx' => ?_
    rw [List.map_singleton, List.mem_singleton] at hx'
    rw [show x = id from hx'] at hx
    exact hfresh hx
  · exact fun s' hs' haction => h.deadline s' (hold s' hs' haction) haction
  · intro s' hs' haction hnone
    have hpending := h.pending s' (hold s' hs' haction) haction
      (fun ⟨r, hr, hrid⟩ => hnone ⟨r, List.mem_append_left _ hr, hrid⟩)
    refine List.mem_filter.mpr ⟨hpending, decide_eq_true fun hsame => hnone ?_⟩
    exact ⟨_, List.mem_append_right _ List.mem_cons_self, (hsame.trans hid).symm⟩
  · intro s' hs' haction q' hq' hid' hscope' hresolved
    obtain ⟨hmem, hne⟩ := List.mem_filter.mp hq'
    rcases hnew hresolved with hresolved | hsame
    · exact h.live s' (hold s' hs' haction) haction q' hmem hid' hscope' hresolved
    · exact of_decide_eq_true hne (hid'.trans (hsame.trans hid.symm))
  · intro q' hq'
    rw [List.map_append]
    exact List.mem_append_left _ (h.rowsKnown q' (List.mem_filter.mp hq').1)
  · intro r hr
    rcases List.mem_append.mp hr with hr | hr
    · obtain ⟨s', hs', hrest⟩ := h.known r hr
      exact ⟨s', List.mem_append_left _ hs', hrest⟩
    · rw [List.mem_singleton.mp hr]
      exact ⟨s, List.mem_append_left _ hs, rfl, rfl⟩
  · rw [List.filter_append, List.map_append]
    refine h.once.append ((List.filter_sublist.map _).nodup (List.nodup_singleton _)) ?_
    intro x hx hx'
    obtain ⟨r, hr, rfl⟩ := List.mem_map.mp hx
    obtain ⟨r', hr', hrid⟩ := List.mem_map.mp hx'
    obtain ⟨hr', haction⟩ := List.mem_filter.mp hr'
    rw [List.mem_singleton.mp hr'] at hrid haction
    refine h.live s hs (of_decide_eq_true haction) q hq hid hscope ?_
    exact ⟨r, (List.mem_filter.mp hr).1, hrid.symm⟩
  · intro r hr haction
    rcases List.mem_append.mp hr with hr | hr
    · exact h.due r hr haction
    · rw [List.mem_singleton.mp hr] at haction ⊢
      have hopen := h.live s hs haction q hq hid hscope
      have hrow : q = s.decision.quarantine s.scope :=
        List.inj_on_of_nodup_map h.rows hq (h.pending s hs haction hopen) hid
      rw [hrow, FraudQuarantine.isDue, Option.any_eq_true] at hdue
      obtain ⟨deadline, hdeadline, hle⟩ := hdue
      exact ⟨deadline, hdeadline, of_decide_eq_true hle⟩
  · intro r hr
    rcases List.mem_append.mp hr with hr | hr
    · exact List.mem_append_left _ (h.cleared r hr)
    · rw [List.mem_singleton.mp hr]
      exact List.mem_append_right _ List.mem_cons_self

end Kept

end Tables

section Resolver

/-- Distinct keys stay distinct where elements are dropped and changed. -/
theorem nodup_map_filterMap {α β κ : Type} {f : α → Option β} {key : α → κ} {key' : β → κ}
    (hkey : ∀ a b, f a = some b → key' b = key a) {l : List α} (h : (l.map key).Nodup) :
    ((l.filterMap f).map key').Nodup := by
  induction l with
  | nil => exact List.nodup_nil
  | cons a rest ih =>
      obtain ⟨hhead, htail⟩ := List.nodup_cons.mp h
      rw [List.filterMap_cons]
      split
      · exact ih htail
      · rename_i b hb
        rw [List.map_cons, List.nodup_cons]
        refine ⟨fun hmem => hhead ?_, ih htail⟩
        obtain ⟨b', hb', hsame⟩ := List.mem_map.mp hmem
        obtain ⟨a', ha', hrow⟩ := List.mem_filterMap.mp hb'
        rw [hkey a b hb, hkey a' b' hrow] at hsame
        exact List.mem_map.mpr ⟨a', ha', hsame⟩

variable {w w' : FraudWorld} {now : Timestamp} {uuid : Nat → String}

/-- The three tables of a world are kept. -/
def FraudWorld.QuarantinesKept (w : FraudWorld) : Prop :=
  OpenMasu.QuarantinesKept w.ledger.fraudDecisions w.ledger.fraudQuarantines w.resolutions

/-- The identifiers from a number on are free, and distinct. -/
structure FreeIds (w : FraudWorld) (uuid : Nat → String) (n : Nat) : Prop where
  injective : Function.Injective uuid
  free : ∀ k, n ≤ k →
    "fraud:" ++ uuid k ∉ w.ledger.fraudDecisions.map (·.decision.fraudDecisionId)

/-- Rows that are due, with their decisions. -/
structure DueRows (w : FraudWorld) (now : Timestamp) (due : List (FraudQuarantine × StoredFraud)) :
    Prop where
  distinct : (due.map (·.1.fraudDecisionId)).Nodup
  row : ∀ e ∈ due, e.1 ∈ w.ledger.fraudQuarantines
  decision : ∀ e ∈ due, e.2 ∈ w.ledger.fraudDecisions
  id : ∀ e ∈ due, e.1.fraudDecisionId = e.2.decision.fraudDecisionId
  scope : ∀ e ∈ due, e.1.scope = e.2.scope
  due : ∀ e ∈ due, e.1.isDue now = true

/-- **The worker.**  Under free identifiers it resolves all rows, and keeps the
tables. -/
theorem resolveRows_kept {due : List (FraudQuarantine × StoredFraud)} {n : Nat}
    (hkept : w.QuarantinesKept) (hdue : DueRows w now due) (hfree : FreeIds w uuid n) :
    ∃ w', resolveRows now uuid n due w = .ok w' ∧ w'.QuarantinesKept ∧
      (∀ r ∈ w.resolutions, r ∈ w'.resolutions) ∧
      (∀ s ∈ w.ledger.fraudDecisions, s ∈ w'.ledger.fraudDecisions) ∧
      ∀ e ∈ due, IsResolved w'.resolutions e.2.decision.fraudDecisionId := by
  induction due generalizing w n with
  | nil => exact ⟨w, rfl, hkept, fun _ h => h, fun _ h => h, fun _ h => absurd h List.not_mem_nil⟩
  | cons e rest ih =>
      have he : e ∈ e :: rest := List.mem_cons_self
      have hid := hfree.free n le_rfl
      have hrow : resolveRow now ("fraud:" ++ uuid n) e w =
          .ok (w.resolved now ("fraud:" ++ uuid n) e) := by
        rw [resolveRow, if_neg hid]
      have hnext : (w.resolved now ("fraud:" ++ uuid n) e).QuarantinesKept :=
        hkept.resolve (hdue.row e he) (hdue.decision e he) (hdue.id e he) (hdue.scope e he)
          (hdue.due e he) hid
      obtain ⟨hhead, htail⟩ := List.nodup_cons.mp hdue.distinct
      have hrest := ih hnext (n := n + 1) ?_ ?_
      · obtain ⟨w', hw', hkept', hresolutions, hdecisions, hall⟩ := hrest
        refine ⟨w', ?_, hkept', fun r hr => hresolutions r (List.mem_append_left _ hr),
          fun s hs => hdecisions s (List.mem_append_left _ hs), fun e' he' => ?_⟩
        · rw [resolveRows, hrow]
          exact hw'
        · rcases List.mem_cons.mp he' with rfl | he'
          · exact ⟨_, hresolutions _ (List.mem_append_right _ List.mem_cons_self), rfl⟩
          · exact hall e' he'
      · refine ⟨htail, fun e' he' => List.mem_filter.mpr ⟨?_, decide_eq_true fun hsame => ?_⟩,
          fun e' he' => List.mem_append_left _ (hdue.decision e' (List.mem_cons_of_mem _ he')),
          fun e' he' => hdue.id e' (List.mem_cons_of_mem _ he'),
          fun e' he' => hdue.scope e' (List.mem_cons_of_mem _ he'),
          fun e' he' => hdue.due e' (List.mem_cons_of_mem _ he')⟩
        · exact hdue.row e' (List.mem_cons_of_mem _ he')
        · exact hhead (List.mem_map.mpr ⟨e', he', hsame⟩)
      · refine ⟨hfree.injective, fun k hk hmem => ?_⟩
        rw [FraudWorld.resolved, List.map_append] at hmem
        rcases List.mem_append.mp hmem with hmem | hmem
        · exact hfree.free k (by omega) hmem
        · have hsame : "fraud:" ++ uuid k = "fraud:" ++ uuid n := List.mem_singleton.mp hmem
          have hkn := hfree.injective ((String.append_right_inj _).mp hsame)
          omega

theorem dueRow_eq_some {tenantId : Identifier} {q : FraudQuarantine}
    {e : FraudQuarantine × StoredFraud} :
    w.dueRow tenantId now q = some e ↔ q = e.1 ∧ q.scope.tenantId = tenantId ∧
      q.isDue now = true ∧ w.ledger.fraudDecisions.find? (fun s =>
        s.decision.fraudDecisionId = q.fraudDecisionId && s.scope = q.scope) = some e.2 := by
  unfold FraudWorld.dueRow
  constructor
  · intro h
    split at h
    · rename_i hcond
      rw [Bool.and_eq_true, decide_eq_true_iff] at hcond
      obtain ⟨s, hs, rfl⟩ := Option.map_eq_some_iff.mp h
      exact ⟨rfl, hcond.1, hcond.2, hs⟩
    · cases h
  · rintro ⟨rfl, htenant, hdue, hfound⟩
    rw [if_pos (by rw [Bool.and_eq_true, decide_eq_true_iff]; exact ⟨htenant, hdue⟩), hfound]
    rfl

variable (db : Database)

/-- The rows the worker finds. -/
theorem mem_dueQuarantines {tenantId : Identifier} {e : FraudQuarantine × StoredFraud} :
    e ∈ w.dueQuarantines db tenantId now ↔
      ∃ q ∈ w.ledger.fraudQuarantines, w.dueRow tenantId now q = some e := by
  rw [FraudWorld.dueQuarantines, List.mem_insertionSort, List.mem_filterMap]

theorem dueRows_dueQuarantines (hkept : w.QuarantinesKept) (tenantId : Identifier) :
    DueRows w now (w.dueQuarantines db tenantId now) := by
  have hfound : ∀ e ∈ w.dueQuarantines db tenantId now, e.1 ∈ w.ledger.fraudQuarantines ∧
      e.1.isDue now = true ∧ e.2 ∈ w.ledger.fraudDecisions ∧
      e.2.decision.fraudDecisionId = e.1.fraudDecisionId ∧ e.2.scope = e.1.scope := by
    intro e he
    obtain ⟨q, hq, hrow⟩ := (mem_dueQuarantines db).mp he
    obtain ⟨rfl, -, hdue, hfind⟩ := dueRow_eq_some.mp hrow
    have hcond := List.find?_some hfind
    rw [Bool.and_eq_true, decide_eq_true_iff, decide_eq_true_iff] at hcond
    exact ⟨hq, hdue, List.mem_of_find?_eq_some hfind, hcond⟩
  refine ⟨?_, fun e he => (hfound e he).1, fun e he => (hfound e he).2.2.1,
    fun e he => (hfound e he).2.2.2.1.symm, fun e he => (hfound e he).2.2.2.2.symm,
    fun e he => (hfound e he).2.1⟩
  have hperm : (w.dueQuarantines db tenantId now).Perm
      (w.ledger.fraudQuarantines.filterMap (w.dueRow tenantId now)) := List.perm_insertionSort _ _
  refine (hperm.map (·.1.fraudDecisionId)).nodup_iff.mpr ?_
  exact nodup_map_filterMap (fun q e hrow => by rw [(dueRow_eq_some.mp hrow).1]) hkept.rows

/-- **A pass of the worker.**  It keeps the tables, and behind it every
decision of the tenant that quarantines and is due is superseded. -/
theorem resolveExpired_kept (hkept : w.QuarantinesKept) (tenantId : Identifier)
    (hfree : FreeIds w uuid 0) :
    ∃ w', resolveExpiredQuarantines db w tenantId now uuid = .ok w' ∧ w'.QuarantinesKept ∧
      ∀ s ∈ w.ledger.fraudDecisions, s.scope.tenantId = tenantId → s.decision.action = .quarantine →
        s.decision.resolutionDeadlineAt.any (fun d => codeUnits d ≤ codeUnits now.text) = true →
        s ∈ w'.ledger.fraudDecisions ∧ IsResolved w'.resolutions s.decision.fraudDecisionId := by
  obtain ⟨w', hw', hkept', hresolutions, hdecisions, hall⟩ :=
    resolveRows_kept hkept (dueRows_dueQuarantines db hkept tenantId) hfree
  refine ⟨w', hw', hkept', fun s hs htenant haction hdue => ⟨hdecisions s hs, ?_⟩⟩
  by_cases hresolved : IsResolved w.resolutions s.decision.fraudDecisionId
  · obtain ⟨r, hr, hid⟩ := hresolved
    exact ⟨r, hresolutions r hr, hid⟩
  · have hrow := hkept.pending s hs haction hresolved
    refine hall (s.decision.quarantine s.scope, s) ((mem_dueQuarantines db).mpr
      ⟨_, hrow, dueRow_eq_some.mpr ⟨rfl, htenant, hdue, ?_⟩⟩)
    have hfound : ∃ s', w.ledger.fraudDecisions.find? (fun s' =>
        s'.decision.fraudDecisionId = (s.decision.quarantine s.scope).fraudDecisionId &&
          s'.scope = (s.decision.quarantine s.scope).scope) = some s' := by
      rw [← Option.isSome_iff_exists, List.find?_isSome]
      refine ⟨s, hs, ?_⟩
      rw [Bool.and_eq_true, decide_eq_true_iff, decide_eq_true_iff]
      exact ⟨rfl, rfl⟩
    obtain ⟨s', hs'⟩ := hfound
    have hcond := List.find?_some hs'
    rw [Bool.and_eq_true, decide_eq_true_iff] at hcond
    rw [hs', hkept.eq_of_id (List.mem_of_find?_eq_some hs') hs hcond.1]

end Resolver

end OpenMasu
