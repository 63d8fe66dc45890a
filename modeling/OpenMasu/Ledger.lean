import OpenMasu.AppendOnly
import OpenMasu.Projection

/-!
# The ledger

The tables that ingestion appends to.  Artifacts with an id are inserted once
and never changed; delivery rows are appended every time.  A transaction is
kept whole or not at all, and a fault between two transactions leaves what was
committed before it.

* `Ledger` — the tables, and the attempts their rows are about;
* `Ledger.write` — one insertion with its constraints;
* `Ledger.commit`, `Ledger.persist` — a transaction, and one after another;
* `Ledger.appended_of_commit`, `Ledger.mem_of_persist` — what they add;
* `Ledger.invariant_of_writes` — what every insertion preserves.
-/

namespace OpenMasu

open AppendOnly (insertOnce)

/-- A row of `event_deliveries`, and the attempt in whose turn it was
appended. -/
structure StoredDelivery where
  attempt : Attempt
  row : Delivery

/-- A row of `logical_events`, and the attempt its projections were read
from. -/
structure StoredEvent where
  attempt : Attempt
  event : LogicalEvent

/-- A row of `install_facts`. -/
structure InstallFact where
  logicalEventId : String
  scope : Scope
  installationId : Identifier
  clickId : Option Identifier
  occurredAt : Timestamp
  columns : List (String × Option Json)

/-- A row of `raw_payload_states`. -/
structure StoredPayloadState where
  scope : Scope
  recordId : Identifier
  lifecycleStatus : LifecycleStatus
  changedAt : Timestamp
  privacyRequestId : Option Identifier := none
  privacyTombstoneId : Option String := none

/-- A row of `fraud_decisions`. -/
structure StoredFraud where
  scope : Scope
  decision : FraudDecision

/-- A row of `fraud_quarantines`. -/
structure FraudQuarantine where
  fraudDecisionId : String
  scope : Scope
  subjectRef : String
  resolveAfter : Option String

structure Ledger where
  rawRecords : List RawRecord := []
  payloadStates : List StoredPayloadState := []
  deliveries : List StoredDelivery := []
  logicalEvents : List StoredEvent := []
  installFacts : List InstallFact := []
  facts : List Fact := []
  rejections : List Rejection := []
  attributions : List Attribution := []
  fraudDecisions : List StoredFraud := []
  fraudQuarantines : List FraudQuarantine := []
  reconciliations : List Reconciliation := []

/-- One insertion of a transaction.  A fraud decision comes with the revision
of the rule bundle it has to be bound to, and the scopes it was found in. -/
inductive Write where
  | raw (record : RawRecord)
  | payloadState (row : StoredPayloadState)
  | delivery (row : StoredDelivery)
  | logical (event : StoredEvent)
  | fact (row : Fact)
  | rejection (row : Rejection)
  | attribution (artifact : Attribution)
  | fraud (revision : Option FraudRuleBundleContext) (scopes : List Scope)
      (artifact : FraudDecision)
  | reconciliation (artifact : Reconciliation)

/-- The scope and the record a raw record is stored under. -/
def RawRecord.evidenceKey (r : RawRecord) : EvidenceKey := ⟨⟨r.tenantId, r.appId⟩, r.recordId⟩

/-- The scope and the record a logical event refers to. -/
def LogicalEvent.evidenceKey (e : LogicalEvent) : EvidenceKey :=
  ⟨⟨e.tenantId, e.appId⟩, e.recordId⟩

/-- The installation an install fact is about. -/
def InstallFact.installation (f : InstallFact) : Scope × Identifier := (f.scope, f.installationId)

/-- The install fact of a logical event about an installation. -/
def StoredEvent.installFact (e : StoredEvent) (installationId : Identifier) : InstallFact where
  logicalEventId := e.event.logicalEventId
  scope := ⟨e.event.tenantId, e.event.appId⟩
  installationId := installationId
  clickId := e.attempt.record.payload.clickId
  occurredAt := e.attempt.record.occurredAt
  columns := installColumns e.attempt.record.payload

/-- `persistProjectionWithClient`, for installs: the install fact of a logical
event.  A missing installation id and a second fact of one installation break
a constraint. -/
def Ledger.projectInstall (l : Ledger) (e : StoredEvent) : Option (List InstallFact) :=
  match e.attempt.record.payload.installationId with
  | none => none
  | some installationId =>
      let fact := e.installFact installationId
      if fact.logicalEventId ∈ l.installFacts.map (·.logicalEventId) then some l.installFacts
      else if fact.installation ∈ l.installFacts.map (·.installation) then none
      else some (l.installFacts ++ [fact])

/-- The payload state a raw record is stored with. -/
def RawRecord.availableState (r : RawRecord) : StoredPayloadState where
  scope := ⟨r.tenantId, r.appId⟩
  recordId := r.recordId
  lifecycleStatus := .available
  changedAt := r.receivedAt

/-- The days from the last session of an open's installation to the open. -/
def Ledger.daysSinceLastSession (l : Ledger) (f : Fact) : Option Int :=
  ((l.facts.filter (fun s => s.table = .session && s.scope = f.scope &&
    s.installationId = f.installationId && s.occurredAt.ms ≤ f.occurredAt.ms)).map
      (·.occurredAt.ms)).max?.map (fun last => (f.occurredAt.ms - last) / dayMs)

/-- A fact as it is inserted: an open is given the days since the last
session. -/
def Ledger.completeFact (l : Ledger) (f : Fact) : Fact :=
  if f.table = .deepLinkOpen then
    { f with columns := f.columns ++
        [("days_since_last_session", (l.daysSinceLastSession f).map .int)] }
  else f

/-- The decision names the revision of the bundle that is active. -/
def FraudDecision.isBoundTo (d : FraudDecision) (revision : Option FraudRuleBundleContext) :
    Bool :=
  revision.any (fun r => d.ruleBundleId = r.ruleBundleId &&
    d.ruleBundleVersion = r.ruleBundleVersion && d.ruleBundleHash = r.ruleBundleHash)

/-- The quarantine a decision starts. -/
def FraudDecision.quarantine (scope : Scope) (d : FraudDecision) : FraudQuarantine where
  fraudDecisionId := d.fraudDecisionId
  scope := scope
  subjectRef := d.subjectRef
  resolveAfter := d.resolutionDeadlineAt

/-- A text of a form; a zero of the form stands for any digit. -/
def fitsForm : List Char → List Char → Bool
  | [], [] => true
  | p :: ps, c :: cs => (if p = '0' then c.isDigit else c = p) && fitsForm ps cs
  | _, _ => false

/-- The domain `canonical_timestamp`. -/
def isCanonicalTimestamp (s : String) : Bool :=
  fitsForm "0000-00-00T00:00:00.000Z".toList s.toList

/-- The checks of `fraud_decisions`: only a source is named as one, a deadline
is a canonical timestamp, and a quarantine has one. -/
def FraudDecision.meetsChecks (d : FraudDecision) : Bool :=
  (d.subjectScope = .source ↔ "source:".toList.isPrefixOf d.subjectRef.toList = true) &&
    d.resolutionDeadlineAt.all isCanonicalTimestamp &&
    (d.action ≠ .quarantine || d.resolutionDeadlineAt.isSome)

/-- `persistFraud`: a decision and the quarantine it starts; none when its
scope is ambiguous, its bundle is not the active one, or a check of the table
fails. -/
def Ledger.writeFraud (l : Ledger) (revision : Option FraudRuleBundleContext) (d : FraudDecision) :
    List Scope → Option Ledger
  | [scope] =>
      if d.isBoundTo revision && d.meetsChecks then some { l with
        fraudDecisions := insertOnce (·.decision.fraudDecisionId) ⟨scope, d⟩ l.fraudDecisions
        fraudQuarantines :=
          if d.action = .quarantine then
            insertOnce (·.fraudDecisionId) (d.quarantine scope) l.fraudQuarantines
          else l.fraudQuarantines }
      else none
  | _ => none

/-- One insertion: none where a constraint of the table is broken.  A logical
event refers to a raw record of its scope. -/
def Ledger.write (l : Ledger) : Write → Option Ledger
  | .raw record => some { l with rawRecords := insertOnce (·.recordId) record l.rawRecords }
  | .payloadState row =>
      some { l with
        payloadStates := insertOnce (fun s => (s.recordId, s.lifecycleStatus)) row l.payloadStates }
  | .delivery row => some { l with deliveries := l.deliveries ++ [row] }
  | .logical event => do
      let events := insertOnce (·.event.logicalEventId) event l.logicalEvents
      if event.event.evidenceKey ∈ l.rawRecords.map (·.evidenceKey) ∨
          event.event.logicalEventId ∈ l.logicalEvents.map (·.event.logicalEventId) then
        if event.event.eventName = .install then
          let facts ← l.projectInstall event
          return { l with logicalEvents := events, installFacts := facts }
        else return { l with logicalEvents := events }
      else none
  | .fact row => some { l with facts := insertOnce Fact.key (l.completeFact row) l.facts }
  | .rejection row => some { l with rejections := l.rejections ++ [row] }
  | .attribution artifact =>
      some { l with attributions := insertOnce (·.attributionId) artifact l.attributions }
  | .fraud revision scopes artifact => l.writeFraud revision artifact scopes
  | .reconciliation artifact =>
      some { l with
        reconciliations := insertOnce (·.reconciliationId) artifact l.reconciliations }

abbrev Transaction := List Write

/-- A transaction: every insertion, or none. -/
def Ledger.commit (l : Ledger) : Transaction → Option Ledger
  | [] => some l
  | w :: rest => (l.write w).bind (·.commit rest)

/-- One transaction after another, up to the first that fails; the flag says
whether all were committed. -/
def Ledger.persistAll (l : Ledger) : List Transaction → Ledger × Bool
  | [] => (l, true)
  | t :: rest => (l.commit t).elim (l, false) (·.persistAll rest)

/-- The transactions that are committed before the connection is lost, where
it is. -/
def Ledger.persist (l : Ledger) (transactions : List Transaction) (fault : Option Nat) :
    Ledger × Bool :=
  match fault with
  | none => l.persistAll transactions
  | some n => ((l.persistAll (transactions.take n)).1, false)

section Writes

variable {l l' : Ledger} {w : Write}

/-- What an insertion changes: the row it brings, where its table takes it. -/
theorem Ledger.write_logical_eq_some {e : StoredEvent} (h : l.write (.logical e) = some l') :
    (e.event.evidenceKey ∈ l.rawRecords.map (·.evidenceKey) ∨
      e.event.logicalEventId ∈ l.logicalEvents.map (·.event.logicalEventId)) ∧
    ∃ facts, l' = { l with
        logicalEvents := insertOnce (·.event.logicalEventId) e l.logicalEvents
        installFacts := facts } ∧
      if e.event.eventName = .install then l.projectInstall e = some facts
      else facts = l.installFacts := by
  simp only [write] at h
  split at h
  · case isTrue href =>
      refine ⟨href, ?_⟩
      split at h
      · case isTrue hinstall =>
          obtain ⟨facts, hfacts, h⟩ := Option.bind_eq_some_iff.mp h
          cases h
          exact ⟨facts, rfl, by rw [if_pos hinstall]; exact hfacts⟩
      · case isFalse hinstall =>
          cases h
          exact ⟨l.installFacts, rfl, by rw [if_neg hinstall]⟩
  · cases h

/-- What projecting an install changes: nothing, or it adds the first fact of
its installation. -/
theorem Ledger.projectInstall_eq_some {e : StoredEvent} {facts : List InstallFact}
    (h : l.projectInstall e = some facts) :
    ∃ installationId, e.attempt.record.payload.installationId = some installationId ∧
      ((facts = l.installFacts ∧
          e.event.logicalEventId ∈ l.installFacts.map (·.logicalEventId)) ∨
        (facts = l.installFacts ++ [e.installFact installationId] ∧
          (e.installFact installationId).installation ∉ l.installFacts.map (·.installation))) := by
  unfold projectInstall at h
  split at h
  · cases h
  · case h_2 installationId hid =>
      refine ⟨installationId, hid, ?_⟩
      dsimp only at h
      split at h
      · case isTrue htaken =>
          cases h
          exact .inl ⟨rfl, htaken⟩
      · split at h
        · cases h
        · case isFalse hfree =>
            cases h
            exact .inr ⟨rfl, hfree⟩

/-- A fraud decision changes its own two tables. -/
theorem Ledger.write_fraud_eq_some {revision : Option FraudRuleBundleContext} {d : FraudDecision}
    {scopes : List Scope} (h : l.write (.fraud revision scopes d) = some l') :
    ∃ decisions quarantines,
      l' = { l with fraudDecisions := decisions, fraudQuarantines := quarantines } := by
  rw [write, writeFraud.eq_def] at h
  split at h
  · split at h
    · cases h
      exact ⟨_, _, rfl⟩
    · cases h
  · cases h

/-- A delivery row was there, or the insertion brought it. -/
theorem Ledger.mem_deliveries_of_write (h : l.write w = some l') {s : StoredDelivery}
    (hs : s ∈ l'.deliveries) : s ∈ l.deliveries ∨ w = .delivery s := by
  cases w with
  | raw | payloadState | fact | rejection | attribution | reconciliation =>
      cases h
      exact .inl hs
  | fraud revision scopes d =>
      obtain ⟨_, _, rfl⟩ := write_fraud_eq_some h
      exact .inl hs
  | delivery row =>
      cases h
      rcases List.mem_append.mp hs with hs | hs
      · exact .inl hs
      · exact .inr (by rw [List.mem_singleton.mp hs])
  | logical e =>
      obtain ⟨-, facts, rfl, -⟩ := write_logical_eq_some h
      exact .inl hs

/-- A logical event was there, or the insertion brought it. -/
theorem Ledger.mem_logicalEvents_of_write (h : l.write w = some l') {e : StoredEvent}
    (he : e ∈ l'.logicalEvents) : e ∈ l.logicalEvents ∨ w = .logical e := by
  cases w with
  | raw | payloadState | delivery | fact | rejection | attribution | reconciliation =>
      cases h
      exact .inl he
  | fraud revision scopes d =>
      obtain ⟨_, _, rfl⟩ := write_fraud_eq_some h
      exact .inl he
  | logical e' =>
      obtain ⟨-, facts, rfl, -⟩ := write_logical_eq_some h
      rcases AppendOnly.mem_insertOnce he with he | ⟨rfl, -⟩
      · exact .inl he
      · exact .inr rfl

/-- An attribution was there, or the insertion brought it. -/
theorem Ledger.mem_attributions_of_write (h : l.write w = some l') {t : Attribution}
    (ht : t ∈ l'.attributions) : t ∈ l.attributions ∨ w = .attribution t := by
  cases w with
  | raw | payloadState | delivery | fact | rejection | reconciliation =>
      cases h
      exact .inl ht
  | fraud revision scopes d =>
      obtain ⟨_, _, rfl⟩ := write_fraud_eq_some h
      exact .inl ht
  | logical e =>
      obtain ⟨-, facts, rfl, -⟩ := write_logical_eq_some h
      exact .inl ht
  | attribution t' =>
      cases h
      rcases AppendOnly.mem_insertOnce ht with ht | ⟨rfl, -⟩
      · exact .inl ht
      · exact .inr rfl

/-- **What an insertion changes about the install facts.**  Nothing, or it is
that of an install and adds the first fact of its installation. -/
theorem Ledger.installFacts_of_write (h : l.write w = some l') :
    l'.installFacts = l.installFacts ∨ ∃ e installationId, w = .logical e ∧
      e.event.eventName = .install ∧
      e.attempt.record.payload.installationId = some installationId ∧
      l'.installFacts = l.installFacts ++ [e.installFact installationId] ∧
      (e.installFact installationId).installation ∉ l.installFacts.map (·.installation) := by
  cases w with
  | raw | payloadState | delivery | fact | rejection | attribution | reconciliation =>
      cases h
      exact .inl rfl
  | fraud revision scopes d =>
      obtain ⟨_, _, rfl⟩ := write_fraud_eq_some h
      exact .inl rfl
  | logical e =>
      obtain ⟨-, facts, rfl, hfacts⟩ := write_logical_eq_some h
      split at hfacts
      · case isTrue hinstall =>
          obtain ⟨installationId, hid, ⟨rfl, -⟩ | ⟨rfl, hfree⟩⟩ := projectInstall_eq_some hfacts
          · exact .inl rfl
          · exact .inr ⟨e, installationId, rfl, hinstall, hid, rfl, hfree⟩
      · exact .inl hfacts

end Writes

section Appended

variable {l l' : Ledger}

/-- The delivery row an insertion appends. -/
def Write.deliveryRow : Write → Option StoredDelivery
  | .delivery row => some row
  | _ => none

/-- The rejection an insertion appends. -/
def Write.rejectionRow : Write → Option Rejection
  | .rejection row => some row
  | _ => none

/-- An insertion appends its delivery row, if it has one, and its rejection,
if it has one. -/
theorem Ledger.appended_of_write {w : Write} (h : l.write w = some l') :
    l'.deliveries = l.deliveries ++ w.deliveryRow.toList ∧
      l'.rejections = l.rejections ++ w.rejectionRow.toList := by
  cases w with
  | raw | payloadState | fact | attribution | reconciliation =>
      cases h
      simp [Write.deliveryRow, Write.rejectionRow]
  | delivery row =>
      cases h
      simp [Write.deliveryRow, Write.rejectionRow]
  | rejection row =>
      cases h
      simp [Write.deliveryRow, Write.rejectionRow]
  | logical e =>
      obtain ⟨-, _, rfl, -⟩ := write_logical_eq_some h
      simp [Write.deliveryRow, Write.rejectionRow]
  | fraud revision scopes d =>
      obtain ⟨_, _, rfl⟩ := write_fraud_eq_some h
      simp [Write.deliveryRow, Write.rejectionRow]

/-- **What a transaction appends.**  The delivery rows and the rejections of
its insertions, in order. -/
theorem Ledger.appended_of_commit {t : Transaction} (h : l.commit t = some l') :
    l'.deliveries = l.deliveries ++ t.filterMap Write.deliveryRow ∧
      l'.rejections = l.rejections ++ t.filterMap Write.rejectionRow := by
  induction t generalizing l with
  | nil =>
      cases h
      simp
  | cons w rest ih =>
      obtain ⟨middle, hw, hrest⟩ := Option.bind_eq_some_iff.mp h
      obtain ⟨hdeliveries, hrejections⟩ := ih hrest
      obtain ⟨hdelivery, hrejection⟩ := appended_of_write hw
      rw [hdeliveries, hrejections, hdelivery, hrejection]
      constructor
      · cases hd : w.deliveryRow <;> simp [hd]
      · cases hr : w.rejectionRow <;> simp [hr]

/-- The attribution an insertion brings. -/
def Write.attributionRow : Write → Option Attribution
  | .attribution artifact => some artifact
  | _ => none

/-- Attributions inserted one after another. -/
def addAttributions (rows new : List Attribution) : List Attribution :=
  new.foldl (fun rows artifact => insertOnce (·.attributionId) artifact rows) rows

theorem addAttributions_append (rows new more : List Attribution) :
    addAttributions rows (new ++ more) = addAttributions (addAttributions rows new) more :=
  List.foldl_append ..

/-- An insertion changes the attributions where it brings one. -/
theorem Ledger.attributions_of_write {w : Write} (h : l.write w = some l') :
    l'.attributions = addAttributions l.attributions w.attributionRow.toList := by
  cases w with
  | raw | payloadState | delivery | fact | rejection | reconciliation =>
      cases h
      rfl
  | attribution artifact =>
      cases h
      rfl
  | logical e =>
      obtain ⟨-, _, rfl, -⟩ := write_logical_eq_some h
      rfl
  | fraud revision scopes d =>
      obtain ⟨_, _, rfl⟩ := write_fraud_eq_some h
      rfl

/-- A transaction inserts its attributions in order. -/
theorem Ledger.attributions_of_commit {t : Transaction} (h : l.commit t = some l') :
    l'.attributions = addAttributions l.attributions (t.filterMap Write.attributionRow) := by
  induction t generalizing l with
  | nil =>
      cases h
      rfl
  | cons w rest ih =>
      obtain ⟨middle, hw, hrest⟩ := Option.bind_eq_some_iff.mp h
      rw [ih hrest, attributions_of_write hw]
      cases hrow : w.attributionRow with
      | none => rw [List.filterMap_cons_none hrow]; rfl
      | some artifact => rw [List.filterMap_cons_some hrow]; rfl

/-- **The attributions of a persistence.**  Those of its transactions are
inserted in order, up to some point. -/
theorem Ledger.attributions_of_persist (l : Ledger) (ts : List Transaction) (fault : Option Nat) :
    ∃ done, done <+: ts.flatten.filterMap Write.attributionRow ∧
      (l.persist ts fault).1.attributions = addAttributions l.attributions done := by
  have hall : ∀ (ts : List Transaction) (l : Ledger), ∃ done,
      done <+: ts.flatten.filterMap Write.attributionRow ∧
        (l.persistAll ts).1.attributions = addAttributions l.attributions done := by
    intro ts
    induction ts with
    | nil => exact fun l => ⟨[], List.nil_prefix, rfl⟩
    | cons t rest ih =>
        intro l
        unfold persistAll
        cases hcommit : l.commit t with
        | none => exact ⟨[], List.nil_prefix, rfl⟩
        | some middle =>
            obtain ⟨done, hprefix, hrows⟩ := ih middle
            refine ⟨t.filterMap Write.attributionRow ++ done, ?_, ?_⟩
            · rw [List.flatten_cons, List.filterMap_append]
              exact List.prefix_append_right_inj _ |>.mpr hprefix
            · rw [Option.elim_some, hrows, addAttributions_append, attributions_of_commit hcommit]
  unfold persist
  cases fault with
  | none => exact hall ts l
  | some n =>
      obtain ⟨done, hprefix, hrows⟩ := hall (ts.take n) l
      refine ⟨done, hprefix.trans ?_, hrows⟩
      have hsplit : ts.flatten = (ts.take n).flatten ++ (ts.drop n).flatten := by
        rw [← List.flatten_append, List.take_append_drop]
      rw [hsplit, List.filterMap_append]
      exact List.prefix_append ..

end Appended

section Facts

variable {l l' : Ledger} (Inv : Ledger → Prop)

/-- **Transaction rule.**  What every insertion of a transaction preserves,
the transaction preserves. -/
theorem Ledger.invariant_of_commit {t : Transaction}
    (hwrite : ∀ w ∈ t, ∀ l l', Inv l → l.write w = some l' → Inv l')
    (hl : Inv l) (h : l.commit t = some l') : Inv l' := by
  induction t generalizing l with
  | nil => cases h; exact hl
  | cons w rest ih =>
      obtain ⟨middle, hw, hrest⟩ := Option.bind_eq_some_iff.mp h
      exact ih (fun w' hw' => hwrite w' (List.mem_cons_of_mem _ hw'))
        (hwrite w List.mem_cons_self l middle hl hw) hrest

/-- **Persistence rule.**  What every transaction preserves holds after any
number of them. -/
theorem Ledger.invariant_of_persistAll {ts : List Transaction}
    (hcommit : ∀ t ∈ ts, ∀ l l', Inv l → l.commit t = some l' → Inv l')
    (hl : Inv l) : Inv (l.persistAll ts).1 := by
  induction ts generalizing l with
  | nil => exact hl
  | cons t rest ih =>
      unfold persistAll
      cases hc : l.commit t with
      | none => exact hl
      | some middle =>
          exact ih (fun t' ht' => hcommit t' (List.mem_cons_of_mem _ ht'))
            (hcommit t List.mem_cons_self l middle hl hc)

/-- A fault keeps an invariant that the transactions keep. -/
theorem Ledger.invariant_of_persist {ts : List Transaction} {fault : Option Nat}
    (hcommit : ∀ t ∈ ts, ∀ l l', Inv l → l.commit t = some l' → Inv l')
    (hl : Inv l) : Inv (l.persist ts fault).1 := by
  unfold persist
  cases fault with
  | none => exact invariant_of_persistAll Inv hcommit hl
  | some n =>
      exact invariant_of_persistAll Inv (fun t ht => hcommit t (List.mem_of_mem_take ht)) hl

/-- **Origin of a row.**  Where every row of a table was there before an
insertion or is the one it brings, every row of the table after a persistence
was there before or was brought by one of its transactions. -/
theorem Ledger.mem_of_persist {α : Type} (rows : Ledger → List α) (bring : α → Write)
    (hwrite : ∀ l w l' r, l.write w = some l' → r ∈ rows l' → r ∈ rows l ∨ w = bring r)
    {ts : List Transaction} {fault : Option Nat} {r : α} (hr : r ∈ rows (l.persist ts fault).1) :
    r ∈ rows l ∨ ∃ t ∈ ts, bring r ∈ t := by
  let Known : Ledger → Prop := fun l' => ∀ r ∈ rows l', r ∈ rows l ∨ ∃ t ∈ ts, bring r ∈ t
  have hcommit : ∀ t ∈ ts, ∀ l₁ l₂, Known l₁ → l₁.commit t = some l₂ → Known l₂ := by
    intro t ht l₁ l₂ h₁ h
    refine invariant_of_commit Known (fun w hw m m' hm hstep r hr => ?_) h₁ h
    rcases hwrite m w m' r hstep hr with hr | rfl
    · exact hm r hr
    · exact .inr ⟨t, ht, hw⟩
  exact invariant_of_persist Known hcommit (fun r hr => .inl hr) r hr

theorem Ledger.mem_deliveries_of_persist {ts : List Transaction} {fault : Option Nat}
    {s : StoredDelivery} (hs : s ∈ (l.persist ts fault).1.deliveries) :
    s ∈ l.deliveries ∨ ∃ t ∈ ts, .delivery s ∈ t :=
  mem_of_persist (·.deliveries) .delivery (fun _ _ _ _ h hr => mem_deliveries_of_write h hr) hs

theorem Ledger.mem_logicalEvents_of_persist {ts : List Transaction} {fault : Option Nat}
    {e : StoredEvent} (he : e ∈ (l.persist ts fault).1.logicalEvents) :
    e ∈ l.logicalEvents ∨ ∃ t ∈ ts, .logical e ∈ t :=
  mem_of_persist (·.logicalEvents) .logical (fun _ _ _ _ h hr => mem_logicalEvents_of_write h hr) he

theorem Ledger.mem_attributions_of_persist {ts : List Transaction} {fault : Option Nat}
    {t : Attribution} (ht : t ∈ (l.persist ts fault).1.attributions) :
    t ∈ l.attributions ∨ ∃ transaction ∈ ts, .attribution t ∈ transaction :=
  mem_of_persist (·.attributions) .attribution
    (fun _ _ _ _ h hr => mem_attributions_of_write h hr) ht

/-- **Write rule.**  What every insertion of every transaction preserves holds
after a persistence. -/
theorem Ledger.invariant_of_writes {ts : List Transaction} {fault : Option Nat}
    (hwrite : ∀ t ∈ ts, ∀ w ∈ t, ∀ l l', Inv l → l.write w = some l' → Inv l')
    (hl : Inv l) : Inv (l.persist ts fault).1 :=
  invariant_of_persist Inv (fun t ht _ _ h hcommit => invariant_of_commit Inv (hwrite t ht) h hcommit)
    hl

end Facts

end OpenMasu
