import OpenMasu.DeepLinkGuard
import OpenMasu.PrivacyTables

/-!
# The fact rows of logical events

A transaction that brings a logical event brings its fact row behind it.  Of
two events with one id the first stays, and so does the first fact row of a
table with that id; the two come from one delivery.  So the installation that
five fact tables tell for a stored event is the one its payload names, and it
is told exactly for the events of five kinds.

* `countedTable`, `isCounted` — the kinds with such a row;
* `aboutKey` — what the first row under a key is about;
* `FactsKept`, `BringsFacts` — the invariant, and what a transaction brings;
* `LeadsKey` — the delivery of a key that becomes its event;
* `CallNames` — one payload for a record id, one kind for an event id;
* `FactsKept.projectedInstallation` — the installation of a stored event.
-/

namespace OpenMasu

open AppendOnly (insertOnce insertAll)

/-- The fact table, besides that of installs, in which a request for an
installation looks up the events of a kind. -/
def countedTable : EventName → Option FactTable
  | .sessionStart => some .session
  | .purchase => some .purchase
  | .adRevenue => some .adRevenue
  | .customEvent => some .customEvent
  | _ => none

/-- A request for an installation finds the events of the kind. -/
def isCounted (kind : EventName) : Bool := kind = .install || (countedTable kind).isSome

section Rows

/-- The logical event an insertion brings. -/
def Write.logicalRow : Write → Option StoredEvent
  | .logical e => some e
  | _ => none

/-- The fact row an insertion brings. -/
def Write.factRow : Write → Option Fact
  | .fact row => some row
  | _ => none

/-- What the first row under a key is about. -/
def aboutKey (rows : List Fact) (key : FactTable × String) : Option (Scope × Option Identifier) :=
  (rows.find? (fun f => f.key = key)).map (fun f => (f.scope, f.installationId))

variable {l l' : Ledger} {t : Transaction} {w : Write}

@[simp] theorem completeFact_table (l : Ledger) (f : Fact) : (l.completeFact f).table = f.table := by
  unfold Ledger.completeFact
  split <;> rfl

@[simp] theorem completeFact_logicalEventId (l : Ledger) (f : Fact) :
    (l.completeFact f).logicalEventId = f.logicalEventId := by
  unfold Ledger.completeFact
  split <;> rfl

@[simp] theorem completeFact_scope (l : Ledger) (f : Fact) : (l.completeFact f).scope = f.scope := by
  unfold Ledger.completeFact
  split <;> rfl

@[simp] theorem completeFact_installationId (l : Ledger) (f : Fact) :
    (l.completeFact f).installationId = f.installationId := by
  unfold Ledger.completeFact
  split <;> rfl

/-- What is about a key is found in the first rows, else in the second. -/
theorem aboutKey_append (rows rows' : List Fact) (key : FactTable × String) :
    aboutKey (rows ++ rows') key = (aboutKey rows key).or (aboutKey rows' key) := by
  unfold aboutKey
  rw [List.find?_append]
  cases rows.find? (fun f => f.key = key) <;> rfl

/-- A completed row is inserted like the row itself. -/
theorem aboutKey_insertOnce (l : Ledger) (row : Fact) (key : FactTable × String) :
    aboutKey (insertOnce Fact.key (l.completeFact row) l.facts) key =
      (aboutKey l.facts key).or (aboutKey [row] key) := by
  have hkey : (l.completeFact row).key = row.key := by simp [Fact.key]
  have habout : aboutKey [l.completeFact row] key = aboutKey [row] key := by
    by_cases h : row.key = key <;> simp [aboutKey, hkey, h]
  unfold insertOnce
  split
  · case isTrue htaken =>
      rw [hkey] at htaken
      by_cases h : row.key = key
      · obtain ⟨f, hf, hfkey⟩ := List.mem_map.mp htaken
        have hsome : (l.facts.find? (fun f => f.key = key)).isSome :=
          List.find?_isSome.mpr ⟨f, hf, by simp [hfkey, h]⟩
        obtain ⟨g, hg⟩ := Option.isSome_iff_exists.mp hsome
        simp [aboutKey, hg]
      · simp [aboutKey, h]
  · rw [aboutKey_append, habout]

/-- What an insertion changes about the fact rows. -/
theorem aboutKey_of_write (h : l.write w = some l') (key : FactTable × String) :
    aboutKey l'.facts key = (aboutKey l.facts key).or (aboutKey w.factRow.toList key) := by
  cases w with
  | raw | payloadState | delivery | rejection | attribution | reconciliation =>
      cases h
      simp [Write.factRow, aboutKey]
  | fact row =>
      cases h
      exact aboutKey_insertOnce l row key
  | fraud revision scopes d =>
      obtain ⟨_, _, rfl⟩ := Ledger.write_fraud_eq_some h
      simp [Write.factRow, aboutKey]
  | logical e =>
      obtain ⟨-, _, rfl, -⟩ := Ledger.write_logical_eq_some h
      simp [Write.factRow, aboutKey]

/-- **The fact rows of a transaction.**  Under every key the row that was there
stays, and the first that the transaction brings comes where there was none. -/
theorem aboutKey_of_commit (h : l.commit t = some l') (key : FactTable × String) :
    aboutKey l'.facts key =
      (aboutKey l.facts key).or (aboutKey (t.filterMap Write.factRow) key) := by
  induction t generalizing l with
  | nil =>
      cases h
      simp [aboutKey]
  | cons w rest ih =>
      obtain ⟨middle, hw, hrest⟩ := Option.bind_eq_some_iff.mp h
      have hrows : (w :: rest).filterMap Write.factRow =
          w.factRow.toList ++ rest.filterMap Write.factRow := by
        cases hrow : w.factRow <;> simp [hrow]
      rw [ih hrest, aboutKey_of_write hw, hrows, aboutKey_append, Option.or_assoc]

/-- A fact row was there, or it completes the one that the insertion brings. -/
theorem mem_facts_of_write (h : l.write w = some l') {f : Fact} (hf : f ∈ l'.facts) :
    f ∈ l.facts ∨ ∃ row, w = .fact row ∧ f = l.completeFact row := by
  cases w with
  | raw | payloadState | delivery | rejection | attribution | reconciliation =>
      cases h
      exact .inl hf
  | fact row =>
      cases h
      exact (AppendOnly.mem_insertOnce hf).imp_right fun hnew => ⟨row, rfl, hnew.1⟩
  | fraud revision scopes d =>
      obtain ⟨_, _, rfl⟩ := Ledger.write_fraud_eq_some h
      exact .inl hf
  | logical e =>
      obtain ⟨-, _, rfl, -⟩ := Ledger.write_logical_eq_some h
      exact .inl hf

/-- What a transaction leaves of the logical events. -/
theorem logicalEvents_of_commit (h : l.commit t = some l') :
    l'.logicalEvents =
      insertAll (·.event.logicalEventId) (t.filterMap Write.logicalRow) l.logicalEvents := by
  induction t generalizing l with
  | nil =>
      cases h
      rfl
  | cons w rest ih =>
      obtain ⟨middle, hw, hrest⟩ := Option.bind_eq_some_iff.mp h
      rw [ih hrest]
      cases w with
      | raw | payloadState | delivery | fact | rejection | attribution | reconciliation =>
          cases hw
          rfl
      | fraud revision scopes d =>
          obtain ⟨_, _, rfl⟩ := Ledger.write_fraud_eq_some hw
          rfl
      | logical e =>
          obtain ⟨-, _, rfl, -⟩ := Ledger.write_logical_eq_some hw
          rfl

/-- An event has one install fact. -/
theorem installIds_of_write (h : l.write w = some l')
    (hl : (l.installFacts.map (·.logicalEventId)).Nodup) :
    (l'.installFacts.map (·.logicalEventId)).Nodup := by
  cases w with
  | raw | payloadState | delivery | fact | rejection | attribution | reconciliation =>
      cases h
      exact hl
  | fraud revision scopes d =>
      obtain ⟨_, _, rfl⟩ := Ledger.write_fraud_eq_some h
      exact hl
  | logical e =>
      obtain ⟨-, facts, rfl, hfacts⟩ := Ledger.write_logical_eq_some h
      split at hfacts
      · unfold Ledger.projectInstall at hfacts
        split at hfacts
        · cases hfacts
        · dsimp only at hfacts
          split at hfacts
          · cases hfacts
            exact hl
          · case isFalse hfree =>
              split at hfacts
              · cases hfacts
              · cases hfacts
                rw [List.map_append, List.map_singleton]
                refine hl.append (List.nodup_singleton _) fun id hid hid' => ?_
                rw [List.mem_singleton] at hid'
                exact hfree (hid' ▸ hid)
      · rw [hfacts]
        exact hl

end Rows

section Invariant

variable (payloadOf : EvidenceKey → Payload) (kindOf : Scope → String → EventName)

/-- The record id of a delivery stands for its payload, the id of its logical
event for its kind. -/
structure IsNamed (a : Attempt) : Prop where
  payload : a.record.payload = payloadOf a.evidenceKey
  kind : a.record.eventName = kindOf a.scope (logicalEvent a).logicalEventId

/-- A stored event is that of a delivery whose ids stand for payload and
kind. -/
structure EventNamed (e : StoredEvent) : Prop where
  payload : e.attempt.record.payload = payloadOf e.event.evidenceKey
  name : e.event.eventName = e.attempt.record.eventName
  kind : e.event.eventName = kindOf e.event.evidenceKey.scope e.event.logicalEventId

/-- **The invariant.**  Every stored event of a counted kind has the first fact
row under its id, and every fact row is of the kind its id stands for. -/
structure FactsKept (l : Ledger) : Prop where
  events : ∀ e ∈ l.logicalEvents, EventNamed payloadOf kindOf e
  rows : ∀ e ∈ l.logicalEvents, ∀ table, countedTable e.event.eventName = some table →
    aboutKey l.facts (table, e.event.logicalEventId) =
      some (e.event.evidenceKey.scope, (payloadOf e.event.evidenceKey).installationId)
  known : ∀ f ∈ l.facts, f.logicalEventId ∈ l.logicalEvents.map (·.event.logicalEventId)
  kinds : ∀ f ∈ l.facts, ∀ kind, countedTable kind = some f.table →
    kindOf f.scope f.logicalEventId = kind
  installs : InstallsProjected l
  installIds : (l.installFacts.map (·.logicalEventId)).Nodup
  installKinds : ∀ f ∈ l.installFacts, kindOf f.scope f.logicalEventId = .install

/-- A transaction brings with an event its fact row, and no other rows. -/
structure BringsFacts (t : Transaction) : Prop where
  events : ∀ e, .logical e ∈ t → EventNamed payloadOf kindOf e
  rows : ∀ e, (t.filterMap Write.logicalRow).find?
      (fun s => s.event.logicalEventId = e.event.logicalEventId) = some e →
    ∀ table, countedTable e.event.eventName = some table →
      aboutKey (t.filterMap Write.factRow) (table, e.event.logicalEventId) =
        some (e.event.evidenceKey.scope, (payloadOf e.event.evidenceKey).installationId)
  known : ∀ f, .fact f ∈ t →
    f.logicalEventId ∈ (t.filterMap Write.logicalRow).map (·.event.logicalEventId)
  kinds : ∀ f, .fact f ∈ t → ∀ kind, countedTable kind = some f.table →
    kindOf f.scope f.logicalEventId = kind

variable {payloadOf kindOf} {l l' : Ledger} {t : Transaction}

/-- The empty ledger keeps the facts. -/
theorem factsKept_initial : FactsKept payloadOf kindOf {} where
  events _ he := absurd he List.not_mem_nil
  rows _ he := absurd he List.not_mem_nil
  known _ hf := absurd hf List.not_mem_nil
  kinds _ hf := absurd hf List.not_mem_nil
  installs := ⟨fun _ he => absurd he List.not_mem_nil, List.nodup_nil,
    fun _ hf => absurd hf List.not_mem_nil⟩
  installIds := List.nodup_nil
  installKinds _ hf := absurd hf List.not_mem_nil

/-- The logical events of a transaction are its insertions of such. -/
theorem mem_logicalRows {e : StoredEvent} :
    e ∈ t.filterMap Write.logicalRow ↔ .logical e ∈ t := by
  simp only [List.mem_filterMap]
  constructor
  · rintro ⟨w, hw, hrow⟩
    cases w with
    | logical e' =>
        cases hrow
        exact hw
    | raw | payloadState | delivery | fact | rejection | attribution | fraud | reconciliation =>
        cases hrow
  · exact fun h => ⟨_, h, rfl⟩

/-- A fact row was there, or it completes one that the transaction brings. -/
theorem mem_facts_of_commit (h : l.commit t = some l') {f : Fact} (hf : f ∈ l'.facts) :
    f ∈ l.facts ∨ ∃ row, .fact row ∈ t ∧ f.table = row.table ∧
      f.logicalEventId = row.logicalEventId ∧ f.scope = row.scope := by
  refine Ledger.invariant_of_commit (l := l) (fun m => ∀ f ∈ m.facts, f ∈ l.facts ∨
    ∃ row, .fact row ∈ t ∧ f.table = row.table ∧ f.logicalEventId = row.logicalEventId ∧
      f.scope = row.scope) (fun w hw m m' hm hwrite f hf => ?_) (fun f hf => .inl hf) h f hf
  rcases mem_facts_of_write hwrite hf with hf | ⟨row, rfl, rfl⟩
  · exact hm f hf
  · exact .inr ⟨row, hw, by simp, by simp, by simp⟩

/-- **Step.**  A transaction that brings events with their rows keeps the
invariant. -/
theorem FactsKept.commit (hl : FactsKept payloadOf kindOf l)
    (ht : BringsFacts payloadOf kindOf t) (h : l.commit t = some l') :
    FactsKept payloadOf kindOf l' := by
  have hevents := logicalEvents_of_commit h
  have hinstalls : InstallsProjected l' ∧ (l'.installFacts.map (·.logicalEventId)).Nodup ∧
      ∀ f ∈ l'.installFacts, kindOf f.scope f.logicalEventId = .install := by
    refine Ledger.invariant_of_commit (fun m => InstallsProjected m ∧
      (m.installFacts.map (·.logicalEventId)).Nodup ∧
      ∀ f ∈ m.installFacts, kindOf f.scope f.logicalEventId = .install)
      (fun w hw m m' hm hwrite => ?_) ⟨hl.installs, hl.installIds, hl.installKinds⟩ h
    refine ⟨installsProjected_write hm.1 hwrite, installIds_of_write hwrite hm.2.1, fun f hf => ?_⟩
    rcases Ledger.installFacts_of_write hwrite with
      hfacts | ⟨e, installationId, rfl, hname, -, hfacts, -⟩
    · exact hm.2.2 f (hfacts ▸ hf)
    · rw [hfacts] at hf
      rcases List.mem_append.mp hf with hf | hf
      · exact hm.2.2 f hf
      · rw [List.mem_singleton.mp hf]
        exact (ht.events e hw).kind.symm.trans hname
  refine ⟨fun e he => ?_, fun e he table htable => ?_, fun f hf => ?_, fun f hf => ?_, hinstalls.1,
    hinstalls.2.1, hinstalls.2.2⟩
  · rw [hevents] at he
    rcases AppendOnly.mem_insertAll he with he | ⟨he, -⟩
    · exact hl.events e he
    · exact ht.events e (mem_logicalRows.mp he)
  · rw [hevents] at he
    rw [aboutKey_of_commit h]
    rcases AppendOnly.first_of_mem_insertAll he with he | ⟨hfree, hfirst⟩
    · rw [hl.rows e he table htable, Option.some_or]
    · -- no row bears the id of an event that is new
      have hnone : aboutKey l.facts (table, e.event.logicalEventId) = none := by
        rw [aboutKey, Option.map_eq_none_iff, List.find?_eq_none]
        intro f hf hkey
        rw [decide_eq_true_eq] at hkey
        have hid : f.logicalEventId = e.event.logicalEventId := congrArg Prod.snd hkey
        exact hfree (hid ▸ hl.known f hf)
      rw [hnone, Option.none_or]
      exact ht.rows e hfirst table htable
  · rw [hevents]
    rcases mem_facts_of_commit h hf with hf | ⟨row, hrow, -, hid, -⟩
    · obtain ⟨e, he, heid⟩ := List.mem_map.mp (hl.known f hf)
      exact List.mem_map.mpr ⟨e, AppendOnly.mem_insertAll_of_mem he, heid⟩
    · obtain ⟨e, he, heid⟩ := List.mem_map.mp (ht.known row hrow)
      rw [hid, ← heid]
      exact AppendOnly.key_mem_insertAll (·.event.logicalEventId) l.logicalEvents he
  · rcases mem_facts_of_commit h hf with hf | ⟨row, hrow, htable, hid, hscope⟩
    · exact hl.kinds f hf
    · rw [htable, hid, hscope]
      exact ht.kinds row hrow

end Invariant

section Calls

variable {payloadOf : EvidenceKey → Payload} {kindOf : Scope → String → EventName}

/-- The fact row of a logical event is about what the event's delivery names;
its table belongs to one kind. -/
theorem projection_eq_some {trackingLink : Attempt → Option Identifier} {a : Attempt}
    {e : LogicalEvent} {f : Fact} (h : projection trackingLink a e = some f) :
    f.logicalEventId = e.logicalEventId ∧ f.scope = e.evidenceKey.scope ∧
      f.installationId = a.record.payload.installationId ∧
      ∀ kind, countedTable kind = some f.table → a.record.eventName = kind := by
  obtain ⟨row, hrow, rfl⟩ := Option.map_eq_some_iff.mp h
  refine ⟨rfl, rfl, rfl, fun kind hkind => ?_⟩
  dsimp only at hkind
  unfold projectedColumns at hrow
  dsimp only at hrow
  split at hrow <;> cases hrow <;> cases kind <;> first | assumption | cases hkind

/-- An event of a counted kind has a fact row. -/
theorem exists_projection {a : Attempt} {table : FactTable}
    (h : countedTable a.record.eventName = some table)
    (trackingLink : Attempt → Option Identifier) (e : LogicalEvent) :
    ∃ f, projection trackingLink a e = some f ∧ f.table = table := by
  cases hname : a.record.eventName <;> rw [hname] at h <;> cases h <;>
    exact ⟨_, by rw [projection, projectedColumns, hname]; rfl, rfl⟩

variable [Digest] {all attempts : List Attempt} {out : EvaluationOutput} {context : CallContext}

/-- Every reported event is read from one attempt, in any order of them. -/
theorem projectedAttempt_of_report (report : RuntimeReport all out) {e : LogicalEvent}
    (he : e ∈ out.logicalEvents) {order : List Attempt} (hperm : ∀ a, a ∈ order ↔ a ∈ all) :
    ∃ a ∈ all, logicalEvent a = e ∧ projectedAttempt order e = some a := by
  obtain ⟨a, ha, hwin, rfl⟩ := (report.logicalEvents e).mp he
  have hsome : (projectedAttempt order (logicalEvent a)).isSome :=
    List.find?_isSome.mpr ⟨a, (hperm a).mpr ha, decide_eq_true rfl⟩
  obtain ⟨b, hb⟩ := Option.isSome_iff_exists.mp hsome
  have hmem : b ∈ all := (hperm b).mp (List.mem_of_find?_eq_some hb)
  have hfind := hb
  rw [projectedAttempt] at hfind
  have hkey := List.find?_some hfind
  rw [decide_eq_true_eq] at hkey
  have hrecord : b.record.recordId = a.record.recordId := congrArg EvidenceKey.recordId hkey
  obtain rfl := eq_of_isSole ha hmem ((isWinner_iff ha).mp hwin).1 hrecord
  exact ⟨b, ha, rfl, hb⟩

/-- The events of a transaction, in order. -/
def eventRows (all : List Attempt) (events : List LogicalEvent) : List StoredEvent :=
  (events.filterMap (logicalWrite all)).filterMap Write.logicalRow

/-- The fact rows of the events, in order. -/
def factRows (context : CallContext) (all : List Attempt) (events : List LogicalEvent) :
    List Fact :=
  (events.filterMap (factWrite context all)).filterMap Write.factRow

omit [Digest] in
/-- One more event with an attempt is one more row. -/
theorem eventRows_cons {e : LogicalEvent} {events : List LogicalEvent} {a : Attempt}
    (h : projectedAttempt all e = some a) :
    eventRows all (e :: events) = ⟨a, e⟩ :: eventRows all events := by
  simp [eventRows, logicalWrite, h, Write.logicalRow]

omit [Digest] in
/-- One more event brings the fact it projects to, where there is one. -/
theorem factRows_cons {e : LogicalEvent} {events : List LogicalEvent} {a : Attempt}
    (h : projectedAttempt all e = some a) : factRows context all (e :: events) =
      (projection context.clickTrackingLink a e).toList ++ factRows context all events := by
  cases hrow : projection context.clickTrackingLink a e <;>
    simp [factRows, factWrite, h, hrow, Write.factRow]

/-- The first event with an id has the first fact row with that id in the table
of its kind. -/
theorem aboutKey_factRows (report : RuntimeReport all out) {events : List LogicalEvent}
    (hevents : ∀ e ∈ events, e ∈ out.logicalEvents) {s : StoredEvent}
    (hfirst : (eventRows all events).find?
      (fun r => r.event.logicalEventId = s.event.logicalEventId) = some s)
    {table : FactTable} (htable : countedTable s.attempt.record.eventName = some table) :
    aboutKey (factRows context all events) (table, s.event.logicalEventId) =
      some (s.event.evidenceKey.scope, s.attempt.record.payload.installationId) := by
  induction events with
  | nil => cases hfirst
  | cons e rest ih =>
      obtain ⟨a, -, -, hattempt⟩ := projectedAttempt_of_report report
        (hevents e List.mem_cons_self) (fun _ => Iff.rfl)
      rw [eventRows_cons hattempt] at hfirst
      rw [factRows_cons hattempt, aboutKey_append]
      by_cases hid : e.logicalEventId = s.event.logicalEventId
      · rw [List.find?_cons_of_pos (by simpa using hid)] at hfirst
        cases hfirst
        obtain ⟨f, hf, rfl⟩ := exists_projection htable context.clickTrackingLink e
        obtain ⟨hfid, hfscope, hfinstallation, -⟩ := projection_eq_some hf
        simp [hf, aboutKey, Fact.key, hfid, hfscope, hfinstallation]
      · rw [List.find?_cons_of_neg (by simpa using hid)] at hfirst
        have hnone : aboutKey (projection context.clickTrackingLink a e).toList
            (table, s.event.logicalEventId) = none := by
          rw [aboutKey, Option.map_eq_none_iff, List.find?_eq_none]
          intro f hf hkey
          rw [decide_eq_true_eq] at hkey
          have hfid : f.logicalEventId = s.event.logicalEventId := congrArg Prod.snd hkey
          exact hid ((projection_eq_some (Option.mem_toList.mp hf)).1.symm.trans hfid)
        rw [hnone, Option.none_or]
        exact ih (fun e' he' => hevents e' (List.mem_cons_of_mem _ he')) hfirst

/-- A transaction that brings the rows of reported events, and no facts of
other kinds than theirs. -/
structure CarriesEvents (context : CallContext) (all : List Attempt) (events : List LogicalEvent)
    (t : Transaction) : Prop where
  logical : t.filterMap Write.logicalRow = eventRows all events
  facts : ∀ f, .fact f ∈ t → f ∈ factRows context all events
  about : ∀ kind table, countedTable kind = some table → ∀ id,
    aboutKey (t.filterMap Write.factRow) (table, id) =
      aboutKey (factRows context all events) (table, id)

/-- A row of the events is that of one of them. -/
theorem exists_of_mem_eventRows (report : RuntimeReport all out) {events : List LogicalEvent}
    (hevents : ∀ e ∈ events, e ∈ out.logicalEvents) {s : StoredEvent}
    (hs : s ∈ eventRows all events) : s.attempt ∈ all ∧ logicalEvent s.attempt ∈ events ∧
      logicalEvent s.attempt = s.event := by
  obtain ⟨w, hw, hrow⟩ := List.mem_filterMap.mp hs
  obtain ⟨e, he, hwrite⟩ := List.mem_filterMap.mp hw
  obtain ⟨a, ha, hlogical, hattempt⟩ := projectedAttempt_of_report report (hevents e he)
    (fun _ => Iff.rfl)
  rw [logicalWrite, hattempt] at hwrite
  cases hwrite
  cases hrow
  exact ⟨ha, hlogical ▸ he, hlogical⟩

/-- A fact row of the events is the projection of one of them. -/
theorem exists_of_mem_factRows (report : RuntimeReport all out) {events : List LogicalEvent}
    (hevents : ∀ e ∈ events, e ∈ out.logicalEvents) {f : Fact}
    (hf : f ∈ factRows context all events) : ∃ a ∈ all, logicalEvent a ∈ events ∧
      (⟨a, logicalEvent a⟩ : StoredEvent) ∈ eventRows all events ∧
      projection context.clickTrackingLink a (logicalEvent a) = some f := by
  obtain ⟨w, hw, hrow⟩ := List.mem_filterMap.mp hf
  obtain ⟨e, he, hwrite⟩ := List.mem_filterMap.mp hw
  obtain ⟨a, ha, rfl, hattempt⟩ := projectedAttempt_of_report report (hevents e he)
    (fun _ => Iff.rfl)
  obtain ⟨b, hb, hprojection⟩ := Option.bind_eq_some_iff.mp hwrite
  obtain ⟨g, hg, rfl⟩ := Option.map_eq_some_iff.mp hprojection
  cases hattempt.symm.trans hb
  cases hrow
  refine ⟨a, ha, he, List.mem_filterMap.mpr ⟨.logical ⟨a, logicalEvent a⟩, ?_, rfl⟩, hg⟩
  exact List.mem_filterMap.mpr ⟨logicalEvent a, he, by rw [logicalWrite, hattempt]; rfl⟩

/-- A transaction that carries reported events brings their facts. -/
theorem CarriesEvents.bringsFacts (report : RuntimeReport all out) {events : List LogicalEvent}
    (hnamed : ∀ a ∈ all, logicalEvent a ∈ events → IsNamed payloadOf kindOf a)
    (hevents : ∀ e ∈ events, e ∈ out.logicalEvents) {t : Transaction}
    (h : CarriesEvents context all events t) : BringsFacts payloadOf kindOf t where
  events e he := by
    rw [← mem_logicalRows, h.logical] at he
    obtain ⟨ha, hevent, hlogical⟩ := exists_of_mem_eventRows report hevents he
    have hattempt := hnamed _ ha hevent
    exact ⟨by rw [← hlogical]; exact hattempt.payload, by rw [← hlogical]; rfl,
      by rw [← hlogical]; exact hattempt.kind⟩
  rows e hfirst table htable := by
    rw [h.logical] at hfirst
    obtain ⟨ha, hevent, hlogical⟩ :=
      exists_of_mem_eventRows report hevents (List.mem_of_find?_eq_some hfirst)
    have hpayload : payloadOf e.event.evidenceKey = e.attempt.record.payload := by
      rw [← hlogical]
      exact (hnamed _ ha hevent).payload.symm
    have hname : countedTable e.attempt.record.eventName = some table := by
      rw [← htable, ← hlogical]
      rfl
    rw [h.about _ table hname, hpayload]
    exact aboutKey_factRows report hevents hfirst hname
  known f hf := by
    obtain ⟨a, -, -, hrow, hprojection⟩ := exists_of_mem_factRows report hevents (h.facts f hf)
    rw [h.logical, (projection_eq_some hprojection).1]
    exact List.mem_map.mpr ⟨_, hrow, rfl⟩
  kinds f hf kind hkind := by
    obtain ⟨a, ha, hevent, -, hprojection⟩ := exists_of_mem_factRows report hevents (h.facts f hf)
    obtain ⟨hid, hscope, -, hname⟩ := projection_eq_some hprojection
    rw [hid, hscope, ← hname kind hkind]
    exact (hnamed a ha hevent).kind.symm

omit [Digest] in
/-- The projection of an event brings no logical event. -/
theorem filterMap_factWrite (events : List LogicalEvent) :
    (events.filterMap (factWrite context all)).filterMap Write.logicalRow = [] := by
  rw [List.filterMap_eq_nil_iff]
  intro w hw
  obtain ⟨e, -, hwrite⟩ := List.mem_filterMap.mp hw
  obtain ⟨a, -, hprojection⟩ := Option.bind_eq_some_iff.mp hwrite
  obtain ⟨f, -, rfl⟩ := Option.map_eq_some_iff.mp hprojection
  rfl

omit [Digest] in
/-- A logical event brings no fact row. -/
theorem filterMap_logicalWrite (events : List LogicalEvent) :
    (events.filterMap (logicalWrite all)).filterMap Write.factRow = [] := by
  rw [List.filterMap_eq_nil_iff]
  intro w hw
  obtain ⟨e, -, hwrite⟩ := List.mem_filterMap.mp hw
  obtain ⟨a, -, rfl⟩ := Option.map_eq_some_iff.mp hwrite
  rfl

omit [Digest] in
/-- The facts of a transaction are its insertions of such. -/
theorem mem_factRows {t : Transaction} {f : Fact} :
    f ∈ t.filterMap Write.factRow ↔ .fact f ∈ t := by
  simp only [List.mem_filterMap]
  constructor
  · rintro ⟨w, hw, hrow⟩
    cases w with
    | fact row =>
        cases hrow
        exact hw
    | raw | payloadState | delivery | logical | rejection | attribution | fraud | reconciliation =>
        cases hrow
  · exact fun h => ⟨_, h, rfl⟩

omit [Digest] in
variable (all context) in
/-- The transaction of an attempt carries its event, if it has one. -/
theorem carries_attemptTransaction (selected : Selected) (x : Attempt) :
    ∃ events, (∀ e ∈ events, e ∈ selected.logicalEvents) ∧
      CarriesEvents context all events (attemptTransaction context all selected x) := by
  let logical := (InsertionMap.ofList (selected.logicalEvents.map (fun e => (e.recordId, e)))).get
    x.record.recordId
  have hbind : ∀ write : LogicalEvent → Option Write,
      (logical.bind write).toList = logical.toList.filterMap write := by
    intro write
    cases logical with
    | none => rfl
    | some e => cases h : write e <;> simp [h]
  have hfacts : (attemptTransaction context all selected x).filterMap Write.factRow =
      factRows context all logical.toList := by
    simp only [attemptTransaction, List.filterMap_append, List.filterMap_map, Function.comp_def,
      Write.factRow, List.filterMap_none, List.nil_append, List.append_nil]
    rw [hbind, hbind, filterMap_logicalWrite, List.nil_append]
    rfl
  refine ⟨logical.toList, fun e he => ?_, ⟨?_, fun f hf => ?_, fun _ _ _ _ => by rw [hfacts]⟩⟩
  · obtain ⟨e', he', heq⟩ := List.mem_map.mp
      (InsertionMap.mem_of_get_ofList (Option.mem_toList.mp he))
    obtain ⟨-, rfl⟩ := Prod.mk.inj heq
    exact he'
  · simp only [attemptTransaction, List.filterMap_append, List.filterMap_map, Function.comp_def,
      Write.logicalRow, List.filterMap_none, List.nil_append, List.append_nil]
    rw [hbind, hbind, filterMap_factWrite, List.append_nil]
    rfl
  · rw [← hfacts]
    exact mem_factRows.mpr hf

variable (context) in
/-- A reported event is written alike in any order of the attempts. -/
theorem write_of_report (report : RuntimeReport all out) {e : LogicalEvent}
    (he : e ∈ out.logicalEvents) : logicalWrite all.reverse e = logicalWrite all e ∧
      factWrite context all.reverse e = factWrite context all e := by
  obtain ⟨a, ha, rfl, hattempt⟩ := projectedAttempt_of_report report he (fun _ => Iff.rfl)
  obtain ⟨b, hb, hlogical, hreverse⟩ :=
    projectedAttempt_of_report report he (fun a => @List.mem_reverse _ a all)
  have hwinner := (report.logicalEvents _).mp he
  obtain ⟨w, hw, hwin, hevent⟩ := hwinner
  have hsole := ((isWinner_iff hw).mp hwin).1
  have hsame : b = a := by
    rw [eq_of_isSole hw ha hsole (congrArg LogicalEvent.recordId hevent).symm,
      eq_of_isSole hw hb hsole (congrArg LogicalEvent.recordId (hlogical.trans hevent.symm))]
  rw [logicalWrite, logicalWrite, factWrite, factWrite, hattempt, hreverse, hsame]
  exact ⟨rfl, rfl⟩

/-- Events that are left out and have no row in a table do not change what the
first row there is about. -/
theorem aboutKey_factRows_filter (report : RuntimeReport all out) {events : List LogicalEvent}
    (hevents : ∀ e ∈ events, e ∈ out.logicalEvents) {kept : LogicalEvent → Bool}
    {kind : EventName} {table : FactTable} (htable : countedTable kind = some table)
    (hkept : ∀ e ∈ events, e.eventName = kind → kept e = true) (id : String) :
    aboutKey (factRows context all (events.filter kept)) (table, id) =
      aboutKey (factRows context all events) (table, id) := by
  induction events with
  | nil => rfl
  | cons e rest ih =>
      obtain ⟨a, -, hlogical, hattempt⟩ := projectedAttempt_of_report report
        (hevents e List.mem_cons_self) (fun _ => Iff.rfl)
      have hrest := ih (fun e' he' => hevents e' (List.mem_cons_of_mem _ he'))
        (fun e' he' => hkept e' (List.mem_cons_of_mem _ he'))
      rw [factRows_cons hattempt, aboutKey_append]
      by_cases he : kept e = true
      · rw [List.filter_cons_of_pos he, factRows_cons hattempt, aboutKey_append, hrest]
      · have hnone : aboutKey (projection context.clickTrackingLink a e).toList (table, id) =
            none := by
          rw [aboutKey, Option.map_eq_none_iff, List.find?_eq_none]
          intro f hf hkey
          rw [decide_eq_true_eq] at hkey
          have hftable : f.table = table := congrArg Prod.fst hkey
          have hname := (projection_eq_some (Option.mem_toList.mp hf)).2.2.2 kind
            (by rw [htable, hftable])
          exact he (hkept e List.mem_cons_self (by rw [← hlogical]; exact hname))
        rw [List.filter_cons_of_neg he, hrest, hnone, Option.none_or]

omit [Digest] in
/-- Delivery rows bring neither an event nor a fact. -/
theorem filterMap_deliveries {β : Type} {row : Write → Option β}
    (h : ∀ s, row (.delivery s) = none) (attempt : Delivery → Option Attempt)
    (rows : List Delivery) : (rows.flatMap (fun d =>
      ((attempt d).map (fun a => Write.delivery ⟨a, d⟩)).toList)).filterMap row = [] := by
  rw [List.filterMap_eq_nil_iff]
  intro w hw
  obtain ⟨d, -, hd⟩ := List.mem_flatMap.mp hw
  obtain ⟨a, -, rfl⟩ := Option.map_eq_some_iff.mp (Option.mem_toList.mp hd)
  exact h _

/-- A bulk transaction carries the selected events. -/
theorem carries_bulkTransaction (report : RuntimeReport all out) {selected : Selected}
    (hselected : ∀ e ∈ selected.logicalEvents, e ∈ out.logicalEvents) :
    CarriesEvents context all selected.logicalEvents
      (bulkTransaction context all selected attempts) := by
  let isFallback (e : LogicalEvent) : Bool :=
    e.eventName = .deepLinkOpen || (e.eventName = .click && e.producer = .redirector)
  have hlogical : selected.logicalEvents.flatMap (fun e => (logicalWrite all.reverse e).toList) =
      selected.logicalEvents.filterMap (logicalWrite all) := by
    rw [List.filterMap_eq_flatMap_toList]
    refine List.flatMap_congr fun e he => ?_
    rw [(write_of_report context report (hselected e he)).1]
  have hfacts : bulkFacts context all selected.logicalEvents =
      (selected.logicalEvents.filter (fun e => !isFallback e)).filterMap (factWrite context all) ++
        (selected.logicalEvents.filter isFallback).filterMap (factWrite context all) := by
    rw [bulkFacts]
    dsimp only
    congr 1
    refine List.filterMap_congr fun e he => ?_
    exact (write_of_report context report (hselected e (List.mem_filter.mp he).1)).2
  have hnone : (bulkFacts context all selected.logicalEvents).filterMap Write.logicalRow = [] := by
    rw [hfacts, List.filterMap_append, filterMap_factWrite, filterMap_factWrite, List.append_nil]
  have hrows : (bulkTransaction context all selected attempts).filterMap Write.factRow =
      factRows context all (selected.logicalEvents.filter (fun e => !isFallback e)) ++
        factRows context all (selected.logicalEvents.filter isFallback) := by
    simp only [bulkTransaction, hlogical, List.filterMap_append, List.filterMap_map,
      Function.comp_def, Write.factRow, List.filterMap_none, filterMap_logicalWrite,
      List.nil_append, List.append_nil]
    rw [filterMap_deliveries (fun _ => rfl), hfacts, List.filterMap_append, List.nil_append]
    rfl
  have hsub : ∀ (kept : LogicalEvent → Bool), ∀ f ∈ factRows context all
      (selected.logicalEvents.filter kept), f ∈ factRows context all selected.logicalEvents := by
    intro kept
    have hsublist : (selected.logicalEvents.filter kept).Sublist selected.logicalEvents :=
      List.filter_sublist
    exact ((hsublist.filterMap _).filterMap _).subset
  refine ⟨?_, fun f hf => ?_, fun kind table htable id => ?_⟩
  · simp only [bulkTransaction, hlogical, hnone, List.filterMap_append, List.filterMap_map,
      Function.comp_def, Write.logicalRow, List.filterMap_none, List.nil_append, List.append_nil]
    rw [filterMap_deliveries (fun _ => rfl), List.nil_append]
    rfl
  · rw [← mem_factRows, hrows] at hf
    rcases List.mem_append.mp hf with hf | hf
    · exact hsub _ f hf
    · exact hsub _ f hf
  · have hother : aboutKey (factRows context all (selected.logicalEvents.filter isFallback))
        (table, id) = none := by
      rw [aboutKey, Option.map_eq_none_iff, List.find?_eq_none]
      intro f hf hkey
      rw [decide_eq_true_eq] at hkey
      have hftable : f.table = table := congrArg Prod.fst hkey
      obtain ⟨a, -, he, -, hprojection⟩ := exists_of_mem_factRows report
        (fun e he => hselected e (List.mem_filter.mp he).1) hf
      have hname : (logicalEvent a).eventName = kind :=
        (projection_eq_some hprojection).2.2.2 kind (by rw [htable, hftable])
      have hfallback := (List.mem_filter.mp he).2
      simp only [isFallback, hname, Bool.or_eq_true, Bool.and_eq_true, decide_eq_true_eq]
        at hfallback
      -- neither opens nor clicks are of a counted kind
      rcases hfallback with rfl | ⟨rfl, -⟩ <;> cases htable
    rw [hrows, aboutKey_append, hother, Option.or_none]
    refine aboutKey_factRows_filter report hselected htable (fun e _ hname => ?_) id
    simp only [isFallback, hname, Bool.not_eq_true', Bool.or_eq_false_iff, Bool.and_eq_false_iff,
      decide_eq_false_iff_not]
    cases kind <;> cases htable <;> simp

omit [Digest] in
variable (context) in
/-- A transaction of one insertion that is neither carries no event. -/
theorem carries_single {w : Write} (hlogical : w.logicalRow = none) (hfact : w.factRow = none) :
    CarriesEvents context all [] [w] where
  logical := by simp [eventRows, hlogical]
  facts f hf := by
    rw [← List.mem_singleton.mp hf] at hfact
    cases hfact
  about _ _ _ _ := by simp [factRows, hfact]

variable [PayloadSchemas]

/-- The transactions of a call bring events with their facts. -/
theorem bringsFacts_of_call (report : RuntimeReport all out)
    (hnamed : ∀ a ∈ all, logicalEvent a ∈ (select context attempts out).logicalEvents →
      IsNamed payloadOf kindOf a) {bulk : Bool} {t : Transaction}
    (ht : t ∈ callTransactions context bulk all (select context attempts out) attempts) :
    BringsFacts payloadOf kindOf t := by
  have hselected : ∀ e ∈ (select context attempts out).logicalEvents, e ∈ out.logicalEvents :=
    fun e he => (List.mem_filter.mp he).1
  have hnone : ∀ e ∈ ([] : List LogicalEvent), e ∈ out.logicalEvents :=
    fun e he => absurd he List.not_mem_nil
  cases bulk with
  | true =>
      obtain rfl := List.mem_singleton.mp ht
      exact (carries_bulkTransaction report hselected).bringsFacts report hnamed hselected
  | false =>
      rcases mem_rowTransactions ht with ⟨x, -, rfl⟩ | ⟨_, -, rfl⟩ | ⟨_, -, rfl⟩ | ⟨_, -, rfl⟩
      · obtain ⟨events, hevents, hcarries⟩ :=
          carries_attemptTransaction all context (select context attempts out) x
        exact hcarries.bringsFacts report (fun a ha hevent => hnamed a ha (hevents _ hevent))
          (fun e he => hselected e (hevents e he))
      all_goals
        exact (carries_single context rfl rfl).bringsFacts report
          (fun a _ hevent => absurd hevent List.not_mem_nil) hnone

omit [PayloadSchemas] in
/-- Preparing an attempt changes neither of its ids. -/
theorem IsNamed.prepareAttempt {a : Attempt} (h : IsNamed payloadOf kindOf a) (l : Ledger)
    (context : CallContext) : IsNamed payloadOf kindOf (prepareAttempt l context a) := by
  have hscope := prepareAttempt_scope l context a
  have hid : (logicalEvent (OpenMasu.prepareAttempt l context a)).logicalEventId =
      (logicalEvent a).logicalEventId := by
    have htenant := congrArg Scope.tenantId hscope
    have happ := congrArg Scope.appId hscope
    simp only [Attempt.scope] at htenant happ
    simp only [logicalEvent, htenant, happ, prepareAttempt_record]
  refine ⟨?_, ?_⟩
  · rw [prepareAttempt_record, Attempt.evidenceKey, hscope, prepareAttempt_record]
    exact h.payload
  · rw [prepareAttempt_record, hscope, hid]
    exact h.kind

/-- The delivery passes its checks, and none of its key is received before
it. -/
structure LeadsKey (delivered : List Attempt) (a : Attempt) : Prop where
  passes : passesOwnChecks a = true
  first : ∀ b ∈ delivered, scopeKey b = scopeKey a →
    candidateAttemptSortKey a ≤ candidateAttemptSortKey b

omit [PayloadSchemas] in
/-- The first delivery of a key in the order of receipt is received before the
others. -/
theorem le_of_firstOfKey (hsorted : sortCandidateAttempts all = all) {a b : Attempt}
    (hfirst : firstOfKey all (scopeKey a) = some a) (hb : b ∈ all) (hkey : scopeKey b = scopeKey a) :
    candidateAttemptSortKey a ≤ candidateAttemptSortKey b := by
  obtain ⟨before, after, hsplit, hbefore⟩ := (List.find?_eq_some_iff_append.mp hfirst).2
  have hpairwise : all.Pairwise fun x y => candidateAttemptSortKey x ≤ candidateAttemptSortKey y :=
    hsorted ▸ KeyedSort.pairwise_sortOn candidateAttemptSortKey all
  rw [hsplit] at hb hpairwise
  rcases List.mem_append.mp hb with hb | hb
  · exact absurd (hbefore b hb) (by simp [hkey])
  · rcases List.mem_cons.mp hb with rfl | hb
    · exact le_refl _
    · exact List.rel_of_pairwise_cons (List.pairwise_append.mp hpairwise).2.1 hb

/-- An event that a call selects is that of a delivery of the call that leads
its key. -/
theorem leadsKey_of_selected {l : Ledger} {history : List Attempt}
    (report : RuntimeReport (evaluatedAttempts l context attempts history) out) {a : Attempt}
    (ha : a ∈ evaluatedAttempts l context attempts history)
    (hevent : logicalEvent a ∈ (select context attempts out).logicalEvents) :
    ∃ x ∈ validAttempts attempts, prepareAttempt l context x = a ∧
      LeadsKey (history.filter isSchemaValid ++ validAttempts attempts) x := by
  obtain ⟨hreported, hselected⟩ := List.mem_filter.mp hevent
  obtain ⟨w, hw, hwin, hlogical⟩ := (report.logicalEvents _).mp hreported
  obtain ⟨hsole, hpasses, hfirst⟩ := (isWinner_iff hw).mp hwin
  obtain rfl : a = w := eq_of_isSole hw ha hsole (congrArg LogicalEvent.recordId hlogical).symm
  rw [List.contains_iff_mem] at hselected
  obtain ⟨x, hx, hid⟩ := List.mem_map.mp hselected
  have hprepared : prepareAttempt l context x = a := by
    refine eq_of_isSole hw (prepared_mem l context history hx) hsole ?_
    rw [prepareAttempt_record]
    exact hid
  subst hprepared
  rw [passesOwnChecks_prepareAttempt] at hpasses
  refine ⟨x, hx, rfl, hpasses, fun b hb hkey => ?_⟩
  have hsorted := evaluatedAttempts_sorted l context attempts history
  have hmem : prepareAttempt l context b ∈ evaluatedAttempts l context attempts history :=
    mem_sortCandidateAttempts.mpr (List.mem_map_of_mem hb)
  have hprepared : scopeKey (prepareAttempt l context b) = scopeKey (prepareAttempt l context x) := by
    simpa only [scopeKey, prepareAttempt_scope, prepareAttempt_record] using hkey
  have hle := le_of_firstOfKey hsorted hfirst hmem hprepared
  rwa [candidateAttemptSortKey_prepareAttempt, candidateAttemptSortKey_prepareAttempt] at hle

/-- A call whose leading deliveries are named keeps the invariant. -/
theorem factsKept_ingestScope {l : Ledger} {history : List Attempt} {bulk : Bool}
    (hl : FactsKept payloadOf kindOf l)
    (hnamed : ∀ a ∈ validAttempts attempts,
      LeadsKey (history.filter isSchemaValid ++ validAttempts attempts) a →
        IsNamed payloadOf kindOf a) :
    FactsKept payloadOf kindOf (ingestScope l context attempts history bulk).ledger := by
  rcases ingestScope_cases l context attempts history bulk with hsame | ⟨out, ⟨report⟩, -, hledger⟩
  · rw [hsame]
    exact hl
  · have hprepared : ∀ a ∈ evaluatedAttempts l context attempts history,
        logicalEvent a ∈ (select context attempts out).logicalEvents →
          IsNamed payloadOf kindOf a := by
      intro a ha hevent
      obtain ⟨x, hx, rfl, hleads⟩ := leadsKey_of_selected report ha hevent
      exact (hnamed x hx hleads).prepareAttempt l context
    rw [hledger]
    exact Ledger.invariant_of_persist (FactsKept payloadOf kindOf)
      (fun t ht m m' hm hcommit => hm.commit (bringsFacts_of_call report hprepared ht) hcommit) hl

/-- The deliveries of a scope that a call evaluates. -/
def RuntimeCall.delivered (call : RuntimeCall) (scope : Scope) : List Attempt :=
  (call.history.filter (fun a => a.scope = scope)).filter isSchemaValid ++
    validAttempts (call.attempts.filter (fun a => a.scope = scope))

variable (payloadOf kindOf) in
/-- The condition on a call.  A record id stands for one payload in it, and the
id of a logical event for one kind of event among the deliveries that pass
their checks and are received first of their keys. -/
structure CallNames (call : RuntimeCall) : Prop where
  payload : ∀ a ∈ call.attempts ++ call.history, a.record.payload = payloadOf a.evidenceKey
  kind : ∀ a ∈ call.attempts, LeadsKey (call.delivered a.scope) a →
    a.record.eventName = kindOf a.scope (logicalEvent a).logicalEventId

/-- A delivery that leads its key at its scope is named. -/
theorem CallNames.isNamed {call : RuntimeCall} (h : CallNames payloadOf kindOf call) {s : Scope}
    {history : List Attempt} (hwhole : ∀ a ∈ call.history, a.scope = s → a ∈ history) {a : Attempt}
    (ha : a ∈ validAttempts (call.attempts.filter (fun a => a.scope = s)))
    (hleads : LeadsKey (history.filter isSchemaValid ++
      validAttempts (call.attempts.filter (fun a => a.scope = s))) a) :
    IsNamed payloadOf kindOf a := by
  obtain ⟨hmem, hscope⟩ := List.mem_filter.mp (List.mem_filter.mp ha).1
  rw [decide_eq_true_eq] at hscope
  refine ⟨h.payload a (List.mem_append_left _ hmem), h.kind a hmem ⟨hleads.passes, fun b hb => hleads.first b ?_⟩⟩
  rw [hscope] at hb
  rcases List.mem_append.mp hb with hb | hb
  · obtain ⟨hb, hvalid⟩ := List.mem_filter.mp hb
    obtain ⟨hb, hsame⟩ := List.mem_filter.mp hb
    exact List.mem_append_left _
      (List.mem_filter.mpr ⟨hwhole b hb (of_decide_eq_true hsame), hvalid⟩)
  · exact List.mem_append_right _ hb

/-- **Run.**  The invariant holds after every run whose calls are named, by
induction on the calls. -/
theorem factsKept_of_calls {calls : List RuntimeCall}
    (hcalls : ∀ call ∈ calls, CallNames payloadOf kindOf call) :
    FactsKept payloadOf kindOf (calls.foldl Ledger.ingest {}) := by
  have hstep : ∀ (calls : List RuntimeCall) (l : Ledger), FactsKept payloadOf kindOf l →
      (∀ call ∈ calls, CallNames payloadOf kindOf call) →
      FactsKept payloadOf kindOf (calls.foldl Ledger.ingest l) := by
    intro calls
    induction calls with
    | nil => exact fun l hl _ => hl
    | cons call rest ih =>
        intro l hl hcalls
        have hcall := hcalls call List.mem_cons_self
        refine ih (l.ingest call) ?_ (fun c hc => hcalls c (List.mem_cons_of_mem _ hc))
        exact invariant_of_ingestRuntimeBatch (FactsKept payloadOf kindOf) call.contexts
          (fun s history' _ hwhole m hm => factsKept_ingestScope hm fun a ha hleads =>
            hcall.isNamed hwhole ha hleads) hl
  exact hstep calls {} factsKept_initial hcalls

end Calls

section Lookup

variable {payloadOf : EvidenceKey → Payload} {kindOf : Scope → String → EventName} {l : Ledger}
  {e : StoredEvent}

/-- The install fact of an event is that of an install. -/
theorem FactsKept.installInstallation (hl : FactsKept payloadOf kindOf l)
    (he : e ∈ l.logicalEvents) : l.installInstallation e.event =
      if e.event.eventName = .install then (payloadOf e.event.evidenceKey).installationId
      else none := by
  have hnamed := hl.events e he
  split
  · case isTrue hinstall =>
      obtain ⟨installationId, hid, hmem⟩ := hl.installs.event e he hinstall
      have hsome : (l.installFacts.find? (fun f => f.logicalEventId = e.event.logicalEventId &&
          f.scope = e.event.evidenceKey.scope)).isSome := by
        refine List.find?_isSome.mpr ⟨_, hmem, ?_⟩
        simp [StoredEvent.installFact, LogicalEvent.evidenceKey]
      obtain ⟨f, hf⟩ := Option.isSome_iff_exists.mp hsome
      have hfits := List.find?_some hf
      rw [Bool.and_eq_true, decide_eq_true_eq] at hfits
      have hsame : f = e.installFact installationId :=
        List.inj_on_of_nodup_map hl.installIds (List.mem_of_find?_eq_some hf) hmem hfits.1
      rw [Ledger.installInstallation, hf, ← hnamed.payload, hid, hsame]
      rfl
  · case isFalse hother =>
      rw [Ledger.installInstallation, Option.map_eq_none_iff, List.find?_eq_none]
      intro f hf hfits
      rw [Bool.and_eq_true, decide_eq_true_eq, decide_eq_true_eq] at hfits
      refine hother ?_
      rw [hnamed.kind, ← hfits.1, ← hfits.2]
      exact hl.installKinds f hf

/-- The fact row of an event in a table is that of an event of the table's
kind. -/
theorem FactsKept.factInstallation (hl : FactsKept payloadOf kindOf l)
    (he : e ∈ l.logicalEvents) {kind : EventName} {table : FactTable}
    (htable : countedTable kind = some table) : l.factInstallation e.event table =
      if e.event.eventName = kind then (payloadOf e.event.evidenceKey).installationId
      else none := by
  split
  · case isTrue hkind =>
      have habout := hl.rows e he table (by rw [hkind, htable])
      obtain ⟨f, hf, hfabout⟩ := Option.map_eq_some_iff.mp habout
      obtain ⟨hscope, hinstallation⟩ := Prod.mk.inj hfabout
      have hkey := List.find?_some hf
      rw [decide_eq_true_eq] at hkey
      -- the first row under the key is of the scope of the event
      have hfound : l.facts.find? (fun f => f.table = table &&
          f.logicalEventId = e.event.logicalEventId &&
          f.scope = e.event.evidenceKey.scope) = some f := by
        obtain ⟨before, after, hsplit, hbefore⟩ :=
          (List.find?_eq_some_iff_append.mp hf).2
        refine List.find?_eq_some_iff_append.mpr ⟨?_, before, after, hsplit, fun g hg => ?_⟩
        · have htable' : f.table = table := congrArg Prod.fst hkey
          have hid : f.logicalEventId = e.event.logicalEventId := congrArg Prod.snd hkey
          simp [htable', hid, hscope]
        · have hother := hbefore g hg
          simp only [Bool.not_eq_true', decide_eq_false_iff_not] at hother
          simp only [Bool.not_eq_true', Bool.and_eq_false_iff, decide_eq_false_iff_not]
          by_contra hfits
          simp only [not_or, not_not] at hfits
          exact hother (Prod.ext hfits.1.1 hfits.1.2)
      rw [Ledger.factInstallation, hfound, ← hinstallation]
      rfl
  · case isFalse hother =>
      rw [Ledger.factInstallation, Option.bind_eq_none_iff]
      intro f hf
      have hfits := List.find?_some hf
      simp only [Bool.and_eq_true, decide_eq_true_eq] at hfits
      obtain ⟨⟨hftable, hid⟩, hscope⟩ := hfits
      refine absurd ?_ hother
      rw [(hl.events e he).kind, ← hid, ← hscope]
      exact hl.kinds f (List.mem_of_find?_eq_some hf) kind (by rw [htable, hftable])

/-- **The installation of a stored event.**  In every ledger that named calls
leave, five fact tables tell the installation that the payload of the event
names where it is of a counted kind, and none elsewhere. -/
theorem FactsKept.projectedInstallation (hl : FactsKept payloadOf kindOf l)
    (he : e ∈ l.logicalEvents) : l.projectedInstallation e.event =
      if isCounted e.event.eventName then (payloadOf e.event.evidenceKey).installationId
      else none := by
  have hsession := hl.factInstallation he (show countedTable .sessionStart = some .session from rfl)
  have hpurchase := hl.factInstallation he (show countedTable .purchase = some .purchase from rfl)
  have hrevenue := hl.factInstallation he (show countedTable .adRevenue = some .adRevenue from rfl)
  have hcustom := hl.factInstallation he (show countedTable .customEvent = some .customEvent from rfl)
  rw [Ledger.projectedInstallation, hl.installInstallation he, hsession, hpurchase, hrevenue,
    hcustom]
  cases e.event.eventName <;> simp [isCounted, countedTable]

end Lookup

end OpenMasu
