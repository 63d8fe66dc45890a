import OpenMasu.PrivacyMetrics

/-!
# The lifecycle of evidence

Completed privacy requests redact or purge records, and expirations purge them.
The evaluator keeps the last change of a record; the ledger takes the newest of
rows of which there is one for a record and a status.  So the evaluator wants
the last request about a purged record to purge it, and the ledger wants a
record that is redacted and purged to be redacted first.

* `requestStatuses`, `changesOf`, `expected` — the changes of a record, and
  what they amount to;
* `PrivacyTables.insertChange`, `persistLifecycle` — the rows of the changes;
* `LifecycleStep`, `effects` — the steps that insert payload states, and what
  they do to a record;
* `statuses_run` — the states of a record after a run;
* `lifecycle_iff` — when both agree with what the changes amount to.
-/

namespace OpenMasu

open AppendOnly (insertOnce insertAll)

section Changes

variable [Digest]

/-- The statuses that completed requests give a record, in their order. -/
def requestStatuses (input : EvaluatorInput) (key : EvidenceKey) : List LifecycleStatus :=
  ((completedRedactions input).filter fun e => (⟨e.1.scope, e.2.recordId⟩ : EvidenceKey) = key).map
    (·.2.lifecycleStatus)

/-- The expirations of a record. -/
def expirationsOf (input : EvaluatorInput) (key : EvidenceKey) : List RetentionExpiration :=
  input.retentionExpirations.filter fun e => (⟨e.scope, e.recordId⟩ : EvidenceKey) = key

/-- All changes of a record. -/
def changesOf (input : EvaluatorInput) (key : EvidenceKey) : List LifecycleStatus :=
  requestStatuses input key ++ (expirationsOf input key).map fun _ => .purged

/-- What changes amount to: a purge outweighs a redaction. -/
def expected (changes : List LifecycleStatus) : Option LifecycleStatus :=
  if .purged ∈ changes then some .purged else if .redacted ∈ changes then some .redacted else none

/-- The last request about a record that is purged purges it, unless the record
has expired. -/
def EndsInPurge (input : EvaluatorInput) (key : EvidenceKey) : Prop :=
  expirationsOf input key = [] → .purged ∈ requestStatuses input key →
    (requestStatuses input key).getLast? = some .purged

omit [Digest] in
/-- The index has the last change of a record. -/
theorem get_privacyIndex (input : EvaluatorInput) (key : EvidenceKey) :
    (privacyIndex input).get key = (changesOf input key).getLast? := by
  rw [privacyIndex, InsertionMap.get_ofList_eq_getLast?, ← List.getLast?_map, List.filter_append,
    List.map_append, List.filter_map, List.filter_map, List.map_map, List.map_map]
  rfl

omit [Digest] in
/-- The index agrees with what the changes amount to, under the condition. -/
theorem privacyIndex_iff {input : EvaluatorInput} {key : EvidenceKey}
    (hstatus : ∀ e ∈ completedRedactions input, e.2.lifecycleStatus ≠ .available) :
    (privacyIndex input).get key = expected (changesOf input key) ↔ EndsInPurge input key := by
  have hchange : ∀ status ∈ requestStatuses input key, status ≠ .available := by
    intro status hmem
    obtain ⟨e, he, rfl⟩ := List.mem_map.mp hmem
    exact hstatus e (List.mem_filter.mp he).1
  rw [get_privacyIndex]
  by_cases hexpired : expirationsOf input key = []
  · have hchanges : changesOf input key = requestStatuses input key := by
      rw [changesOf, hexpired, List.map_nil, List.append_nil]
    rw [hchanges, EndsInPurge, expected]
    by_cases hpurged : LifecycleStatus.purged ∈ requestStatuses input key
    · simp [hexpired, hpurged]
    · simp only [hexpired, hpurged, if_false, false_imp_iff, imp_true_iff, iff_true]
      cases hlast : (requestStatuses input key).getLast? with
      | none =>
          rw [List.getLast?_eq_none_iff.mp hlast]
          rfl
      | some status =>
          have hmem := List.mem_of_getLast? hlast
          cases status with
          | available => exact absurd rfl (hchange _ hmem)
          | purged => exact absurd hmem hpurged
          | redacted => rw [if_pos hmem]
  · have hlast : (changesOf input key).getLast? = some .purged := by
      obtain hnil | ⟨rest, last, hconcat⟩ := List.eq_nil_or_concat (expirationsOf input key)
      · exact absurd hnil hexpired
      · rw [changesOf, hconcat]
        simp
    rw [hlast, expected, if_pos (List.mem_of_getLast? hlast)]
    exact ⟨fun _ hnone => absurd hnone hexpired, fun _ => rfl⟩

end Changes

section Orders

variable [Digest]

/-- A record that is both purged and redacted is redacted first. -/
def RedactedFirst (effects : List LifecycleStatus) : Prop :=
  .purged ∈ effects → .redacted ∈ effects → effects.head? = some .redacted

omit [Digest] in
/-- Of two statuses, one of which is there, the other comes in where it
occurs. -/
theorem insertAll_other {rows : List LifecycleStatus} {known other : LifecycleStatus}
    (hknown : known ∈ rows) (hother : other ∉ rows) (effects : List LifecycleStatus)
    (heffects : ∀ status ∈ effects, status = known ∨ status = other) :
    insertAll id effects rows = if other ∈ effects then rows ++ [other] else rows := by
  induction effects with
  | nil => simp
  | cons status effects ih =>
      have hrest : ∀ status ∈ effects, status = known ∨ status = other :=
        fun status h => heffects status (List.mem_cons_of_mem _ h)
      rw [AppendOnly.insertAll_cons]
      rcases heffects status List.mem_cons_self with h | h
      · -- the status is there already
        have hne : other ≠ status := by
          rintro rfl
          exact hother (h ▸ hknown)
        have hsame : insertOnce id status rows = rows := by
          rw [insertOnce, if_pos]
          simpa [h] using hknown
        rw [hsame, ih hrest]
        simp [hne]
      · -- both are there now
        have hnew : insertOnce id status rows = rows ++ [other] := by
          rw [insertOnce, if_neg, h]
          simpa [h] using hother
        rw [hnew, AppendOnly.insertAll_of_taken, if_pos (by simp [h])]
        intro status hmem
        rcases hrest status hmem with h | h
        · simp [h, hknown]
        · simp [h]

omit [Digest] in
/-- The newest row of a record agrees with what the changes amount to, under
the condition. -/
theorem newest_iff {effects : List LifecycleStatus}
    (hstatus : ∀ status ∈ effects, status ≠ .available) :
    (insertAll id effects [LifecycleStatus.available]).getLast? =
      some ((expected effects).getD .available) ↔ RedactedFirst effects := by
  cases effects with
  | nil => simp [expected, RedactedFirst]
  | cons first effects =>
      have hrest : ∀ status ∈ effects, status = .redacted ∨ status = .purged := by
        intro status hmem
        have hne := hstatus status (List.mem_cons_of_mem _ hmem)
        cases status with
        | available => exact absurd rfl hne
        | redacted => exact .inl rfl
        | purged => exact .inr rfl
      rw [AppendOnly.insertAll_cons]
      cases first with
      | available => exact absurd rfl (hstatus .available List.mem_cons_self)
      | redacted =>
          have hrow : insertOnce id LifecycleStatus.redacted [.available] = [.available, .redacted] := by
            decide
          rw [hrow, @insertAll_other _ .redacted .purged (by decide) (by decide)
            effects hrest]
          by_cases hpurged : LifecycleStatus.purged ∈ effects
          · simp [expected, RedactedFirst, hpurged]
          · simp [expected, RedactedFirst, hpurged]
      | purged =>
          have hrow : insertOnce id LifecycleStatus.purged [.available] = [.available, .purged] := by
            decide
          rw [hrow, @insertAll_other _ .purged .redacted (by decide) (by decide)
            effects fun status h => (hrest status h).symm]
          by_cases hredacted : LifecycleStatus.redacted ∈ effects
          · simp [expected, RedactedFirst, hredacted]
          · simp [expected, RedactedFirst, hredacted]

omit [Digest] in
/-- A record with a change is not available again. -/
theorem newest_ne_available {effects : List LifecycleStatus} (hne : effects ≠ [])
    (hstatus : ∀ status ∈ effects, status ≠ .available) :
    (insertAll id effects [LifecycleStatus.available]).getLast? ≠ some .available := by
  obtain ⟨added, hadded, _, hnew⟩ :=
    AppendOnly.insertAll_eq_append id effects [LifecycleStatus.available]
  rw [hadded]
  obtain rfl | ⟨rest, last, rfl⟩ := List.eq_nil_or_concat' added
  · obtain ⟨status, effects, rfl⟩ := List.exists_cons_of_ne_nil hne
    have hmem := AppendOnly.key_mem_insertAll id [LifecycleStatus.available]
      (List.mem_cons_self (a := status) (l := effects))
    rw [hadded] at hmem
    have hsame : status = .available := by simpa using hmem
    exact absurd hsame (hstatus status List.mem_cons_self)
  · have hlast := (hnew last (by simp)).1
    rw [← List.append_assoc, List.getLast?_concat]
    intro h
    exact hstatus last hlast (Option.some.inj h)

end Orders

section Insertions

variable [Digest]

omit [Digest] in
/-- The insertion of a payload state: none where its tombstone id is no
identifier, or where a row is added that refers to no raw record. -/
def PrivacyTables.insertChange (t : PrivacyTables) (row : StoredPayloadState) :
    Option PrivacyTables :=
  if row.privacyTombstoneId.any fun id => !isDomainIdentifier id then none
  else if row.key ∈ t.ledger.payloadStates.map (·.key) then some t
  else if (⟨row.scope, row.recordId⟩ : EvidenceKey) ∈ t.ledger.rawRecords.map (·.evidenceKey) then
    some { t with ledger := { t.ledger with payloadStates := t.ledger.payloadStates ++ [row] } }
  else none

/-- The row of a record that a completed request affects; a request without the
time of its completion has none. -/
def requestRow (r : PrivacyRequest) (affected : AffectedRecord) : Option StoredPayloadState :=
  r.completedAt.map fun completedAt => {
    scope := r.scope
    recordId := affected.recordId
    lifecycleStatus := affected.lifecycleStatus
    changedAt := completedAt
    privacyRequestId := some r.privacyRequestId
    privacyTombstoneId := some ("tombstone:" ++ r.privacyRequestId.text ++ ":" ++
      affected.recordId.text) }

/-- The row of an expiration. -/
def expirationRow (expiredAt : RetentionExpiration → Timestamp) (e : RetentionExpiration) :
    StoredPayloadState where
  scope := e.scope
  recordId := e.recordId
  lifecycleStatus := .purged
  changedAt := expiredAt e

/-- The rows that `persistLifecycle` inserts, each in a transaction of its
own. -/
def lifecycleRows (expiredAt : RetentionExpiration → Timestamp) (input : EvaluatorInput) :
    List (Option StoredPayloadState) :=
  (completedRedactions input).map (fun e => requestRow e.1 e.2) ++
    input.retentionExpirations.map fun e => some (expirationRow expiredAt e)

/-- The insertions, up to the first that throws; the flag says whether all were
made. -/
def insertChanges (t : PrivacyTables) : List (Option StoredPayloadState) → PrivacyTables × Bool
  | [] => (t, true)
  | row :: rest => ((row.bind t.insertChange).elim (t, false) fun t' => insertChanges t' rest)

/-- `persistLifecycle` -/
def persistLifecycle (t : PrivacyTables) (expiredAt : RetentionExpiration → Timestamp)
    (input : EvaluatorInput) : PrivacyTables × Bool :=
  insertChanges t (lifecycleRows expiredAt input)

omit [Digest] in
/-- The purge of a record inserts its payload state. -/
theorem appendState_eq (t : PrivacyTables) (p : PurgeContext) (recordId : Identifier) :
    t.appendState p recordId = t.insertChange (p.state recordId) := by
  unfold PrivacyTables.appendState PrivacyTables.insertChange
  rfl

end Insertions

section Records

variable [Digest] {t t' : PrivacyTables} {key : EvidenceKey}

/-- The states of a record, in the order they came in. -/
def PrivacyTables.statuses (t : PrivacyTables) (key : EvidenceKey) : List LifecycleStatus :=
  (t.ledger.payloadStates.filter fun s => (⟨s.scope, s.recordId⟩ : EvidenceKey) = key).map
    (·.lifecycleStatus)

/-- `raw_records_current`: the newest state of a record. -/
def PrivacyTables.currentStatus (t : PrivacyTables) (key : EvidenceKey) : Option LifecycleStatus :=
  (t.lastState key).map (·.lifecycleStatus)

omit [Digest] in
theorem currentStatus_eq (t : PrivacyTables) (key : EvidenceKey) :
    t.currentStatus key = (t.statuses key).getLast? := by
  rw [PrivacyTables.currentStatus, PrivacyTables.lastState, PrivacyTables.statuses, List.getLast?_map]

/-- A record of the ledger: no other has its id, and it was available. -/
structure StoredRecord (t : PrivacyTables) (key : EvidenceKey) : Prop where
  raw : key ∈ t.ledger.rawRecords.map (·.evidenceKey)
  only : ∀ r ∈ t.ledger.rawRecords, r.recordId = key.recordId → r.evidenceKey = key
  states : ∀ s ∈ t.ledger.payloadStates, s.recordId = key.recordId → s.scope = key.scope
  available : .available ∈ t.statuses key

omit [Digest] in
theorem mem_statuses_iff (hstored : StoredRecord t key) {status : LifecycleStatus} :
    status ∈ t.statuses key ↔ (key.recordId, status) ∈ t.ledger.payloadStates.map (·.key) := by
  constructor
  · intro h
    obtain ⟨s, hs, rfl⟩ := List.mem_map.mp h
    obtain ⟨hmem, hkey⟩ := List.mem_filter.mp hs
    refine List.mem_map.mpr ⟨s, hmem, ?_⟩
    rw [← of_decide_eq_true hkey]
    rfl
  · intro h
    obtain ⟨s, hs, hkey⟩ := List.mem_map.mp h
    obtain ⟨hid, hstatus⟩ := Prod.mk.inj hkey
    refine List.mem_map.mpr ⟨s, List.mem_filter.mpr ⟨hs, ?_⟩, hstatus⟩
    rw [hstored.states s hs hid, hid]
    simp

/-- What the insertion of a row does to a record. -/
def rowEffect (t : PrivacyTables) (row : StoredPayloadState) (key : EvidenceKey) :
    List LifecycleStatus :=
  if (t.insertChange row).isSome ∧ (⟨row.scope, row.recordId⟩ : EvidenceKey) = key then
    [row.lifecycleStatus] else []

omit [Digest] in
/-- One insertion. -/
theorem statuses_insertChange (hstored : StoredRecord t key) {row : StoredPayloadState}
    (h : t.insertChange row = some t') :
    t'.statuses key = insertAll id (rowEffect t row key) (t.statuses key) ∧ StoredRecord t' key := by
  have heffect : rowEffect t row key =
      if (⟨row.scope, row.recordId⟩ : EvidenceKey) = key then [row.lifecycleStatus] else [] := by
    rw [rowEffect, h]
    simp
  unfold PrivacyTables.insertChange at h
  split at h
  · cases h
  · split at h
    · case isTrue htaken =>
        -- the record has the status already
        cases h
        refine ⟨?_, hstored⟩
        rw [heffect]
        split
        · case isTrue hkey =>
            have hmem : row.lifecycleStatus ∈ t.statuses key := by
              rw [mem_statuses_iff hstored, ← hkey]
              exact htaken
            rw [AppendOnly.insertAll_of_taken]
            simpa using hmem
        · rfl
    · case isFalse hfree =>
        split at h
        · case isTrue hraw =>
            cases h
            have hscope : row.recordId = key.recordId → row.scope = key.scope := by
              intro hid
              obtain ⟨r, hr, hkey⟩ := List.mem_map.mp hraw
              have hrid : r.recordId = key.recordId := by
                rw [← hid]
                exact congrArg EvidenceKey.recordId hkey
              have honly := hstored.only r hr hrid
              rw [hkey] at honly
              exact congrArg EvidenceKey.scope honly
            have hstatuses : PrivacyTables.statuses { t with ledger := { t.ledger with
                payloadStates := t.ledger.payloadStates ++ [row] } } key =
                  insertAll id (rowEffect t row key) (t.statuses key) := by
              rw [heffect, PrivacyTables.statuses, List.filter_append, List.map_append]
              by_cases hkey : (⟨row.scope, row.recordId⟩ : EvidenceKey) = key
              · have hnew : row.lifecycleStatus ∉ t.statuses key := by
                  rw [mem_statuses_iff hstored, ← hkey]
                  exact hfree
                rw [if_pos hkey, AppendOnly.insertAll_cons, AppendOnly.insertAll_nil, insertOnce,
                  if_neg (by simpa using hnew)]
                simp [hkey, PrivacyTables.statuses]
              · rw [if_neg hkey, AppendOnly.insertAll_nil]
                simp [hkey, PrivacyTables.statuses]
            refine ⟨hstatuses, hstored.raw, hstored.only, ?_, ?_⟩
            · intro s hs hid
              rcases List.mem_append.mp hs with hs | hs
              · exact hstored.states s hs hid
              · obtain rfl := List.mem_singleton.mp hs
                exact hscope hid
            · rw [hstatuses]
              exact AppendOnly.mem_insertAll_of_mem hstored.available
        · cases h

omit [Digest] in
/-- Where the raw records and the payload states are the same, so are the states
of a record. -/
theorem statuses_congr (t t' : PrivacyTables) (hraw : t'.ledger.rawRecords = t.ledger.rawRecords)
    (hstates : t'.ledger.payloadStates = t.ledger.payloadStates) (hstored : StoredRecord t key) :
    t'.statuses key = t.statuses key ∧ StoredRecord t' key := by
  have hstatuses : t'.statuses key = t.statuses key := by
    rw [PrivacyTables.statuses, hstates, PrivacyTables.statuses]
  refine ⟨hstatuses, ?_, ?_, ?_, ?_⟩
  · rw [hraw]
    exact hstored.raw
  · rw [hraw]
    exact hstored.only
  · rw [hstates]
    exact hstored.states
  · rw [hstatuses]
    exact hstored.available

/-- The purges of some records. -/
theorem statuses_appendPurges {p : PurgeContext} {records : List Identifier}
    (hstored : StoredRecord t key) (h : t.appendPurges p records = some t') :
    t'.statuses key = insertAll id ((records.filter fun r =>
      (⟨p.scope, r⟩ : EvidenceKey) = key).map fun _ => .purged) (t.statuses key) ∧
    StoredRecord t' key := by
  induction records generalizing t with
  | nil =>
      cases h
      exact ⟨rfl, hstored⟩
  | cons r rest ih =>
      obtain ⟨t₁, h₁, hrest⟩ := Option.bind_eq_some_iff.mp h
      obtain ⟨t₂, hstate, rfl⟩ := appendPurge_eq_some h₁
      rw [appendState_eq] at hstate
      obtain ⟨hstatuses, hstored₂⟩ := statuses_insertChange hstored hstate
      obtain ⟨hsame, hstored₁⟩ := statuses_congr t₂ { t₂ with
        tombstones := insertOnce (·.key) (p.tombstone r) t₂.tombstones
        corrections := insertOnce (·.correctionId) (p.correction r) t₂.corrections } rfl rfl
          hstored₂
      obtain ⟨hafter, hstored'⟩ := ih hstored₁ hrest
      refine ⟨?_, hstored'⟩
      rw [hafter, hsame, hstatuses, rowEffect, hstate]
      by_cases hkey : (⟨p.scope, r⟩ : EvidenceKey) = key
      · simp [hkey, PurgeContext.state]
      · have hrow : ¬(⟨(p.state r).scope, (p.state r).recordId⟩ : EvidenceKey) = key := hkey
        simp [hkey, hrow]

omit [Digest] in
/-- An insertion into the ledger that adds no state but an available one leaves
a record's states. -/
theorem statuses_write {l : Ledger} {write : Write}
    (hwrite : ∀ s, write = .payloadState s → s.lifecycleStatus = .available)
    (hstored : StoredRecord t key) (h : t.ledger.write write = some l) :
    PrivacyTables.statuses { t with ledger := l } key = t.statuses key ∧
      StoredRecord { t with ledger := l } key := by
  cases write with
  | delivery | fact | rejection | attribution | reconciliation =>
      cases h
      exact statuses_congr _ _ rfl rfl hstored
  | fraud revision scopes d =>
      obtain ⟨_, _, rfl⟩ := Ledger.write_fraud_eq_some h
      exact statuses_congr _ _ rfl rfl hstored
  | logical e =>
      obtain ⟨-, _, rfl, -⟩ := Ledger.write_logical_eq_some h
      exact statuses_congr _ _ rfl rfl hstored
  | raw record =>
      cases h
      refine ⟨rfl, ?_, ?_, hstored.states, hstored.available⟩
      · obtain ⟨r, hr, hkey⟩ := List.mem_map.mp hstored.raw
        exact List.mem_map.mpr ⟨r, AppendOnly.mem_insertOnce_of_mem hr, hkey⟩
      · intro r hr hid
        rcases AppendOnly.mem_insertOnce hr with hr | ⟨rfl, hfree⟩
        · exact hstored.only r hr hid
        · -- the id of the record is taken
          obtain ⟨known, hknown, hkey⟩ := List.mem_map.mp hstored.raw
          refine absurd (List.mem_map.mpr ⟨known, hknown, ?_⟩) hfree
          rw [hid, ← hkey]
          rfl
  | payloadState s =>
      cases h
      have havailable := hwrite s rfl
      by_cases hid : s.recordId = key.recordId
      · have htaken : (s.recordId, s.lifecycleStatus) ∈ t.ledger.payloadStates.map
            fun s => (s.recordId, s.lifecycleStatus) := by
          rw [hid, havailable]
          exact (mem_statuses_iff hstored).mp hstored.available
        have hsame : insertOnce (fun s => (s.recordId, s.lifecycleStatus)) s
            t.ledger.payloadStates = t.ledger.payloadStates := by
          rw [insertOnce, if_pos htaken]
        exact statuses_congr _ _ rfl hsame hstored
      · obtain ⟨new, hnew, hmem⟩ := AppendOnly.insertOnce_eq_append
          (fun s : StoredPayloadState => (s.recordId, s.lifecycleStatus)) s t.ledger.payloadStates
        have hnone : new.filter (fun s => (⟨s.scope, s.recordId⟩ : EvidenceKey) = key) = [] := by
          refine List.filter_eq_nil_iff.mpr fun r hr hkey => hid ?_
          rw [← hmem r hr, ← of_decide_eq_true hkey]
        have hstatuses : PrivacyTables.statuses { t with ledger := { t.ledger with
            payloadStates := insertOnce (fun s => (s.recordId, s.lifecycleStatus)) s
              t.ledger.payloadStates } } key = t.statuses key := by
          rw [PrivacyTables.statuses]
          change List.map _ (List.filter _ (insertOnce _ s t.ledger.payloadStates)) = _
          rw [hnew, List.filter_append, hnone, List.append_nil]
          rfl
        refine ⟨hstatuses, hstored.raw, hstored.only, ?_, ?_⟩
        · intro r hr hrid
          rcases AppendOnly.mem_insertOnce hr with hr | ⟨rfl, -⟩
          · exact hstored.states r hr hrid
          · exact absurd hrid hid
        · rw [hstatuses]
          exact hstored.available

end Records

section Steps

variable [Digest]

variable (db : Database)

/-- What inserts payload states: a change of `persistLifecycle`, a privacy
request, and the transaction of an ingestion. -/
inductive LifecycleStep where
  | change (row : Option StoredPayloadState)
  | execute (call : PrivacyCall)
  | ingest (transaction : Transaction)

/-- One step; what throws leaves the tables. -/
def PrivacyWorld.lifecycleStep (w : PrivacyWorld) : LifecycleStep → PrivacyWorld
  | .change row => { w with tables := (row.bind w.tables.insertChange).getD w.tables }
  | .execute call => w.execute db call
  | .ingest transaction =>
      { w with tables := { w.tables with
        ledger := (w.tables.ledger.commit transaction).getD w.tables.ledger } }

/-- What a step does to a record: the statuses it inserts. -/
def PrivacyWorld.effect (w : PrivacyWorld) (key : EvidenceKey) :
    LifecycleStep → List LifecycleStatus
  | .change none => []
  | .change (some row) => rowEffect w.tables row key
  | .execute call =>
      if (executePrivacyRequest db w call.identity call.body call.environment).2.isOk then
        ((call.affected db w.tables).filter fun r =>
          (⟨call.body.scope, r⟩ : EvidenceKey) = key).map fun _ => .purged
      else []
  | .ingest _ => []

/-- Changes do not make records available, and an ingestion adds available
states only. -/
def LifecycleStep.IsSound : LifecycleStep → Prop
  | .change row => ∀ r, row = some r → r.lifecycleStatus ≠ .available
  | .execute _ => True
  | .ingest transaction => ∀ s, .payloadState s ∈ transaction → s.lifecycleStatus = .available

/-- Steps one after another. -/
def PrivacyWorld.lifecycleRun (w : PrivacyWorld) (steps : List LifecycleStep) : PrivacyWorld :=
  steps.foldl (·.lifecycleStep db) w

/-- What a run does to a record. -/
def PrivacyWorld.effects (w : PrivacyWorld) (key : EvidenceKey) :
    List LifecycleStep → List LifecycleStatus
  | [] => []
  | step :: rest => w.effect db key step ++ (w.lifecycleStep db step).effects key rest

variable {db} {w : PrivacyWorld} {key : EvidenceKey}

/-- **What a step does to the states of a record.**  It inserts its effects,
each state once, and keeps the record stored. -/
theorem statuses_step (hstored : StoredRecord w.tables key) {step : LifecycleStep}
    (hsound : step.IsSound) :
    (w.lifecycleStep db step).tables.statuses key =
      insertAll id (w.effect db key step) (w.tables.statuses key) ∧
    StoredRecord (w.lifecycleStep db step).tables key := by
  cases step with
  | change row =>
      cases row with
      | none => exact ⟨rfl, hstored⟩
      | some row =>
          rw [PrivacyWorld.lifecycleStep, Option.bind_some, PrivacyWorld.effect]
          cases hrow : w.tables.insertChange row with
          | none =>
              rw [rowEffect, hrow]
              exact ⟨by simp, hstored⟩
          | some t' => exact statuses_insertChange hstored hrow
  | execute call =>
      rw [PrivacyWorld.lifecycleStep, PrivacyWorld.effect]
      by_cases hcompletes : Completes db w call
      · obtain ⟨t', hdeletion, hrun⟩ := execute_of_completes hcompletes
        obtain ⟨t₁, h₁, rfl⟩ := recordDeletion_eq_some hdeletion
        obtain ⟨artifact, hok⟩ := hcompletes
        obtain ⟨hsame, hopen⟩ := statuses_congr w.tables (w.tables.openRequest call.identity
          call.body call.environment (call.affected db w.tables)) rfl rfl hstored
        obtain ⟨hstatuses, hstored₁⟩ := statuses_appendPurges hopen h₁
        obtain ⟨hclosed, hstored'⟩ := statuses_congr t₁ (t₁.closeRequest call.identity call.body
          call.environment (call.affected db w.tables)) rfl rfl hstored₁
        rw [hrun, hok, hclosed, hstatuses, hsame]
        exact ⟨rfl, hstored'⟩
      · have hnot : (executePrivacyRequest db w call.identity call.body call.environment).2.isOk =
            false := by
          cases hresult : (executePrivacyRequest db w call.identity call.body call.environment).2 with
          | error => rfl
          | ok artifact => exact absurd ⟨artifact, hresult⟩ hcompletes
        rw [tables_of_not_completes hcompletes, hnot]
        exact ⟨rfl, hstored⟩
  | ingest transaction =>
      rw [PrivacyWorld.lifecycleStep, PrivacyWorld.effect]
      cases hcommit : w.tables.ledger.commit transaction with
      | none => exact ⟨rfl, hstored⟩
      | some l =>
          refine Ledger.invariant_of_commit (fun l => PrivacyTables.statuses { w.tables with
            ledger := l } key = w.tables.statuses key ∧ StoredRecord { w.tables with ledger := l }
              key) (fun write hmem l₁ l₂ hkept h => ?_) ⟨rfl, hstored⟩ hcommit
          obtain ⟨hsame, hstored₂⟩ := statuses_write (t := { w.tables with ledger := l₁ })
            (fun s hs => hsound s (hs ▸ hmem)) hkept.2 h
          exact ⟨hsame.trans hkept.1, hstored₂⟩

/-- **What a run does to the states of a record.**  It inserts the effects of
its steps one after another. -/
theorem statuses_run (hstored : StoredRecord w.tables key) {steps : List LifecycleStep}
    (hsound : ∀ step ∈ steps, step.IsSound) :
    (w.lifecycleRun db steps).tables.statuses key =
      insertAll id (w.effects db key steps) (w.tables.statuses key) ∧
    StoredRecord (w.lifecycleRun db steps).tables key := by
  induction steps generalizing w with
  | nil => exact ⟨rfl, hstored⟩
  | cons step rest ih =>
      obtain ⟨hfirst, hstored'⟩ := statuses_step hstored (hsound step List.mem_cons_self)
      obtain ⟨hrest, hlast⟩ := ih hstored' fun s hs => hsound s (List.mem_cons_of_mem _ hs)
      refine ⟨?_, hlast⟩
      rw [PrivacyWorld.effects, insertAll, List.foldl_append]
      exact hrest.trans (congrArg _ hfirst)

/-- What sound steps do to a record does not make it available. -/
theorem effects_ne_available {steps : List LifecycleStep} (hsound : ∀ step ∈ steps, step.IsSound) :
    ∀ status ∈ w.effects db key steps, status ≠ .available := by
  induction steps generalizing w with
  | nil => exact fun _ h => absurd h List.not_mem_nil
  | cons step rest ih =>
      intro status hmem
      rw [PrivacyWorld.effects, List.mem_append] at hmem
      rcases hmem with hmem | hmem
      · have hstep := hsound step List.mem_cons_self
        cases step with
        | change row =>
            cases row with
            | none => exact absurd hmem List.not_mem_nil
            | some row =>
                rw [PrivacyWorld.effect, rowEffect] at hmem
                split at hmem
                · obtain rfl := List.mem_singleton.mp hmem
                  exact hstep row rfl
                · exact absurd hmem List.not_mem_nil
        | execute call =>
            rw [PrivacyWorld.effect] at hmem
            split at hmem
            · obtain ⟨_, _, rfl⟩ := List.mem_map.mp hmem
              decide
            · exact absurd hmem List.not_mem_nil
        | ingest transaction => exact absurd hmem List.not_mem_nil
      · exact ih (fun s hs => hsound s (List.mem_cons_of_mem _ hs)) status hmem

omit [Digest] in
/-- The changes of an input are sound steps. -/
theorem lifecycleRows_isSound {input : EvaluatorInput}
    (hstatus : ∀ e ∈ completedRedactions input, e.2.lifecycleStatus ≠ .available)
    (expiredAt : RetentionExpiration → Timestamp) :
    ∀ row ∈ lifecycleRows expiredAt input, (LifecycleStep.change row).IsSound := by
  intro row hrow r hr
  rcases List.mem_append.mp hrow with h | h
  · obtain ⟨e, he, rfl⟩ := List.mem_map.mp h
    obtain ⟨completedAt, _, rfl⟩ := Option.map_eq_some_iff.mp hr
    exact hstatus e he
  · obtain ⟨e, _, rfl⟩ := List.mem_map.mp h
    rw [← Option.some.inj hr]
    exact nofun

/-- What `persistLifecycle` leaves is what a run of its changes leaves, up to
the first that throws. -/
theorem insertChanges_eq_run (w : PrivacyWorld) (rows : List (Option StoredPayloadState)) :
    ∃ made, made <+: rows ∧ { w with tables := (insertChanges w.tables rows).1 } =
      w.lifecycleRun db (made.map .change) := by
  induction rows generalizing w with
  | nil => exact ⟨[], List.nil_prefix, rfl⟩
  | cons row rest ih =>
      cases hrow : row.bind w.tables.insertChange with
      | none =>
          refine ⟨[], List.nil_prefix, ?_⟩
          rw [insertChanges, hrow]
          rfl
      | some t' =>
          obtain ⟨made, hmade, hrun⟩ := ih { w with tables := t' }
          refine ⟨row :: made, List.cons_prefix_cons.mpr ⟨rfl, hmade⟩, ?_⟩
          rw [insertChanges, hrow, List.map_cons, PrivacyWorld.lifecycleRun, List.foldl_cons,
            PrivacyWorld.lifecycleStep, hrow]
          exact hrun

omit [Digest] in
/-- The transactions of an ingestion are sound steps. -/
theorem callTransactions_isSound (context : CallContext) (bulkPersistence : Bool)
    (all : List Attempt) (selected : Selected) (attempts : List Attempt) :
    ∀ transaction ∈ callTransactions context bulkPersistence all selected attempts,
      (LifecycleStep.ingest transaction).IsSound := by
  intro transaction htransaction s hs
  have hlogical : ∀ all e, logicalWrite all e ≠ some (.payloadState s) := by
    intro all e h
    obtain ⟨_, _, h⟩ := Option.map_eq_some_iff.mp h
    cases h
  have hfact : ∀ all e, factWrite context all e ≠ some (.payloadState s) := by
    intro all e h
    obtain ⟨_, _, h⟩ := Option.bind_eq_some_iff.mp h
    obtain ⟨_, _, h⟩ := Option.map_eq_some_iff.mp h
    cases h
  have havailable : (∃ r ∈ selected.rawRecords, r.availableState = s) →
      s.lifecycleStatus = .available := by
    intro ⟨_, _, h⟩
    rw [← h]
    rfl
  unfold callTransactions at htransaction
  split at htransaction
  · obtain rfl := List.mem_singleton.mp htransaction
    refine havailable ?_
    simpa [bulkTransaction, bulkFacts, hlogical, hfact] using hs
  · simp only [rowTransactions, List.mem_append, List.mem_map] at htransaction
    rcases htransaction with ((⟨a, _, rfl⟩ | ⟨_, _, rfl⟩) | ⟨_, _, rfl⟩) | ⟨_, _, rfl⟩
    · have hlogicals : ∀ o : Option LogicalEvent, o.bind (logicalWrite all) ≠
          some (.payloadState s) := by
        intro o h
        obtain ⟨e, _, h⟩ := Option.bind_eq_some_iff.mp h
        exact hlogical all e h
      have hfacts : ∀ o : Option LogicalEvent, o.bind (factWrite context all) ≠
          some (.payloadState s) := by
        intro o h
        obtain ⟨e, _, h⟩ := Option.bind_eq_some_iff.mp h
        exact hfact all e h
      have hraw : ∃ r, (InsertionMap.ofList (selected.rawRecords.map fun r => (r.recordId, r))).get
          a.record.recordId = some r ∧ r.availableState = s := by
        simpa [attemptTransaction, hlogicals, hfacts] using hs
      obtain ⟨r, _, rfl⟩ := hraw
      rfl
    · simp at hs
    · simp at hs
    · simp at hs

end Steps

section Law

variable [Digest]

/-- The evaluator and the ledger agree with what the changes of a record amount
to, and a record with a change is not available again. -/
structure LifecycleAgrees (db : Database) (input : EvaluatorInput) (w : PrivacyWorld)
    (steps : List LifecycleStep) (key : EvidenceKey) : Prop where
  index : (privacyIndex input).get key = expected (changesOf input key)
  current : (w.lifecycleRun db steps).tables.currentStatus key =
    some ((expected (changesOf input key)).getD .available)
  gone : changesOf input key ≠ [] →
    (w.lifecycleRun db steps).tables.currentStatus key ≠ some .available

/-- For all inputs, records of the ledger and runs that persist the changes of
the input for the record, in any order and any number of times, between
ingestions and other records' changes: evaluator and ledger agree exactly when
the last request about a purged record purges it, and the run redacts the record
first if it both redacts and purges it. -/
theorem lifecycle_iff {db : Database} {w : PrivacyWorld} {key : EvidenceKey}
    (hstored : StoredRecord w.tables key) (hfresh : w.tables.statuses key = [.available])
    {steps : List LifecycleStep} (hsound : ∀ step ∈ steps, step.IsSound) {input : EvaluatorInput}
    (hstatus : ∀ e ∈ completedRedactions input, e.2.lifecycleStatus ≠ .available)
    (hsame : ∀ status, status ∈ w.effects db key steps ↔ status ∈ changesOf input key) :
    LifecycleAgrees db input w steps key ↔
      EndsInPurge input key ∧ RedactedFirst (w.effects db key steps) := by
  have hexpected : expected (w.effects db key steps) = expected (changesOf input key) := by
    rw [expected, expected, if_congr (hsame .purged) rfl (if_congr (hsame .redacted) rfl rfl)]
  have hcurrent : (w.lifecycleRun db steps).tables.currentStatus key =
      (insertAll id (w.effects db key steps) [.available]).getLast? := by
    rw [currentStatus_eq, (statuses_run hstored hsound).1, hfresh]
  have heffects : ∀ status ∈ w.effects db key steps, status ≠ .available :=
    effects_ne_available hsound
  constructor
  · intro hagrees
    refine ⟨(privacyIndex_iff hstatus).mp hagrees.index, (newest_iff heffects).mp ?_⟩
    rw [← hcurrent, hexpected]
    exact hagrees.current
  · intro ⟨hends, hfirst⟩
    refine ⟨(privacyIndex_iff hstatus).mpr hends, ?_, ?_⟩
    · rw [hcurrent, ← hexpected]
      exact (newest_iff heffects).mpr hfirst
    · intro hchanged
      rw [hcurrent]
      refine newest_ne_available (fun hnone => ?_) heffects
      obtain ⟨status, hmem⟩ := List.exists_mem_of_ne_nil _ hchanged
      have hmem' := (hsame status).mpr hmem
      rw [hnone] at hmem'
      exact List.not_mem_nil hmem'

/-- A record that was available, in the ledger. -/
def availableWorld : PrivacyWorld where
  tables := { ledger := {
    rawRecords := [storedRecord otherScope (.named "record") "encrypted:record"]
    payloadStates := [⟨otherScope, .named "record", .available,
      ⟨2026, 1, 1, 0, 0, 0, 0⟩, none, none⟩] } }

/-- A completed request about the record. -/
def completedRequest (id : Identifier) (status : LifecycleStatus) : PrivacyRequest where
  tenantId := otherScope.tenantId
  appId := otherScope.appId
  privacyRequestId := id
  deletionScope := "installation"
  requestedVia := .tenantAdminApi
  requesterAuthRef := ⟨"admin", by decide⟩
  requestedAt := ⟨2026, 1, 2, 0, 0, 0, 0⟩
  completedAt := some ⟨2026, 1, 2, 0, 0, 0, 0⟩
  status := .completed
  reasonCode := "privacy_deletion"
  policyVersion := "privacy-v0.2"
  affectedRecords := [⟨.named "record", status⟩]

/-- Two requests about the record. -/
def twoRequests (first second : LifecycleStatus) : EvaluatorInput where
  ingress := .none
  fxPolicy := ⟨"fx", "USD", 6, "half_even", []⟩
  privacyRequests := [completedRequest (.named "privacy:1") first,
    completedRequest (.named "privacy:2") second]

def recordKey : EvidenceKey := ⟨otherScope, .named "record"⟩

/-- The run that persists the changes of an input. -/
def persistSteps (input : EvaluatorInput) : List LifecycleStep :=
  (lifecycleRows (fun _ => ⟨2026, 1, 3, 0, 0, 0, 0⟩) input).map .change

omit [Digest] in
theorem availableWorld_stored : StoredRecord availableWorld.tables recordKey where
  raw := List.mem_singleton_self _
  only := fun r hr _ => by
    rw [List.mem_singleton.mp hr]
    rfl
  states := fun s hs _ => by
    rw [List.mem_singleton.mp hs]
    rfl
  available := by decide

end Law

section Examples

attribute [local instance] checksumDigest

/-- A record that is redacted and then purged is purged. -/
theorem redacted_then_purged :
    LifecycleAgrees plainDatabase (twoRequests .redacted .purged) availableWorld
      (persistSteps (twoRequests .redacted .purged)) recordKey := by
  have hstatus : ∀ e ∈ completedRedactions (twoRequests .redacted .purged),
      e.2.lifecycleStatus ≠ .available := by decide
  have heffects : availableWorld.effects plainDatabase recordKey
      (persistSteps (twoRequests .redacted .purged)) = [.redacted, .purged] := by
    rfl
  have hchanges : changesOf (twoRequests .redacted .purged) recordKey = [.redacted, .purged] := by
    decide
  refine (lifecycle_iff availableWorld_stored (by decide) ?_ hstatus fun status => ?_).mpr ⟨?_, ?_⟩
  · intro step hstep
    obtain ⟨row, hrow, rfl⟩ := List.mem_map.mp hstep
    exact lifecycleRows_isSound hstatus _ row hrow
  · rw [heffects, hchanges]
  · intro _ _
    decide
  · rw [heffects]
    exact fun _ _ => rfl

/-- A record that is purged and then redacted is redacted, for the evaluator
and in the ledger, though its payload is gone: the later change counts, and not
the stronger one. -/
theorem purged_then_redacted :
    .purged ∈ changesOf (twoRequests .purged .redacted) recordKey ∧
      (privacyIndex (twoRequests .purged .redacted)).get recordKey = some .redacted ∧
      (availableWorld.lifecycleRun plainDatabase
        (persistSteps (twoRequests .purged .redacted))).tables.currentStatus recordKey =
          some .redacted := by
  refine ⟨by decide, by decide, ?_⟩
  rfl

end Examples

end OpenMasu
