import OpenMasu.PrivacyRequests
import OpenMasu.WatermarkStability

/-!
# Deletion is atomic, within one app

A request completes and records every affected record where the rows it
inserts are allowed: the records are of the request's app, or were recorded
before, and their tombstone ids fit.  A request that fails leaves the tables
alone but not the objects it erased before it failed.

* `appendPurges_isSome_iff` — when the rows of the records are allowed;
* `recorded_of_appendPurges` — what they record;
* `recorded_of_recordDeletion` — what a completed request records;
* `DeletionIsAtomic`, `deletion_isAtomic_iff` — the law.
-/

namespace OpenMasu

open AppendOnly (insertOnce)

section Rows

variable [Digest] {p : PurgeContext} {recordId : Identifier} {t t' : PrivacyTables}

omit [Digest] in
theorem key_mem_payloadStates_iff :
    (p.state recordId).key ∈ t.ledger.payloadStates.map (·.key) ↔ t.hasPurgedState recordId := by
  simp [PrivacyTables.hasPurgedState, StoredPayloadState.key, PurgeContext.state]

/-- The rows of a record are allowed. -/
def PrivacyTables.acceptsPurge (t : PrivacyTables) (p : PurgeContext) (recordId : Identifier) :
    Prop :=
  isDomainIdentifier (p.tombstoneId recordId) = true ∧
    (t.hasPurgedState recordId ∨
      (⟨p.scope, recordId⟩ : EvidenceKey) ∈ t.ledger.rawRecords.map (·.evidenceKey))

omit [Digest] in
/-- What the insertion of a payload state changes. -/
theorem appendState_eq_some (h : t.appendState p recordId = some t') :
    t.acceptsPurge p recordId ∧
      ((t.hasPurgedState recordId ∧ t' = t) ∨
        ((⟨p.scope, recordId⟩ : EvidenceKey) ∈ t.ledger.rawRecords.map (·.evidenceKey) ∧
          t' = { t with ledger := { t.ledger with
            payloadStates := t.ledger.payloadStates ++ [p.state recordId] } })) := by
  unfold PrivacyTables.appendState at h
  split at h
  · cases h
  · case isFalse hid =>
      have hid : isDomainIdentifier (p.tombstoneId recordId) = true := by simpa using hid
      split at h
      · case isTrue htaken =>
          cases h
          have hstate := key_mem_payloadStates_iff.mp htaken
          exact ⟨⟨hid, .inl hstate⟩, .inl ⟨hstate, rfl⟩⟩
      · split at h
        · case isTrue hraw =>
            cases h
            exact ⟨⟨hid, .inr hraw⟩, .inr ⟨hraw, rfl⟩⟩
        · cases h

omit [Digest] in
/-- The insertion of an allowed payload state succeeds. -/
theorem appendState_ne_none (h : t.acceptsPurge p recordId) :
    t.appendState p recordId ≠ none := by
  unfold PrivacyTables.appendState
  rw [h.1]
  simp only [Bool.not_true, Bool.false_eq_true, if_false]
  split
  · nofun
  · case isFalse hfree =>
      have hraw := h.2.resolve_left (fun hstate => hfree (key_mem_payloadStates_iff.mpr hstate))
      rw [if_pos hraw]
      nofun

/-- What the insertions for a record change. -/
theorem appendPurge_eq_some (h : t.appendPurge p recordId = some t') :
    ∃ t₁, t.appendState p recordId = some t₁ ∧ t' = { t₁ with
      tombstones := insertOnce (·.key) (p.tombstone recordId) t₁.tombstones
      corrections := insertOnce (·.correctionId) (p.correction recordId) t₁.corrections } := by
  obtain ⟨t₁, h₁, rfl⟩ := Option.map_eq_some_iff.mp h
  exact ⟨t₁, h₁, rfl⟩

/-- The insertions for a record append rows of the request's scope. -/
theorem appendsPurges_of_appendPurge (h : t.appendPurge p recordId = some t') :
    AppendsPurges p.scope t t' := by
  obtain ⟨t₁, h₁, rfl⟩ := appendPurge_eq_some h
  obtain ⟨tombstones, htombstones, hnew⟩ := AppendOnly.insertOnce_eq_append
    PrivacyTombstone.key (p.tombstone recordId) t₁.tombstones
  obtain ⟨corrections, hcorrections, hnew'⟩ := AppendOnly.insertOnce_eq_append
    (fun c : Correction => c.correctionId) (p.correction recordId) t₁.corrections
  have hscope : ∀ s ∈ tombstones, (⟨s.tenantId, s.appId⟩ : Scope) = p.scope :=
    fun s hs => by rw [hnew s hs]; rfl
  have hscope' : ∀ c ∈ corrections, c.scope = p.scope := fun c hc => by rw [hnew' c hc]; rfl
  rw [htombstones, hcorrections]
  obtain ⟨-, ⟨-, rfl⟩ | ⟨-, rfl⟩⟩ := appendState_eq_some h₁
  · exact ⟨[], tombstones, corrections, by simp, nofun, hscope, hscope'⟩
  · refine ⟨[p.state recordId], tombstones, corrections, rfl, ?_, hscope, hscope'⟩
    intro s hs
    rw [List.mem_singleton.mp hs]
    rfl

theorem appendsPurges_of_appendPurges {records : List Identifier}
    (h : t.appendPurges p records = some t') : AppendsPurges p.scope t t' := by
  induction records generalizing t with
  | nil =>
      cases h
      exact .refl _ _
  | cons r rest ih =>
      obtain ⟨t₁, h₁, h⟩ := Option.bind_eq_some_iff.mp h
      exact (appendsPurges_of_appendPurge h₁).trans (ih h)

/-- The insertions for a record do not change which are allowed. -/
theorem acceptsPurge_appendPurge (h : t.appendPurge p recordId = some t') (r : Identifier) :
    t'.acceptsPurge p r ↔ t.acceptsPurge p r := by
  obtain ⟨t₁, h₁, rfl⟩ := appendPurge_eq_some h
  obtain ⟨-, ⟨-, rfl⟩ | ⟨hraw, rfl⟩⟩ := appendState_eq_some h₁
  · exact Iff.rfl
  · simp only [PrivacyTables.acceptsPurge, PrivacyTables.hasPurgedState]
    refine and_congr_right (fun _ => ⟨fun hor => ?_, fun hor => ?_⟩)
    · rcases hor with ⟨s, hs, hid, hstatus⟩ | hraw'
      · rcases List.mem_append.mp hs with hs | hs
        · exact .inl ⟨s, hs, hid, hstatus⟩
        · -- the new row refers to a raw record
          rw [List.mem_singleton.mp hs] at hid
          exact .inr (hid ▸ hraw)
      · exact .inr hraw'
    · exact hor.imp (fun ⟨s, hs, hid⟩ => ⟨s, List.mem_append_left _ hs, hid⟩) id

/-- **Which rows are allowed.**  The insertions for all records succeed
exactly when each of them is allowed. -/
theorem appendPurges_isSome_iff {records : List Identifier} :
    (t.appendPurges p records).isSome ↔ ∀ r ∈ records, t.acceptsPurge p r := by
  induction records generalizing t with
  | nil => exact iff_of_true rfl nofun
  | cons r rest ih =>
      rw [List.forall_mem_cons, PrivacyTables.appendPurges]
      cases h : t.appendPurge p r with
      | none =>
          refine iff_of_false (by simp) (fun hall => ?_)
          exact appendState_ne_none hall.1 (Option.map_eq_none_iff.mp h)
      | some t₁ =>
          obtain ⟨_, h₁, -⟩ := appendPurge_eq_some h
          rw [Option.bind_some, ih]
          simp only [acceptsPurge_appendPurge h, (appendState_eq_some h₁).1, true_and]

end Rows

section Recorded

variable [Digest] {p : PurgeContext} {t t' : PrivacyTables} {records : List Identifier}

/-- The insertions keep the constraints. -/
theorem PrivacyTables.Constraints.appendPurge (hconstraints : t.Constraints) {r : Identifier}
    (h : t.appendPurge p r = some t') : t'.Constraints := by
  obtain ⟨t₁, h₁, rfl⟩ := appendPurge_eq_some h
  obtain ⟨-, ⟨-, rfl⟩ | ⟨hraw, rfl⟩⟩ := appendState_eq_some h₁
  · exact ⟨hconstraints.recordIds, hconstraints.states, hconstraints.logicalEvents⟩
  · refine ⟨hconstraints.recordIds, fun s hs => ?_, hconstraints.logicalEvents⟩
    rcases List.mem_append.mp hs with hs | hs
    · exact hconstraints.states s hs
    · rw [List.mem_singleton.mp hs]
      exact hraw

omit [Digest] in
/-- Raw records with the id of one are that record. -/
theorem PrivacyTables.Constraints.scope_eq (hconstraints : t.Constraints) {scope scope' : Scope}
    {r : Identifier} (h : (⟨scope, r⟩ : EvidenceKey) ∈ t.ledger.rawRecords.map (·.evidenceKey))
    (h' : (⟨scope', r⟩ : EvidenceKey) ∈ t.ledger.rawRecords.map (·.evidenceKey)) :
    scope = scope' := by
  obtain ⟨x, hx, hkey⟩ := List.mem_map.mp h
  obtain ⟨y, hy, hkey'⟩ := List.mem_map.mp h'
  have hid : x.recordId = y.recordId := by
    rw [show x.recordId = r from congrArg EvidenceKey.recordId hkey,
      show y.recordId = r from congrArg EvidenceKey.recordId hkey']
  obtain rfl := List.inj_on_of_nodup_map hconstraints.recordIds hx hy hid
  exact (congrArg EvidenceKey.scope hkey).symm.trans (congrArg EvidenceKey.scope hkey')

/-- The ids of the corrections are distinct and not taken. -/
structure FreshCorrections (t : PrivacyTables) (p : PurgeContext) (records : List Identifier) :
    Prop where
  distinct : (records.map p.correctionId).Nodup
  unused : ∀ r ∈ records, p.correctionId r ∉ t.corrections.map (·.correctionId)

/-- The ids of the other records stay free. -/
theorem FreshCorrections.tail {r : Identifier} (h : FreshCorrections t p (r :: records))
    (h₁ : t.appendPurge p r = some t') : FreshCorrections t' p records := by
  obtain ⟨t₁, hstate, rfl⟩ := appendPurge_eq_some h₁
  have hcorrections : t₁.corrections = t.corrections := by
    obtain ⟨-, ⟨-, rfl⟩ | ⟨-, rfl⟩⟩ := appendState_eq_some hstate <;> rfl
  have hdistinct := List.nodup_cons.mp h.distinct
  refine ⟨hdistinct.2, fun r' hr' hmem => ?_⟩
  obtain ⟨c, hc, hid⟩ := List.mem_map.mp hmem
  rcases AppendOnly.mem_insertOnce hc with hc | ⟨rfl, -⟩
  · rw [hcorrections] at hc
    exact h.unused r' (List.mem_cons_of_mem _ hr') (List.mem_map.mpr ⟨c, hc, hid⟩)
  · exact hdistinct.1 (List.mem_map.mpr ⟨r', hr', hid.symm⟩)

/-- The insertions for a raw record of the request's scope record it. -/
theorem recorded_of_appendPurge (hconstraints : t.Constraints) {r : Identifier}
    (hunused : p.correctionId r ∉ t.corrections.map (·.correctionId))
    (h : t.appendPurge p r = some t')
    (hraw : (⟨p.scope, r⟩ : EvidenceKey) ∈ t.ledger.rawRecords.map (·.evidenceKey)) :
    RecordedPurge t' ⟨p.scope, r⟩ := by
  obtain ⟨t₁, hstate, rfl⟩ := appendPurge_eq_some h
  have hkey := AppendOnly.key_mem_insertOnce PrivacyTombstone.key (p.tombstone r) t₁.tombstones
  obtain ⟨b, hb, hbkey⟩ := List.mem_map.mp hkey
  have hcorrections : t₁.corrections = t.corrections := by
    obtain ⟨-, ⟨-, rfl⟩ | ⟨-, rfl⟩⟩ := appendState_eq_some hstate <;> rfl
  refine ⟨?_, ⟨b, hb, ?_, ?_, ?_⟩, ⟨p.correction r, ?_, rfl, rfl, rfl⟩⟩
  · obtain ⟨-, ⟨⟨s, hs, hid, hstatus⟩, rfl⟩ | ⟨-, rfl⟩⟩ := appendState_eq_some hstate
    · have hold := hconstraints.states s hs
      rw [hid] at hold
      exact ⟨s, hs, hconstraints.scope_eq hold hraw, hid, hstatus⟩
    · exact ⟨p.state r, List.mem_append_right _ List.mem_cons_self, rfl, rfl, rfl⟩
  · exact congrArg Prod.fst hbkey
  · exact congrArg (fun k => k.2.2.1) hbkey
  · exact congrArg (fun k => k.2.2.2) hbkey
  · rw [← hcorrections] at hunused
    exact AppendOnly.mem_insertOnce_self hunused

/-- **What is recorded.**  The insertions for some records record each that is
a raw record of the request's scope. -/
theorem recorded_of_appendPurges (hconstraints : t.Constraints)
    (hfresh : FreshCorrections t p records) (h : t.appendPurges p records = some t')
    {r : Identifier} (hr : r ∈ records)
    (hraw : (⟨p.scope, r⟩ : EvidenceKey) ∈ t.ledger.rawRecords.map (·.evidenceKey)) :
    RecordedPurge t' ⟨p.scope, r⟩ := by
  induction records generalizing t with
  | nil => cases hr
  | cons r' rest ih =>
      obtain ⟨t₁, h₁, hrest⟩ := Option.bind_eq_some_iff.mp h
      rcases List.mem_cons.mp hr with rfl | hr
      · have hrecorded :=
          recorded_of_appendPurge hconstraints (hfresh.unused r List.mem_cons_self) h₁ hraw
        exact (appendsPurges_of_appendPurges hrest).recorded hrecorded
      · refine ih (hconstraints.appendPurge h₁) (hfresh.tail h₁) hrest hr ?_
        obtain ⟨_, _, _, rfl, -⟩ := (appendsPurges_of_appendPurge h₁).appended
        exact hraw

end Recorded

section Law

variable [Digest] {db : Database} {w : PrivacyWorld} {identity : PrivacyIdentity}
  {body : PrivacyRequestBody} {env : RequestEnvironment}

/-- Every raw record a request affects is recorded. -/
def DeletionRecorded (db : Database) (t : PrivacyTables) (body : PrivacyRequestBody)
    (t' : PrivacyTables) : Prop :=
  ∀ r ∈ t.ledger.rawRecords, r.recordId ∈ affectedRecordIds db body t.ledger →
    RecordedPurge t' r.evidenceKey

/-- **Atomic deletion.**  An authorised request that no operation fails in
completes and records what it affects; one that fails changes no table and
loses no object. -/
structure DeletionIsAtomic (db : Database) (w : PrivacyWorld) (identity : PrivacyIdentity)
    (body : PrivacyRequestBody) (env : RequestEnvironment) : Prop where
  completes : refusal identity body = none → env.fault = none →
    ∃ artifact, (executePrivacyRequest db w identity body env).2 = .ok artifact ∧
      DeletionRecorded db w.tables body (executePrivacyRequest db w identity body env).1.tables
  fails : ∀ failure, (executePrivacyRequest db w identity body env).2 = .error failure →
    (executePrivacyRequest db w identity body env).1.tables = w.tables ∧
      ∀ r ∈ w.readable, r ∈ (executePrivacyRequest db w identity body env).1.readable

/-- The ids a request generates are not taken. -/
structure FreshIds (db : Database) (t : PrivacyTables) (body : PrivacyRequestBody)
    (env : RequestEnvironment) : Prop where
  request : env.privacyRequestId ∉ t.privacyRequests.map (·.privacyRequestId)
  corrections : FreshCorrections t (env.context body) (affectedRecordIds db body t.ledger)

omit [Digest] in
/-- A request affects raw records. -/
theorem exists_raw_of_affected (hconstraints : w.tables.Constraints) {r : Identifier}
    (h : r ∈ affectedRecordIds db body w.tables.ledger) :
    ∃ x ∈ w.tables.ledger.rawRecords, x.recordId = r := by
  rw [affectedRecordIds, Database.mem_sortTexts] at h
  split at h
  · obtain ⟨e, he, rfl⟩ := List.mem_map.mp (List.mem_dedup.mp h)
    obtain ⟨x, hx, hkey⟩ :=
      List.mem_map.mp (hconstraints.logicalEvents e (List.mem_filter.mp he).1)
    exact ⟨x, hx, congrArg EvidenceKey.recordId hkey⟩
  · obtain ⟨x, hx, rfl⟩ := List.mem_map.mp h
    exact ⟨x, (List.mem_filter.mp hx).1, rfl⟩

/-- What the statements of a completed request leave. -/
theorem recordDeletion_eq_some {t t' : PrivacyTables} {records : List Identifier}
    (h : recordDeletion t identity body env records = some t') :
    ∃ t₁, (t.openRequest identity body env records).appendPurges (env.context body) records
        = some t₁ ∧ t' = t₁.closeRequest identity body env records := by
  unfold recordDeletion at h
  split at h
  · cases h
  · obtain ⟨t₁, h₁, rfl⟩ := Option.map_eq_some_iff.mp h
    exact ⟨t₁, h₁, rfl⟩

/-- The statements of a request succeed exactly when the rows of its records
are allowed. -/
theorem recordDeletion_isSome_iff (identity : PrivacyIdentity) (body : PrivacyRequestBody)
    (records : List Identifier) {t : PrivacyTables}
    (hfresh : env.privacyRequestId ∉ t.privacyRequests.map (·.privacyRequestId)) :
    (recordDeletion t identity body env records).isSome ↔
      ∀ r ∈ records, t.acceptsPurge (env.context body) r := by
  unfold recordDeletion
  rw [if_neg hfresh, Option.isSome_map, appendPurges_isSome_iff]
  exact Iff.rfl

/-- What is recorded behind the statements of a request. -/
theorem recorded_of_recordDeletion {t t' : PrivacyTables} {records : List Identifier}
    (hconstraints : t.Constraints) (hfresh : FreshCorrections t (env.context body) records)
    (h : recordDeletion t identity body env records = some t') {x : RawRecord}
    (hx : x ∈ t.ledger.rawRecords) (hr : x.recordId ∈ records) :
    RecordedPurge t' x.evidenceKey ↔
      x.evidenceKey.scope = body.scope ∨ RecordedPurge t x.evidenceKey := by
  obtain ⟨t₁, h₁, rfl⟩ := recordDeletion_eq_some h
  have happends := appendsPurges_of_appendPurges h₁
  have hclosed : RecordedPurge (t₁.closeRequest identity body env records) x.evidenceKey ↔
      RecordedPurge t₁ x.evidenceKey := ⟨fun h => ⟨h.1, h.2, h.3⟩, fun h => ⟨h.1, h.2, h.3⟩⟩
  have hopened : RecordedPurge (t.openRequest identity body env records) x.evidenceKey ↔
      RecordedPurge t x.evidenceKey := ⟨fun h => ⟨h.1, h.2, h.3⟩, fun h => ⟨h.1, h.2, h.3⟩⟩
  rw [hclosed, ← hopened]
  constructor
  · intro hrecorded
    by_cases hscope : x.evidenceKey.scope = body.scope
    · exact .inl hscope
    · exact .inr (happends.recorded_of_ne hscope hrecorded)
  · rintro (hscope | hrecorded)
    · have hkey : x.evidenceKey = ⟨(env.context body).scope, x.recordId⟩ := by
        rw [show (env.context body).scope = x.evidenceKey.scope from hscope.symm]
        rfl
      have hraw : x.evidenceKey ∈ t.ledger.rawRecords.map (·.evidenceKey) :=
        List.mem_map_of_mem hx
      have hopen : (t.openRequest identity body env records).Constraints :=
        ⟨hconstraints.1, hconstraints.2, hconstraints.3⟩
      have hids : FreshCorrections (t.openRequest identity body env records) (env.context body)
          records := ⟨hfresh.1, hfresh.2⟩
      rw [hkey] at hraw ⊢
      exact recorded_of_appendPurges hopen hids h₁ hr hraw
    · exact happends.recorded hrecorded

/-- A request that is turned away does nothing. -/
theorem execute_of_refused {failure : PrivacyFailure} (h : refusal identity body = some failure) :
    executePrivacyRequest db w identity body env = (w, .error failure) := by
  simp only [executePrivacyRequest, h]

/-- A request an operation fails in has erased the objects before it. -/
theorem execute_of_fault (db : Database) (w : PrivacyWorld) {n : Nat}
    (h : refusal identity body = none) (hfault : env.fault = some n) :
    executePrivacyRequest db w identity body env =
      ({ w with readable := ObjectStore.purgeAll w.readable ((w.tables.erasedReferences db body
          (affectedRecordIds db body w.tables.ledger) identity).take n) },
        .error .interrupted) := by
  simp only [executePrivacyRequest, h, hfault]

/-- A request no operation fails in completes where its statements do. -/
theorem execute_of_no_fault (db : Database) (w : PrivacyWorld)
    (h : refusal identity body = none) (hfault : env.fault = none) :
    executePrivacyRequest db w identity body env =
      (⟨(recordDeletion w.tables identity body env
          (affectedRecordIds db body w.tables.ledger)).getD w.tables,
        ObjectStore.purgeAll w.readable (w.tables.erasedReferences db body
          (affectedRecordIds db body w.tables.ledger) identity)⟩,
        if (recordDeletion w.tables identity body env
            (affectedRecordIds db body w.tables.ledger)).isSome then
          .ok (deletionArtifact identity body env (affectedRecordIds db body w.tables.ledger))
        else .error .constraintViolated) := by
  simp only [executePrivacyRequest, h, hfault]
  cases recordDeletion w.tables identity body env (affectedRecordIds db body w.tables.ledger) <;>
    rfl

omit [Digest] in
/-- The rows of the affected records are allowed exactly when their tombstone
ids fit and each is of the request's app or has a purged state. -/
theorem accepts_of_condition (hconstraints : w.tables.Constraints)
    (h : ∀ x ∈ w.tables.ledger.rawRecords,
      x.recordId ∈ affectedRecordIds db body w.tables.ledger →
        isDomainIdentifier ((env.context body).tombstoneId x.recordId) = true ∧
          (x.evidenceKey.scope = body.scope ∨ RecordedPurge w.tables x.evidenceKey)) :
    ∀ r ∈ affectedRecordIds db body w.tables.ledger,
      w.tables.acceptsPurge (env.context body) r := by
  intro r hr
  obtain ⟨x, hx, rfl⟩ := exists_raw_of_affected hconstraints hr
  obtain ⟨hid, hscope | hrecorded⟩ := h x hx hr
  · refine ⟨hid, .inr (List.mem_map.mpr ⟨x, hx, ?_⟩)⟩
    rw [show (env.context body).scope = x.evidenceKey.scope from hscope.symm]
    rfl
  · obtain ⟨s, hs, -, hstate⟩ := hrecorded.state
    exact ⟨hid, .inl ⟨s, hs, hstate⟩⟩

/-- **When a deletion is atomic.**  Without a failing operation: exactly when
each affected record has a tombstone id that fits and is of the request's app,
or was recorded under its own app before.  With one: exactly when the objects
erased before it were unreadable already. -/
theorem deletion_isAtomic_iff (hconstraints : w.tables.Constraints)
    (hfresh : FreshIds db w.tables body env) :
    DeletionIsAtomic db w identity body env ↔ (refusal identity body = none →
      match env.fault with
      | none => ∀ x ∈ w.tables.ledger.rawRecords,
          x.recordId ∈ affectedRecordIds db body w.tables.ledger →
            isDomainIdentifier ((env.context body).tombstoneId x.recordId) = true ∧
              (x.evidenceKey.scope = body.scope ∨ RecordedPurge w.tables x.evidenceKey)
      | some n => ∀ ref ∈ (w.tables.erasedReferences db body
          (affectedRecordIds db body w.tables.ledger) identity).take n, ref ∉ w.readable) := by
  cases hrefusal : refusal identity body with
  | some failure =>
      refine iff_of_true ⟨fun hnone => ?_, fun _ _ => ?_⟩ nofun
      · rw [hrefusal] at hnone
        cases hnone
      · rw [execute_of_refused hrefusal]
        exact ⟨rfl, fun r hr => hr⟩
  | none =>
      simp only [true_implies]
      cases hfault : env.fault with
      | some n =>
          have hrun := execute_of_fault db w hrefusal hfault
          refine Iff.trans ?_ ObjectStore.purgeAll_keeps_iff
          constructor
          · intro hatomic
            have hfails := (hatomic.fails .interrupted (by rw [hrun])).2
            rw [hrun] at hfails
            exact hfails
          · intro hkeeps
            refine ⟨fun _ hnone => ?_, fun _ _ => ?_⟩
            · rw [hfault] at hnone
              cases hnone
            · rw [hrun]
              exact ⟨rfl, hkeeps⟩
      | none =>
          have hrun := execute_of_no_fault db w hrefusal hfault
          have hsome := recordDeletion_isSome_iff identity body
            (affectedRecordIds db body w.tables.ledger) hfresh.request
          constructor
          · intro hatomic x hx hr
            obtain ⟨artifact, hok, hrecorded⟩ := hatomic.completes hrefusal hfault
            rw [hrun] at hok hrecorded
            cases hdeletion : recordDeletion w.tables identity body env
                (affectedRecordIds db body w.tables.ledger) with
            | none =>
                rw [hdeletion] at hok
                cases hok
            | some t' =>
                rw [hdeletion] at hrecorded hsome
                have haccepts := hsome.mp rfl x.recordId hr
                exact ⟨haccepts.1, (recorded_of_recordDeletion hconstraints hfresh.corrections
                  hdeletion hx hr).mp (hrecorded x hx hr)⟩
          · intro hcondition
            have hdone := hsome.mpr (accepts_of_condition hconstraints hcondition)
            obtain ⟨t', hdeletion⟩ := Option.isSome_iff_exists.mp hdone
            rw [hdeletion] at hrun
            refine ⟨fun _ _ => ?_, fun failure hfailure => ?_⟩
            · rw [hrun]
              refine ⟨_, rfl, fun x hx hr => ?_⟩
              exact (recorded_of_recordDeletion hconstraints hfresh.corrections hdeletion hx hr).mpr
                (hcondition x hx hr).2
            · rw [hrun] at hfailure
              cases hfailure

end Law

section Runs

attribute [local instance] checksumDigest

/-- A raw record of an app whose payload is an object of the store. -/
def storedRecord (scope : Scope) (name : Identifier) (ref : String) :
    RawRecord where
  recordId := name
  tenantId := scope.tenantId
  appId := scope.appId
  producer := .import ⟨"max", by decide⟩
  producerVersion := "1"
  producerVariant := none
  wrapperVersion := none
  eventId := name
  deliveryId := name
  eventName := .adRevenue
  schemaVersion := "1"
  payloadSha256 := zeroHash
  occurredAt := ⟨2026, 1, 1, 0, 0, 0, 0⟩
  occurredAtSource := "server"
  receivedAt := ⟨2026, 1, 1, 0, 0, 0, 0⟩
  payloadLifecycleStatus := .available
  rawPayloadRef := ref
  integrityVerdict := none
  consent := ⟨none, "consent", none, .consentNotRequired, none⟩

/-- A ledger of one record, whose payload can be read. -/
def oneRecordWorld (scope : Scope) : PrivacyWorld where
  tables := { ledger := {
    rawRecords := [storedRecord scope (.named "record") "encrypted:record"] } }
  readable := ["encrypted:record"]

/-- The other app of the tenant. -/
def otherScope : Scope :=
  ⟨.named "tenant", .named "other"⟩

/-- The administration key of the app. -/
def appAdmin : PrivacyIdentity :=
  ⟨.named "tenant", .named "app", .adminKey "key"⟩

/-- The app's administrator deletes a scope. -/
def adminRequest (deletionScope : DeletionScope) : PrivacyRequestBody where
  tenantId := .named "tenant"
  appId := .named "app"
  requestedVia := .tenantAdminApi
  deletionScope := deletionScope
  deletionSubjectRef := ⟨"subject", by decide⟩

/-- A request in which nothing fails. -/
def quietEnvironment : RequestEnvironment where
  privacyRequestId := .named "privacy:1"
  completedAt := ⟨2026, 1, 2, 0, 0, 0, 0⟩
  fault := none
  listedFirst := fun _ _ => false

/-- **A deletion that fails behind its erasures.**  The tenant-wide request of
one app affects the record of another: the request fails on the record's
state, and the payload is gone. -/
theorem tenant_deletion_fails :
    refusal appAdmin (adminRequest .tenant) = none ∧
    (executePrivacyRequest plainDatabase (oneRecordWorld otherScope) appAdmin
      (adminRequest .tenant) quietEnvironment).2 = .error .constraintViolated ∧
    "encrypted:record" ∈ (oneRecordWorld otherScope).readable ∧
    "encrypted:record" ∉ (executePrivacyRequest plainDatabase (oneRecordWorld otherScope) appAdmin
      (adminRequest .tenant) quietEnvironment).1.readable :=
  ⟨by decide, rfl, by decide, by decide⟩

/-- Two records of the app came in one batch and share a payload; a third
record is one of the tenant's other app. -/
def batchWorld : PrivacyWorld where
  tables := {
    ledger := {
      rawRecords := [storedRecord cohortScope (.named "first") "encrypted:pair",
        storedRecord cohortScope (.named "second") "encrypted:pair",
        storedRecord otherScope (.named "third") "encrypted:other"] }
    batches := [⟨.named "batch", cohortScope, none, "encrypted:batch"⟩]
    batchRecords := [⟨.named "batch", cohortScope, .named "first"⟩,
      ⟨.named "batch", cohortScope, .named "second"⟩] }
  readable := ["encrypted:pair", "encrypted:batch", "encrypted:other"]

theorem batchWorld_constraints : batchWorld.tables.Constraints where
  recordIds := by decide
  states := fun _ hs => absurd hs List.not_mem_nil
  logicalEvents := fun _ he => absurd he List.not_mem_nil

/-- The request of an app that deletes its own records is atomic: both are
recorded, and the record of the other app is none of them. -/
theorem app_deletion_isAtomic :
    affectedRecordIds plainDatabase (adminRequest .app) batchWorld.tables.ledger =
      [.named "first", .named "second"] ∧
    DeletionIsAtomic plainDatabase batchWorld appAdmin (adminRequest .app) quietEnvironment := by
  have haffected : affectedRecordIds plainDatabase (adminRequest .app) batchWorld.tables.ledger =
      [.named "first", .named "second"] := by decide
  have hfresh : FreshIds plainDatabase batchWorld.tables (adminRequest .app) quietEnvironment :=
    ⟨by decide, by decide, by decide⟩
  have hfits : ∀ x ∈ batchWorld.tables.ledger.rawRecords,
      x.recordId ∈ [Identifier.named "first", .named "second"] →
        isDomainIdentifier ((quietEnvironment.context (adminRequest .app)).tombstoneId
          x.recordId) = true ∧ x.evidenceKey.scope = (adminRequest .app).scope := by
    decide
  refine ⟨haffected, (deletion_isAtomic_iff batchWorld_constraints hfresh).mpr ?_⟩
  intro _ x hx hr
  obtain ⟨hid, hscope⟩ := hfits x hx (haffected ▸ hr)
  exact ⟨hid, .inl hscope⟩

end Runs

end OpenMasu
