import OpenMasu.ImportRunner

/-!
# Retrying a failed import

A chunk is committed by itself, and its attempts become history only with the
last transaction of the run.  A run that throws behind a committed chunk
leaves delivery rows that a retry appends once more; a run that throws before
leaves nothing.

* `bulkCommit` — the ledger a chunk commits;
* `counts_of_bulkCommit`, `counts_of_runChunks` — the rows a chunk and the
  chunk loop append under a key;
* `SameImport`, `commitsFirst` — what a retry has to leave, and the condition;
* `retry_same_iff` — the law; `retry_after_commit` — a retry behind a commit.
-/

namespace OpenMasu

open AppendOnly (StepsMeet invariant_of_steps)

section Law

variable [Digest] [PayloadSchemas]

section Keys

variable {l l' : Ledger} {context : CallContext} {attempts history : List Attempt}
  {k : Identifier × Identifier}

/-- The delivery rows with a record and a delivery id. -/
def deliveryCount (l : Ledger) (k : Identifier × Identifier) : Nat :=
  l.deliveries.countP (fun s => s.row.key = k)

/-- The rejections with a record and a delivery id. -/
def rejectionCount (l : Ledger) (k : Identifier × Identifier) : Nat :=
  l.rejections.countP (fun r => r.key = k)

/-- The ledger a bulk call at a scope commits; none when the evaluation throws
or a constraint is broken. -/
def bulkCommit (l : Ledger) (context : CallContext) (attempts history : List Attempt) :
    Option Ledger :=
  let all := evaluatedAttempts l context attempts history
  match evaluate (runtimeInput all) indexedCandidateProvider with
  | .error _ => none
  | .ok out => l.commit (bulkTransaction context all (select context attempts out) attempts)

/-- **A bulk call.**  It leaves what it commits, unless its connection is lost
before, and completes when its connection is not lost. -/
theorem ingestScope_bulk (l : Ledger) (context : CallContext) (attempts history : List Attempt) :
    (ingestScope l context attempts history true).ledger
        = (if context.fault = some 0 then l
          else (bulkCommit l context attempts history).getD l) ∧
      ((ingestScope l context attempts history true).completed = true ↔
        context.fault = none ∧ (bulkCommit l context attempts history).isSome) := by
  unfold ingestScope bulkCommit
  dsimp only
  cases evaluate (runtimeInput (evaluatedAttempts l context attempts history))
      indexedCandidateProvider with
  | error e => simp
  | ok out =>
      dsimp only [callTransactions]
      rw [if_pos rfl]
      cases hcommit : l.commit (bulkTransaction context (evaluatedAttempts l context attempts history)
          (select context attempts out) attempts) with
      | none =>
          cases hfault : context.fault with
          | none => simp [Ledger.persist, Ledger.persistAll, hcommit]
          | some n =>
              cases n with
              | zero => simp [Ledger.persist, Ledger.persistAll]
              | succ n => simp [Ledger.persist, Ledger.persistAll, hcommit]
      | some l' =>
          cases hfault : context.fault with
          | none => simp [Ledger.persist, Ledger.persistAll, hcommit]
          | some n =>
              cases n with
              | zero => simp [Ledger.persist, Ledger.persistAll]
              | succ n => simp [Ledger.persist, Ledger.persistAll, hcommit]

/-- The attempts have ids of their own; a record or delivery id of the key is
that of its attempt, and none of the history has its record id. -/
structure KeyApart (k : Identifier × Identifier) (attempts history : List Attempt) : Prop where
  records : (attempts.map (·.record.recordId)).Nodup
  deliveries : (attempts.map (·.record.deliveryId)).Nodup
  own : k.1 ∈ attempts.map (·.record.recordId) ∨ k.2 ∈ attempts.map (·.record.deliveryId) →
    k ∈ attempts.map deliveryKey
  history : k ∈ attempts.map deliveryKey → ∀ h ∈ history, h.record.recordId ≠ k.1

omit [Digest] [PayloadSchemas] in
/-- Keys apart are distinct. -/
theorem KeyApart.nodup (happart : KeyApart k attempts history) :
    (attempts.map deliveryKey).Nodup := by
  refine List.Nodup.of_map Prod.fst ?_
  rw [List.map_map]
  exact happart.records

omit [Digest] [PayloadSchemas] in
/-- The attempt with one of the ids of the key is the attempt of the key. -/
theorem KeyApart.own_of_subset {part : List Attempt} (happart : KeyApart k attempts history)
    (hsub : part ⊆ attempts)
    (h : k.1 ∈ part.map (·.record.recordId) ∨ k.2 ∈ part.map (·.record.deliveryId)) :
    k ∈ part.map deliveryKey := by
  rcases h with h | h
  · obtain ⟨x, hx, hid⟩ := List.mem_map.mp h
    obtain ⟨y, hy, hkey⟩ := List.mem_map.mp (happart.own
      (.inl (List.mem_map.mpr ⟨x, hsub hx, hid⟩)))
    have heq : y = x := List.inj_on_of_nodup_map happart.records hy (hsub hx)
      ((congrArg Prod.fst hkey).trans hid.symm)
    exact List.mem_map.mpr ⟨x, hx, heq ▸ hkey⟩
  · obtain ⟨x, hx, hid⟩ := List.mem_map.mp h
    obtain ⟨y, hy, hkey⟩ := List.mem_map.mp (happart.own
      (.inr (List.mem_map.mpr ⟨x, hsub hx, hid⟩)))
    have heq : y = x := List.inj_on_of_nodup_map happart.deliveries hy (hsub hx)
      ((congrArg Prod.snd hkey).trans hid.symm)
    exact List.mem_map.mpr ⟨x, hx, heq ▸ hkey⟩

omit [Digest] [PayloadSchemas] in
/-- A key apart from a batch is apart from its first part. -/
theorem KeyApart.left {rest : List Attempt} (happart : KeyApart k (attempts ++ rest) history) :
    KeyApart k attempts history := by
  refine ⟨?_, ?_, happart.own_of_subset (List.subset_append_left ..), ?_⟩
  · exact happart.records.sublist ((List.sublist_append_left ..).map _)
  · exact happart.deliveries.sublist ((List.sublist_append_left ..).map _)
  · intro hk h hh
    refine happart.history ?_ h hh
    rw [List.map_append]
    exact List.mem_append_left _ hk

omit [Digest] [PayloadSchemas] in
/-- It is apart from the other part also when the first has become history. -/
theorem KeyApart.right {rest history' : List Attempt}
    (happart : KeyApart k (attempts ++ rest) history) (hsub : history' ⊆ history ++ attempts) :
    KeyApart k rest history' := by
  refine ⟨?_, ?_, happart.own_of_subset (List.subset_append_right ..), ?_⟩
  · exact happart.records.sublist ((List.sublist_append_right ..).map _)
  · exact happart.deliveries.sublist ((List.sublist_append_right ..).map _)
  · intro hk h hh hid
    rcases List.mem_append.mp (hsub hh) with hh | hh
    · refine happart.history ?_ h hh hid
      rw [List.map_append]
      exact List.mem_append_right _ hk
    · obtain ⟨x, hx, hkey⟩ := List.mem_map.mp hk
      have heq : x.record.recordId = h.record.recordId := (congrArg Prod.fst hkey).trans hid.symm
      have hnodup := happart.records
      rw [List.map_append] at hnodup
      exact List.disjoint_of_nodup_append hnodup (List.mem_map.mpr ⟨h, hh, rfl⟩)
        (List.mem_map.mpr ⟨x, hx, heq⟩)

omit [Digest] [PayloadSchemas] in
/-- Less history keeps the keys apart. -/
theorem KeyApart.mono {history' : List Attempt} (happart : KeyApart k attempts history)
    (hsub : history' ⊆ history) : KeyApart k attempts history' :=
  { happart with history := fun hk h hh => happart.history hk h (hsub hh) }

/-- The key names a record or a delivery of the evaluated attempts of the
batch. -/
def keyBelongs (attempts : List Attempt) (k : Identifier × Identifier) : Bool :=
  ((validAttempts attempts).map (·.record.recordId)).contains k.1 ||
    ((validAttempts attempts).map (·.record.deliveryId)).contains k.2

omit [Digest] in
/-- The rows under a key among those that belong to the batch. -/
theorem countP_belonging {ρ : Type} (key : ρ → Identifier × Identifier) (rows : List ρ) :
    (rows.filter (fun r => keyBelongs attempts (key r))).countP (fun r => key r = k)
      = if keyBelongs attempts k then rows.countP (fun r => key r = k) else 0 := by
  rw [List.countP_filter]
  by_cases hk : keyBelongs attempts k = true
  · rw [if_pos hk]
    refine List.countP_congr (fun r _ => ?_)
    by_cases hr : key r = k
    · simp [hr, hk]
    · simp [hr]
  · rw [if_neg hk, List.countP_eq_zero]
    intro r _
    by_cases hr : key r = k
    · simp [hr, hk]
    · simp [hr]

omit [Digest] in
/-- A key that does not belong to the batch is none of its evaluated
attempts. -/
theorem countP_valid_of_not_belongs (hk : keyBelongs attempts k = false) :
    (validAttempts attempts).countP (fun a => deliveryKey a = k) = 0 := by
  rw [List.countP_eq_zero]
  intro a ha hkey
  have hrecord : k.1 ∈ (validAttempts attempts).map (·.record.recordId) :=
    List.mem_map.mpr ⟨a, ha, congrArg Prod.fst (of_decide_eq_true hkey)⟩
  simp [keyBelongs, hrecord] at hk

/-- Under a key of the batch the evaluation sees the attempts of the batch
only. -/
theorem countP_evaluated (l : Ledger) (context : CallContext)
    (happart : KeyApart k attempts history)
    (hk : keyBelongs attempts k = true) :
    (evaluatedAttempts l context attempts history).countP (fun a => deliveryKey a = k)
      = (validAttempts attempts).countP (fun a => deliveryKey a = k) := by
  have hown : k ∈ attempts.map deliveryKey := by
    refine happart.own ?_
    have hsub : ∀ a ∈ validAttempts attempts, a ∈ attempts := fun a ha => (List.mem_filter.mp ha).1
    rcases Bool.or_eq_true_iff.mp hk with h | h
    · obtain ⟨a, ha, hid⟩ := List.mem_map.mp (List.contains_iff_mem.mp h)
      exact .inl (List.mem_map.mpr ⟨a, hsub a ha, hid⟩)
    · obtain ⟨a, ha, hid⟩ := List.mem_map.mp (List.contains_iff_mem.mp h)
      exact .inr (List.mem_map.mpr ⟨a, hsub a ha, hid⟩)
  have hperm := KeyedSort.perm_sortOn candidateAttemptSortKey
    ((history.filter isSchemaValid ++ validAttempts attempts).map (prepareAttempt l context))
  have hkeys : ∀ a, deliveryKey (prepareAttempt l context a) = deliveryKey a := by
    intro a
    simp [deliveryKey]
  have hhistory : (history.filter isSchemaValid).countP (fun a => deliveryKey a = k) = 0 := by
    rw [List.countP_eq_zero]
    intro h hh hkey
    refine happart.history hown h (List.mem_filter.mp hh).1 ?_
    exact congrArg Prod.fst (of_decide_eq_true hkey)
  rw [evaluatedAttempts, sortCandidateAttempts, hperm.countP_eq, List.countP_map,
    List.countP_append]
  simp only [Function.comp_def, hkeys, hhistory, Nat.zero_add]

omit [Digest] in
/-- Every attempt of a batch is evaluated or turned away for its schema. -/
theorem countP_valid_add_invalid (happart : KeyApart k attempts history) :
    (validAttempts attempts).countP (fun a => deliveryKey a = k) +
        (attempts.filter (fun a => !isSchemaValid a)).countP (fun a => deliveryKey a = k)
      = if k ∈ attempts.map deliveryKey then 1 else 0 := by
  have hcount : attempts.countP (fun a => deliveryKey a = k)
      = if k ∈ attempts.map deliveryKey then 1 else 0 := by
    have hmap : attempts.countP (fun a => deliveryKey a = k)
        = (attempts.map deliveryKey).count k := by
      rw [List.count_eq_countP, List.countP_map]
      exact List.countP_congr (fun a _ => by simp)
    rw [hmap, happart.nodup.count]
  by_cases hinvalid : k ∈ (attempts.filter (fun b => !isSchemaValid b)).map deliveryKey
  · -- the attempt of the key is the invalid one
    have hmem : k ∈ attempts.map deliveryKey :=
      (List.filter_sublist.map _).subset hinvalid
    have hvalid : (validAttempts attempts).countP (fun a => deliveryKey a = k) = 0 := by
      rw [List.countP_eq_zero]
      intro a ha hkey
      refine of_decide_eq_true (List.mem_filter.mp ha).2 ?_
      rw [of_decide_eq_true hkey]
      exact hinvalid
    have hone : (attempts.filter (fun a => !isSchemaValid a)).countP (fun a => deliveryKey a = k)
        = 1 := by
      have hle : (attempts.filter (fun a => !isSchemaValid a)).countP (fun a => deliveryKey a = k)
          ≤ attempts.countP (fun a => deliveryKey a = k) := List.filter_sublist.countP_le
      have hpos : 0 < (attempts.filter (fun a => !isSchemaValid a)).countP
          (fun a => deliveryKey a = k) := by
        obtain ⟨b, hb, hkey⟩ := List.mem_map.mp hinvalid
        exact List.countP_pos_iff.mpr ⟨b, hb, by simpa using hkey⟩
      rw [hcount, if_pos hmem] at hle
      omega
    rw [hvalid, hone, if_pos hmem]
  · have hnone : (attempts.filter (fun a => !isSchemaValid a)).countP (fun a => deliveryKey a = k)
        = 0 := by
      rw [List.countP_eq_zero]
      intro b hb hkey
      exact hinvalid (List.mem_map.mpr ⟨b, hb, of_decide_eq_true hkey⟩)
    have hall : (validAttempts attempts).countP (fun a => deliveryKey a = k)
        = attempts.countP (fun a => deliveryKey a = k) := by
      rw [validAttempts, List.countP_filter]
      refine List.countP_congr (fun a _ => ?_)
      by_cases hkey : deliveryKey a = k
      · simp [hkey, hinvalid]
      · simp [hkey]
    rw [hnone, hall, hcount, Nat.add_zero]

variable {out : EvaluationOutput}

/-- **The rows of one attempt.**  A call selects one delivery row under the key
of an attempt, and none under another. -/
theorem countP_selected_deliveries (happart : KeyApart k attempts history)
    (report : RuntimeReport (evaluatedAttempts l context attempts history) out) :
    (select context attempts out).deliveries.countP (fun d => d.key = k)
      = if k ∈ attempts.map deliveryKey then 1 else 0 := by
  have hinvalid : ((attempts.filter (fun a => !isSchemaValid a)).map (fun a =>
        schemaInvalidDelivery (bindFraudBundle context.activeRevision a))).countP
          (fun d => d.key = k)
      = (attempts.filter (fun a => !isSchemaValid a)).countP (fun a => deliveryKey a = k) := by
    have hkey : ∀ a, (schemaInvalidDelivery (bindFraudBundle context.activeRevision a)).key
        = deliveryKey a := by
      intro a
      obtain ⟨_, _, _, hbind⟩ := bindFraudBundle_shape context a
      rw [hbind]
      rfl
    simp only [List.countP_map, Function.comp_def, hkey]
  have hown : (out.deliveries.filter (fun d => keyBelongs attempts d.key)).countP
        (fun d => d.key = k)
      = (validAttempts attempts).countP (fun a => deliveryKey a = k) := by
    rw [countP_belonging Delivery.key out.deliveries]
    by_cases hk : keyBelongs attempts k = true
    · rw [if_pos hk, report.deliveries.countP_eq, ← countP_evaluated l context happart hk]
      have hmap : ∀ rows : List Delivery, rows.countP (fun d => d.key = k)
          = (rows.map Delivery.key).countP (fun key => key = k) := by
        intro rows
        rw [List.countP_map]
        rfl
      rw [hmap, report.keys, List.countP_map]
      rfl
    · rw [if_neg hk, countP_valid_of_not_belongs (by simpa using hk)]
  rw [← countP_valid_add_invalid happart, ← hinvalid, ← hown, ← List.countP_append]
  rfl

/-- A call selects at most one rejection under the key of an attempt, and none
under another. -/
theorem countP_selected_rejections (happart : KeyApart k attempts history)
    (report : RuntimeReport (evaluatedAttempts l context attempts history) out) :
    (select context attempts out).rejections.countP (fun r => r.key = k)
      ≤ if k ∈ attempts.map deliveryKey then 1 else 0 := by
  have hinvalid : ((attempts.filter (fun a => !isSchemaValid a)).map (fun a =>
        schemaInvalidRejection (bindFraudBundle context.activeRevision a))).countP
          (fun r => r.key = k)
      = (attempts.filter (fun a => !isSchemaValid a)).countP (fun a => deliveryKey a = k) := by
    have hkey : ∀ a, (schemaInvalidRejection (bindFraudBundle context.activeRevision a)).key
        = deliveryKey a := by
      intro a
      obtain ⟨_, _, _, hbind⟩ := bindFraudBundle_shape context a
      rw [hbind]
      rfl
    simp only [List.countP_map, Function.comp_def, hkey]
  have hown : (out.rejections.filter (fun r => keyBelongs attempts r.key)).countP
        (fun r => r.key = k)
      ≤ (validAttempts attempts).countP (fun a => deliveryKey a = k) := by
    rw [countP_belonging Rejection.key out.rejections]
    by_cases hk : keyBelongs attempts k = true
    · rw [if_pos hk, report.rejections.countP_eq, List.countP_map,
        ← countP_evaluated l context happart hk]
      refine List.filter_sublist.countP_le.trans (le_of_eq ?_)
      have hmap : report.list.countP (fun d => (rejectionRow d).key = k)
          = (report.list.map (fun d => (d.recordId, d.deliveryId))).countP (fun key => key = k) := by
        rw [List.countP_map]
        rfl
      refine Eq.trans hmap ?_
      rw [report.decisionKeys, List.countP_map]
      rfl
    · rw [if_neg hk]
      exact Nat.zero_le _
  have hsplit : (select context attempts out).rejections
      = out.rejections.filter (fun r => keyBelongs attempts r.key) ++
        (attempts.filter (fun a => !isSchemaValid a)).map (fun a =>
          schemaInvalidRejection (bindFraudBundle context.activeRevision a)) := rfl
  rw [hsplit, List.countP_append, hinvalid, ← countP_valid_add_invalid happart]
  exact Nat.add_le_add_right hown _

omit [Digest] [PayloadSchemas] in
/-- A bulk transaction appends the selected delivery rows that an attempt
answers for, and the selected rejections. -/
theorem appended_by_bulk (context : CallContext) (all : List Attempt) (selected : Selected)
    (attempts : List Attempt) :
    (bulkTransaction context all selected attempts).filterMap Write.deliveryRow
        = selected.deliveries.filterMap (fun d =>
          ((all ++ attempts).find? (fun a => deliveryKey a = d.key)).map (fun a => ⟨a, d⟩)) ∧
      (bulkTransaction context all selected attempts).filterMap Write.rejectionRow
        = selected.rejections := by
  have hfacts : ∀ {β : Type} (f : Write → Option β), (∀ row, f (.fact row) = none) →
      (bulkFacts context all selected.logicalEvents).filterMap f = [] := by
    intro β f hf
    rw [List.filterMap_eq_nil_iff]
    intro w hw
    by_contra hsome
    refine notMem_bulkFacts (fun row heq => hsome ?_) _ hw
    rw [heq, hf]
  have hlogical : ∀ {β : Type} (f : Write → Option β), (∀ e, f (.logical e) = none) →
      (selected.logicalEvents.flatMap (fun e => (logicalWrite all.reverse e).toList)).filterMap f
        = [] := by
    intro β f hf
    rw [List.filterMap_eq_nil_iff]
    intro w hw
    obtain ⟨e, -, hw⟩ := List.mem_flatMap.mp hw
    obtain ⟨a, -, rfl⟩ := Option.map_eq_some_iff.mp (Option.mem_toList.mp hw)
    exact hf _
  have hothers : ∀ {β : Type} (f : Write → Option β), (∀ r, f (.raw r) = none) →
      (∀ s, f (.payloadState s) = none) → (∀ t, f (.attribution t) = none) →
      (∀ revision scopes d, f (.fraud revision scopes d) = none) →
      (∀ r, f (.reconciliation r) = none) →
      (selected.rawRecords.map Write.raw).filterMap f = [] ∧
      (selected.rawRecords.map (fun r => Write.payloadState r.availableState)).filterMap f = [] ∧
      (selected.attributions.map Write.attribution).filterMap f = [] ∧
      (selected.fraudDecisions.map (fun d => Write.fraud context.activeRevision
        ((attempts.map (·.scope)).take 1) d)).filterMap f = [] ∧
      (selected.reconciliations.map Write.reconciliation).filterMap f = [] := by
    intro β f hraw hstate hattribution hfraud hreconciliation
    simp [List.filterMap_map, hraw, hstate, hattribution, hfraud, hreconciliation]
  constructor
  · obtain ⟨hraw, hstate, hattribution, hfraud, hreconciliation⟩ := hothers Write.deliveryRow
      (fun _ => rfl) (fun _ => rfl) (fun _ => rfl) (fun _ _ _ => rfl) (fun _ => rfl)
    have hrejections : (selected.rejections.map Write.rejection).filterMap Write.deliveryRow
        = [] := by
      simp [List.filterMap_map, Function.comp_def, Write.deliveryRow]
    simp only [bulkTransaction, List.filterMap_append, hlogical Write.deliveryRow (fun _ => rfl),
      hfacts Write.deliveryRow (fun _ => rfl), hraw, hstate, hattribution, hfraud,
      hreconciliation, hrejections, List.nil_append, List.append_nil]
    rw [← List.filterMap_eq_flatMap_toList, List.filterMap_filterMap]
    refine List.filterMap_congr (fun d _ => ?_)
    cases (all ++ attempts).find? (fun a => deliveryKey a = d.key) <;> rfl
  · obtain ⟨hraw, hstate, hattribution, hfraud, hreconciliation⟩ := hothers Write.rejectionRow
      (fun _ => rfl) (fun _ => rfl) (fun _ => rfl) (fun _ _ _ => rfl) (fun _ => rfl)
    have hdeliveries : (selected.deliveries.flatMap (fun d =>
        (((all ++ attempts).find? (fun a => deliveryKey a = d.key)).map
          (fun a => Write.delivery ⟨a, d⟩)).toList)).filterMap Write.rejectionRow = [] := by
      rw [List.filterMap_eq_nil_iff]
      intro w hw
      obtain ⟨d, -, hw⟩ := List.mem_flatMap.mp hw
      obtain ⟨a, -, rfl⟩ := Option.map_eq_some_iff.mp (Option.mem_toList.mp hw)
      rfl
    have hrejections : (selected.rejections.map Write.rejection).filterMap Write.rejectionRow
        = selected.rejections := by
      rw [List.filterMap_map]
      exact List.filterMap_some
    simp only [bulkTransaction, List.filterMap_append, hlogical Write.rejectionRow (fun _ => rfl),
      hfacts Write.rejectionRow (fun _ => rfl), hraw, hstate, hattribution, hfraud,
      hreconciliation, hdeliveries, hrejections, List.nil_append, List.append_nil]

/-- **The rows a chunk commits.**  One delivery row and at most one rejection
under the key of each of its attempts, and none under another key. -/
theorem counts_of_bulkCommit (happart : KeyApart k attempts history)
    (h : bulkCommit l context attempts history = some l') :
    deliveryCount l' k = deliveryCount l k + (if k ∈ attempts.map deliveryKey then 1 else 0) ∧
      rejectionCount l' k
        ≤ rejectionCount l k + (if k ∈ attempts.map deliveryKey then 1 else 0) := by
  unfold bulkCommit at h
  dsimp only at h
  split at h
  · cases h
  · case h_2 out hout =>
      obtain ⟨report⟩ := exists_runtimeReport (evaluatedAttempts_sorted ..) hout
      obtain ⟨hdeliveries, hrejections⟩ := Ledger.appended_of_commit h
      obtain ⟨hrows, hrejected⟩ := appended_by_bulk context
        (evaluatedAttempts l context attempts history) (select context attempts out) attempts
      have hone := countP_selected_deliveries happart report
      constructor
      · rw [deliveryCount, hdeliveries, hrows, List.countP_append, List.countP_filterMap,
          ← deliveryCount, ← hone]
        congr 1
        refine List.countP_congr (fun d hd => ?_)
        by_cases hkey : d.key = k
        · -- some attempt of the batch has the key, so an attempt answers for the row
          have hmem : k ∈ attempts.map deliveryKey := by
            by_contra hnone
            rw [if_neg hnone, List.countP_eq_zero] at hone
            exact hone d hd (by simpa using hkey)
          obtain ⟨x, hx, hxkey⟩ := List.mem_map.mp hmem
          have hsome : ((evaluatedAttempts l context attempts history ++ attempts).find?
              (fun a => deliveryKey a = d.key)).isSome :=
            List.find?_isSome.mpr ⟨x, List.mem_append_right _ hx, by simp [hxkey, hkey]⟩
          obtain ⟨a, ha⟩ := Option.isSome_iff_exists.mp hsome
          rw [ha]
          simp [hkey]
        · cases (evaluatedAttempts l context attempts history ++ attempts).find?
            (fun a => deliveryKey a = d.key) <;> simp [hkey]
      · rw [rejectionCount, hrejections, hrejected, List.countP_append, ← rejectionCount]
        exact Nat.add_le_add_left (countP_selected_rejections happart report) _

/-- What a chunk commits keeps the delivery rows that were there. -/
theorem deliveryCount_le_of_bulkCommit (k : Identifier × Identifier)
    (h : bulkCommit l context attempts history = some l') :
    deliveryCount l k ≤ deliveryCount l' k := by
  unfold bulkCommit at h
  dsimp only at h
  split at h
  · cases h
  · obtain ⟨hdeliveries, -⟩ := Ledger.appended_of_commit h
    rw [deliveryCount, deliveryCount, hdeliveries, List.countP_append]
    omega

end Keys

section Chunks

variable {contexts : Nat → CallContext} {scope : Scope} {k : Identifier × Identifier}

omit [PayloadSchemas] [Digest] in
/-- Attempts of one scope are ingested at that scope. -/
theorem scopesOf_of_scope {attempts : List Attempt} (hne : attempts ≠ [])
    (hscope : ∀ a ∈ attempts, a.scope = scope) : scopesOf attempts = [scope] := by
  have hmap : attempts.map (·.scope) = List.replicate attempts.length scope := by
    refine List.eq_replicate_iff.mpr ⟨List.length_map .., fun s hs => ?_⟩
    obtain ⟨a, ha, rfl⟩ := List.mem_map.mp hs
    exact hscope a ha
  have hlength : attempts.length ≠ 0 := fun h => hne (List.length_eq_zero_iff.mp h)
  rw [scopesOf, hmap, List.replicate_dedup hlength]
  rfl

/-- A chunk of one scope is a bulk call at that scope. -/
theorem ingestRuntimeBatch_of_scope {l : Ledger} {context : CallContext}
    {attempts history : List Attempt} {bulk : Bool} (hne : attempts ≠ [])
    (hscope : ∀ a ∈ attempts, a.scope = scope) :
    ingestRuntimeBatch l (fun _ => context) attempts history bulk
      = ingestScope l context attempts history bulk := by
  rw [ingestRuntimeBatch, scopesOf_of_scope hne hscope]

omit [Digest] [PayloadSchemas] in
/-- The history of a chunk is part of the history. -/
theorem chunkHistory_subset (history chunk : List Attempt) :
    chunkHistory history chunk ⊆ history := by
  intro h hh
  obtain ⟨e, -, hh⟩ := List.mem_flatMap.mp hh
  exact (List.mem_filter.mp hh).1

/-- **The chunk loop keeps the delivery rows that were there**, whether it ends
early or not. -/
theorem deliveryCount_le_runChunks (k : Identifier × Identifier) (chunks : List (List Attempt))
    (hne : ∀ c ∈ chunks, c ≠ []) (hscope : ∀ a ∈ chunks.flatten, a.scope = scope) (i : Nat)
    (history : List Attempt) (l : Ledger) :
    deliveryCount l k ≤ deliveryCount (runChunks contexts i chunks history l).1 k := by
  induction chunks generalizing i history l with
  | nil => exact Nat.le_refl _
  | cons chunk rest ih =>
      have hfirst : deliveryCount l k ≤ deliveryCount
          (ingestScope l (contexts i) chunk (chunkHistory history chunk) true).ledger k := by
        obtain ⟨hledger, -⟩ := ingestScope_bulk l (contexts i) chunk (chunkHistory history chunk)
        rw [hledger]
        split
        · exact Nat.le_refl _
        · cases hcommit : bulkCommit l (contexts i) chunk (chunkHistory history chunk) with
          | none => exact Nat.le_refl _
          | some l' => exact deliveryCount_le_of_bulkCommit k hcommit
      rw [List.flatten_cons] at hscope
      unfold runChunks
      rw [ingestRuntimeBatch_of_scope (hne _ List.mem_cons_self)
        (fun a ha => hscope a (List.mem_append_left _ ha))]
      dsimp only
      split
      · exact hfirst.trans (ih (fun c hc => hne c (List.mem_cons_of_mem _ hc))
          (fun a ha => hscope a (List.mem_append_right _ ha)) _ _ _)
      · exact hfirst

/-- **What a completed chunk loop appends.**  One delivery row and at most one
rejection under the key of each attempt. -/
theorem counts_of_runChunks (chunks : List (List Attempt)) (hne : ∀ c ∈ chunks, c ≠ [])
    (hscope : ∀ a ∈ chunks.flatten, a.scope = scope) (i : Nat) (history : List Attempt) (l : Ledger)
    (happart : KeyApart k chunks.flatten history)
    (hdone : (runChunks contexts i chunks history l).2 = true) :
    deliveryCount (runChunks contexts i chunks history l).1 k
        = deliveryCount l k + (if k ∈ chunks.flatten.map deliveryKey then 1 else 0) ∧
      rejectionCount (runChunks contexts i chunks history l).1 k
        ≤ rejectionCount l k + (if k ∈ chunks.flatten.map deliveryKey then 1 else 0) := by
  induction chunks generalizing i history l with
  | nil => simp [runChunks]
  | cons chunk rest ih =>
      rw [List.flatten_cons] at hscope happart
      have hcall : ingestRuntimeBatch l (fun _ => contexts i) chunk (chunkHistory history chunk)
          true = ingestScope l (contexts i) chunk (chunkHistory history chunk) true :=
        ingestRuntimeBatch_of_scope (hne _ List.mem_cons_self)
          (fun a ha => hscope a (List.mem_append_left _ ha))
      obtain ⟨hledger, hcompleted⟩ :=
        ingestScope_bulk l (contexts i) chunk (chunkHistory history chunk)
      unfold runChunks at hdone ⊢
      rw [hcall] at hdone ⊢
      dsimp only at hdone ⊢
      split at hdone
      · case isTrue hfirst =>
          rw [if_pos hfirst]
          obtain ⟨hfault, hcommits⟩ := hcompleted.mp hfirst
          obtain ⟨l', hcommit⟩ := Option.isSome_iff_exists.mp hcommits
          rw [hfault, if_neg nofun, hcommit, Option.getD_some] at hledger
          rw [hledger] at hdone ⊢
          have hvalid : history ++ validAttempts chunk ⊆ history ++ chunk :=
            List.append_subset.mpr ⟨List.subset_append_left .., fun a ha =>
              List.mem_append_right _ (List.mem_filter.mp ha).1⟩
          obtain ⟨hone, hreject⟩ := counts_of_bulkCommit
            (happart.left.mono (chunkHistory_subset history chunk)) hcommit
          obtain ⟨hrest, hrestReject⟩ := ih (fun c hc => hne c (List.mem_cons_of_mem _ hc))
            (fun a ha => hscope a (List.mem_append_right _ ha)) (i + 1) _ l'
            (happart.right hvalid) hdone
          -- the key is that of an attempt of the chunk, of a later one, or of none
          have hexclusive : ¬ (k ∈ chunk.map deliveryKey ∧ k ∈ rest.flatten.map deliveryKey) := by
            have hnodup := happart.nodup
            rw [List.map_append] at hnodup
            exact fun h => List.disjoint_of_nodup_append hnodup h.1 h.2
          have hsplit : (if k ∈ (chunk ++ rest.flatten).map deliveryKey then 1 else 0)
              = (if k ∈ chunk.map deliveryKey then 1 else 0)
                + (if k ∈ rest.flatten.map deliveryKey then 1 else 0) := by
            rw [List.map_append]
            by_cases hchunk : k ∈ chunk.map deliveryKey
            · have hlater : k ∉ rest.flatten.map deliveryKey := fun h => hexclusive ⟨hchunk, h⟩
              simp only [List.mem_append, hchunk, hlater, or_false, if_true, if_false, Nat.add_zero]
            · simp only [List.mem_append, hchunk, false_or, if_false, Nat.zero_add]
          rw [List.flatten_cons, hsplit]
          constructor
          · omega
          · omega
      · case isFalse => cases hdone

end Chunks

section Rows

variable {Row : Type} (m : ImportMapping Row) (file : ImportFile Row)

/-- The rows of a file that the mapping maps. -/
def mappedRows : List (Row × Nat) :=
  (matchedRows m file).filter (fun e => (m.mapRow e.1).isOk)

/-- The record and the delivery id of a row. -/
def rowKey (rowOrdinal : Nat) : Identifier × Identifier :=
  (rowRecordId m file.digest rowOrdinal, rowDeliveryId file.digest rowOrdinal)

omit [PayloadSchemas] in
/-- **The attempts of a file.**  One for each mapped row, with the ids of the
row, whenever the run takes place. -/
theorem attemptRows_keys (now : Timestamp) :
    (attemptRows m file now).map (fun e => (e.1, deliveryKey e.2))
      = (mappedRows m file).map (fun e => (e.2, rowKey m file e.2)) := by
  unfold attemptRows mappedRows
  induction matchedRows m file with
  | nil => rfl
  | cons e rest ih =>
      cases hmapped : m.mapRow e.1 with
      | error reason => simpa [hmapped, Except.isOk, Except.toBool] using ih
      | ok mapped =>
          simp only [List.filterMap_cons, hmapped, List.map_cons, Except.isOk, Except.toBool,
            List.filter_cons_of_pos, ih]
          rfl

omit [PayloadSchemas] in
/-- The keys of a file do not depend on when it is read. -/
theorem fileAttempts_keys (now : Timestamp) :
    (fileAttempts m file now).map deliveryKey
      = (mappedRows m file).map (fun e => rowKey m file e.2) := by
  have hkeys := congrArg (List.map Prod.snd) (attemptRows_keys m file now)
  simpa [fileAttempts, List.map_map, Function.comp_def] using hkeys

omit [Digest] [PayloadSchemas] in
/-- The ordinals of the mapped rows are distinct places of the file. -/
theorem mappedRows_ordinals :
    ((mappedRows m file).map (·.2)).Nodup ∧
      ∀ e ∈ mappedRows m file, e.2 < file.rows.length := by
  have hsub : (mappedRows m file).Sublist file.rows.zipIdx :=
    List.filter_sublist.trans List.filter_sublist
  constructor
  · have hall : (file.rows.zipIdx.map Prod.snd).Nodup := by
      rw [List.zipIdx_map_snd]
      exact List.nodup_range'
    exact hall.sublist (hsub.map _)
  · intro e he
    exact (List.mem_zipIdx' (hsub.subset he)).1

omit [PayloadSchemas] in
/-- All rows of a file are of the mapping's app. -/
theorem scope_of_mem_fileAttempts {now : Timestamp} {a : Attempt}
    (ha : a ∈ fileAttempts m file now) : a.scope = m.scope := by
  obtain ⟨e, he, rfl⟩ := List.mem_map.mp ha
  obtain ⟨row, -, hrow⟩ := List.mem_filterMap.mp he
  cases hmapped : m.mapRow row.1 with
  | error reason =>
      rw [hmapped] at hrow
      cases hrow
  | ok mapped =>
      rw [hmapped] at hrow
      cases hrow
      rfl

/-- The ids of the rows are distinct, and no published attempt of the scope
has the record id of one. -/
structure IdsApart (w : ImportWorld) : Prop where
  records : ∀ i < file.rows.length, ∀ j < file.rows.length,
    rowRecordId m file.digest i = rowRecordId m file.digest j → i = j
  deliveries : ∀ i < file.rows.length, ∀ j < file.rows.length,
    rowDeliveryId file.digest i = rowDeliveryId file.digest j → i = j
  fresh : ∀ p ∈ w.attempts, p.attempt.scope = m.scope →
    ∀ i < file.rows.length, p.attempt.record.recordId ≠ rowRecordId m file.digest i

variable {m file}

omit [Digest] [PayloadSchemas] in
/-- What a run reads back was published, in the scope of the mapping. -/
theorem exists_published {w : ImportWorld} {eventIds : List Identifier} {h : Attempt}
    (hh : h ∈ historicalAttempts w m eventIds) :
    ∃ p ∈ w.attempts, p.attempt.scope = m.scope ∧ h.record = p.attempt.record := by
  obtain ⟨p, hp, rfl⟩ := List.mem_map.mp hh
  obtain ⟨hp, hcond⟩ := List.mem_filter.mp ((KeyedSort.mem_sortOn _).mp hp)
  simp only [Bool.and_eq_true, decide_eq_true_eq] at hcond
  exact ⟨p, hp, hcond.1.1, rfl⟩

omit [PayloadSchemas] in
/-- The key of a row is apart from the other rows and from the history. -/
theorem IdsApart.keyApart {w : ImportWorld} (hids : IdsApart m file w) {now : Timestamp}
    {k : Identifier × Identifier} (hk : k ∈ (fileAttempts m file now).map deliveryKey) :
    KeyApart k (fileAttempts m file now) (fileHistory w m file now) := by
  obtain ⟨hordinals, hbound⟩ := mappedRows_ordinals m file
  have hkeys := fileAttempts_keys m file now
  have hinj : ∀ {ι : Type} (f : Nat → ι), (∀ i < file.rows.length, ∀ j < file.rows.length,
      f i = f j → i = j) → ((mappedRows m file).map (fun e => f e.2)).Nodup := by
    intro ι f hf
    have hcomp : (mappedRows m file).map (fun e => f e.2)
        = ((mappedRows m file).map (·.2)).map f := by
      rw [List.map_map]
      rfl
    rw [hcomp]
    refine List.Nodup.map_on (fun i hi j hj heq => ?_) hordinals
    obtain ⟨e, he, rfl⟩ := List.mem_map.mp hi
    obtain ⟨e', he', rfl⟩ := List.mem_map.mp hj
    exact hf _ (hbound e he) _ (hbound e' he') heq
  refine ⟨?_, ?_, fun _ => hk, fun _ h hh hid => ?_⟩
  · have hrecords := congrArg (List.map Prod.fst) hkeys
    rw [List.map_map, List.map_map] at hrecords
    refine (congrArg List.Nodup hrecords).mpr ?_
    exact hinj (fun i => rowRecordId m file.digest i) hids.records
  · have hdeliveries := congrArg (List.map Prod.snd) hkeys
    rw [List.map_map, List.map_map] at hdeliveries
    refine (congrArg List.Nodup hdeliveries).mpr ?_
    exact hinj (fun i => rowDeliveryId file.digest i) hids.deliveries
  · obtain ⟨p, hp, hscope, hrecord⟩ := exists_published hh
    rw [hkeys] at hk
    obtain ⟨e, he, rfl⟩ := List.mem_map.mp hk
    refine hids.fresh p hp hscope e.2 (hbound e he) ?_
    rw [← hrecord]
    exact hid

end Rows

section Runs

variable {Row : Type} (m : ImportMapping Row) (file : ImportFile Row)

/-- The chunks of a file. -/
def fileChunks (now : Timestamp) : List (List Attempt) :=
  chunksOf importEvaluationChunkSize (fileAttempts m file now)

/-- The chunk loop of a run. -/
def fileIngestion (w : ImportWorld) (env : ImportEnvironment) : Ledger × Bool :=
  runChunks env.contexts 0 (fileChunks m file env.now) (fileHistory w m file env.now) w.ledger

/-- The run commits its first chunk: the evaluation of the chunk succeeds, no
constraint is broken, and the connection is not lost before the commit. -/
def commitsFirst (w : ImportWorld) (env : ImportEnvironment) : Bool :=
  match fileChunks m file env.now with
  | [] => false
  | chunk :: _ =>
      (env.contexts 0).fault ≠ some 0 && (bulkCommit w.ledger (env.contexts 0) chunk
        (chunkHistory (fileHistory w m file env.now) chunk)).isSome

/-- The world one run leaves. -/
def importStep (w : ImportWorld) (env : ImportEnvironment) : ImportWorld :=
  (runMmpImport m file w env).1

/-- The current attributions: those no other supersedes. -/
def Ledger.currentAttributions (l : Ledger) : List Attribution :=
  l.attributions.filter (fun t =>
    !l.attributions.any (fun s => s.supersedesAttributionId = some t.attributionId))

/-- The records that the delivery rows of a logical key name as canonical. -/
def Ledger.canonicalRecords (l : Ledger) (key : LogicalKey) : List Identifier :=
  ((l.deliveries.filter (fun s => scopeKey s.attempt = key)).filterMap
    (·.row.canonicalRecordId)).dedup

/-- A world is what one uninterrupted run of the import leaves: the logical
events, the canonical records, the current attributions and the published
attempts are the same, and each file row has one more delivery row and at most
one more rejection than before. -/
structure SameImport (w : ImportWorld) (last : ImportEnvironment) (after : ImportWorld) :
    Prop where
  logicalEvents : after.ledger.logicalEvents = (importStep m file w last).ledger.logicalEvents
  canonicalRecords : ∀ key, after.ledger.canonicalRecords key
    = (importStep m file w last).ledger.canonicalRecords key
  attributions : after.ledger.currentAttributions
    = (importStep m file w last).ledger.currentAttributions
  attempts : after.attempts = (importStep m file w last).attempts
  deliveries : ∀ x ∈ fileAttempts m file last.now,
    deliveryCount after.ledger (deliveryKey x) = deliveryCount w.ledger (deliveryKey x) + 1
  rejections : ∀ x ∈ fileAttempts m file last.now,
    rejectionCount after.ledger (deliveryKey x) ≤ rejectionCount w.ledger (deliveryKey x) + 1

variable {m file} {w : ImportWorld} {env last : ImportEnvironment}

omit [PayloadSchemas] in
/-- The chunks of a file are its attempts in order. -/
theorem flatten_fileChunks (now : Timestamp) :
    (fileChunks m file now).flatten = fileAttempts m file now :=
  flatten_chunksOf (by decide) _

omit [PayloadSchemas] in
/-- No chunk is empty. -/
theorem ne_nil_of_mem_fileChunks {now : Timestamp} {c : List Attempt}
    (hc : c ∈ fileChunks m file now) : c ≠ [] :=
  ne_nil_of_mem_chunksOf (by decide) hc

omit [PayloadSchemas] in
/-- All attempts of the chunks are of the mapping's app. -/
theorem scope_of_mem_fileChunks {now : Timestamp} {a : Attempt}
    (ha : a ∈ (fileChunks m file now).flatten) : a.scope = m.scope := by
  rw [flatten_fileChunks] at ha
  exact scope_of_mem_fileAttempts m file ha

/-- **What a failed run leaves.**  The ledger of its chunk loop; nothing is
published. -/
theorem failed_run (h : (runMmpImport m file w env).2 = .failed) :
    isPublished w m file = false ∧
      importStep m file w env = { w with
        ledger := (fileIngestion m file w env).1
        runs := w.runs ++ [importRun m file env .failed] } := by
  unfold importStep runMmpImport runImport at *
  split at h
  · cases h
  · case isFalse hfresh =>
      refine ⟨by simpa using hfresh, ?_⟩
      rw [if_neg hfresh]
      dsimp only at h ⊢
      split at h
      · cases h
      · case isFalse hlost =>
          rw [if_neg hlost]
          rfl

/-- A run that does not publish fails. -/
theorem failed_of_unpublished (hfresh : isPublished w m file = false)
    (h : env.publishes = false) : (runMmpImport m file w env).2 = .failed := by
  unfold runMmpImport runImport
  rw [hfresh, if_neg Bool.false_ne_true]
  simp only [h, Bool.and_false, if_neg Bool.false_ne_true]

/-- A run whose chunks are ingested and that publishes completes. -/
theorem completed_of_ingested (hfresh : isPublished w m file = false)
    (hdone : (fileIngestion m file w env).2 = true) (h : env.publishes = true) :
    (runMmpImport m file w env).2 = .completed := by
  unfold fileIngestion fileChunks at hdone
  unfold runMmpImport runImport
  rw [hfresh, if_neg Bool.false_ne_true]
  simp only [hdone, h, Bool.and_self, if_true]

/-- What a completed run leaves, in the ledger and among the attempts. -/
theorem completed_run (h : (runMmpImport m file w env).2 = .completed) :
    isPublished w m file = false ∧ (fileIngestion m file w env).2 = true ∧
      (importStep m file w env).ledger = (fileIngestion m file w env).1 := by
  unfold importStep runMmpImport runImport at *
  split at h
  · cases h
  · case isFalse hfresh =>
      rw [if_neg hfresh]
      dsimp only at h ⊢
      split at h
      · case isTrue hdone =>
          rw [if_pos hdone]
          exact ⟨by simpa using hfresh, (Bool.and_eq_true_iff.mp hdone).1, rfl⟩
      · cases h

/-- A run that does not commit its first chunk leaves the ledger. -/
theorem ledger_of_not_commitsFirst (h : commitsFirst m file w env = false) :
    (fileIngestion m file w env).1 = w.ledger := by
  unfold commitsFirst at h
  unfold fileIngestion
  cases hchunks : fileChunks m file env.now with
  | nil => rfl
  | cons chunk rest =>
      have hmem : ∀ c ∈ chunk :: rest, c ≠ [] := fun c hc =>
        ne_nil_of_mem_fileChunks (hchunks ▸ hc)
      have hscope : ∀ a ∈ chunk, a.scope = m.scope := fun a ha => by
        have hmem : a ∈ (fileChunks m file env.now).flatten := by
          rw [hchunks, List.flatten_cons]
          exact List.mem_append_left _ ha
        exact scope_of_mem_fileChunks hmem
      obtain ⟨hledger, hcompleted⟩ := ingestScope_bulk w.ledger (env.contexts 0) chunk
        (chunkHistory (fileHistory w m file env.now) chunk)
      simp only [hchunks, Bool.and_eq_false_iff] at h
      unfold runChunks
      rw [ingestRuntimeBatch_of_scope (hmem _ List.mem_cons_self) hscope]
      dsimp only
      rcases h with hfault | hnone
      · -- the connection is lost before the commit
        have hfault : (env.contexts 0).fault = some 0 := by simpa using hfault
        have hfailed : ¬ (ingestScope w.ledger (env.contexts 0) chunk
            (chunkHistory (fileHistory w m file env.now) chunk) true).completed = true := by
          rw [hcompleted, hfault]
          exact fun h => nomatch h.1
        rw [if_neg hfailed, hledger, if_pos hfault]
      · -- the chunk is not evaluated or breaks a constraint
        have hfailed : ¬ (ingestScope w.ledger (env.contexts 0) chunk
            (chunkHistory (fileHistory w m file env.now) chunk) true).completed = true := by
          rw [hcompleted, hnone]
          exact fun h => nomatch h.2
        rw [if_neg hfailed, hledger, Option.isSome_eq_false_iff.mp hnone |> Option.isNone_iff_eq_none.mp]
        split <;> rfl

/-- A run that commits its first chunk appends a delivery row for one of the
rows of the file. -/
theorem deliveryCount_of_commitsFirst (hids : IdsApart m file w)
    (h : commitsFirst m file w env = true) :
    ∃ k ∈ (fileAttempts m file env.now).map deliveryKey,
      deliveryCount w.ledger k + 1 ≤ deliveryCount (fileIngestion m file w env).1 k := by
  unfold commitsFirst at h
  unfold fileIngestion
  have hflat : (fileChunks m file env.now).flatten = fileAttempts m file env.now :=
    flatten_fileChunks env.now
  have hne : ∀ c ∈ fileChunks m file env.now, c ≠ [] := fun c hc => ne_nil_of_mem_fileChunks hc
  have hscope : ∀ a ∈ (fileChunks m file env.now).flatten, a.scope = m.scope :=
    fun a ha => scope_of_mem_fileChunks ha
  cases hchunks : fileChunks m file env.now with
  | nil =>
      rw [hchunks] at h
      cases h
  | cons chunk rest =>
      simp only [hchunks, Bool.and_eq_true, decide_eq_true_eq] at h
      obtain ⟨hfault, hcommits⟩ := h
      obtain ⟨l', hcommit⟩ := Option.isSome_iff_exists.mp hcommits
      rw [hchunks] at hne hscope hflat
      rw [List.flatten_cons] at hscope hflat
      obtain ⟨x, hx⟩ := List.exists_mem_of_ne_nil _ (hne chunk List.mem_cons_self)
      have hkey : deliveryKey x ∈ (fileAttempts m file env.now).map deliveryKey := by
        rw [← hflat]
        exact List.mem_map_of_mem (List.mem_append_left _ hx)
      have happart := hids.keyApart hkey
      rw [← hflat] at happart
      obtain ⟨hone, -⟩ := counts_of_bulkCommit
        (happart.left.mono (chunkHistory_subset _ chunk)) hcommit
      rw [if_pos (List.mem_map_of_mem hx)] at hone
      obtain ⟨hledger, -⟩ := ingestScope_bulk w.ledger (env.contexts 0) chunk
        (chunkHistory (fileHistory w m file env.now) chunk)
      rw [if_neg hfault, hcommit, Option.getD_some] at hledger
      refine ⟨deliveryKey x, hkey, ?_⟩
      unfold runChunks
      rw [ingestRuntimeBatch_of_scope (hne _ List.mem_cons_self)
        (fun a ha => hscope a (List.mem_append_left _ ha))]
      dsimp only
      rw [hledger]
      split
      · have hrest : deliveryCount l' (deliveryKey x) ≤ deliveryCount (runChunks env.contexts (0 + 1)
            rest (fileHistory w m file env.now ++ validAttempts chunk) l').1 (deliveryKey x) :=
          deliveryCount_le_runChunks _ rest (fun c hc => hne c (List.mem_cons_of_mem _ hc))
            (fun a ha => hscope a (List.mem_append_right _ ha)) _ _ _
        omega
      · exact hone.ge

/-- A completed run appends one delivery row and at most one rejection for each
row of the file. -/
theorem counts_of_completed (hids : IdsApart m file w)
    (h : (runMmpImport m file w env).2 = .completed) {k : Identifier × Identifier}
    (hk : k ∈ (fileAttempts m file env.now).map deliveryKey) :
    deliveryCount (importStep m file w env).ledger k = deliveryCount w.ledger k + 1 ∧
      rejectionCount (importStep m file w env).ledger k ≤ rejectionCount w.ledger k + 1 := by
  obtain ⟨-, hdone, hledger⟩ := completed_run h
  have hflat : (fileChunks m file env.now).flatten = fileAttempts m file env.now :=
    flatten_fileChunks env.now
  have happart := hids.keyApart hk
  rw [← hflat] at happart hk
  have hcounts := counts_of_runChunks (fileChunks m file env.now)
    (fun c hc => ne_nil_of_mem_fileChunks hc) (fun a ha => scope_of_mem_fileChunks ha) 0
    (fileHistory w m file env.now) w.ledger happart hdone
  rw [if_pos hk] at hcounts
  rw [hledger]
  exact hcounts

/-- The delivery rows that were there before the failed runs are there after
them. -/
theorem deliveryCount_le_failed {failed : List ImportEnvironment}
    (hfailed : StepsMeet (importStep m file)
      (fun w env => (runMmpImport m file w env).2 = .failed) w failed)
    (k : Identifier × Identifier) :
    deliveryCount w.ledger k
      ≤ deliveryCount (failed.foldl (importStep m file) w).ledger k := by
  let Kept : ImportWorld → Prop := fun v => deliveryCount w.ledger k ≤ deliveryCount v.ledger k
  have hkept : Kept w := Nat.le_refl _
  refine invariant_of_steps (fun v env (hv : Kept v) hstep => ?_) hfailed hkept
  obtain ⟨-, hworld⟩ := failed_run hstep
  rw [hworld]
  exact Nat.le_trans hv (deliveryCount_le_runChunks k _ (fun c hc => ne_nil_of_mem_fileChunks hc)
    (fun a ha => scope_of_mem_fileChunks ha) 0 _ _)

/-- Failed runs publish no attempt. -/
theorem attempts_failed {failed : List ImportEnvironment}
    (hfailed : StepsMeet (importStep m file)
      (fun w env => (runMmpImport m file w env).2 = .failed) w failed) :
    (failed.foldl (importStep m file) w).attempts = w.attempts := by
  let Kept : ImportWorld → Prop := fun v => v.attempts = w.attempts
  have hkept : Kept w := rfl
  refine invariant_of_steps (fun v env (hv : Kept v) hstep => ?_) hfailed hkept
  obtain ⟨-, hworld⟩ := failed_run hstep
  rw [hworld]
  exact hv

omit [PayloadSchemas] in
/-- Whether ids are apart depends on the published attempts alone. -/
theorem IdsApart.congr {v : ImportWorld} (hids : IdsApart m file w)
    (h : v.attempts = w.attempts) : IdsApart m file v :=
  { hids with fresh := fun p hp => hids.fresh p (h ▸ hp) }

/-- Some failed run commits its first chunk, or none changes the ledger. -/
theorem count_or_same {failed : List ImportEnvironment} (hids : IdsApart m file w)
    (hfailed : StepsMeet (importStep m file)
      (fun w env => (runMmpImport m file w env).2 = .failed) w failed) :
    (StepsMeet (importStep m file) (fun w env => commitsFirst m file w env = false) w failed ∧
      ∃ runs, failed.foldl (importStep m file) w = { w with runs := runs }) ∨
    (¬ StepsMeet (importStep m file) (fun w env => commitsFirst m file w env = false) w failed ∧
      ∃ k ∈ (mappedRows m file).map (fun e => rowKey m file e.2),
        deliveryCount w.ledger k + 1
          ≤ deliveryCount (failed.foldl (importStep m file) w).ledger k) := by
  induction failed generalizing w with
  | nil => exact .inl ⟨trivial, w.runs, rfl⟩
  | cons env rest ih =>
      obtain ⟨hfirst, hrest⟩ := hfailed
      obtain ⟨-, hworld⟩ := failed_run hfirst
      rw [List.foldl_cons]
      cases hcommits : commitsFirst m file w env with
      | true =>
          obtain ⟨k, hk, hcount⟩ := deliveryCount_of_commitsFirst hids hcommits
          have hmono := deliveryCount_le_failed hrest k
          rw [fileAttempts_keys] at hk
          refine .inr ⟨fun h => ?_, k, hk, ?_⟩
          · rw [h.1] at hcommits
            cases hcommits
          · rw [hworld] at hmono
            rw [hworld]
            exact hcount.trans hmono
      | false =>
          have hledger := ledger_of_not_commitsFirst hcommits
          have hsame : importStep m file w env
              = { w with runs := w.runs ++ [importRun m file env .failed] } := by
            rw [hworld, hledger]
          have hids' : IdsApart m file (importStep m file w env) := by
            refine hids.congr ?_
            rw [hsame]
          rcases ih hids' hrest with ⟨hmeet, runs, hruns⟩ | ⟨hmeet, k, hk, hcount⟩
          · refine .inl ⟨⟨hcommits, hmeet⟩, runs, ?_⟩
            rw [hruns, hsame]
          · refine .inr ⟨fun h => hmeet h.2, k, hk, ?_⟩
            rw [hsame] at hcount ⊢
            exact hcount

/-- The runs recorded before have no part in a run. -/
theorem importStep_runs (w : ImportWorld) (runs : List ImportRun) (env : ImportEnvironment) :
    (importStep m file { w with runs := runs } env).ledger = (importStep m file w env).ledger ∧
      (importStep m file { w with runs := runs } env).attempts
        = (importStep m file w env).attempts := by
  have hpublished : isPublished { w with runs := runs } m file = isPublished w m file := rfl
  unfold importStep runMmpImport runImport
  rw [hpublished]
  split
  · exact ⟨rfl, rfl⟩
  · have hhistory : fileHistory { w with runs := runs } m file env.now
        = fileHistory w m file env.now := rfl
    rw [hhistory]
    dsimp only
    split
    · exact ⟨rfl, rfl⟩
    · exact ⟨rfl, rfl⟩

/-- A run fails, the next one completes, and the first row of the file has
more than one delivery row. -/
def deliversTwice (m : ImportMapping Row) (file : ImportFile Row)
    (first last : ImportEnvironment) : Bool :=
  let failed := runMmpImport m file {} first
  let retried := runMmpImport m file failed.1 last
  failed.2 = .failed && retried.2 = .completed &&
    (fileAttempts m file last.now).any (fun x =>
      1 < deliveryCount retried.1.ledger (deliveryKey x))

/-- A row that is delivered twice breaks the law. -/
theorem not_sameImport_of_deliversTwice {first last : ImportEnvironment}
    (h : deliversTwice m file first last = true) :
    StepsMeet (importStep m file) (fun w env => (runMmpImport m file w env).2 = .failed) {} [first] ∧
      (runMmpImport m file ([first].foldl (importStep m file) {}) last).2 = .completed ∧
      ¬ SameImport m file {} last
        (importStep m file ([first].foldl (importStep m file) {}) last) := by
  simp only [deliversTwice, Bool.and_eq_true, decide_eq_true_eq, List.any_eq_true] at h
  obtain ⟨⟨hfailed, hcompleted⟩, x, hx, htwo⟩ := h
  refine ⟨⟨hfailed, trivial⟩, hcompleted, fun hsame => ?_⟩
  have hone := hsame.deliveries x hx
  have hnone : deliveryCount ({} : ImportWorld).ledger (deliveryKey x) = 0 := rfl
  have htwo' : 1 < deliveryCount
      (importStep m file ([first].foldl (importStep m file) {}) last).ledger (deliveryKey x) := htwo
  omega

end Runs

end Law

section Examples

attribute [local instance] checksumDigest memberSchemas

/-- A mapping whose rows are mapped already. -/
def plainMapping : ImportMapping MappedRow where
  version := "1"
  sourceId := ⟨"source", by decide⟩
  tenantId := .named "tenant"
  appId := .named "app"
  provider := ⟨"provider", by decide⟩
  rowMatches := fun _ => true
  mapRow := .ok

/-- A file with one session. -/
def oneSessionFile : ImportFile MappedRow where
  digest := "file"
  rows := [{
    eventId := .named "event"
    occurredAt := ⟨2026, 1, 2, 3, 4, 0, 0⟩
    processingPurposeId := .analytics
    payload := {
      eventName := .sessionStart
      installationId := some (.named "installation") } }]

/-- A run at an hour of a day, with a fault of its chunks and a last transaction
that is committed or not. -/
def hourlyRun (hour : Fin 100) (fault : Option Nat) (publishes : Bool) : ImportEnvironment where
  now := ⟨2026, 1, 3, hour, 0, 0, 0⟩
  importRunId := .named "run"
  contexts := fun _ => { activeRevision := none, trackingLink := fun _ => none, fault := fault }
  publishes := publishes

set_option maxRecDepth 4000 in
/-- A run that cannot publish has committed its only row already. -/
theorem oneSession_deliversTwice : deliversTwice plainMapping oneSessionFile
    (hourlyRun 1 none false) (hourlyRun 2 none true) = true := by
  decide +kernel

/-- A file with two sessions. -/
def twoSessionFile : ImportFile MappedRow :=
  { oneSessionFile with
    rows := oneSessionFile.rows ++ oneSessionFile.rows.map (fun row =>
      { row with eventId := .named "another" }) }

/-- The first run: its connection is lost before the commit. -/
def interruptedRun : ImportEnvironment := hourlyRun 1 (some 0) false

set_option maxRecDepth 4000 in
/-- A second run ingests the two sessions. -/
theorem twoSessions_ingested : (fileIngestion plainMapping twoSessionFile
    { runs := [importRun plainMapping twoSessionFile interruptedRun .failed] }
      (hourlyRun 2 none true)).2 = true := by
  decide +kernel

end Examples

end OpenMasu
