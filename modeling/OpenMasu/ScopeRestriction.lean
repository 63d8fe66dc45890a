import OpenMasu.DecisionFacts

/-!
# The part of an evaluation that belongs to one scope

A scope is a tenant and one of its apps.  Restricting the deliveries to a
scope and then running a stage gives the stage's output restricted to the
scope, as long as no record id of the scope occurs in another one.  The
lemmas go through the stages in order:

* `isWinner_restrict`, `decisionsOf_restrict`, `decisionFor_restrict` — the
  decisions;
* `deliveries_restrict`, `rejections_restrict`, `rawRecords_restrict`,
  `logicalEvents_restrict`, `corrections_restrict` — the ingestion output;
* `initialAttributions_restrict` — the attributions before fraud;
* `fraudDecisions_restrict` — the decisions on the scope's records;
* `reconciliation_restrict` — the reconciliation rows.
-/

namespace OpenMasu

open PartialList (bind_eq_ok pure_eq_ok)

/-- The delivery belongs to the scope. -/
def inScope (A : Scope) (a : Attempt) : Bool := a.scope = A

/-- The test of the scope. -/
@[simp] theorem inScope_eq_true {A : Scope} {a : Attempt} : inScope A a = true ↔ a.scope = A :=
  decide_eq_true_iff

/-- The deliveries of a scope. -/
abbrev inside (A : Scope) (all : List Attempt) : List Attempt := all.filter (inScope A)

/-- The input with its scoped lists cut down to a scope.  The ingress stays:
deliveries are cut down by `inside`. -/
def EvaluatorInput.restrict (A : Scope) (input : EvaluatorInput) : EvaluatorInput :=
  { input with
    privacyRequests := input.privacyRequests.filter (fun r => r.scope = A)
    costRecords := input.costRecords.filter (fun c => c.scope = A)
    sourceDayAggregates := input.sourceDayAggregates.filter (fun a => a.scope = A)
    reconciliationInputs := input.reconciliationInputs.filter (fun r => r.scope = A)
    correctionInputs := input.correctionInputs.filter (fun c => c.scope = A)
    preIngestionRejections := input.preIngestionRejections.filter
      (fun r => (⟨r.tenantId, r.appId⟩ : Scope) = A)
    retentionExpirations := input.retentionExpirations.filter (fun e => e.scope = A) }

variable {A : Scope}

/-- No record id of the scope occurs in another scope. -/
def RecordsApart (A : Scope) (all : List Attempt) : Prop :=
  ∀ a ∈ all, ∀ b ∈ all, a.scope = A → b.scope ≠ A → a.record.recordId ≠ b.record.recordId

variable [Digest] {all : List Attempt} {a : Attempt}

section Decisions

omit [Digest] in
/-- A record id leads to the same records, where the id is of one scope. -/
theorem byRecordId_restrict (hapart : RecordsApart A all) (ha : a ∈ all) (hA : a.scope = A) :
    (fixtureCandidateProvider all).byRecordId a.record.recordId
      = (fixtureCandidateProvider (inside A all)).byRecordId a.record.recordId := by
  simp only [fixtureCandidateProvider, inside, List.filter_filter]
  refine List.filter_congr (fun b hb => ?_)
  by_cases hid : b.record.recordId = a.record.recordId
  · by_cases hbA : b.scope = A
    · simp [hid, inScope, hbA]
    · exact absurd hid.symm (hapart a ha b hb hA hbA)
  · simp [hid]

omit [Digest] in
/-- A logical key leads to the same records: it names its scope. -/
theorem byLogicalScope_restrict (all : List Attempt) (hA : a.scope = A) :
    (fixtureCandidateProvider all).byLogicalScope a
      = (fixtureCandidateProvider (inside A all)).byLogicalScope a := by
  simp only [fixtureCandidateProvider, inside, List.filter_filter]
  refine List.filter_congr (fun b _ => ?_)
  by_cases hkey : scopeKey b = scopeKey a
  · have hbA : b.scope = A := (congrArg LogicalKey.scope hkey).trans hA
    simp [hkey, inScope, hbA]
  · simp [hkey]

omit [Digest] in
/-- Whether a record is the only one of its key is decided within its scope. -/
theorem isSole_restrict (hapart : RecordsApart A all) (ha : a ∈ all) (hA : a.scope = A) :
    isSole all a = isSole (inside A all) a := by
  have h := byRecordId_restrict hapart ha hA
  simp only [fixtureCandidateProvider] at h
  simp only [isSole, h]

omit [Digest] in
/-- So is which delivery of a key comes first. -/
theorem firstOfKey_restrict (all : List Attempt) (hA : a.scope = A) :
    firstOfKey all (scopeKey a) = firstOfKey (inside A all) (scopeKey a) := by
  have h := byLogicalScope_restrict all hA
  simp only [fixtureCandidateProvider] at h
  simp only [firstOfKey, ← List.head?_filter, h]

omit [Digest] in
/-- Who wins a logical key of the scope is settled inside it. -/
theorem isWinner_restrict (hapart : RecordsApart A all) (ha : a ∈ all) (hA : a.scope = A) :
    isWinner all a = isWinner (inside A all) a := by
  simp only [isWinner, isSole_restrict hapart ha hA, firstOfKey_restrict all hA]

/-- A decision on a delivery of the scope looks at the scope only. -/
theorem decideOrReject_restrict (hapart : RecordsApart A all) (ha : a ∈ all) (hA : a.scope = A) :
    decideOrReject (fixtureCandidateProvider all) a
      = decideOrReject (fixtureCandidateProvider (inside A all)) a := by
  have hfirst : firstOf (fixtureCandidateProvider all) a
      = firstOf (fixtureCandidateProvider (inside A all)) a := by
    simp only [firstOf, byLogicalScope_restrict all hA]
  have hdup : duplicateResolution (fixtureCandidateProvider all) a
      = duplicateResolution (fixtureCandidateProvider (inside A all)) a := by
    simp only [duplicateResolution, hfirst, byRecordId_restrict hapart ha hA]
  simp only [decideOrReject, decide, hdup, decisionRecord, canonicalRecordId, hfirst]

/-- The decision is about a delivery of the scope. -/
def decisionInScope (A : Scope) (d : Decision) : Bool := (⟨d.tenantId, d.appId⟩ : Scope) = A

/-- A decision is of the scope of its record. -/
theorem decisionInScope_eq {candidates : CandidateProvider} {d : Decision}
    (h : decideOrReject candidates a = .ok d) : decisionInScope A d = inScope A a := by
  obtain ⟨-, -, htenant, happ⟩ := decideOrReject_ids h
  rw [decisionInScope, htenant, happ]
  rfl

variable {list : List Decision}

/-- The decisions of the scope's deliveries are the scope's decisions. -/
theorem decisionsOf_restrict (hapart : RecordsApart A all)
    (h : decisionsOf all (fixtureCandidateProvider all) = .ok list) :
    decisionsOf (inside A all) (fixtureCandidateProvider (inside A all))
      = .ok (list.filter (decisionInScope A)) := by
  rw [decisionsOf, ← PartialList.traverse_filter h (fun a _ d hd => decisionInScope_eq hd)]
  refine PartialList.traverse_congr (fun a ha => ?_)
  obtain ⟨ha, hA⟩ := List.mem_filter.mp ha
  exact (decideOrReject_restrict hapart ha (by simpa [inScope] using hA)).symm

/-- Reading back a decision on a delivery of the scope. -/
theorem decisionFor_restrict
    (h : decisionsOf all (fixtureCandidateProvider all) = .ok list) (hA : a.scope = A) :
    decisionFor (decisionMap all list) a
      = decisionFor (decisionMap (inside A all) (list.filter (decisionInScope A))) a := by
  simp only [decisionFor, decisionMap]
  rw [← PartialList.zip_filter_traverse h attemptDecisionKey
    (fun a _ d hd => decisionInScope_eq hd)]
  refine (InsertionMap.get_ofList_filter (fun e he hkey => ?_)).symm
  obtain ⟨b, _, hbkey, hbd⟩ := PartialList.exists_of_mem_zip_traverse h he
  rw [decisionInScope_eq hbd]
  have hscope : b.scope = a.scope := congrArg DecisionKey.scope (hbkey.trans hkey)
  simp [inScope, hscope, hA]

end Decisions

section Lifecycle

omit [Digest] in
/-- The redactions of the scope. -/
theorem completedRedactions_restrict (input : EvaluatorInput) :
    completedRedactions (input.restrict A)
      = (completedRedactions input).filter (fun e => e.1.scope = A) := by
  simp only [completedRedactions, EvaluatorInput.restrict, List.filter_comm]
  induction input.privacyRequests.filter (fun r => r.status = .completed) with
  | nil => rfl
  | cons r rest ih =>
      by_cases hr : r.scope = A
      · rw [List.filter_cons_of_pos (by simpa using hr), List.flatMap_cons, List.flatMap_cons,
          List.filter_append, ih]
        congr 1
        refine (List.filter_eq_self.mpr (fun e he => ?_)).symm
        obtain ⟨_, _, rfl⟩ := List.mem_map.mp he
        simpa using hr
      · rw [List.filter_cons_of_neg (by simpa using hr), List.flatMap_cons, List.filter_append,
          ih]
        have hnil : (r.affectedRecords.map (fun affected => (r, affected))).filter
            (fun e => e.1.scope = A) = [] := by
          refine List.filter_eq_nil_iff.mpr (fun e he => ?_)
          obtain ⟨_, _, rfl⟩ := List.mem_map.mp he
          simpa using hr
        rw [hnil, List.nil_append]

omit [Digest] in
/-- The lifecycle of a record of the scope is settled inside it. -/
theorem privacyIndex_restrict (input : EvaluatorInput) (key : EvidenceKey) (hA : key.scope = A) :
    (privacyIndex input).get key = (privacyIndex (input.restrict A)).get key := by
  have hentries : (completedRedactions (input.restrict A)).map
        (fun e => ((⟨e.1.scope, e.2.recordId⟩ : EvidenceKey), e.2.lifecycleStatus)) ++
      (input.restrict A).retentionExpirations.map
        (fun e => ((⟨e.scope, e.recordId⟩ : EvidenceKey), LifecycleStatus.purged))
      = ((completedRedactions input).map
          (fun e => ((⟨e.1.scope, e.2.recordId⟩ : EvidenceKey), e.2.lifecycleStatus)) ++
        input.retentionExpirations.map
          (fun e => ((⟨e.scope, e.recordId⟩ : EvidenceKey), LifecycleStatus.purged))).filter
        (fun e => e.1.scope = A) := by
    rw [List.filter_append, List.filter_map, List.filter_map,
      completedRedactions_restrict]
    rfl
  rw [privacyIndex, privacyIndex, hentries]
  exact (InsertionMap.get_ofList_filter (fun e _ hkey => by simpa [hkey] using hA)).symm

omit [Digest] in
/-- Whether a record is redacted or purged is decided by the requests of its
scope. -/
theorem isUntouched_restrict (input : EvaluatorInput) (hA : a.scope = A) :
    isUntouched (privacyIndex input) a = isUntouched (privacyIndex (input.restrict A)) a := by
  simp only [isUntouched, privacyIndex_restrict input a.evidenceKey hA]

end Lifecycle

section IngestionOutput

variable {input : EvaluatorInput} {list : List Decision}

/-- The scope a delivery row belongs to. -/
def Delivery.scope (d : Delivery) : Scope := ⟨d.tenantId, d.appId⟩

/-- The scope a rejection belongs to. -/
def Rejection.scope (r : Rejection) : Scope := ⟨r.tenantId, r.appId⟩

/-- The scope a raw record belongs to. -/
def RawRecord.scope (r : RawRecord) : Scope := ⟨r.tenantId, r.appId⟩

/-- The scope a logical event belongs to. -/
def LogicalEvent.scope (e : LogicalEvent) : Scope := ⟨e.tenantId, e.appId⟩

/-- The decisions of the scope alone. -/
abbrev decisionsInside (A : Scope) (all : List Attempt) (list : List Decision) : Decisions :=
  decisionMap (inside A all) (list.filter (decisionInScope A))

/-- **Deliveries.**  Those of a scope are the deliveries of its records,
decided without the records of others. -/
theorem deliveries_restrict (h : decisionsOf all (fixtureCandidateProvider all) = .ok list)
    {rows : List Delivery} (hrows : deliveries input (decisionMap all list) all = .ok rows) :
    deliveries (input.restrict A) (decisionsInside A all list) (inside A all)
      = .ok (rows.filter (fun d => d.scope = A)) := by
  simp only [deliveries, bind_eq_ok, pure_eq_ok] at hrows ⊢
  obtain ⟨reported, hreported, rfl⟩ := hrows
  refine ⟨reported.filter (fun d => d.scope = A), ?_, ?_⟩
  · rw [← PartialList.traverse_filter hreported (p := inScope A)]
    · refine PartialList.traverse_congr (fun a ha => ?_)
      have hA := inScope_eq_true.mp (List.mem_filter.mp ha).2
      simp only [delivery, decisionFor_restrict h hA]
    · intro a ha row hrow
      obtain ⟨b, _, d, hkey, hdecide, hd⟩ := decisionFor_eq h ha
      simp only [delivery, hd, Except.ok.injEq] at hrow
      have hscope : b.scope = a.scope := congrArg DecisionKey.scope hkey
      have hin := decisionInScope_eq (A := A) hdecide
      rw [← hrow, inScope, ← hscope]
      exact hin
  · rw [filter_sortByKey, List.filter_append, List.filter_map]
    rfl

/-- **Rejections.**  Those of a scope are the rejections of its decisions. -/
theorem rejections_restrict :
    rejections (input.restrict A) (list.filter (decisionInScope A))
      = (rejections input list).filter (fun r => r.scope = A) := by
  have hlist : list.filter (decisionInScope A) ++
        (input.restrict A).preIngestionRejections.map preIngestionDecision
      = (list ++ input.preIngestionRejections.map preIngestionDecision).filter
        (decisionInScope A) := by
    rw [List.filter_append, List.filter_map]
    rfl
  simp only [rejections]
  rw [hlist, List.filter_comm, filter_sortByKey, List.filter_map]
  rfl

/-- The accepted unique deliveries of the scope. -/
theorem acceptedUnique_restrict (hapart : RecordsApart A all)
    (h : decisionsOf all (fixtureCandidateProvider all) = .ok list) :
    inside A (acceptedUnique (decisionMap all list) all)
      = acceptedUnique (decisionsInside A all list) (inside A all) := by
  rw [acceptedUnique_eq h, acceptedUnique_eq (decisionsOf_restrict hapart h)]
  simp only [inside]
  rw [List.filter_comm]
  refine List.filter_congr (fun a ha => ?_)
  obtain ⟨ha, hA⟩ := List.mem_filter.mp ha
  exact isWinner_restrict hapart ha (inScope_eq_true.mp hA)

/-- The conflicting deliveries of a scope are those of its records. -/
theorem conflictEvidence_restrict
    (h : decisionsOf all (fixtureCandidateProvider all) = .ok list) :
    inside A (conflictEvidence (decisionMap all list) all)
      = conflictEvidence (decisionsInside A all list) (inside A all) := by
  simp only [conflictEvidence, inside]
  rw [List.filter_comm]
  refine List.filter_congr (fun a ha => ?_)
  rw [decisionFor_restrict h (inScope_eq_true.mp (List.mem_filter.mp ha).2)]

omit [Digest] in
/-- Deliveries of the scope without a lifecycle entry. -/
private theorem untouched_restrict (l : List Attempt) :
    (inside A l).filter (isUntouched (privacyIndex (input.restrict A)))
      = inside A (l.filter (isUntouched (privacyIndex input))) := by
  simp only [inside]
  rw [List.filter_comm (inScope A)]
  refine List.filter_congr (fun a ha => ?_)
  exact (isUntouched_restrict input (inScope_eq_true.mp (List.mem_filter.mp ha).2)).symm

/-- **Raw records.**  Those of a scope are the raw records of its deliveries.
-/
theorem rawRecords_restrict (hapart : RecordsApart A all)
    (h : decisionsOf all (fixtureCandidateProvider all) = .ok list) {rows : List RawRecord}
    (hrows : rawRecords (decisionMap all list) (privacyIndex input) all = .ok rows) :
    rawRecords (decisionsInside A all list) (privacyIndex (input.restrict A)) (inside A all)
      = .ok (rows.filter (fun r => r.scope = A)) := by
  simp only [rawRecords, bind_eq_ok, pure_eq_ok] at hrows ⊢
  obtain ⟨reported, hreported, rfl⟩ := hrows
  refine ⟨reported.filter (fun r => r.scope = A), ?_, (filter_sortByKey _ _ _).symm⟩
  rw [← acceptedUnique_restrict hapart h, ← conflictEvidence_restrict h, ← List.filter_append,
    untouched_restrict]
  refine PartialList.traverse_filter hreported (fun a _ row hrow => ?_)
  simp only [makeRawRecord, bind_eq_ok, pure_eq_ok] at hrow
  obtain ⟨_, _, rfl⟩ := hrow
  rfl

/-- **Logical events.**  Those of a scope are the events of its records, where
no record of another scope bears their ids. -/
theorem logicalEvents_restrict (hapart : RecordsApart A all)
    (h : decisionsOf all (fixtureCandidateProvider all) = .ok list) :
    logicalEvents (decisionsInside A all list) (privacyIndex (input.restrict A)) (inside A all)
      = (logicalEvents (decisionMap all list) (privacyIndex input) all).filter
        (fun e => e.scope = A) := by
  simp only [logicalEvents]
  rw [filter_sortByKey, List.filter_map, ← acceptedUnique_restrict hapart h, untouched_restrict]
  rfl

/-- **Corrections.**  Those of a scope are the corrections of its records,
where no record of another scope bears their ids. -/
theorem corrections_restrict (hapart : RecordsApart A all)
    (h : decisionsOf all (fixtureCandidateProvider all) = .ok list) :
    corrections (input.restrict A) (decisionsInside A all list) (inside A all)
      = (corrections input (decisionMap all list) all).filter (fun c => c.scope = A) := by
  have hrefunds : ((acceptedUnique (decisionsInside A all list) (inside A all)).filter
        (fun a => a.record.eventName = .refund)).map refundCorrection
      = (((acceptedUnique (decisionMap all list) all).filter
        (fun a => a.record.eventName = .refund)).map refundCorrection).filter
        (fun c => c.scope = A) := by
    rw [← acceptedUnique_restrict hapart h, List.filter_map, inside, List.filter_comm]
    rfl
  have hredactions : (completedRedactions (input.restrict A)).map redactionCorrection
      = ((completedRedactions input).map redactionCorrection).filter (fun c => c.scope = A) := by
    rw [completedRedactions_restrict, List.filter_map]
    rfl
  simp only [corrections]
  rw [filter_sortByKey, List.filter_append, List.filter_append, hrefunds, hredactions]
  rfl

end IngestionOutput

section Attributions

variable {input : EvaluatorInput} {list : List Decision}

/-- Whether a record was accepted as the only one of its key is decided within
its scope. -/
theorem isAcceptedUnique_restrict
    (h : decisionsOf all (fixtureCandidateProvider all) = .ok list) (hA : a.scope = A) :
    isAcceptedUnique (decisionMap all list) a = isAcceptedUnique (decisionsInside A all list) a := by
  simp only [isAcceptedUnique, decisionFor_restrict h hA]

/-- The accepted clicks an install of the scope names are in the scope. -/
theorem acceptedClicks_restrict
    (h : decisionsOf all (fixtureCandidateProvider all) = .ok list) (hA : a.scope = A) :
    acceptedClicks (fixtureCandidateProvider all) (decisionMap all list) a
      = acceptedClicks (fixtureCandidateProvider (inside A all)) (decisionsInside A all list) a := by
  simp only [acceptedClicks, fixtureCandidateProvider, inside, List.filter_filter]
  refine List.filter_congr (fun c _ => ?_)
  by_cases hc : c.scope = A
  · simp [isAcceptedUnique_restrict h hc, inScope, hc]
  · simp [isClickOf, hA, hc]

/-- An install finds the same clicks. -/
theorem referencedClicks_restrict
    (h : decisionsOf all (fixtureCandidateProvider all) = .ok list) (hA : a.scope = A) :
    referencedClicks (fixtureCandidateProvider all) (decisionMap all list) a
      = referencedClicks (fixtureCandidateProvider (inside A all)) (decisionsInside A all list)
        a := by
  funext clickRef
  simp only [referencedClicks, fixtureCandidateProvider, inside, List.filter_filter]
  refine List.filter_congr (fun c _ => ?_)
  by_cases hc : c.scope = A
  · simp [isAcceptedUnique_restrict h hc, inScope, hc]
  · simp [hA, hc]

/-- So it has the same verdict. -/
theorem installVerdict_restrict
    (h : decisionsOf all (fixtureCandidateProvider all) = .ok list) (hA : a.scope = A) :
    installVerdict (fixtureCandidateProvider all) (decisionMap all list) a
      = installVerdict (fixtureCandidateProvider (inside A all)) (decisionsInside A all list) a := by
  have himported : ∀ context,
      importedVerdict (fixtureCandidateProvider all) (decisionMap all list) a context
        = importedVerdict (fixtureCandidateProvider (inside A all)) (decisionsInside A all list) a
          context := by
    intro context
    cases context with
    | none => rfl
    | some imported => simp only [importedVerdict, referencedClicks_restrict h hA]
  simp only [installVerdict, referrerClickVerdict, himported, acceptedClicks_restrict h hA]

omit [Digest] in
/-- Evidence inside the scope has the lifecycle status it has there. -/
theorem evidenceRef_restrict (input : EvaluatorInput) (hA : a.scope = A) :
    evidenceRef (privacyIndex input) a.scope
      = evidenceRef (privacyIndex (input.restrict A)) a.scope := by
  funext ref
  simp only [evidenceRef, lifecycleStatus, privacyIndex_restrict input ⟨a.scope, ref⟩ hA]

/-- And the same attribution. -/
theorem makeAttribution_restrict
    (h : decisionsOf all (fixtureCandidateProvider all) = .ok list) (hA : a.scope = A) :
    makeAttribution (fixtureCandidateProvider all) (decisionMap all list) (privacyIndex input) a
      = makeAttribution (fixtureCandidateProvider (inside A all)) (decisionsInside A all list)
        (privacyIndex (input.restrict A)) a := by
  simp only [makeAttribution, installVerdict_restrict h hA, installAttribution,
    evidenceRef_restrict input hA]

/-- The attributions of the scope before fraud. -/
theorem initialAttributions_restrict
    (h : decisionsOf all (fixtureCandidateProvider all) = .ok list) {accepted : List Attempt}
    {rows : List Attribution}
    (hrows : initialAttributions (fixtureCandidateProvider all) (decisionMap all list)
      (privacyIndex input) accepted = .ok rows) :
    initialAttributions (fixtureCandidateProvider (inside A all)) (decisionsInside A all list)
        (privacyIndex (input.restrict A)) (inside A accepted)
      = .ok (rows.filter (fun r => r.scope = A)) := by
  simp only [initialAttributions, bind_eq_ok, pure_eq_ok] at hrows ⊢
  obtain ⟨installs, hinstalls, rfl⟩ := hrows
  refine ⟨installs.filter (fun r => r.scope = A), ?_, ?_⟩
  · rw [inside, List.filter_comm, ← PartialList.traverse_filter hinstalls (p := inScope A)]
    · refine PartialList.traverse_congr (fun a ha => ?_)
      exact (makeAttribution_restrict h (inScope_eq_true.mp (List.mem_filter.mp ha).2)).symm
    · intro a _ r hr
      simp only [makeAttribution, bind_eq_ok, pure_eq_ok] at hr
      obtain ⟨_, _, rfl⟩ := hr
      rfl
  · have hmap : ∀ (p : Attempt → Bool) (f f' : Attempt → Attribution),
        (∀ a, (f a).scope = a.scope) → (∀ a, a.scope = A → f a = f' a) →
        ((inside A accepted).filter p).map f'
          = ((accepted.filter p).map f).filter (fun r => r.scope = A) := by
      intro p f f' hscope hf
      have hcomp : (fun r : Attribution => Decidable.decide (r.scope = A)) ∘ f = inScope A := by
        funext a
        simp [inScope, hscope]
      rw [List.filter_map, hcomp, inside, List.filter_comm]
      refine List.map_congr_left (fun a ha => (hf a ?_).symm)
      exact inScope_eq_true.mp (List.mem_filter.mp ha).2
    simp only [sortAttributions]
    rw [filter_sortByKey, List.filter_append, List.filter_append]
    congr 2
    · congr 1
      refine hmap _ _ _ (fun _ => rfl) (fun a hA => ?_)
      simp only [makeAggregatePostbackAttribution, evidenceRef_restrict input hA]
    · refine hmap _ _ _ (fun _ => rfl) (fun a hA => ?_)
      simp only [makeDeepLinkAttribution, evidenceRef_restrict input hA]

end Attributions

section Reconciliation

variable {input : EvaluatorInput}

/-- The scope a reconciliation row belongs to. -/
def Reconciliation.scope (r : Reconciliation) : Scope := ⟨r.tenantId, r.appId⟩

/-- The reconciliation rows of the scope. -/
theorem reconciliation_restrict {accepted : List Attempt} {rows : List Reconciliation}
    (hrows : reconciliationResults input accepted = .ok rows) :
    reconciliationResults (input.restrict A) (inside A accepted)
      = .ok (rows.filter (fun r => r.scope = A)) := by
  have himported : importedReconciliationInputs (inside A accepted)
      = (importedReconciliationInputs accepted).filter (fun r => r.scope = A) := by
    rw [importedReconciliationInputs, importedReconciliationInputs, List.filter_map, inside,
      List.filter_comm]
    rfl
  have hitems : (input.restrict A).reconciliationInputs ++
        importedReconciliationInputs (inside A accepted)
      = (input.reconciliationInputs ++ importedReconciliationInputs accepted).filter
        (fun r => r.scope = A) := by
    rw [himported, List.filter_append]
    rfl
  simp only [reconciliationResults, hitems] at hrows ⊢
  split at hrows
  · case isTrue hnodup =>
      obtain rfl := Except.ok.inj hrows
      rw [if_pos (hnodup.sublist (List.filter_sublist.map _)), filter_sortByKey, List.filter_map]
      rfl
  · cases hrows

end Reconciliation

end OpenMasu
