import OpenMasu.RuntimeIngestion

/-!
# What a call appends

The rows a call of the runtime ingestion appends are artifacts of one
evaluation over the prepared history and batch.  The lemmas read them back to
the attempts of the batch:

* `prepareAttempt_record`, `consentAllows_prepareAttempt` — preparing an attempt
  changes neither its record nor its consent;
* `RuntimeReport` — what an evaluation of prepared attempts reports;
* `delivery_mem_attemptTransaction`, `logical_mem_attemptTransaction` — the rows
  of an attempt's transaction.
-/

namespace OpenMasu

open PartialList (bind_eq_ok pure_eq_ok)

variable [Digest]

section Prepare

variable (l : Ledger) (context : CallContext) (a : Attempt)

/-- Binding sets the fraud members of the server context. -/
theorem bindFraudBundle_shape : ∃ policy enabled bundle,
    bindFraudBundle context.activeRevision a = { a with server := { a.server with
      clickInjectionPolicy := policy
      fraudEnabled := enabled
      fraudRuleBundle := bundle } } := by
  unfold bindFraudBundle
  cases context.activeRevision with
  | none => exact ⟨_, _, _, rfl⟩
  | some active =>
      by_cases hoff : a.server.fraudEnabled = some false
      · exact ⟨_, _, _, if_pos hoff⟩
      · exact ⟨_, _, _, if_neg hoff⟩

/-- **What preparing changes.**  The deep-link resolution, the fraud bundle
and the policy it implies; nothing else. -/
theorem prepareAttempt_shape : ∃ resolution policy enabled bundle,
    prepareAttempt l context a = { a with server := { a.server with
      deepLinkResolution := resolution
      clickInjectionPolicy := policy
      fraudEnabled := enabled
      fraudRuleBundle := bundle } } := by
  obtain ⟨policy, enabled, bundle, hb⟩ := bindFraudBundle_shape context a
  rw [prepareAttempt, hb, resolveDeepLinkAttempt]
  split
  · exact ⟨_, _, _, _, rfl⟩
  · exact ⟨_, _, _, _, rfl⟩

@[simp] theorem prepareAttempt_record : (prepareAttempt l context a).record = a.record := by
  obtain ⟨_, _, _, _, h⟩ := prepareAttempt_shape l context a
  rw [h]

@[simp] theorem prepareAttempt_batchId : (prepareAttempt l context a).batchId = a.batchId := by
  obtain ⟨_, _, _, _, h⟩ := prepareAttempt_shape l context a
  rw [h]

@[simp] theorem prepareAttempt_scope : (prepareAttempt l context a).scope = a.scope := by
  obtain ⟨_, _, _, _, h⟩ := prepareAttempt_shape l context a
  rw [h]
  rfl

/-- Preparing leaves the consent of an attempt alone. -/
theorem consentAllows_prepareAttempt :
    consentAllows (prepareAttempt l context a) = consentAllows a := by
  obtain ⟨_, _, _, _, h⟩ := prepareAttempt_shape l context a
  rw [h]
  rfl

/-- Preparing leaves the own checks of an attempt alone. -/
theorem passesOwnChecks_prepareAttempt :
    passesOwnChecks (prepareAttempt l context a) = passesOwnChecks a := by
  obtain ⟨_, _, _, _, h⟩ := prepareAttempt_shape l context a
  rw [h]
  rfl

/-- Preparing leaves the place of an attempt in the order of receipt alone. -/
theorem candidateAttemptSortKey_prepareAttempt :
    candidateAttemptSortKey (prepareAttempt l context a) = candidateAttemptSortKey a := by
  obtain ⟨_, _, _, _, h⟩ := prepareAttempt_shape l context a
  rw [h]
  rfl

end Prepare

section Writes

variable [PayloadSchemas] {context : CallContext} {all attempts : List Attempt} {selected : Selected}
  {x : Attempt} {t : Transaction}

omit [Digest] [PayloadSchemas] in
/-- The projection of an event to a fact row writes nothing else. -/
theorem factWrite_ne {w : Write} (hw : ∀ row, w ≠ .fact row) (o : Option LogicalEvent) :
    o.bind (factWrite context all) ≠ some w := by
  intro h
  obtain ⟨e, -, h⟩ := Option.bind_eq_some_iff.mp h
  obtain ⟨a, -, h⟩ := Option.bind_eq_some_iff.mp h
  obtain ⟨row, -, h⟩ := Option.map_eq_some_iff.mp h
  exact hw row h.symm

omit [Digest] [PayloadSchemas] in
/-- The facts of a bulk call insert nothing but facts. -/
theorem notMem_bulkFacts {w : Write} (hw : ∀ row, w ≠ .fact row) (events : List LogicalEvent) :
    w ∉ bulkFacts context all events := by
  intro h
  simp only [bulkFacts, List.mem_append, List.mem_filterMap] at h
  rcases h with ⟨e, -, h⟩ | ⟨e, -, h⟩
  · exact factWrite_ne hw (some e) h
  · exact factWrite_ne hw (some e) h

omit [Digest] [PayloadSchemas] in
/-- The delivery row of an attempt's transaction is the one under its key. -/
theorem delivery_mem_attemptTransaction {s : StoredDelivery} :
    .delivery s ∈ attemptTransaction context all selected x ↔ ∃ row,
      (InsertionMap.ofList (selected.deliveries.map (fun d => (d.key, d)))).get (deliveryKey x)
        = some row ∧ s = ⟨x, row⟩ := by
  simp only [attemptTransaction, List.mem_append, List.mem_map, Option.mem_toList, reduceCtorEq,
    and_false, exists_false, false_or, or_false, Option.bind_eq_some_iff (f := logicalWrite all),
    logicalWrite, Option.map_eq_some_iff, Write.delivery.injEq,
    factWrite_ne (w := .delivery s) (fun _ => nofun)]
  constructor
  · rintro ⟨row, hrow, rfl⟩
    exact ⟨row, hrow, rfl⟩
  · rintro ⟨row, hrow, rfl⟩
    exact ⟨row, hrow, rfl⟩

omit [Digest] [PayloadSchemas] in
/-- The logical event of an attempt's transaction is the one under its record
id. -/
theorem logical_mem_attemptTransaction {s : StoredEvent} :
    .logical s ∈ attemptTransaction context all selected x ↔ ∃ e,
      (InsertionMap.ofList (selected.logicalEvents.map (fun e => (e.recordId, e)))).get
        x.record.recordId = some e ∧ logicalWrite all e = some (.logical s) := by
  simp [attemptTransaction, Option.bind_eq_some_iff (f := logicalWrite all), factWrite_ne]

omit [Digest] [PayloadSchemas] in
/-- An attempt's transaction writes no attribution. -/
theorem attribution_notMem_attemptTransaction {a : Attribution} :
    .attribution a ∉ attemptTransaction context all selected x := by
  simp [attemptTransaction, Option.bind_eq_some_iff (f := logicalWrite all), logicalWrite,
    factWrite_ne]

omit [Digest] [PayloadSchemas] in
/-- **The transactions of a batch.**  That of an attempt, or one artifact: an
attribution, a fraud decision or a reconciliation. -/
theorem mem_rowTransactions (ht : t ∈ rowTransactions context all selected attempts) :
    (∃ x ∈ attempts, t = attemptTransaction context all selected x) ∨
    (∃ a ∈ selected.attributions, t = [.attribution a]) ∨
    (∃ d ∈ selected.fraudDecisions,
      t = [.fraud context.activeRevision (fraudScopes attempts d) d]) ∨
    (∃ r ∈ selected.reconciliations, t = [.reconciliation r]) := by
  simp only [rowTransactions, List.mem_append, List.mem_map] at ht
  rcases ht with ((⟨x, hx, rfl⟩ | ⟨a, ha, rfl⟩) | ⟨d, hd, rfl⟩) | ⟨r, hr, rfl⟩
  · exact .inl ⟨x, hx, rfl⟩
  · exact .inr (.inl ⟨a, ha, rfl⟩)
  · exact .inr (.inr (.inl ⟨d, hd, rfl⟩))
  · exact .inr (.inr (.inr ⟨r, hr, rfl⟩))

omit [Digest] [PayloadSchemas] in
/-- The delivery rows of a bulk transaction are those selected. -/
theorem delivery_mem_bulkTransaction {s : StoredDelivery} :
    .delivery s ∈ bulkTransaction context all selected attempts ↔ s.row ∈ selected.deliveries ∧
      (all ++ attempts).find? (fun a => deliveryKey a = s.row.key) = some s.attempt := by
  simp only [bulkTransaction, List.mem_append, List.mem_map, List.mem_flatMap, Option.mem_toList,
    reduceCtorEq, and_false, exists_false, false_or, or_false, logicalWrite,
    Option.map_eq_some_iff, Write.delivery.injEq,
    notMem_bulkFacts (w := .delivery s) (fun _ => nofun)]
  constructor
  · rintro ⟨row, hrow, a, hfind, rfl⟩
    exact ⟨hrow, hfind⟩
  · rintro ⟨hrow, hfind⟩
    exact ⟨s.row, hrow, s.attempt, hfind, rfl⟩

omit [Digest] [PayloadSchemas] in
/-- The logical events of a bulk transaction are those selected. -/
theorem logical_mem_bulkTransaction {s : StoredEvent} :
    .logical s ∈ bulkTransaction context all selected attempts ↔
      ∃ e ∈ selected.logicalEvents, logicalWrite all.reverse e = some (.logical s) := by
  simp [bulkTransaction, notMem_bulkFacts]

omit [Digest] [PayloadSchemas] in
/-- The attributions of a bulk transaction are those selected. -/
theorem attribution_mem_bulkTransaction {a : Attribution} :
    .attribution a ∈ bulkTransaction context all selected attempts ↔
      a ∈ selected.attributions := by
  simp [bulkTransaction, notMem_bulkFacts, logicalWrite]

end Writes

section Report

variable [PayloadSchemas]

omit [Digest] [PayloadSchemas] in
@[simp] theorem attempts_runtimeInput (all : List Attempt) : attempts (runtimeInput all) = all := by
  simp only [attempts, runtimeInput]
  induction all with
  | nil => rfl
  | cons a rest ih => simp only [List.map_cons, List.flatMap_cons, ih]; rfl

/-- The attempts of a call are evaluated in their order already. -/
theorem evaluatedAttempts_sorted (l : Ledger) (context : CallContext)
    (attempts history : List Attempt) :
    sortCandidateAttempts (evaluatedAttempts l context attempts history)
      = evaluatedAttempts l context attempts history :=
  sortCandidateAttempts_idem _

/-- **What an evaluation of ordered attempts reports.**  Its rows are those of
the decisions, its logical events and raw records those of the winners. -/
structure RuntimeReport (all : List Attempt) (out : EvaluationOutput) where
  list : List Decision
  rows : List Delivery
  decided : decisionsOf all (fixtureCandidateProvider all) = .ok list
  reported : PartialList.traverse (delivery (decisionMap all list)) all = .ok rows
  deliveries : out.deliveries.Perm rows
  rejections : out.rejections.Perm
    ((list.filter (fun d => d.ingestionStatus = .rejected)).map rejectionRow)
  logicalEvents : ∀ e, e ∈ out.logicalEvents ↔ ∃ a ∈ all, isWinner all a = true ∧ logicalEvent a = e
  rawRecords : ∀ a ∈ all, isWinner all a = true →
    ∃ r ∈ out.rawRecords, makeRawRecord .available a = .ok r

omit [PayloadSchemas] in
/-- An evaluation that returns has reported each of its attempts. -/
theorem exists_runtimeReport {all : List Attempt} {out : EvaluationOutput}
    (hsorted : sortCandidateAttempts all = all)
    (h : evaluate (runtimeInput all) indexedCandidateProvider = .ok out) :
    Nonempty (RuntimeReport all out) := by
  have hprovider : indexedCandidateProvider = fixtureCandidateProvider :=
    funext indexedCandidateProvider_eq
  rw [hprovider] at h
  obtain ⟨i, initial, fraud, hi, hraws, hrows, -, -, -, hlogical, -, -, -, hrejections⟩ :=
    evaluate_eq_ok h
  obtain ⟨hall, hcandidates, -, hlist, hdecisions, -, hlifecycle, -⟩ := ingest_eq_ok hi
  rw [attempts_runtimeInput, hsorted] at hall
  rw [hcandidates] at hlist
  rw [hdecisions] at hraws hrows hlogical
  rw [hlifecycle] at hraws hlogical
  rw [hall] at hlist hraws hrows hlogical
  have huntouched : ∀ a, isUntouched (privacyIndex (runtimeInput all)) a = true := fun _ => rfl
  have hwinners : (acceptedUnique (decisionMap all i.decisionsList) all).filter
      (isUntouched (privacyIndex (runtimeInput all))) = all.filter (isWinner all) := by
    rw [acceptedUnique_eq hlist]
    exact List.filter_eq_self.mpr (fun a _ => huntouched a)
  simp only [deliveries, bind_eq_ok, pure_eq_ok] at hrows
  obtain ⟨rows, hrows, hout⟩ := hrows
  simp only [rawRecords, bind_eq_ok, pure_eq_ok] at hraws
  obtain ⟨raws, hraws, hrawsOut⟩ := hraws
  refine ⟨⟨i.decisionsList, rows, hlist, hrows, ?_, ?_, fun e => ?_, fun a ha hwin => ?_⟩⟩
  · rw [← hout]
    refine (perm_sortByKey _ _).trans ?_
    simp [runtimeInput]
  · rw [hrejections, rejections]
    refine (perm_sortByKey _ _).trans ?_
    simp [runtimeInput]
  · rw [hlogical, logicalEvents, mem_sortByKey, hwinners]
    simp [List.mem_map, and_assoc]
  · have hmem : a ∈ (acceptedUnique (decisionMap all i.decisionsList) all ++
        conflictEvidence (decisionMap all i.decisionsList) all).filter
        (isUntouched (privacyIndex (runtimeInput all))) := by
      rw [List.filter_append, hwinners]
      exact List.mem_append_left _ (List.mem_filter.mpr ⟨ha, hwin⟩)
    obtain ⟨r, hr, hraw⟩ := PartialList.ok_of_mem_traverse hraws hmem
    refine ⟨r, ?_, hraw⟩
    rw [← hrawsOut, mem_sortByKey]
    exact hr

omit [PayloadSchemas] in
/-- The reported rows have the keys of the attempts, in order. -/
theorem RuntimeReport.keys {all : List Attempt} {out : EvaluationOutput}
    (report : RuntimeReport all out) : report.rows.map Delivery.key = all.map deliveryKey := by
  refine PartialList.map_of_traverse report.reported (fun a ha row hrow => ?_)
  obtain ⟨b, -, d, hkey, hdecide, hd⟩ := decisionFor_eq report.decided ha
  simp only [delivery, hd, Except.ok.injEq] at hrow
  obtain ⟨hrecord, hdelivery, -, -⟩ := decideOrReject_ids hdecide
  have hrecordId := congrArg DecisionKey.recordId hkey
  have hdeliveryId := congrArg DecisionKey.deliveryId hkey
  rw [← hrow]
  exact Prod.ext (hrecord.trans hrecordId) (hdelivery.trans hdeliveryId)

omit [PayloadSchemas] in
/-- The decisions have the keys of the attempts, in order. -/
theorem RuntimeReport.decisionKeys {all : List Attempt} {out : EvaluationOutput}
    (report : RuntimeReport all out) :
    report.list.map (fun d => (d.recordId, d.deliveryId)) = all.map deliveryKey := by
  refine PartialList.map_of_traverse report.decided (fun a _ d hd => ?_)
  obtain ⟨hrecord, hdelivery, -, -⟩ := decideOrReject_ids hd
  exact Prod.ext hrecord hdelivery

/-- The lifecycle of an evaluation without privacy requests. -/
abbrev noLifecycle : Lifecycle := privacyIndex (runtimeInput [])

omit [PayloadSchemas] in
/-- **The attributions of an evaluation of ordered attempts.**  The initial
ones of the winners, and those that exclude them. -/
theorem attributions_of_runtime {all : List Attempt} {out : EvaluationOutput}
    (hsorted : sortCandidateAttempts all = all)
    (h : evaluate (runtimeInput all) indexedCandidateProvider = .ok out) :
    ∃ list initial decisions,
      decisionsOf all (fixtureCandidateProvider all) = .ok list ∧
      initialAttributions (fixtureCandidateProvider all) (decisionMap all list) noLifecycle
        (all.filter (isWinner all)) = .ok initial ∧
      fraudDecisions (runtimeInput all) (all.filter (isWinner all)) = .ok decisions ∧
      out.attributions = sortAttributions (initial ++ fraudAttributions
        (all.filter (isWinner all)) initial
        (excludedClickIds (all.filter (isWinner all)) decisions)) := by
  have hprovider : indexedCandidateProvider = fixtureCandidateProvider :=
    funext indexedCandidateProvider_eq
  rw [hprovider] at h
  obtain ⟨i, initial, fraud, hi, -, -, hinitial, hfraud, -, -, -, hattributions, -, -⟩ :=
    evaluate_eq_ok h
  obtain ⟨hall, hcandidates, -, hlist, hdecisions, -, hlifecycle, haccepted⟩ := ingest_eq_ok hi
  rw [attempts_runtimeInput, hsorted] at hall
  rw [hcandidates] at hlist hinitial
  rw [hall] at hlist hinitial hdecisions haccepted
  rw [hdecisions] at hinitial haccepted
  rw [acceptedUnique_eq hlist] at haccepted
  rw [haccepted] at hinitial hfraud
  simp only [fraudStage, provisionalClockAttributions, bind_eq_ok, pure_eq_ok] at hfraud
  obtain ⟨decisions, hdecided, provisional, ⟨days, hdays, rfl⟩, rfl⟩ := hfraud
  have hnone : sourceDays (runtimeInput all).sourceDayAggregates = [] := rfl
  rw [hnone, PartialList.traverse_nil] at hdays
  cases hdays
  refine ⟨i.decisionsList, initial, decisions, hlist, ?_, hdecided, ?_⟩
  · rw [hlifecycle] at hinitial
    exact hinitial
  · rw [hattributions]
    simp

omit [PayloadSchemas] in
/-- The engagement-level attributions that supersede none are those of the
winning opens. -/
theorem engagement_of_runtime {all : List Attempt} {out : EvaluationOutput}
    (hsorted : sortCandidateAttempts all = all)
    (h : evaluate (runtimeInput all) indexedCandidateProvider = .ok out) {t : Attribution}
    (ht : t ∈ out.attributions) (hlevel : t.subjectScope = .engagementLevel)
    (horiginal : t.supersedesAttributionId = none) :
    ∃ y ∈ all, isWinner all y = true ∧ y.record.eventName = .deepLinkOpen ∧
      t = makeDeepLinkAttribution noLifecycle y := by
  obtain ⟨list, initial, decisions, -, hinitial, -, hout⟩ := attributions_of_runtime hsorted h
  rw [hout, sortAttributions, mem_sortByKey] at ht
  rcases List.mem_append.mp ht with ht | ht
  · simp only [initialAttributions, bind_eq_ok, pure_eq_ok] at hinitial
    obtain ⟨installs, hinstalls, rfl⟩ := hinitial
    rw [sortAttributions, mem_sortByKey] at ht
    rcases List.mem_append.mp ht with ht | ht
    · rcases List.mem_append.mp ht with ht | ht
      · obtain ⟨a, -, ha⟩ := PartialList.exists_of_mem_traverse hinstalls ht
        simp only [makeAttribution, bind_eq_ok, pure_eq_ok] at ha
        obtain ⟨verdict, -, rfl⟩ := ha
        cases hlevel
      · obtain ⟨a, -, rfl⟩ := List.mem_map.mp ht
        cases hlevel
    · obtain ⟨y, hy, rfl⟩ := List.mem_map.mp ht
      obtain ⟨hwinner, hopen⟩ := List.mem_filter.mp hy
      obtain ⟨hmem, hwin⟩ := List.mem_filter.mp hwinner
      exact ⟨y, hmem, hwin, of_decide_eq_true hopen, rfl⟩
  · -- an exclusion supersedes the attribution it replaces
    obtain ⟨a, -, ha⟩ := List.mem_filterMap.mp ht
    unfold fraudAttribution at ha
    split at ha
    · cases ha
      cases horiginal
    · cases ha

section Transactions

variable {all : List Attempt} {out : EvaluationOutput} {attempts history : List Attempt}
  {context : CallContext} {l : Ledger} {x : Attempt}

omit [Digest] in
/-- The attempts of a batch that are evaluated follow their schemas. -/
theorem isSchemaValid_of_mem (hx : x ∈ validAttempts attempts) : isSchemaValid x = true := by
  obtain ⟨hmem, hkey⟩ := List.mem_filter.mp hx
  by_contra hinvalid
  refine of_decide_eq_true hkey (List.mem_map_of_mem (List.mem_filter.mpr ⟨hmem, ?_⟩))
  simpa using hinvalid

/-- A prepared attempt of the batch is evaluated. -/
theorem prepared_mem (l : Ledger) (context : CallContext) (history : List Attempt)
    (hx : x ∈ validAttempts attempts) :
    prepareAttempt l context x ∈ evaluatedAttempts l context attempts history :=
  mem_sortCandidateAttempts.mpr (List.mem_map_of_mem (List.mem_append_right _ hx))

/-- Every evaluated attempt is a prepared one. -/
theorem exists_prepared {y : Attempt} (hy : y ∈ evaluatedAttempts l context attempts history) :
    ∃ x, (x ∈ history ∨ x ∈ validAttempts attempts) ∧ prepareAttempt l context x = y := by
  obtain ⟨x, hx, rfl⟩ := List.mem_map.mp (mem_sortCandidateAttempts.mp hy)
  rcases List.mem_append.mp hx with hx | hx
  · exact ⟨x, .inl (List.mem_filter.mp hx).1, rfl⟩
  · exact ⟨x, .inr hx, rfl⟩

/-- A classified row of a call, and the evaluated delivery it reports. -/
structure RowSource (all : List Attempt) (s : StoredDelivery) (y : Attempt) (d : Decision) :
    Prop where
  mem : y ∈ all
  sole : isSole all y = true
  decide : decideOrReject (fixtureCandidateProvider all) y = .ok d
  row : s.row = deliveryRow y.record.receivedAt d
  record : s.attempt.record = y.record
  scope : s.attempt.scope = y.scope
  batchId : s.attempt.batchId = y.batchId

omit [PayloadSchemas] in
/-- A row that classifies is the one reported for the sole delivery with its
record id. -/
theorem source_of_runtimeRow {row : Delivery} (report : RuntimeReport all out)
    (hrow : row ∈ out.deliveries) (hclass : Classifies row.ingestionStatus row.duplicateResolution) :
    ∃ y ∈ all, ∃ d, isSole all y = true ∧ deliveryKey y = row.key ∧
      decideOrReject (fixtureCandidateProvider all) y = .ok d ∧
      row = deliveryRow y.record.receivedAt d := by
  obtain ⟨y, hy, d, hsole, hdecide, -, rfl⟩ :=
    source_of_report report.decided report.reported (report.deliveries.mem_iff.mp hrow) hclass
  obtain ⟨hrecord, hdelivery, -, -⟩ := decideOrReject_ids hdecide
  refine ⟨y, hy, d, hsole, ?_, hdecide, rfl⟩
  simp [deliveryKey, Delivery.key, deliveryRow, hrecord, hdelivery]

/-- The rows a call selects that classify come from its evaluation. -/
theorem mem_deliveries_of_selected {row : Delivery}
    (hrow : row ∈ (select context attempts out).deliveries)
    (hclass : Classifies row.ingestionStatus row.duplicateResolution) : row ∈ out.deliveries := by
  rcases List.mem_append.mp hrow with hrow | hrow
  · exact (List.mem_filter.mp hrow).1
  · obtain ⟨b, -, rfl⟩ := List.mem_map.mp hrow
    rcases hclass with h | h | h <;> cases h

/-- The classified delivery row of an attempt's transaction is the one the
evaluation reports for the attempt. -/
theorem delivery_of_transaction (hx : x ∈ attempts) {s : StoredDelivery}
    (hs : .delivery s ∈ attemptTransaction context all (select context attempts out) x)
    (hclass : Classifies s.row.ingestionStatus s.row.duplicateResolution) :
    s.attempt = x ∧ s.row.key = deliveryKey x ∧ s.row ∈ out.deliveries ∧
      x ∈ validAttempts attempts := by
  obtain ⟨row, hrow, rfl⟩ := delivery_mem_attemptTransaction.mp hs
  simp only [select, List.map_append, InsertionMap.get_ofList_append, Option.or_eq_some_iff] at hrow
  rcases hrow with hinvalid | ⟨hnone, hvalid⟩
  · obtain ⟨d, hd, heq⟩ := List.mem_map.mp (InsertionMap.mem_of_get_ofList hinvalid)
    obtain ⟨b, -, rfl⟩ := List.mem_map.mp hd
    obtain ⟨-, rfl⟩ := Prod.mk.inj heq
    rcases hclass with h | h | h <;> cases h
  · obtain ⟨d, hd, heq⟩ := List.mem_map.mp (InsertionMap.mem_of_get_ofList hvalid)
    obtain ⟨hkey, rfl⟩ := Prod.mk.inj heq
    refine ⟨rfl, hkey, (List.mem_filter.mp hd).1, ?_⟩
    -- an invalid attempt with this key would have left its row in the map
    refine List.mem_filter.mpr ⟨hx, decide_eq_true fun hmem => ?_⟩
    obtain ⟨b, hb, hbkey⟩ := List.mem_map.mp hmem
    have hsome := (InsertionMap.get_ofList_isSome ((attempts.filter (fun a => !isSchemaValid a)).map
      (fun a => schemaInvalidDelivery (bindFraudBundle context.activeRevision a)) |>.map
        (fun d => (d.key, d))) (deliveryKey x)).mpr (by
      obtain ⟨_, _, _, hbind⟩ := bindFraudBundle_shape context b
      rw [List.map_map, List.map_map, ← hbkey]
      refine List.mem_map.mpr ⟨b, hb, ?_⟩
      simp only [Function.comp_apply, hbind]
      rfl)
    rw [hnone] at hsome
    cases hsome

/-- The classified delivery row of a bulk transaction comes with the evaluated
delivery it reports. -/
theorem delivery_of_bulk (report : RuntimeReport all out) {s : StoredDelivery}
    (hs : .delivery s ∈ bulkTransaction context all (select context attempts out) attempts)
    (hclass : Classifies s.row.ingestionStatus s.row.duplicateResolution) :
    s.attempt ∈ all ∧ s.row.key = deliveryKey s.attempt ∧ s.row ∈ out.deliveries := by
  obtain ⟨hrow, hfind⟩ := delivery_mem_bulkTransaction.mp hs
  have hout := mem_deliveries_of_selected hrow hclass
  obtain ⟨y, hy, -, -, hkey, -, -⟩ := source_of_runtimeRow report hout hclass
  rw [List.find?_append] at hfind
  have hsome : (all.find? (fun a => deliveryKey a = s.row.key)).isSome :=
    List.find?_isSome.mpr ⟨y, hy, by simpa using hkey⟩
  obtain ⟨a', ha'⟩ := Option.isSome_iff_exists.mp hsome
  rw [ha', Option.some_or, Option.some.injEq] at hfind
  subst hfind
  refine ⟨List.mem_of_find?_eq_some ha', ?_, hout⟩
  have hkey' := List.find?_some ha'
  exact (of_decide_eq_true hkey').symm

omit [PayloadSchemas] in
/-- A logical event of a transaction is the winner's it was read from. -/
theorem logical_of_write (report : RuntimeReport all out)
    {e : LogicalEvent} (he : e ∈ out.logicalEvents) {s : StoredEvent} {order : List Attempt}
    (hperm : ∀ a, a ∈ order ↔ a ∈ all) (hs : logicalWrite order e = some (.logical s)) :
    s.attempt ∈ all ∧ isWinner all s.attempt = true ∧ logicalEvent s.attempt = s.event ∧
      s.event = e := by
  simp only [logicalWrite, Option.map_eq_some_iff] at hs
  obtain ⟨a, hfind, hs⟩ := hs
  cases hs
  rw [projectedAttempt] at hfind
  have ha : a ∈ all := (hperm a).mp (List.mem_of_find?_eq_some hfind)
  have hkey := List.find?_some hfind
  rw [decide_eq_true_eq] at hkey
  obtain ⟨w, hw, hwin, rfl⟩ := (report.logicalEvents e).mp he
  have hrecord : a.record.recordId = w.record.recordId := congrArg EvidenceKey.recordId hkey
  obtain rfl := eq_of_isSole hw ha ((isWinner_iff hw).mp hwin).1 hrecord
  exact ⟨ha, hwin, rfl, rfl⟩

/-- What the logical writes of a call come from. -/
theorem logical_of_callTransactions {bulk : Bool} (report : RuntimeReport all out)
    {t : Transaction} (ht : t ∈ callTransactions context bulk all (select context attempts out) attempts)
    {s : StoredEvent} (hs : .logical s ∈ t) :
    s.attempt ∈ all ∧ isWinner all s.attempt = true ∧ logicalEvent s.attempt = s.event ∧
      s.event.recordId ∈ (validAttempts attempts).map (·.record.recordId) := by
  have hselected : ∀ e ∈ (select context attempts out).logicalEvents,
      e ∈ out.logicalEvents ∧ e.recordId ∈ (validAttempts attempts).map (·.record.recordId) := by
    intro e he
    obtain ⟨hout, hid⟩ := List.mem_filter.mp he
    exact ⟨hout, by simpa using hid⟩
  cases bulk with
  | true =>
      obtain rfl : t = _ := List.mem_singleton.mp ht
      obtain ⟨e, he, hwrite⟩ := logical_mem_bulkTransaction.mp hs
      obtain ⟨hout, hid⟩ := hselected e he
      obtain ⟨hmem, hwin, hlogical, rfl⟩ :=
        logical_of_write report hout (fun a => List.mem_reverse) hwrite
      exact ⟨hmem, hwin, hlogical, hid⟩
  | false =>
      rcases mem_rowTransactions ht with ⟨x, -, rfl⟩ | ⟨_, -, rfl⟩ | ⟨_, -, rfl⟩ | ⟨_, -, rfl⟩
      · obtain ⟨e, he, hwrite⟩ := logical_mem_attemptTransaction.mp hs
        obtain ⟨e', he', heq⟩ := List.mem_map.mp (InsertionMap.mem_of_get_ofList he)
        obtain ⟨-, rfl⟩ := Prod.mk.inj heq
        obtain ⟨hout, hid⟩ := hselected e' he'
        obtain ⟨hmem, hwin, hlogical, rfl⟩ := logical_of_write report hout (fun a => Iff.rfl) hwrite
        exact ⟨hmem, hwin, hlogical, hid⟩
      all_goals cases List.mem_singleton.mp hs

omit [Digest] [PayloadSchemas] in
/-- The attributions a call writes are those it selects. -/
theorem attribution_of_callTransactions {bulk : Bool} {selected : Selected} {t : Transaction}
    (ht : t ∈ callTransactions context bulk all selected attempts) {a : Attribution}
    (ha : .attribution a ∈ t) : a ∈ selected.attributions := by
  cases bulk with
  | true =>
      obtain rfl : t = _ := List.mem_singleton.mp ht
      exact attribution_mem_bulkTransaction.mp ha
  | false =>
      rcases mem_rowTransactions ht with ⟨x, -, rfl⟩ | ⟨t', ht', rfl⟩ | ⟨_, -, rfl⟩ | ⟨_, -, rfl⟩
      · exact absurd ha attribution_notMem_attemptTransaction
      · cases List.mem_singleton.mp ha
        exact ht'
      all_goals cases List.mem_singleton.mp ha

/-- What the classified rows of a call come from. -/
theorem delivery_of_callTransactions {bulk : Bool}
    (report : RuntimeReport (evaluatedAttempts l context attempts history) out) {t : Transaction}
    (ht : t ∈ callTransactions context bulk (evaluatedAttempts l context attempts history)
      (select context attempts out) attempts)
    {s : StoredDelivery} (hs : .delivery s ∈ t)
    (hclass : Classifies s.row.ingestionStatus s.row.duplicateResolution) :
    s.row ∈ out.deliveries ∧ s.row.key = deliveryKey s.attempt ∧
      if bulk then s.attempt ∈ evaluatedAttempts l context attempts history
      else s.attempt ∈ validAttempts attempts := by
  cases bulk with
  | true =>
      obtain rfl : t = _ := List.mem_singleton.mp ht
      obtain ⟨hmem, hkey, hout⟩ := delivery_of_bulk report hs hclass
      exact ⟨hout, hkey, hmem⟩
  | false =>
      rcases mem_rowTransactions ht with ⟨x, hx, rfl⟩ | ⟨_, -, rfl⟩ | ⟨_, -, rfl⟩ | ⟨_, -, rfl⟩
      · obtain ⟨rfl, hkey, hout, hvalid⟩ := delivery_of_transaction hx hs hclass
        exact ⟨hout, hkey, hvalid⟩
      all_goals cases List.mem_singleton.mp hs

end Transactions

section Calls

variable {l : Ledger} {context : CallContext} {attempts history : List Attempt} {bulk : Bool}

/-- **What a call at a scope leaves.**  The ledger it found, when the evaluation
fails, or what its transactions persist. -/
theorem ingestScope_cases (l : Ledger) (context : CallContext) (attempts history : List Attempt)
    (bulk : Bool) :
    (ingestScope l context attempts history bulk).ledger = l ∨
    ∃ out, Nonempty (RuntimeReport (evaluatedAttempts l context attempts history) out) ∧
      evaluate (runtimeInput (evaluatedAttempts l context attempts history))
        indexedCandidateProvider = .ok out ∧
      (ingestScope l context attempts history bulk).ledger =
        (l.persist (callTransactions context bulk (evaluatedAttempts l context attempts history)
          (select context attempts out) attempts) context.fault).1 := by
  have hsorted := evaluatedAttempts_sorted l context attempts history
  cases hout : evaluate (runtimeInput (evaluatedAttempts l context attempts history))
      indexedCandidateProvider with
  | error e => exact .inl (by simp only [ingestScope, hout])
  | ok out =>
      exact .inr ⟨out, exists_runtimeReport hsorted hout, rfl, by simp only [ingestScope, hout]⟩

/-- **Where a logical event comes from.**  It was there, or it is the winner's
of an attempt of the call. -/
theorem logical_of_ingestScope {s : StoredEvent}
    (hs : s ∈ (ingestScope l context attempts history bulk).ledger.logicalEvents) :
    s ∈ l.logicalEvents ∨ ∃ x ∈ validAttempts attempts, s.attempt = prepareAttempt l context x ∧
      isWinner (evaluatedAttempts l context attempts history) s.attempt = true ∧
      logicalEvent s.attempt = s.event := by
  rcases ingestScope_cases l context attempts history bulk with hsame | ⟨out, ⟨report⟩, -, hledger⟩
  · rw [hsame] at hs
    exact .inl hs
  · rw [hledger] at hs
    refine (Ledger.mem_logicalEvents_of_persist hs).imp_right fun ⟨t, ht, hwrite⟩ => ?_
    obtain ⟨hmem, hwin, hlogical, hid⟩ := logical_of_callTransactions report ht hwrite
    obtain ⟨x, hx, hxid⟩ := List.mem_map.mp hid
    have hprepared : prepareAttempt l context x = s.attempt := by
      refine eq_of_isSole hmem (prepared_mem l context history hx) ((isWinner_iff hmem).mp hwin).1 ?_
      rw [prepareAttempt_record, hxid, ← hlogical]
      rfl
    exact ⟨x, hx, hprepared.symm, hwin, hlogical⟩

/-- **Where a classified row comes from.**  It was there, or it reports a sole
delivery the call evaluated, without bulk persistence one of its batch. -/
theorem delivery_of_ingestScope {s : StoredDelivery}
    (hs : s ∈ (ingestScope l context attempts history bulk).ledger.deliveries)
    (hclass : Classifies s.row.ingestionStatus s.row.duplicateResolution) :
    s ∈ l.deliveries ∨ ∃ y d, RowSource (evaluatedAttempts l context attempts history) s y d ∧
      (bulk = false → s.attempt ∈ validAttempts attempts ∧ y = prepareAttempt l context s.attempt) := by
  rcases ingestScope_cases l context attempts history bulk with hsame | ⟨out, ⟨report⟩, -, hledger⟩
  · rw [hsame] at hs
    exact .inl hs
  · rw [hledger] at hs
    refine (Ledger.mem_deliveries_of_persist hs).imp_right fun ⟨t, ht, hwrite⟩ => ?_
    obtain ⟨hrow, hkey, hfrom⟩ := delivery_of_callTransactions report ht hwrite hclass
    obtain ⟨y, hy, d, hsole, hykey, hdecide, hreported⟩ := source_of_runtimeRow report hrow hclass
    have hid : s.attempt.record.recordId = y.record.recordId :=
      congrArg Prod.fst (hkey.symm.trans hykey.symm)
    cases bulk with
    | true =>
        have heq : s.attempt = y := eq_of_isSole hy hfrom hsole hid
        exact ⟨y, d, ⟨hy, hsole, hdecide, hreported, by rw [heq], by rw [heq], by rw [heq]⟩, nofun⟩
    | false =>
        have heq : prepareAttempt l context s.attempt = y :=
          eq_of_isSole hy (prepared_mem l context history hfrom) hsole (by rw [prepareAttempt_record, hid])
        subst heq
        exact ⟨_, d, ⟨hy, hsole, hdecide, hreported, (prepareAttempt_record ..).symm,
          (prepareAttempt_scope ..).symm, (prepareAttempt_batchId ..).symm⟩,
          fun _ => ⟨hfrom, rfl⟩⟩

/-- **Call rule.**  What the call keeps for the attempts of each scope, it
keeps.  The history of the scope comes along whole. -/
theorem invariant_of_ingestRuntimeBatch (Inv : Ledger → Prop) (contexts : Scope → CallContext)
    (hscope : ∀ s, ∀ history' ⊆ history, (∀ a ∈ history, a.scope = s → a ∈ history') →
      ∀ l, Inv l → Inv (ingestScope l (contexts s) (attempts.filter (fun a => a.scope = s))
        history' bulk).ledger)
    (hl : Inv l) : Inv (ingestRuntimeBatch l contexts attempts history bulk).ledger := by
  have hscopes : ∀ scopes l, Inv l →
      Inv (ingestScopes contexts attempts history bulk scopes l).ledger := by
    intro scopes
    induction scopes with
    | nil => intro l hl; exact hl
    | cons s rest ih =>
        intro l hl
        have hfirst := hscope s _
          (List.filter_subset_self (p := fun a : Attempt => a.scope = s) history)
          (fun a ha hs => List.mem_filter.mpr ⟨ha, decide_eq_true hs⟩) l hl
        unfold ingestScopes
        dsimp only
        split
        · exact ih _ hfirst
        · exact hfirst
  unfold ingestRuntimeBatch
  split
  · exact hl
  · case h_2 s hs =>
      have hall : attempts.filter (fun a => a.scope = s) = attempts := by
        refine List.filter_eq_self.mpr fun a ha => decide_eq_true ?_
        have hmem : a.scope ∈ scopesOf attempts := by
          simp only [scopesOf, KeyedSort.mem_sortOn, List.mem_dedup]
          exact List.mem_map_of_mem ha
        rw [hs] at hmem
        exact List.mem_singleton.mp hmem
      have := hscope s history (fun _ h => h) (fun _ h _ => h) l hl
      rwa [hall] at this
  · exact hscopes _ l hl

end Calls

end Report

end OpenMasu
