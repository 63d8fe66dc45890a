import OpenMasu.DecisionFacts

/-!
# Logical idempotency of an evaluation

A producer may deliver an event any number of times.  Once some delivery of a
logical key is accepted, exactly one should be the unique one, every duplicate
and conflict should name it, and the key should own one logical event.

The decision logic classifies against the order-first delivery of the key,
whether or not that one is accepted.  So the law holds at a key exactly when
the first delivery passes its own checks as soon as some delivery with its
payload does (`isIdempotentAt_iff`).  A first delivery under a foreign client
scope, say, leaves the good one behind it as a duplicate of a rejected record
(`scopeMismatch_not_idempotent`).
-/

namespace OpenMasu

open PartialList (bind_eq_ok pure_eq_ok)

/-- The delivery row belongs to a delivery of the logical key. -/
def isDeliveryOf (input : EvaluatorInput) (k : LogicalKey) (row : Delivery) : Bool :=
  (attempts input).any (fun a => scopeKey a = k && row.deliveryId = a.record.deliveryId &&
    row.recordId = a.record.recordId && row.tenantId = a.server.tenantId &&
    row.appId = a.server.appId)

/-- The delivery rows of a logical key. -/
def keyDeliveries (input : EvaluatorInput) (out : EvaluationOutput) (k : LogicalKey) :
    List Delivery :=
  out.deliveries.filter (isDeliveryOf input k)

/-- An accepted row that is unique for its key. -/
def isAcceptedUniqueRow (row : Delivery) : Bool :=
  row.ingestionStatus = .accepted && row.duplicateResolution = .unique

/-- **Logical idempotency at a key.**  If a delivery of the key is accepted,
exactly one is accepted as unique, duplicates and conflicts name its record,
and unless a lifecycle entry names it the key owns exactly one logical
event. -/
def IsIdempotentAt (input : EvaluatorInput) (out : EvaluationOutput) (k : LogicalKey) : Prop :=
  (∃ row ∈ keyDeliveries input out k, row.ingestionStatus = .accepted) →
    ∃ winner, (keyDeliveries input out k).filter isAcceptedUniqueRow = [winner] ∧
      (∀ row ∈ keyDeliveries input out k,
        row.duplicateResolution = .duplicateDelivery ∨ row.duplicateResolution = .eventIdConflict →
          row.canonicalRecordId = some winner.recordId) ∧
      ((privacyIndex input).get ⟨k.scope, winner.recordId⟩ = none →
        ∃ event, out.logicalEvents.filter (fun e => e.key = k) = [event])

section Law

variable [Digest]

/-- The first delivery of the key passes its own checks as soon as some
delivery of the key with its payload does. -/
def FirstPasses (input : EvaluatorInput) (k : LogicalKey) : Prop :=
  ∀ first, firstOfKey (orderedAttempts input) k = some first →
    (∃ a ∈ orderedAttempts input, scopeKey a = k ∧ isSole (orderedAttempts input) a = true ∧
      passesOwnChecks a = true ∧ samePayload first a = true) →
    isSole (orderedAttempts input) first = true ∧ passesOwnChecks first = true

section Rows

variable {input : EvaluatorInput} {out : EvaluationOutput} {all : List Attempt}
  {list : List Decision} {rows : List Delivery} {k : LogicalKey}

omit [Digest] in
/-- A row of the key whose record is a sole one belongs to the delivery with
that record. -/
private theorem key_of_isDeliveryOf {row : Delivery} {a : Attempt}
    (hall : ∀ c, c ∈ attempts input → c ∈ all) (hrow : isDeliveryOf input k row = true)
    (ha : a ∈ all) (hsole : isSole all a = true) (hid : row.recordId = a.record.recordId) :
    scopeKey a = k := by
  simp only [isDeliveryOf, List.any_eq_true, Bool.and_eq_true, decide_eq_true_eq] at hrow
  obtain ⟨c, hc, ⟨⟨⟨hkey, _⟩, hrec⟩, _⟩, _⟩ := hrow
  rwa [← eq_of_isSole ha (hall c hc) hsole (hrec.symm.trans hid)]

omit [Digest] in
/-- The row of a delivery belongs to its key. -/
private theorem isDeliveryOf_row {a : Attempt} {d : Decision} (ha : a ∈ attempts input)
    (hids : d.recordId = a.record.recordId ∧ d.deliveryId = a.record.deliveryId ∧
      d.tenantId = a.server.tenantId ∧ d.appId = a.server.appId) :
    isDeliveryOf input (scopeKey a) (deliveryRow a.record.receivedAt d) = true := by
  simp only [isDeliveryOf, List.any_eq_true]
  exact ⟨a, ha, by simp [deliveryRow, hids.1, hids.2.1, hids.2.2.1, hids.2.2.2]⟩

omit [Digest] in
/-- A selection that keeps one sole delivery and nothing else. -/
private theorem filter_eq_singleton {p : Attempt → Bool} {a : Attempt} (ha : a ∈ all)
    (hsole : isSole all a = true) (hp : p a = true) (honly : ∀ b ∈ all, p b = true → b = a) :
    all.filter p = [a] := by
  have hle : (all.filter p).length ≤ 1 := by
    have hsub : all.filter p
        = (all.filter (fun c => c.record.recordId = a.record.recordId)).filter p := by
      rw [List.filter_filter]
      refine List.filter_congr (fun b hb => ?_)
      by_cases hb' : p b = true
      · simp [honly b hb hb']
      · simp [hb']
    rw [hsub]
    exact (List.length_filter_le _ _).trans (by simpa [isSole] using hsole)
  have hmem : a ∈ all.filter p := List.mem_filter.mpr ⟨ha, hp⟩
  cases hf : all.filter p with
  | nil => rw [hf] at hmem; cases hmem
  | cons x rest =>
      rw [hf] at hle hmem
      have hrest : rest = [] := List.eq_nil_of_length_eq_zero (by simpa using hle)
      subst hrest
      rw [List.mem_singleton.mp hmem]

omit [Digest] in
/-- The winner of a key, when there is one, is its first delivery. -/
private theorem winners_of_key {first : Attempt} (hfirst : firstOfKey all k = some first)
    (hsole : isSole all first = true) (hpass : passesOwnChecks first = true) :
    (all.filter (isWinner all)).filter (fun a => scopeKey a = k) = [first] := by
  obtain ⟨hmem, hkey⟩ := mem_of_firstOfKey hfirst
  have hwins : isWinner all first = true :=
    (isWinner_iff hmem).mpr ⟨hsole, hpass, hkey.symm ▸ hfirst⟩
  rw [List.filter_filter]
  refine filter_eq_singleton hmem hsole (by simp [hwins, hkey]) (fun b hb hq => ?_)
  simp only [Bool.and_eq_true, decide_eq_true_eq] at hq
  have hbfirst := ((isWinner_iff hb).mp hq.2).2.2
  rw [hq.1, hfirst] at hbfirst
  exact (Option.some.inj hbfirst).symm

/-- What the delivery rows of an evaluation are made of. -/
private def IsReport (input : EvaluatorInput) (out : EvaluationOutput) (all : List Attempt)
    (list : List Decision) (rows : List Delivery) : Prop :=
  all = orderedAttempts input ∧
  decisionsOf all (fixtureCandidateProvider all) = .ok list ∧
  PartialList.traverse (delivery (decisionMap all list)) all = .ok rows ∧
  out.deliveries = sortByKey (rows ++ input.preIngestionRejections.map
      (fun item => deliveryRow item.receivedAt (preIngestionDecision item)))
    (fun d => [d.deliveryId.text, d.recordId.text, d.tenantId.text, d.appId.text]) ∧
  out.logicalEvents = logicalEvents (decisionMap all list) (privacyIndex input) all

private theorem exists_report (h : evaluate input = .ok out) :
    ∃ all list rows, IsReport input out all list rows := by
  obtain ⟨i, _, _, hingest, -, hdeliveries, -, -, -, hlogical, -, -, -, -⟩ := evaluate_eq_ok h
  obtain ⟨hall, hcands, -, hlist, hmap, -, hlife, -⟩ := ingest_eq_ok hingest
  simp only [deliveries, bind_eq_ok, pure_eq_ok] at hdeliveries
  obtain ⟨rows, hrows, hout⟩ := hdeliveries
  rw [hmap] at hrows
  exact ⟨i.all, i.decisionsList, rows, hall, hcands ▸ hlist, hrows, hout.symm,
    hmap ▸ hlife ▸ hlogical⟩

variable (r : IsReport input out all list rows)
include r

/-- Every accepted, duplicate or conflicting row of a key comes from a sole
delivery of that key. -/
private theorem source_of_row {row : Delivery} (hrow : row ∈ keyDeliveries input out k)
    (hres : Classifies row.ingestionStatus row.duplicateResolution) :
    ∃ a ∈ all, ∃ d, scopeKey a = k ∧ isSole all a = true ∧
      decideOrReject (fixtureCandidateProvider all) a = .ok d ∧
      decisionFor (decisionMap all list) a = some d ∧ row = deliveryRow a.record.receivedAt d := by
  obtain ⟨hall, hlist, hrows, hout, -⟩ := r
  obtain ⟨hrow, hof⟩ := List.mem_filter.mp hrow
  rw [hout, mem_sortByKey, List.mem_append] at hrow
  rcases hrow with hrow | hpre
  · obtain ⟨a, ha, d, hsole, hdecide, hd, rfl⟩ := source_of_report hlist hrows hrow hres
    refine ⟨a, ha, d, ?_, hsole, hdecide, hd, rfl⟩
    refine key_of_isDeliveryOf (fun c hc => ?_) hof ha hsole (decideOrReject_ids hdecide).1
    rw [hall]; exact mem_sortCandidateAttempts.mpr hc
  · obtain ⟨item, _, rfl⟩ := List.mem_map.mp hpre
    simp [Classifies, deliveryRow, preIngestionDecision] at hres

/-- The row of a delivery is among the rows of its key. -/
private theorem row_mem {a : Attempt} {d : Decision} (ha : a ∈ all)
    (hdecide : decideOrReject (fixtureCandidateProvider all) a = .ok d)
    (hd : decisionFor (decisionMap all list) a = some d) :
    deliveryRow a.record.receivedAt d ∈ keyDeliveries input out (scopeKey a) := by
  obtain ⟨hall, -, hrows, hout, -⟩ := r
  refine List.mem_filter.mpr ⟨?_, ?_⟩
  · rw [hout, mem_sortByKey, List.mem_append]
    obtain ⟨row, hrow, hdelivery⟩ := PartialList.ok_of_mem_traverse hrows ha
    simp only [delivery, hd, Except.ok.injEq] at hdelivery
    exact .inl (hdelivery ▸ hrow)
  · refine isDeliveryOf_row ?_ (decideOrReject_ids hdecide)
    rw [hall] at ha
    exact mem_sortCandidateAttempts.mp ha

/-- The accepted unique rows of a key are those of its winners. -/
private theorem winner_rows {first : Attempt} (hfirst : firstOfKey all k = some first)
    (hsole : isSole all first = true) (hpass : passesOwnChecks first = true) :
    ∃ row, (keyDeliveries input out k).filter isAcceptedUniqueRow = [row] ∧
      row.recordId = first.record.recordId := by
  obtain ⟨hall, hlist, hrows, hout, -⟩ := r
  obtain ⟨hmem, hkey⟩ := mem_of_firstOfKey hfirst
  obtain ⟨d, hdecide, hd⟩ := decisionFor_of_sole hlist hmem hsole
  refine ⟨deliveryRow first.record.receivedAt d, ?_, (decideOrReject_ids hdecide).1⟩
  -- among all deliveries, the ones with an accepted unique row of the key
  have hselect : PartialList.traverse (delivery (decisionMap all list))
      ((all.filter (isWinner all)).filter (fun a => scopeKey a = k))
      = .ok (rows.filter (fun row => isDeliveryOf input k row && isAcceptedUniqueRow row)) := by
    rw [List.filter_filter]
    refine PartialList.traverse_filter hrows (fun a ha row hrow => ?_)
    obtain ⟨b, hb, e, hbkey, hbdecide, he⟩ := decisionFor_eq hlist ha
    simp only [delivery, he, Except.ok.injEq] at hrow
    have hunique : isAcceptedUniqueRow row = isWinner all a := by
      rw [← isAcceptedUnique_eq hlist ha, isAcceptedUnique, he, ← hrow]
      rfl
    rw [hunique, Bool.and_comm, Bool.and_comm (Decidable.decide _)]
    cases hwins : isWinner all a with
    | false => rfl
    | true =>
        obtain ⟨hasole, -, -⟩ := (isWinner_iff ha).mp hwins
        obtain rfl := eq_of_isSole ha hb hasole (congrArg DecisionKey.recordId hbkey)
        have hids := decideOrReject_ids hbdecide
        rw [Bool.true_and, Bool.true_and, Bool.eq_iff_iff, decide_eq_true_eq]
        constructor
        · intro hof
          refine key_of_isDeliveryOf (fun c hc => ?_) hof ha hasole (hrow ▸ hids.1)
          rw [hall]; exact mem_sortCandidateAttempts.mpr hc
        · intro hbk
          rw [← hrow, ← hbk]
          refine isDeliveryOf_row ?_ hids
          rw [hall] at ha
          exact mem_sortCandidateAttempts.mp ha
  rw [winners_of_key hfirst hsole hpass] at hselect
  have hone : rows.filter (fun row => isDeliveryOf input k row && isAcceptedUniqueRow row)
      = [deliveryRow first.record.receivedAt d] := by
    simp only [PartialList.traverse, delivery, hd, bind, Except.bind, pure, Except.pure,
      Except.ok.injEq] at hselect
    exact hselect.symm
  rw [keyDeliveries, List.filter_filter, hout, filter_sortByKey, List.filter_append]
  have hpre : (input.preIngestionRejections.map
      (fun item => deliveryRow item.receivedAt (preIngestionDecision item))).filter
      (fun row => isAcceptedUniqueRow row && isDeliveryOf input k row) = [] := by
    simp [List.filter_eq_nil_iff, isAcceptedUniqueRow, deliveryRow, preIngestionDecision]
  simp only [hpre, List.append_nil]
  have hcomm : (fun row => isAcceptedUniqueRow row && isDeliveryOf input k row)
      = (fun row => isDeliveryOf input k row && isAcceptedUniqueRow row) :=
    funext (fun _ => Bool.and_comm _ _)
  rw [hcomm, hone, sortByKey_singleton]

/-- Duplicates and conflicts of a key name its first delivery's record. -/
private theorem canonical_of_row {first : Attempt} (hfirst : firstOfKey all k = some first)
    {row : Delivery} (hrow : row ∈ keyDeliveries input out k)
    (hdup : row.duplicateResolution = .duplicateDelivery ∨
      row.duplicateResolution = .eventIdConflict) :
    row.canonicalRecordId = some first.record.recordId := by
  obtain ⟨a, ha, d, hkey, -, hdecide, -, rfl⟩ := source_of_row r hrow (.inr hdup)
  exact (classified_decision hdecide (hkey ▸ hfirst) (.inr hdup) ha).2

/-- A winner without a lifecycle entry is the one logical event of its
key. -/
private theorem event_of_key {first : Attempt} (hfirst : firstOfKey all k = some first)
    (hsole : isSole all first = true) (hpass : passesOwnChecks first = true)
    (huntouched : (privacyIndex input).get first.evidenceKey = none) :
    out.logicalEvents.filter (fun e => e.key = k) = [logicalEvent first] := by
  obtain ⟨-, hlist, -, -, hlogical⟩ := r
  have hselect : ((all.filter (isWinner all)).filter (isUntouched (privacyIndex input))).filter
      (fun a => scopeKey a = k) = [first] := by
    rw [List.filter_comm, winners_of_key hfirst hsole hpass]
    simp [isUntouched, huntouched]
  have hkey : (fun e : LogicalEvent => Decidable.decide (e.key = k)) ∘ logicalEvent
      = fun a => Decidable.decide (scopeKey a = k) := rfl
  rw [hlogical, logicalEvents, filter_sortByKey, List.filter_map, acceptedUnique_eq hlist, hkey,
    hselect, List.map_singleton, sortByKey_singleton]

end Rows

/-- **The law, key by key.**  At every logical key of every evaluation that
does not throw, idempotency holds if and only if the first delivery of the key
passes its own checks as soon as some delivery with its payload does. -/
theorem isIdempotentAt_iff (input : EvaluatorInput) (out : EvaluationOutput)
    (h : evaluate input = .ok out) (k : LogicalKey) :
    IsIdempotentAt input out k ↔ FirstPasses input k := by
  obtain ⟨all, list, rows, r⟩ := exists_report h
  obtain ⟨hall, hlist, -⟩ := id r
  rw [FirstPasses, ← hall]
  constructor
  · rintro hidem first hfirst ⟨a, ha, hkey, hsole, hpass, hsame⟩
    obtain ⟨d, hdecide, hd⟩ := decisionFor_of_sole hlist ha hsole
    have hacc : d.ingestionStatus = .accepted := by
      have := (isAccepted_iff hlist ha (hkey ▸ hfirst)).mpr ⟨hsole, hpass, hsame⟩
      simpa [isAccepted, hd] using this
    obtain ⟨winner, hwinner, -, -⟩ := hidem ⟨_, hkey ▸ row_mem r ha hdecide hd, hacc⟩
    have hw : winner ∈ (keyDeliveries input out k).filter isAcceptedUniqueRow := by
      rw [hwinner]; exact List.mem_singleton_self _
    obtain ⟨hw, hshow⟩ := List.mem_filter.mp hw
    simp only [isAcceptedUniqueRow, Bool.and_eq_true, decide_eq_true_eq] at hshow
    obtain ⟨b, hb, e, hbkey, -, -, he, rfl⟩ := source_of_row r hw (.inl hshow.1)
    have hunique : isAcceptedUnique (decisionMap all list) b = true := by
      simpa [isAcceptedUnique, he, deliveryRow] using hshow
    rw [isAcceptedUnique_eq hlist hb, isWinner_iff hb, hbkey, hfirst] at hunique
    obtain ⟨hbsole, hbpass, hfb⟩ := hunique
    cases hfb
    exact ⟨hbsole, hbpass⟩
  · rintro hfirstPasses ⟨row, hrow, hacc⟩
    obtain ⟨a, ha, d, hkey, hsole, -, hd, rfl⟩ := source_of_row r hrow (.inl hacc)
    obtain ⟨first, hfirst⟩ := exists_firstOfKey ha
    have haccepted : isAccepted (decisionMap all list) a = true := by
      simpa [isAccepted, hd, deliveryRow] using hacc
    obtain ⟨-, hpass, hsame⟩ := (isAccepted_iff hlist ha hfirst).mp haccepted
    rw [hkey] at hfirst
    obtain ⟨hfsole, hfpass⟩ := hfirstPasses first hfirst ⟨a, ha, hkey, hsole, hpass, hsame⟩
    obtain ⟨winner, hwinner, hid⟩ := winner_rows r hfirst hfsole hfpass
    refine ⟨winner, hwinner, fun other hother hdup => ?_, fun huntouched => ?_⟩
    · rw [hid]
      exact canonical_of_row r hfirst hother hdup
    · have hkeyEq : (⟨k.scope, winner.recordId⟩ : EvidenceKey) = first.evidenceKey := by
        rw [hid, ← (mem_of_firstOfKey hfirst).2]; rfl
      exact ⟨_, event_of_key r hfirst hfsole hfpass (hkeyEq ▸ huntouched)⟩

/-- Some delivery of the key is accepted and none of them is unique. -/
def losesEvent (input : EvaluatorInput) (k : LogicalKey) : Bool :=
  match evaluate input with
  | .ok out => (keyDeliveries input out k).any (fun row => row.ingestionStatus = .accepted) &&
      !(keyDeliveries input out k).any isAcceptedUniqueRow
  | .error _ => false

/-- A key that loses its event breaks the law. -/
theorem not_idempotent_of_losesEvent {input : EvaluatorInput} {k : LogicalKey}
    (h : losesEvent input k = true) :
    ∃ out, evaluate input = .ok out ∧ ¬ IsIdempotentAt input out k := by
  unfold losesEvent at h
  split at h
  · case h_1 out hout =>
      simp only [Bool.and_eq_true, Bool.not_eq_true', List.any_eq_true,
        decide_eq_true_eq] at h
      refine ⟨out, hout, fun hidem => ?_⟩
      obtain ⟨winner, hwinner, -, -⟩ := hidem h.1
      have hw : winner ∈ (keyDeliveries input out k).filter isAcceptedUniqueRow := by
        rw [hwinner]; exact List.mem_singleton_self _
      obtain ⟨hw, hunique⟩ := List.mem_filter.mp hw
      exact List.any_eq_false.mp h.2 winner hw hunique
  · cases h

end Law

section Runs

attribute [local instance] checksumDigest

/-- A session delivered under a client scope. -/
def sessionRecord (name tenant : Identifier) (second : Fin 100) :
    Record where
  recordId := name
  deliveryId := name
  tenantId := tenant
  appId := .named "app"
  producer := .sdkAndroid
  producerVersion := "1.0.0"
  eventId := .named "event"
  schemaVersion := "0.4.0"
  occurredAt := ⟨2026, 1, 2, 3, 4, 0, 0⟩
  occurredAtSource := "device"
  receivedAt := ⟨2026, 1, 2, 3, 4, second, 0⟩
  payload := { eventName := .sessionStart
               installationId := some (.named "installation") }
  processingSequence := 0

/-- One event delivered twice, the first time under the client scope of the
named tenant. -/
def redeliveredSession (firstTenant : Identifier) : EvaluatorInput where
  ingress := .direct
    { tenantId := .named "tenant"
      appId := .named "app"
      receivedAt := ⟨2026, 1, 2, 3, 4, 5, 0⟩
      policyDigest := "policy" }
    [sessionRecord (.named "first") firstTenant 5,
     sessionRecord (.named "second") (.named "tenant") 6]
  fxPolicy := ⟨"1", "USD", 6, "half_even", []⟩

def redeliveredKey : LogicalKey :=
  ⟨⟨.named "tenant", .named "app"⟩, .sdkAndroid,
   .named "event"⟩

/-- **A lost event.**  A first delivery under a foreign client scope is
rejected, and the good delivery behind it is accepted as its duplicate: no
delivery of the key is unique. -/
theorem scopeMismatch_not_idempotent :
    ∃ out, evaluate (redeliveredSession ⟨"other", by decide⟩) = .ok out ∧
      ¬ IsIdempotentAt (redeliveredSession ⟨"other", by decide⟩) out redeliveredKey :=
  not_idempotent_of_losesEvent (by decide +kernel)

/-- With both deliveries under the authenticated scope the law holds: the
second is a duplicate of the first, which is the canonical record. -/
theorem redelivered_idempotent :
    ∃ out, evaluate (redeliveredSession ⟨"tenant", by decide⟩) = .ok out ∧
      (IsIdempotentAt (redeliveredSession ⟨"tenant", by decide⟩) out redeliveredKey ↔
        FirstPasses (redeliveredSession ⟨"tenant", by decide⟩) redeliveredKey) := by
  have hok : (evaluate (redeliveredSession ⟨"tenant", by decide⟩)).isOk = true := by
    decide +kernel
  cases hout : evaluate (redeliveredSession ⟨"tenant", by decide⟩) with
  | error e => rw [hout] at hok; cases hok
  | ok out => exact ⟨out, rfl, isIdempotentAt_iff _ out hout redeliveredKey⟩

end Runs

end OpenMasu
