import OpenMasu.Evaluate

/-!
# Facts about ingestion decisions

What the later developments use of the decision logic: the fields of a
decision, when it is an acceptance, and that reading a delivery's decision
back finds the decision made for it.

* `passesOwnChecks` — the checks a delivery can pass by itself;
* `accepted_iff` — a decision accepts exactly the deliveries that pass them,
  keep their record id to themselves and do not conflict;
* `decisionFor_eq` — the map returns a decision made under the same key;
* `decisionFor_of_sole` — the delivery's own one, when its record id is its
  own.
-/

namespace OpenMasu

variable [Digest]

/-- The deliveries of an input in the order of their receipt. -/
def orderedAttempts (input : EvaluatorInput) : List Attempt :=
  sortCandidateAttempts (attempts input)

open PartialList (bind_eq_ok pure_eq_ok)

/-- The delivery is the only one with its record id. -/
def isSole (all : List Attempt) (a : Attempt) : Bool :=
  (all.filter (fun c => c.record.recordId = a.record.recordId)).length ≤ 1

/-- Consent lets the record pass. -/
def consentAllows (a : Attempt) : Bool :=
  match consentDecision a with
  | .ok consent => consent.allowed
  | .error _ => false

/-- The record is not stale, and the comparison could be made. -/
def isFresh (a : Attempt) : Bool :=
  match isStale a with
  | .ok stale => !stale
  | .error _ => false

/-- The checks a delivery passes or fails by itself, whatever else was
delivered. -/
def passesOwnChecks (a : Attempt) : Bool :=
  scopeMatches a && consentAllows a && isFresh a && !isAggregateJoin a.record &&
    a.record.occurredAt.isCalendar && a.record.receivedAt.isCalendar

/-- **What a decision says.**  The fields of a decision that was reached. -/
theorem decide_eq_ok {a : Attempt} {candidates : CandidateProvider} {d : Decision}
    (h : decide a candidates = .ok d) :
    ∃ consent reason skew,
      consentDecision a = .ok consent ∧
      rejectionReason a (duplicateResolution candidates a) consent.allowed = .ok reason ∧
      clockSkewSuspected a.record = .ok skew ∧
      d = decisionRecord candidates a consent.fields reason skew := by
  simp only [decide, bind_eq_ok, pure_eq_ok] at h
  obtain ⟨_, _, consent, hconsent, reason, hreason, skew, hskew, rfl⟩ := h
  exact ⟨consent, reason, skew, hconsent, hreason, hskew, rfl⟩

/-- A decision is the one reached, or the rejection of unreadable times. -/
theorem decideOrReject_eq_ok {a : Attempt} {candidates : CandidateProvider} {d : Decision}
    (h : decideOrReject candidates a = .ok d) :
    decide a candidates = .ok d ∨
      (d = timestampInvalidDecision a ∧
        ∃ field value, decide a candidates = .error (.timestampInvalid field value)) := by
  unfold decideOrReject at h
  split at h
  · case h_1 field value hdecide =>
      cases h
      exact .inr ⟨rfl, field, value, hdecide⟩
  · exact .inl h

/-- A decision carries the ids of its delivery. -/
theorem decideOrReject_ids {a : Attempt} {candidates : CandidateProvider} {d : Decision}
    (h : decideOrReject candidates a = .ok d) :
    d.recordId = a.record.recordId ∧ d.deliveryId = a.record.deliveryId ∧
      d.tenantId = a.server.tenantId ∧ d.appId = a.server.appId := by
  rcases decideOrReject_eq_ok h with hd | ⟨rfl, _⟩
  · obtain ⟨_, _, _, _, _, _, rfl⟩ := decide_eq_ok hd
    exact ⟨rfl, rfl, rfl, rfl⟩
  · exact ⟨rfl, rfl, rfl, rfl⟩

omit [Digest] in
/-- The clocks can be compared exactly when the calendar admits both. -/
theorem clockSkewSuspected_eq_ok {r : Record} :
    (∃ skew, clockSkewSuspected r = .ok skew) ↔
      r.occurredAt.isCalendar = true ∧ r.receivedAt.isCalendar = true := by
  simp only [clockSkewSuspected, bind_eq_ok, pure_eq_ok, time_eq_ok]
  constructor
  · rintro ⟨_, _, ⟨hocc, _⟩, _, ⟨hrec, _⟩, _⟩
    exact ⟨hocc, hrec⟩
  · rintro ⟨hocc, hrec⟩
    exact ⟨_, _, ⟨hocc, rfl⟩, _, ⟨hrec, rfl⟩, rfl⟩

omit [Digest] in
/-- No check fails exactly when each of them passes. -/
theorem rejectionReason_eq_none {a : Attempt} {resolution : DuplicateResolution} {allowed : Bool} :
    rejectionReason a resolution allowed = .ok none ↔
      scopeMatches a = true ∧ resolution ≠ .recordIdCollision ∧ allowed = true ∧
      isFresh a = true ∧ isAggregateJoin a.record = false ∧ resolution ≠ .eventIdConflict := by
  unfold rejectionReason isFresh
  cases hscope : scopeMatches a with
  | false => simp
  | true =>
      by_cases hcoll : resolution = .recordIdCollision
      · simp [hcoll]
      · cases allowed with
        | false => simp [hcoll]
        | true =>
            cases hstale : isStale a with
            | error e => simp [hcoll, bind, Except.bind]
            | ok stale =>
                cases stale with
                | true => simp [hcoll, bind, Except.bind, pure, Except.pure]
                | false =>
                    cases hjoin : isAggregateJoin a.record with
                    | true => simp [hcoll, bind, Except.bind, pure, Except.pure]
                    | false =>
                        by_cases hconf : resolution = .eventIdConflict <;>
                          simp [hconf, bind, Except.bind, pure, Except.pure, hcoll]

/-- A policy check throws a message, never an unreadable timestamp. -/
theorem checkPolicies_ne_timestampInvalid {server : ServerContext} {field value : String} :
    checkPolicies server ≠ .error (.timestampInvalid field value) := by
  intro h
  simp only [checkPolicies] at h
  cases hstale : server.timestampStalePolicy with
  | none =>
      cases hinj : server.clickInjectionPolicy with
      | none => simp [hstale, hinj, checkStalePolicy, checkInjectionPolicy, bind, Except.bind] at h
      | some p =>
          simp only [hstale, hinj, checkStalePolicy, checkInjectionPolicy, bind, Except.bind] at h
          split at h <;> cases h
  | some q =>
      by_cases hq : q.policyDigest = sha256 (stalePolicyJson q)
      · cases hinj : server.clickInjectionPolicy with
        | none =>
            simp [hstale, hinj, checkStalePolicy, checkInjectionPolicy, hq, bind,
              Except.bind] at h
        | some p =>
            simp only [hstale, hinj, checkStalePolicy, checkInjectionPolicy, if_pos hq, bind,
              Except.bind] at h
            split at h <;> cases h
      · simp [hstale, checkStalePolicy, hq, bind, Except.bind] at h

/-- **Acceptance.**  A decision accepts exactly the deliveries that pass
their own checks, collide with no record id and conflict with no first
delivery. -/
theorem accepted_iff {a : Attempt} {candidates : CandidateProvider} {d : Decision}
    (h : decideOrReject candidates a = .ok d) :
    d.ingestionStatus = .accepted ↔
      passesOwnChecks a = true ∧ duplicateResolution candidates a ≠ .recordIdCollision ∧
        duplicateResolution candidates a ≠ .eventIdConflict := by
  rcases decideOrReject_eq_ok h with hd | ⟨rfl, field, value, herr⟩
  · obtain ⟨consent, reason, skew, hconsent, hreason, hskew, rfl⟩ := decide_eq_ok hd
    have hclock := clockSkewSuspected_eq_ok.mp ⟨skew, hskew⟩
    have hallows : consentAllows a = consent.allowed := by simp [consentAllows, hconsent]
    have hstatus : (decisionRecord candidates a consent.fields reason skew).ingestionStatus
        = .accepted ↔ reason = none := by
      cases reason <;> simp [decisionRecord]
    have hnone : reason = none ↔
        rejectionReason a (duplicateResolution candidates a) consent.allowed = .ok none := by
      rw [hreason]; simp
    rw [hstatus, hnone, rejectionReason_eq_none]
    simp only [passesOwnChecks, hallows, hclock.1, hclock.2, Bool.and_true, Bool.and_eq_true,
      Bool.not_eq_true']
    constructor
    · rintro ⟨hscope, hcoll, hallow, hfresh, hjoin, hconf⟩
      exact ⟨⟨⟨⟨hscope, hallow⟩, hfresh⟩, hjoin⟩, hcoll, hconf⟩
    · rintro ⟨⟨⟨⟨hscope, hallow⟩, hfresh⟩, hjoin⟩, hcoll, hconf⟩
      exact ⟨hscope, hcoll, hallow, hfresh, hjoin, hconf⟩
  · constructor
    · intro hacc; cases hacc
    · -- a delivery that passes its own checks reaches its decision
      rintro ⟨hpass, hcoll, hconf⟩
      exfalso
      simp only [passesOwnChecks, Bool.and_eq_true, Bool.not_eq_true'] at hpass
      obtain ⟨⟨⟨⟨⟨hscope, hallow⟩, hfresh⟩, hjoin⟩, hocc⟩, hrec⟩ := hpass
      obtain ⟨consent, hconsent⟩ : ∃ consent, consentDecision a = .ok consent := by
        cases hc : consentDecision a with
        | ok consent => exact ⟨consent, rfl⟩
        | error e => simp [consentAllows, hc] at hallow
      have hallowed : consent.allowed = true := by simpa [consentAllows, hconsent] using hallow
      have hreason : rejectionReason a (duplicateResolution candidates a) consent.allowed
          = .ok none :=
        rejectionReason_eq_none.mpr ⟨hscope, hcoll, hallowed, hfresh, hjoin, hconf⟩
      obtain ⟨skew, hskew⟩ := clockSkewSuspected_eq_ok.mpr ⟨hocc, hrec⟩
      cases hpol : checkPolicies a.server with
      | error e =>
          simp only [decide, hpol, bind, Except.bind] at herr
          cases herr
          exact checkPolicies_ne_timestampInvalid hpol
      | ok u =>
          simp only [decide, hpol, hconsent, hreason, hskew, bind, Except.bind, pure,
            Except.pure] at herr
          cases herr

/-- **Reading a decision back.**  The map returns, for every delivery, a
decision made for a delivery with the same key. -/
theorem decisionFor_eq {all : List Attempt} {candidates : CandidateProvider}
    {list : List Decision} (h : decisionsOf all candidates = .ok list) {a : Attempt}
    (ha : a ∈ all) :
    ∃ b ∈ all, ∃ d, attemptDecisionKey b = attemptDecisionKey a ∧
      decideOrReject candidates b = .ok d ∧ decisionFor (decisionMap all list) a = some d := by
  have hkey : attemptDecisionKey a ∈ ((all.map attemptDecisionKey).zip list).map Prod.fst := by
    rw [List.map_fst_zip (by simp [PartialList.length_traverse h])]
    exact List.mem_map_of_mem ha
  obtain ⟨d, hd⟩ := Option.isSome_iff_exists.mp ((InsertionMap.get_ofList_isSome _ _).mpr hkey)
  obtain ⟨b, hb, hbkey, hbd⟩ :=
    PartialList.exists_of_mem_zip_traverse h (InsertionMap.mem_of_get_ofList hd)
  exact ⟨b, hb, d, hbkey, hbd, hd⟩

/-- No delivery is missing its decision. -/
theorem decisionFor_isSome {all : List Attempt} {candidates : CandidateProvider}
    {list : List Decision} (h : decisionsOf all candidates = .ok list) {a : Attempt}
    (ha : a ∈ all) : (decisionFor (decisionMap all list) a).isSome := by
  obtain ⟨_, _, _, _, _, hd⟩ := decisionFor_eq h ha
  simp [hd]

omit [Digest] in
/-- Two deliveries that share a sole record id are one. -/
theorem eq_of_isSole {all : List Attempt} {a b : Attempt} (ha : a ∈ all) (hb : b ∈ all)
    (hsole : isSole all a = true) (hid : b.record.recordId = a.record.recordId) : b = a := by
  have hma : a ∈ all.filter (fun c => c.record.recordId = a.record.recordId) := by simp [ha]
  have hmb : b ∈ all.filter (fun c => c.record.recordId = a.record.recordId) := by simp [hb, hid]
  have hlen : (all.filter (fun c => c.record.recordId = a.record.recordId)).length ≤ 1 := by
    simpa [isSole] using hsole
  cases hf : all.filter (fun c => c.record.recordId = a.record.recordId) with
  | nil => rw [hf] at hma; cases hma
  | cons x rest =>
      rw [hf] at hma hmb hlen
      have hrest : rest = [] := List.eq_nil_of_length_eq_zero (by simpa using hlen)
      subst hrest
      rw [List.mem_singleton.mp hma, List.mem_singleton.mp hmb]

/-- A delivery with a record id of its own reads back its own decision. -/
theorem decisionFor_of_sole {all : List Attempt} {candidates : CandidateProvider}
    {list : List Decision} (h : decisionsOf all candidates = .ok list) {a : Attempt}
    (ha : a ∈ all) (hsole : isSole all a = true) :
    ∃ d, decideOrReject candidates a = .ok d ∧ decisionFor (decisionMap all list) a = some d := by
  obtain ⟨b, hb, d, hkey, hbd, hd⟩ := decisionFor_eq h ha
  obtain rfl := eq_of_isSole ha hb hsole (congrArg DecisionKey.recordId hkey)
  exact ⟨d, hbd, hd⟩

section Fixture

variable {all : List Attempt} {a : Attempt}

/-- The first delivery of a logical key in the order of receipt. -/
def firstOfKey (all : List Attempt) (k : LogicalKey) : Option Attempt :=
  all.find? (fun a => scopeKey a = k)

omit [Digest] in
theorem firstOf_fixture : firstOf (fixtureCandidateProvider all) a
    = (firstOfKey all (scopeKey a)).getD a := by
  simp [firstOf, fixtureCandidateProvider, firstOfKey, List.head?_filter]

omit [Digest] in
theorem mem_of_firstOfKey {k : LogicalKey} {first : Attempt}
    (h : firstOfKey all k = some first) : first ∈ all ∧ scopeKey first = k :=
  ⟨List.mem_of_find?_eq_some h, by simpa using List.find?_some h⟩

omit [Digest] in
theorem exists_firstOfKey (ha : a ∈ all) : ∃ first, firstOfKey all (scopeKey a) = some first := by
  have hsome : (firstOfKey all (scopeKey a)).isSome := by
    simp only [firstOfKey, List.find?_isSome]
    exact ⟨a, ha, by simp⟩
  exact Option.isSome_iff_exists.mp hsome

/-- The payloads of two deliveries have the same digest. -/
def samePayload (first a : Attempt) : Bool :=
  sha256 (toJson first.record.payload) = sha256 (toJson a.record.payload)

/-- A delivery collides when its record id is not its own. -/
theorem duplicateResolution_eq_collision :
    duplicateResolution (fixtureCandidateProvider all) a = .recordIdCollision ↔
      isSole all a = false := by
  have hlen : ((fixtureCandidateProvider all).byRecordId a.record.recordId).length > 1 ↔
      isSole all a = false := by
    simp [isSole, fixtureCandidateProvider]
  unfold duplicateResolution
  by_cases hcoll : isSole all a = false
  · rw [if_pos (hlen.mpr hcoll)]
    exact iff_of_true rfl hcoll
  · rw [if_neg (mt hlen.mp hcoll)]
    refine iff_of_false ?_ hcoll
    by_cases hkey : attemptDecisionKey (firstOf (fixtureCandidateProvider all) a)
        = attemptDecisionKey a
    · simp [hkey]
    · by_cases hdigest : sha256 (toJson (firstOf (fixtureCandidateProvider all) a).record.payload)
          = sha256 (toJson a.record.payload) <;> simp [hkey, hdigest]

/-- The classification of a delivery with a record id of its own. -/
theorem duplicateResolution_of_sole {first : Attempt} (ha : a ∈ all) (hsole : isSole all a = true)
    (hfirst : firstOfKey all (scopeKey a) = some first) :
    duplicateResolution (fixtureCandidateProvider all) a =
      if first.record.recordId = a.record.recordId then .unique
      else if samePayload first a then .duplicateDelivery else .eventIdConflict := by
  have hlen : ¬ ((fixtureCandidateProvider all).byRecordId a.record.recordId).length > 1 := by
    simpa [isSole, fixtureCandidateProvider] using hsole
  have hkey : attemptDecisionKey first = attemptDecisionKey a ↔
      first.record.recordId = a.record.recordId := by
    constructor
    · exact congrArg DecisionKey.recordId
    · intro hid
      rw [eq_of_isSole ha (mem_of_firstOfKey hfirst).1 hsole hid]
  have hlookup : firstOf (fixtureCandidateProvider all) a = first := by
    rw [firstOf_fixture, hfirst]; rfl
  simp only [duplicateResolution, hlookup, hkey, samePayload, decide_eq_true_eq]
  rw [if_neg hlen]

omit [Digest] in
theorem isSole_congr {b : Attempt} (h : b.record.recordId = a.record.recordId) :
    isSole all b = isSole all a := by
  simp [isSole, h]

/-- The delivery is the accepted one of its logical key: the first in the
order of receipt, with a record id of its own, and it passes its checks. -/
def isWinner (all : List Attempt) (a : Attempt) : Bool :=
  isSole all a && passesOwnChecks a &&
    (firstOfKey all (scopeKey a)).any (fun first => first.record.recordId = a.record.recordId)

omit [Digest] in
theorem isWinner_iff (ha : a ∈ all) : isWinner all a = true ↔
    isSole all a = true ∧ passesOwnChecks a = true ∧ firstOfKey all (scopeKey a) = some a := by
  obtain ⟨first, hfirst⟩ := exists_firstOfKey ha
  simp only [isWinner, hfirst, Option.any_some, Bool.and_eq_true, decide_eq_true_eq,
    Option.some.injEq, and_assoc]
  constructor
  · rintro ⟨hsole, hpass, hid⟩
    exact ⟨hsole, hpass, eq_of_isSole ha (mem_of_firstOfKey hfirst).1 hsole hid⟩
  · rintro ⟨hsole, hpass, rfl⟩
    exact ⟨hsole, hpass, rfl⟩

variable {list : List Decision}

/-- **Acceptance, read off the input.**  A delivery is accepted when its
record id is its own, it passes its checks and it has the payload of the
first delivery of its key. -/
theorem isAccepted_iff (h : decisionsOf all (fixtureCandidateProvider all) = .ok list)
    (ha : a ∈ all) {first : Attempt} (hfirst : firstOfKey all (scopeKey a) = some first) :
    isAccepted (decisionMap all list) a = true ↔
      isSole all a = true ∧ passesOwnChecks a = true ∧ samePayload first a = true := by
  cases hsole : isSole all a with
  | true =>
      obtain ⟨d, hdecide, hd⟩ := decisionFor_of_sole h ha hsole
      simp only [isAccepted, hd, Option.any_some, decide_eq_true_eq, accepted_iff hdecide,
        duplicateResolution_of_sole ha hsole hfirst, true_and]
      by_cases hid : first.record.recordId = a.record.recordId
      · have heq : first = a := eq_of_isSole ha (mem_of_firstOfKey hfirst).1 hsole hid
        simp [heq, samePayload]
      · cases hsame : samePayload first a <;> simp [hid]
  | false =>
      obtain ⟨b, _, d, hkey, hdecide, hd⟩ := decisionFor_eq h ha
      have hb : isSole all b = false := by
        rw [isSole_congr (congrArg DecisionKey.recordId hkey), hsole]
      simp [isAccepted, hd, accepted_iff hdecide, duplicateResolution_eq_collision.mpr hb]

/-- **The accepted unique deliveries, read off the input.**  A delivery is
accepted as unique exactly where it is the first accepted one of its key. -/
theorem isAcceptedUnique_eq (h : decisionsOf all (fixtureCandidateProvider all) = .ok list)
    (ha : a ∈ all) : isAcceptedUnique (decisionMap all list) a = isWinner all a := by
  obtain ⟨first, hfirst⟩ := exists_firstOfKey ha
  rw [Bool.eq_iff_iff, isWinner_iff ha, hfirst]
  cases hsole : isSole all a with
  | true =>
      obtain ⟨d, hdecide, hd⟩ := decisionFor_of_sole h ha hsole
      have hacc := accepted_iff hdecide
      rw [duplicateResolution_of_sole ha hsole hfirst] at hacc
      have hres : ∀ {r : DuplicateResolution}, d.duplicateResolution = r →
          d.ingestionStatus = .accepted → duplicateResolution (fixtureCandidateProvider all) a = r := by
        intro r hr hstatus
        rcases decideOrReject_eq_ok hdecide with hok | ⟨rfl, _⟩
        · obtain ⟨_, _, _, _, _, _, rfl⟩ := decide_eq_ok hok
          exact hr
        · cases hstatus
      rw [isAcceptedUnique, hd]
      simp only [Option.any_some, Bool.and_eq_true, decide_eq_true_eq, true_and]
      by_cases hid : first.record.recordId = a.record.recordId
      · have heq : first = a := eq_of_isSole ha (mem_of_firstOfKey hfirst).1 hsole hid
        subst heq
        rw [hacc]
        constructor
        · rintro ⟨⟨hpass, _⟩, _⟩
          exact ⟨hpass, rfl⟩
        · rintro ⟨hpass, _⟩
          have hstatus := hacc.mpr ⟨hpass, by simp, by simp⟩
          refine ⟨⟨hpass, by simp, by simp⟩, ?_⟩
          have := hres rfl hstatus
          rw [← this, duplicateResolution_of_sole ha hsole hfirst, if_pos rfl]
      · constructor
        · rintro ⟨hstatus, hunique⟩
          have := hres hunique hstatus
          rw [duplicateResolution_of_sole ha hsole hfirst, if_neg hid] at this
          split at this <;> cases this
        · rintro ⟨_, heq⟩
          cases heq
          exact absurd rfl hid
  | false =>
      obtain ⟨b, _, d, hkey, hdecide, hd⟩ := decisionFor_eq h ha
      have hb : isSole all b = false := by
        rw [isSole_congr (congrArg DecisionKey.recordId hkey), hsole]
      simp [isAcceptedUnique, hd, accepted_iff hdecide, duplicateResolution_eq_collision.mpr hb]

/-- The deliveries accepted as the first of their key are the winners. -/
theorem acceptedUnique_eq (h : decisionsOf all (fixtureCandidateProvider all) = .ok list) :
    acceptedUnique (decisionMap all list) all = all.filter (isWinner all) :=
  List.filter_congr (fun _ ha => isAcceptedUnique_eq h ha)

/-- What a decision that accepts, or names a duplicate or a conflict, rests
on. -/
abbrev Classifies (status : IngestionStatus) (resolution : DuplicateResolution) : Prop :=
  status = .accepted ∨ resolution = .duplicateDelivery ∨ resolution = .eventIdConflict

/-- **A classified delivery.**  It has a record id of its own, and its decision
names the first delivery of its key. -/
theorem classified_decision {d : Decision} {first : Attempt}
    (hdecide : decideOrReject (fixtureCandidateProvider all) a = .ok d)
    (hfirst : firstOfKey all (scopeKey a) = some first)
    (hres : Classifies d.ingestionStatus d.duplicateResolution) (ha : a ∈ all) :
    isSole all a = true ∧ d.canonicalRecordId = some first.record.recordId := by
  rcases decideOrReject_eq_ok hdecide with hok | ⟨rfl, _⟩
  · obtain ⟨consent, reason, skew, -, -, -, rfl⟩ := decide_eq_ok hok
    have hsole : isSole all a = true := by
      by_contra hsole
      have hcoll := duplicateResolution_eq_collision.mpr (Bool.not_eq_true _ ▸ hsole)
      rcases hres with hacc | hdup
      · exact ((accepted_iff hdecide).mp hacc).2.1 hcoll
      · simp [decisionRecord, hcoll] at hdup
    refine ⟨hsole, ?_⟩
    have hlookup : firstOf (fixtureCandidateProvider all) a = first := by
      rw [firstOf_fixture, hfirst]; rfl
    simp only [decisionRecord, canonicalRecordId, hlookup]
    rw [duplicateResolution_of_sole ha hsole hfirst]
    by_cases hid : first.record.recordId = a.record.recordId
    · simp [hid]
    · cases hsame : samePayload first a <;> simp [hid]
  · rcases hres with hacc | hdup | hconf
    · cases hacc
    · cases hdup
    · cases hconf

/-- **Where a row comes from.**  A row that shows an acceptance, a duplicate or
a conflict is that of a sole delivery. -/
theorem source_of_report {rows : List Delivery}
    (hlist : decisionsOf all (fixtureCandidateProvider all) = .ok list)
    (hrows : PartialList.traverse (delivery (decisionMap all list)) all = .ok rows)
    {row : Delivery} (hrow : row ∈ rows)
    (hres : Classifies row.ingestionStatus row.duplicateResolution) :
    ∃ b ∈ all, ∃ d, isSole all b = true ∧
      decideOrReject (fixtureCandidateProvider all) b = .ok d ∧
      decisionFor (decisionMap all list) b = some d ∧ row = deliveryRow b.record.receivedAt d := by
  obtain ⟨a, ha, hdelivery⟩ := PartialList.exists_of_mem_traverse hrows hrow
  obtain ⟨b, hb, d, hkey, hdecide, hd⟩ := decisionFor_eq hlist ha
  simp only [delivery, hd, Except.ok.injEq] at hdelivery
  obtain ⟨first, hfirst⟩ := exists_firstOfKey hb
  have hclass : Classifies d.ingestionStatus d.duplicateResolution := by
    rw [← hdelivery] at hres
    exact hres
  obtain ⟨hsole, -⟩ := classified_decision hdecide hfirst hclass hb
  obtain rfl := eq_of_isSole hb ha hsole (congrArg DecisionKey.recordId hkey).symm
  exact ⟨a, ha, d, hsole, hdecide, hd, hdelivery.symm⟩

end Fixture

/-- What a successful ingestion computed. -/
theorem ingest_eq_ok {input : EvaluatorInput} {factory : List Attempt → CandidateProvider}
    {i : Ingestion} (h : ingest input factory = .ok i) :
    i.all = sortCandidateAttempts (attempts input) ∧ i.candidates = factory i.all ∧
      assertScopedReferences input i.all = .ok () ∧
      decisionsOf i.all i.candidates = .ok i.decisionsList ∧
      i.decisions = decisionMap i.all i.decisionsList ∧
      assertInstallationAnchors i.decisions i.all = .ok () ∧
      i.lifecycle = privacyIndex input ∧ i.accepted = acceptedUnique i.decisions i.all := by
  simp only [ingest, bind_eq_ok, pure_eq_ok] at h
  obtain ⟨_, _, _, _, _, hrefs, list, hlist, _, hanchors, rfl⟩ := h
  exact ⟨rfl, rfl, hrefs, hlist, rfl, hanchors, rfl, rfl⟩

/-- What a successful evaluation computed. -/
theorem evaluate_eq_ok {input : EvaluatorInput} {factory : List Attempt → CandidateProvider}
    {out : EvaluationOutput} (h : evaluate input factory = .ok out) :
    ∃ i initial fraud,
      ingest input factory = .ok i ∧
      rawRecords i.decisions i.lifecycle i.all = .ok out.rawRecords ∧
      deliveries input i.decisions i.all = .ok out.deliveries ∧
      initialAttributions i.candidates i.decisions i.lifecycle i.accepted = .ok initial ∧
      fraudStage input i.accepted initial = .ok fraud ∧
      reconciliationResults input i.accepted = .ok out.reconciliation ∧
      out.logicalEvents = logicalEvents i.decisions i.lifecycle i.all ∧
      out.corrections = corrections input i.decisions i.all ∧
      out.attributions = sortAttributions (initial ++ fraud.provisional ++ fraud.excluded) ∧
      out.fraudDecisions = fraud.decisions ∧
      out.rejections = rejections input i.decisionsList := by
  simp only [evaluate, bind_eq_ok, pure_eq_ok] at h
  obtain ⟨i, hi, raws, hraws, rows, hrows, initial, hinitial, fraud, hfraud, _, _, _, _, _, _,
    rec, hrec, rfl⟩ := h
  exact ⟨i, initial, fraud, hi, hraws, hrows, hinitial, hfraud, hrec, rfl, rfl, rfl, rfl, rfl⟩

end OpenMasu
