import OpenMasu.AppendOnly
import OpenMasu.RuntimeFacts
import OpenMasu.SdkWorker

/-!
# Withdrawals over runs of the SDK worker

A record that needs consent and comes at or after a withdrawal of its
installation must never be stored as accepted.  Every pass derives the
withdrawals again from the batches it can still read, and keeps one for each
installation, so the law depends on what the passes read.

* `WithdrawalIsPermanent` — the law, for a state of the worker;
* `SeesWithdrawals` — the condition on a step;
* `withdrawal_is_permanent` — the law, for every run whose steps meet it;
* `second_withdrawal_forgets_first` — a run that breaks it.
-/

namespace OpenMasu

open AppendOnly (StepsMeet invariant_of_steps)

section Law

/-- An installation, as its credentials are issued. -/
structure Installation where
  tenantId : Identifier
  appId : Identifier
  keyId : Identifier
  deriving DecidableEq

/-- The installation a batch comes from. -/
def InboxRow.installation (row : InboxRow) : Option Installation :=
  row.installationKeyId.map (fun key => ⟨row.tenantId, row.appId, key⟩)

/-- The places at which a batch withdraws or denies consent. -/
def InboxRow.withdrawalSequences (row : InboxRow) : List Nat :=
  (row.body.zipIdx.filter (fun e => isWithdrawal e.1)).map
    (fun e => authoritativeSequence row.inboxSeq e.2)

/-- The record's purpose is one that a withdrawal covers.  Control events and
aggregate postbacks are processed without consent. -/
def needsConsent (row : InboxRow) (r : Record) : Bool :=
  r.processingPurposeId.any (· ∈ withdrawablePurposes) && !isControlEvent r &&
    !isAggregatePostback row

/-- The record comes at or after a withdrawal of its installation. -/
def FollowsWithdrawal (inbox : List InboxRow) (row : InboxRow) (r : Record) : Prop :=
  row.installation.isSome ∧ ∃ other ∈ inbox, other.installation = row.installation ∧
    ∃ s ∈ other.withdrawalSequences, s ≤ r.processingSequence

instance (inbox : List InboxRow) (row : InboxRow) (r : Record) :
    Decidable (FollowsWithdrawal inbox row r) :=
  inferInstanceAs (Decidable (_ ∧ ∃ other ∈ inbox, _ ∧ ∃ s ∈ other.withdrawalSequences, _))

/-- The record of an attempt does not follow a withdrawal, where it needs
consent. -/
def RespectsWithdrawals (inbox : List InboxRow) (a : Attempt) : Prop :=
  ∀ row ∈ inbox, row.ingestBatchId = a.batchId → needsConsent row a.record = true →
    ¬ FollowsWithdrawal inbox row a.record

/-- Nothing stored as accepted follows a withdrawal. -/
structure WithdrawalIsPermanent (w : SdkWorld) : Prop where
  deliveries : ∀ s ∈ w.ledger.deliveries, s.row.ingestionStatus = .accepted →
    RespectsWithdrawals w.inbox s.attempt
  logicalEvents : ∀ e ∈ w.ledger.logicalEvents, RespectsWithdrawals w.inbox e.attempt

end Law

section Condition

/-- The withdrawals of an installation that a pass can still read, in the
order it reads them. -/
def readableWithdrawals (decoded : List (InboxRow × List Record)) (key : Identifier) :
    List (InboxRow × Record) :=
  decoded.flatMap (fun entry =>
    if entry.1.installationKeyId = some key then (entry.2.filter isWithdrawal).map (entry.1, ·)
    else [])

/-- Whatever pending record follows a withdrawal also follows the last one
that the pass can still read. -/
def PassSeesWithdrawals (w : SdkWorld) (tenantId : Identifier) (pass : SdkPass) : Prop :=
  ∀ entry ∈ decodedBatches w tenantId pass, entry.1.status = .pending →
    ∀ r ∈ entry.2, needsConsent entry.1 r = true → FollowsWithdrawal w.inbox entry.1 r →
      entry.1.installationKeyId.any (fun key =>
        (readableWithdrawals (decodedBatches w tenantId pass) key).getLast?.any
          (fun last => last.2.processingSequence ≤ r.processingSequence)) = true

instance (w : SdkWorld) (tenantId : Identifier) (pass : SdkPass) :
    Decidable (PassSeesWithdrawals w tenantId pass) :=
  inferInstanceAs (Decidable (∀ entry ∈ decodedBatches w tenantId pass, _ → ∀ r ∈ entry.2, _))

/-- The condition on a step of the worker. -/
def SeesWithdrawals (w : SdkWorld) : SdkEvent → Prop
  | .receive _ => True
  | .pass tenantId pass => PassSeesWithdrawals w tenantId pass

end Condition

section Withdrawals

variable {decoded : List (InboxRow × List Record)} {key : Identifier}

/-- The withdrawals in force for an installation are those of the last
withdrawal read. -/
theorem get_withdrawalsFor {last : InboxRow × Record}
    (h : (readableWithdrawals decoded key).getLast? = some last) :
    (withdrawalsFor decoded).get key = some (withdrawalEntries last.1 last.2) := by
  have hfilter : (decoded.flatMap batchWithdrawals).filter (fun e => e.1 = key)
      = (readableWithdrawals decoded key).map (fun p => (key, withdrawalEntries p.1 p.2)) := by
    rw [readableWithdrawals, List.filter_flatMap, List.map_flatMap]
    congr 1
    funext entry
    cases hkey : entry.1.installationKeyId with
    | none => simp [batchWithdrawals, hkey]
    | some k =>
        by_cases hk : k = key
        · simp [batchWithdrawals, hkey, hk, List.filter_map, Function.comp_def]
        · simp [batchWithdrawals, hkey, hk, List.filter_map, Function.comp_def]
  rw [withdrawalsFor, InsertionMap.get_ofList_eq_getLast?, hfilter, List.getLast?_map, h]
  rfl

end Withdrawals

section Attempts

variable {w : SdkWorld} {tenantId : Identifier} {pass : SdkPass}

/-- A decoded batch is in the inbox. -/
theorem mem_inbox_of_decoded {entry : InboxRow × List Record}
    (h : entry ∈ decodedBatches w tenantId pass) :
    entry.1 ∈ w.inbox ∧ recordsFor pass entry.1 = some entry.2 := by
  obtain ⟨row, hrow, hentry⟩ := List.mem_filterMap.mp h
  obtain ⟨records, hrecords, rfl⟩ := Option.map_eq_some_iff.mp hentry
  exact ⟨(List.mem_filter.mp ((KeyedSort.mem_sortOn _).mp hrow)).1, hrecords⟩

/-- A record of a batch has a place of the batch. -/
theorem sequence_of_recordsFor {row : InboxRow} {records : List Record}
    (h : recordsFor pass row = some records) {r : Record} (hr : r ∈ records) :
    ∃ i < row.body.length, r.processingSequence = authoritativeSequence row.inboxSeq i := by
  unfold recordsFor at h
  split at h
  · cases h
  · obtain ⟨⟨source, i⟩, he, hprepared⟩ := PartialList.exists_of_mem_mapM h hr
    obtain ⟨-, hlt, -⟩ := List.mem_zipIdx he
    refine ⟨i, by omega, ?_⟩
    obtain ⟨record, -, h⟩ := Option.bind_eq_some_iff.mp hprepared
    split at h
    · cases h
    · split at h
      · cases h
      · cases h
        rfl

/-- A pending attempt is a record of a decoded pending batch. -/
theorem mem_attemptsWithStatus {status : BatchStatus} {a : Attempt}
    (h : a ∈ attemptsWithStatus status w tenantId pass) :
    ∃ entry ∈ decodedBatches w tenantId pass, entry.1.status = status ∧ ∃ r ∈ entry.2,
      a = ⟨sdkServerContext pass entry.1 r (withdrawalsOfRow
        (withdrawalsFor (decodedBatches w tenantId pass)) entry.1), r, entry.1.ingestBatchId⟩ := by
  obtain ⟨entry, hentry, ha⟩ := List.mem_flatMap.mp h
  obtain ⟨hdecoded, hstatus⟩ := List.mem_filter.mp hentry
  obtain ⟨r, hr, rfl⟩ := List.mem_map.mp ha
  exact ⟨entry, hdecoded, of_decide_eq_true hstatus, r, hr, rfl⟩

/-- A record that needs consent is turned away at or after the withdrawal in
force for its installation. -/
theorem not_consentAllows_of_withdrawal {row last : InboxRow} {r withdrawal : Record}
    (hneeds : needsConsent row r = true)
    (hseq : withdrawal.processingSequence ≤ r.processingSequence) (batchId : Identifier) :
    consentAllows ⟨sdkServerContext pass row r (withdrawalEntries last withdrawal), r, batchId⟩
      = false := by
  simp only [needsConsent, Bool.and_eq_true, Bool.not_eq_true'] at hneeds
  obtain ⟨⟨hpurpose, hcontrol⟩, haggregate⟩ := hneeds
  cases hp : r.processingPurposeId with
  | none => rw [hp] at hpurpose; cases hpurpose
  | some purpose =>
      have hcovered : purpose ∈ withdrawablePurposes := by simpa [hp] using hpurpose
      have hrequired : consentRequired ⟨sdkServerContext pass row r
          (withdrawalEntries last withdrawal), r, batchId⟩ = true := by
        have hne : purpose ≠ .fraudPrevention := by
          rintro rfl
          simp [withdrawablePurposes] at hcovered
        simp [consentRequired, purposePolicy, sdkServerContext, hp, hcontrol, haggregate, hne]
      have hafter : beforeWithdrawal ⟨sdkServerContext pass row r
          (withdrawalEntries last withdrawal), r, batchId⟩ = false := by
        have hfind : withdrawalOf ⟨sdkServerContext pass row r
            (withdrawalEntries last withdrawal), r, batchId⟩
            = some ⟨purpose, last.receivedAt, withdrawal.processingSequence⟩ := by
          simp only [withdrawalOf, sdkServerContext, withdrawalEntries, hp]
          cases purpose with
          | attribution => rfl
          | analytics => rfl
          | revenueMeasurement => rfl
          | fraudPrevention => simp [withdrawablePurposes] at hcovered
        simp [beforeWithdrawal, hfind, hseq]
      have hbases : (sdkServerContext pass row r
          (withdrawalEntries last withdrawal)).alternativeLegalBases = [] := rfl
      simp [consentAllows, consentDecision, hrequired, hafter, hbases, PartialList.search]
      rfl

end Attempts

section Invariant

/-- The attempt has a place in a batch of the inbox, and respects the
withdrawals the inbox holds. -/
def IsPlaced (inbox : List InboxRow) (a : Attempt) : Prop :=
  ∃ row ∈ inbox, row.ingestBatchId = a.batchId ∧
    (∃ i < 100, a.record.processingSequence = authoritativeSequence row.inboxSeq i) ∧
    (needsConsent row a.record = true → ¬ FollowsWithdrawal inbox row a.record)

/-- Everything stored as accepted is placed. -/
structure LedgerIsPlaced (inbox : List InboxRow) (l : Ledger) : Prop where
  deliveries : ∀ s ∈ l.deliveries, s.row.ingestionStatus = .accepted → IsPlaced inbox s.attempt
  logicalEvents : ∀ e ∈ l.logicalEvents, IsPlaced inbox e.attempt

/-- The batches of the inbox have ids of their own, come in the order of their
sequence numbers and hold at most a hundred records. -/
structure InboxIsOrdered (inbox : List InboxRow) : Prop where
  ids : (inbox.map (·.ingestBatchId)).Nodup
  sequences : inbox.Pairwise (fun a b => a.inboxSeq < b.inboxSeq)
  bodies : ∀ row ∈ inbox, row.body.length ≤ 100

/-- What holds of the worker between its steps. -/
structure WorkerInvariant (w : SdkWorld) : Prop where
  inbox : InboxIsOrdered w.inbox
  ledger : LedgerIsPlaced w.inbox w.ledger

theorem workerInvariant_initial : WorkerInvariant {} where
  inbox := ⟨List.nodup_nil, List.Pairwise.nil, fun _ h => absurd h List.not_mem_nil⟩
  ledger := ⟨fun _ h => absurd h List.not_mem_nil, fun _ h => absurd h List.not_mem_nil⟩

/-- Batch ids are unique, so a placed attempt respects the withdrawals. -/
theorem respects_of_isPlaced {inbox : List InboxRow} (hordered : InboxIsOrdered inbox)
    {a : Attempt} (h : IsPlaced inbox a) : RespectsWithdrawals inbox a := by
  obtain ⟨row, hrow, hid, -, hplaced⟩ := h
  intro row' hrow' hid' hneeds
  obtain rfl := List.inj_on_of_nodup_map hordered.ids hrow hrow' (hid.trans hid'.symm)
  exact hplaced hneeds

end Invariant

section Receive

variable {inbox : List InboxRow}

/-- Sequence numbers of the inbox lie below the next one. -/
theorem inboxSeq_lt_next (h : InboxIsOrdered inbox) {row : InboxRow} (hrow : row ∈ inbox) :
    row.inboxSeq < nextInboxSeq inbox := by
  rcases List.eq_nil_or_concat inbox with rfl | ⟨before, last, rfl⟩
  · cases hrow
  · simp only [List.concat_eq_append] at h hrow ⊢
    have hbefore := (List.pairwise_append.mp h.sequences).2.2
    simp only [nextInboxSeq, List.getLast?_append, List.getLast?_singleton, Option.some_or,
      Option.elim_some]
    rcases List.mem_append.mp hrow with hrow | hrow
    · have := hbefore row hrow last (List.mem_singleton_self last)
      omega
    · rw [List.mem_singleton.mp hrow]
      omega

/-- The withdrawals of a new batch come after everything that was placed. -/
theorem isPlaced_append {a : Attempt} (h : IsPlaced inbox a) {row : InboxRow}
    (hnew : ∀ old ∈ inbox, old.inboxSeq < row.inboxSeq) : IsPlaced (inbox ++ [row]) a := by
  obtain ⟨home, hhome, hid, ⟨i, hi, hseq⟩, hplaced⟩ := h
  refine ⟨home, List.mem_append_left _ hhome, hid, ⟨i, hi, hseq⟩, fun hneeds hfollows => ?_⟩
  obtain ⟨hsome, other, hother, hsame, s, hs, hle⟩ := hfollows
  rcases List.mem_append.mp hother with hother | hother
  · exact hplaced hneeds ⟨hsome, other, hother, hsame, s, hs, hle⟩
  · obtain rfl := List.mem_singleton.mp hother
    obtain ⟨e, -, rfl⟩ := List.mem_map.mp hs
    have hlt := hnew home hhome
    rw [hseq] at hle
    simp only [authoritativeSequence] at hle
    omega

/-- Receiving a batch keeps the invariant. -/
theorem workerInvariant_receive {w : SdkWorld} (h : WorkerInvariant w) (batch : SealedBatch) :
    WorkerInvariant (w.receive batch) := by
  unfold SdkWorld.receive
  split
  · exact h
  · case isFalse hok =>
      have hlt : ∀ old ∈ w.inbox, old.inboxSeq
          < (batch.row (nextInboxSeq w.inbox + batch.gap)).inboxSeq := by
        intro old hold
        have := inboxSeq_lt_next h.inbox hold
        simp only [SealedBatch.row]
        omega
      simp only [not_or, not_lt] at hok
      obtain ⟨-, hlength, hid⟩ := hok
      refine ⟨⟨?_, ?_, ?_⟩, ⟨?_, ?_⟩⟩
      · rw [List.map_append]
        refine h.inbox.ids.append (List.nodup_singleton _) ?_
        intro id hid₁ hid₂
        rw [List.map_singleton, List.mem_singleton] at hid₂
        rw [hid₂] at hid₁
        exact hid hid₁
      · refine List.pairwise_append.mpr ⟨h.inbox.sequences, List.pairwise_singleton _ _, ?_⟩
        intro old hold row hrow
        rw [List.mem_singleton.mp hrow]
        exact hlt old hold
      · intro row hrow
        rcases List.mem_append.mp hrow with hrow | hrow
        · exact h.inbox.bodies row hrow
        · rw [List.mem_singleton.mp hrow]
          exact hlength
      · intro s hs hacc
        exact isPlaced_append (h.ledger.deliveries s hs hacc) hlt
      · intro e he
        exact isPlaced_append (h.ledger.logicalEvents e he) hlt

end Receive

section States

variable {inbox : List InboxRow} {state : InboxRow → Option BatchStatus}

/-- New states change nothing about the batches but their status. -/
theorem isPlaced_appendStates {a : Attempt} (h : IsPlaced inbox a) :
    IsPlaced (appendStates inbox state) a := by
  obtain ⟨row, hrow, hid, hseq, hplaced⟩ := h
  refine ⟨_, List.mem_map_of_mem hrow, hid, hseq, fun hneeds hfollows => ?_⟩
  obtain ⟨hsome, other, hother, hsame, s, hs, hle⟩ := hfollows
  obtain ⟨source, hsource, rfl⟩ := List.mem_map.mp hother
  exact hplaced hneeds ⟨hsome, source, hsource, hsame, s, hs, hle⟩

theorem inboxIsOrdered_appendStates (h : InboxIsOrdered inbox) :
    InboxIsOrdered (appendStates inbox state) where
  ids := by
    rw [appendStates, List.map_map]
    exact h.ids
  sequences := List.pairwise_map.mpr h.sequences
  bodies := by
    intro row hrow
    obtain ⟨source, hsource, rfl⟩ := List.mem_map.mp hrow
    exact h.bodies source hsource

end States

section Pass

variable {w : SdkWorld} {tenantId : Identifier} {pass : SdkPass}

/-- A pending attempt that consent lets pass is placed. -/
theorem isPlaced_of_pending (hordered : InboxIsOrdered w.inbox)
    (hsees : PassSeesWithdrawals w tenantId pass) {a : Attempt}
    (ha : a ∈ attemptsWithStatus .pending w tenantId pass) (hallows : consentAllows a = true) :
    IsPlaced w.inbox a := by
  obtain ⟨entry, hentry, hstatus, r, hr, rfl⟩ := mem_attemptsWithStatus ha
  obtain ⟨hrow, hrecords⟩ := mem_inbox_of_decoded hentry
  obtain ⟨i, hi, hseq⟩ := sequence_of_recordsFor hrecords hr
  have hbody := hordered.bodies entry.1 hrow
  refine ⟨entry.1, hrow, rfl, ⟨i, by omega, hseq⟩, fun hneeds hfollows => ?_⟩
  obtain ⟨key, hkey, hlast⟩ :=
    (Option.any_eq_true _ _).mp (hsees entry hentry hstatus r hr hneeds hfollows)
  obtain ⟨last, hlast, hle⟩ := (Option.any_eq_true _ _).mp hlast
  rw [decide_eq_true_eq] at hle
  have hinForce : withdrawalsOfRow (withdrawalsFor (decodedBatches w tenantId pass)) entry.1
      = withdrawalEntries last.1 last.2 := by
    simp [withdrawalsOfRow, hkey, get_withdrawalsFor hlast]
  rw [hinForce, not_consentAllows_of_withdrawal hneeds hle] at hallows
  cases hallows

/-- Whether an attempt is placed depends on its batch and its record. -/
theorem isPlaced_congr {inbox : List InboxRow} {a b : Attempt} (hbatch : a.batchId = b.batchId)
    (hrecord : a.record = b.record) (h : IsPlaced inbox a) : IsPlaced inbox b := by
  unfold IsPlaced at h ⊢
  rwa [hbatch, hrecord] at h

variable [Digest]

/-- A verdict that arrives late changes attributions alone. -/
theorem persistLateAttribution_rows (l : Ledger) (t : Attribution) :
    (persistLateAttribution l t).deliveries = l.deliveries ∧
      (persistLateAttribution l t).logicalEvents = l.logicalEvents := by
  unfold persistLateAttribution
  split
  · exact ⟨rfl, rfl⟩
  · split
    · exact ⟨rfl, rfl⟩
    · exact ⟨rfl, rfl⟩

theorem ledgerIsPlaced_late {inbox : List InboxRow} {l : Ledger} (h : LedgerIsPlaced inbox l)
    (verdicts : List Attribution) :
    LedgerIsPlaced inbox (verdicts.foldl persistLateAttribution l) := by
  induction verdicts generalizing l with
  | nil => exact h
  | cons t rest ih =>
      obtain ⟨hdeliveries, hevents⟩ := persistLateAttribution_rows l t
      exact ih ⟨by rw [hdeliveries]; exact h.deliveries, by rw [hevents]; exact h.logicalEvents⟩

variable [PayloadSchemas]

/-- A call keeps the ledger placed, when the attempts of its batch that consent
lets pass are. -/
theorem ledgerIsPlaced_ingest {inbox : List InboxRow} {attempts : List Attempt}
    (contexts : Scope → CallContext) (history : List Attempt)
    (hplaced : ∀ a ∈ attempts, consentAllows a = true → IsPlaced inbox a) {l : Ledger}
    (hl : LedgerIsPlaced inbox l) :
    LedgerIsPlaced inbox (ingestRuntimeBatch l contexts attempts history false).ledger := by
  refine invariant_of_ingestRuntimeBatch (LedgerIsPlaced inbox) contexts (fun scope history' _ _ l hl => ?_) hl
  have hbatch : ∀ a ∈ validAttempts (attempts.filter (fun a => a.scope = scope)), a ∈ attempts :=
    fun a ha => (List.mem_filter.mp (List.mem_filter.mp ha).1).1
  have hchecks : ∀ {a : Attempt}, passesOwnChecks (prepareAttempt l (contexts scope) a) = true →
      consentAllows a = true := by
    intro a h
    rw [← consentAllows_prepareAttempt l (contexts scope) a]
    simp only [passesOwnChecks, Bool.and_eq_true] at h
    exact h.1.1.1.1.2
  constructor
  · intro s hs hacc
    rcases delivery_of_ingestScope hs (.inl hacc) with hold | ⟨y, d, hsource, hfrom⟩
    · exact hl.deliveries s hold hacc
    · obtain ⟨hvalid, rfl⟩ := hfrom rfl
      have hstatus : d.ingestionStatus = .accepted := by
        rw [hsource.row] at hacc
        exact hacc
      exact hplaced _ (hbatch _ hvalid) (hchecks ((accepted_iff hsource.decide).mp hstatus).1)
  · intro e he
    rcases logical_of_ingestScope he with hold | ⟨x, hx, hattempt, hwin, -⟩
    · exact hl.logicalEvents e hold
    · have hmem := prepared_mem l (contexts scope) history' hx
      rw [hattempt, isWinner_iff hmem] at hwin
      rw [hattempt]
      exact isPlaced_congr (prepareAttempt_batchId ..).symm (prepareAttempt_record ..).symm
        (hplaced x (hbatch x hx) (hchecks hwin.2.1))

/-- A pass that sees the withdrawals keeps the invariant. -/
theorem workerInvariant_pass (h : WorkerInvariant w) (hsees : PassSeesWithdrawals w tenantId pass) :
    WorkerInvariant (processSdkInbox w tenantId pass) := by
  have hstates : ∀ {l : Ledger} {inbox : List InboxRow} (state : InboxRow → Option BatchStatus),
      WorkerInvariant ⟨inbox, l⟩ → WorkerInvariant ⟨appendStates inbox state, l⟩ := by
    intro l inbox state h
    exact ⟨inboxIsOrdered_appendStates h.inbox,
      fun s hs hacc => isPlaced_appendStates (h.ledger.deliveries s hs hacc),
      fun e he => isPlaced_appendStates (h.ledger.logicalEvents e he)⟩
  unfold processSdkInbox
  dsimp only
  split
  · exact hstates _ h
  · have hcall := ledgerIsPlaced_ingest pass.context
      (attemptsWithStatus .processed w tenantId pass)
      (fun a ha => isPlaced_of_pending h.inbox hsees ha) h.ledger
    have hledger : ∀ (completed : Bool) (verdicts : List Attribution) (l : Ledger),
        LedgerIsPlaced w.inbox l → WorkerInvariant ⟨w.inbox,
          if completed then verdicts.foldl persistLateAttribution l else l⟩ := by
      intro completed verdicts l hl
      cases completed with
      | true => exact ⟨h.inbox, ledgerIsPlaced_late hl verdicts⟩
      | false => exact ⟨h.inbox, hl⟩
    split
    · exact hstates _ (hledger _ _ _ hcall)
    · exact hstates _ (hstates _ (hledger _ _ _ hcall))

/-- **Withdrawal is permanent.**  In every run whose passes see the withdrawals
their pending records follow, nothing that follows a withdrawal is stored as
accepted. -/
theorem withdrawal_is_permanent {events : List SdkEvent}
    (h : StepsMeet SdkWorld.step SeesWithdrawals {} events) :
    WithdrawalIsPermanent (events.foldl SdkWorld.step {}) := by
  have hstep : ∀ w e, WorkerInvariant w → SeesWithdrawals w e → WorkerInvariant (w.step e) := by
    intro w e hw hsees
    cases e with
    | receive batch => exact workerInvariant_receive hw batch
    | pass tenantId pass => exact workerInvariant_pass hw hsees
  have hfinal := invariant_of_steps hstep h workerInvariant_initial
  exact ⟨fun s hs hacc => respects_of_isPlaced hfinal.inbox (hfinal.ledger.deliveries s hs hacc),
    fun e he => respects_of_isPlaced hfinal.inbox (hfinal.ledger.logicalEvents e he)⟩

end Pass

section Runs

attribute [local instance] checksumDigest memberSchemas

/-- A record of one installation. -/
def installationRecord (name : Identifier) (purpose : ProcessingPurpose)
    (payload : Payload) : Record where
  recordId := name
  deliveryId := name
  tenantId := .named "tenant"
  appId := .named "app"
  producer := .sdkAndroid
  producerVersion := "1.0.0"
  eventId := name
  schemaVersion := "0.4.0"
  occurredAt := ⟨2026, 1, 2, 3, 4, 0, 0⟩
  occurredAtSource := "device"
  receivedAt := ⟨2026, 1, 2, 3, 4, 5, 0⟩
  processingPurposeId := some purpose
  processingSequence := 0
  payload := payload

/-- The record of a withdrawal. -/
def withdrawalRecord (name : Identifier) : Record :=
  installationRecord name .fraudPrevention
    { eventName := .consentChanged, consentState := some .withdrawn }

/-- The record of a session. -/
def sessionOfInstallation : Record :=
  installationRecord (.named "session") .analytics
    { eventName := .sessionStart
      installationId := some (.named "installation")
      other := [("session_id", .str "session")] }

/-- A batch of the installation. -/
def installationBatch (records : List Record) : SealedBatch where
  ingestBatchId := .named "batch"
  tenantId := .named "tenant"
  appId := .named "app"
  producer := .sdkAndroid
  receivedAt := ⟨2026, 1, 2, 3, 4, 5, 0⟩
  installationKeyId := some (.named "key")
  gap := 0
  records := records

/-- A pass that reads every body, without links and fraud rules. -/
def plainPass : SdkPass where
  readable := fun _ => true
  prepare := ⟨fun _ r => some r, fun _ r r' h => by
    cases h
    exact ⟨_, _, _, rfl⟩⟩
  fraudEnabled := false
  fraudActionsEnabled := false
  context := fun _ => { activeRevision := none, trackingLink := fun _ => none, fault := none }
  crashes := false

/-- A batch is received and processed. -/
def receiveAndProcess (records : List Record) : List SdkEvent :=
  [.receive (installationBatch records), .pass (.named "tenant") plainPass]

/-- A withdrawal and a session behind it. -/
def sessionAfterWithdrawal : List Record :=
  [withdrawalRecord (.named "first"), sessionOfInstallation]

/-- One accepted row that follows a withdrawal breaks the law. -/
theorem not_permanent_of_row {w : SdkWorld}
    (h : ∃ s ∈ w.ledger.deliveries, s.row.ingestionStatus = .accepted ∧
      ∃ row ∈ w.inbox, row.ingestBatchId = s.attempt.batchId ∧
        needsConsent row s.attempt.record = true ∧
        FollowsWithdrawal w.inbox row s.attempt.record) : ¬ WithdrawalIsPermanent w := by
  obtain ⟨s, hs, hacc, row, hrow, hid, hneeds, hfollows⟩ := h
  exact fun hpermanent => hpermanent.deliveries s hs hacc row hrow hid hneeds hfollows

set_option maxRecDepth 4000 in
/-- **A forgotten withdrawal.**  Behind a withdrawal, a session and a second
withdrawal, the session is stored as accepted, since of several withdrawals of
an installation a pass sees the last alone. -/
theorem second_withdrawal_forgets_first :
    ¬ WithdrawalIsPermanent ((receiveAndProcess
      (sessionAfterWithdrawal ++ [withdrawalRecord (.named "second")])).foldl
        SdkWorld.step {}) :=
  not_permanent_of_row (by decide +kernel)

set_option maxRecDepth 4000 in
/-- With one withdrawal the pass sees what the session follows. -/
theorem one_withdrawal_is_permanent :
    WithdrawalIsPermanent ((receiveAndProcess sessionAfterWithdrawal).foldl SdkWorld.step {}) :=
  withdrawal_is_permanent ⟨trivial, by
    show PassSeesWithdrawals _ _ _
    decide +kernel, trivial⟩

end Runs

end OpenMasu
