import OpenMasu.RuntimeIngestion

/-!
# The SDK worker

Batches of SDK records wait in an inbox.  A pass reads the inbox of a tenant,
decodes what it can still read, derives the withdrawals in force, and hands
the pending records to the runtime ingestion, with the processed ones as
history.

* `InboxRow`, `SdkWorld` — a batch and the worker's state;
* `recordsFor`, `withdrawalsFor` — what a pass reads of a batch, and the
  withdrawals it derives;
* `SdkWorld.receive`, `processSdkInbox` — the steps of the worker.
-/

namespace OpenMasu

inductive BatchStatus where
  | pending
  | processed
  | failed
  deriving DecidableEq

/-- A batch of the inbox, with the records its encrypted body was written
from. -/
structure InboxRow where
  ingestBatchId : Identifier
  tenantId : Identifier
  appId : Identifier
  producer : Producer
  receivedAt : Timestamp
  status : BatchStatus
  installationKeyId : Option Identifier
  inboxSeq : Nat
  body : List Record

/-- Where the referrer, AdServices and integrity tokens of a record go.  It
fails on a token out of place; otherwise it only rewrites the members these
tokens travel in. -/
structure Preparation where
  run : InboxRow → Record → Option Record
  keeps : ∀ row r r', run row r = some r' → ∃ status context other,
    r' = { r with payload := { r.payload with
      metaReferrerStatus := status, metaReferrerContext := context, other := other } }

/-- What a pass of the worker meets: the bodies it can still read, its
deployment switches, and the control tables of each scope. -/
structure SdkPass where
  readable : InboxRow → Bool
  prepare : Preparation
  fraudEnabled : Bool
  fraudActionsEnabled : Bool
  context : Scope → CallContext
  crashes : Bool

/-- The largest integer a number holds exactly. -/
def maxSafeInteger : Nat := 9007199254740991

/-- `authoritativeSequence`: the place of a record among all records of all
batches. -/
def authoritativeSequence (inboxSeq index : Nat) : Nat := inboxSeq * 1000 + index

/-- One record of a batch, prepared and placed; none when it does not belong
to the batch or its place is out of range. -/
def preparedRecord (prepare : Preparation) (row : InboxRow) (r : Record) (index : Nat) :
    Option Record := do
  let record ← prepare.run row r
  if record.tenantId ≠ row.tenantId ∨ record.appId ≠ row.appId ∨ record.producer ≠ row.producer then
    none
  else if authoritativeSequence row.inboxSeq index > maxSafeInteger then none
  else return { record with processingSequence := authoritativeSequence row.inboxSeq index }

/-- `recordsFor`: the records of a batch; none when the body cannot be read,
is empty or holds a record that does not belong to it. -/
def recordsFor (pass : SdkPass) (row : InboxRow) : Option (List Record) :=
  if !pass.readable row || row.body.isEmpty then none
  else (row.body.zipIdx).mapM (fun e => preparedRecord pass.prepare row e.1 e.2)

/-- The record withdraws or denies consent. -/
def isWithdrawal (r : Record) : Bool :=
  r.eventName = .consentChanged &&
    (r.payload.consentState = some .withdrawn || r.payload.consentState = some .denied)

/-- The purposes a withdrawal covers. -/
def withdrawablePurposes : List ProcessingPurpose := [.attribution, .analytics, .revenueMeasurement]

/-- The withdrawals a record makes, recognized when its batch was received. -/
def withdrawalEntries (row : InboxRow) (r : Record) : List Withdrawal :=
  withdrawablePurposes.map (fun p => ⟨p, row.receivedAt, r.processingSequence⟩)

/-- The withdrawals of a decoded batch, under its installation. -/
def batchWithdrawals (entry : InboxRow × List Record) : List (Identifier × List Withdrawal) :=
  entry.1.installationKeyId.elim [] (fun key =>
    (entry.2.filter isWithdrawal).map (fun r => (key, withdrawalEntries entry.1 r)))

/-- `withdrawalsFor`: one slot an installation, overwritten by every later
withdrawal. -/
def withdrawalsFor (decoded : List (InboxRow × List Record)) :
    InsertionMap Identifier (List Withdrawal) :=
  .ofList (decoded.flatMap batchWithdrawals)

/-- The batch comes from an Apple postback endpoint. -/
def isAggregatePostback (row : InboxRow) : Bool :=
  row.producer.text = "postback:skadnetwork" || row.producer.text = "postback:adattributionkit"

/-- `serverContext`. -/
def sdkServerContext (pass : SdkPass) (row : InboxRow) (r : Record)
    (withdrawals : List Withdrawal) : ServerContext where
  tenantId := row.tenantId
  appId := row.appId
  receivedAt := row.receivedAt
  policyDigest := "sdk-runtime-policy-v0.3"
  processingPurposes := [{
    processingPurposeId := r.processingPurposeId.getD .analytics
    consentRequired :=
      !isAggregatePostback row && r.processingPurposeId ≠ some .fraudPrevention
    policyVersion := "sdk-runtime-consent-v0.3" }]
  withdrawals := withdrawals
  fraudEnabled := some pass.fraudEnabled
  fraudActionsEnabled := some (pass.fraudEnabled && pass.fraudActionsEnabled)

/-- The inbox, in the order of its sequence numbers, and the ledger. -/
structure SdkWorld where
  inbox : List InboxRow := []
  ledger : Ledger := {}

/-- The order a pass reads the inbox in. -/
def inboxOrder (row : InboxRow) : List Nat := codeUnits row.receivedAt.text ++ [row.inboxSeq]

/-- The batches a pass reads. -/
def inboxRows (w : SdkWorld) (tenantId : Identifier) : List InboxRow :=
  KeyedSort.sortOn inboxOrder
    (w.inbox.filter (fun row => row.tenantId = tenantId && row.status ≠ .failed))

/-- The batches a pass can decode, with their records. -/
def decodedBatches (w : SdkWorld) (tenantId : Identifier) (pass : SdkPass) :
    List (InboxRow × List Record) :=
  (inboxRows w tenantId).filterMap (fun row => (recordsFor pass row).map (fun rs => (row, rs)))

/-- The withdrawals a pass finds for the installation of a batch. -/
def withdrawalsOfRow (withdrawals : InsertionMap Identifier (List Withdrawal)) (row : InboxRow) :
    List Withdrawal :=
  row.installationKeyId.elim [] (fun key => (withdrawals.get key).getD [])

/-- The attempts of a decoded batch. -/
def batchAttempts (pass : SdkPass) (withdrawals : InsertionMap Identifier (List Withdrawal))
    (entry : InboxRow × List Record) : List Attempt :=
  entry.2.map (fun r =>
    ⟨sdkServerContext pass entry.1 r (withdrawalsOfRow withdrawals entry.1), r,
      entry.1.ingestBatchId⟩)

/-- The attempts of the decoded batches with a status. -/
def attemptsWithStatus (status : BatchStatus) (w : SdkWorld) (tenantId : Identifier)
    (pass : SdkPass) : List Attempt :=
  let decoded := decodedBatches w tenantId pass
  (decoded.filter (fun entry => entry.1.status = status)).flatMap
    (batchAttempts pass (withdrawalsFor decoded))

/-- `appendState`: the new status of the batches that have one. -/
def appendStates (inbox : List InboxRow) (state : InboxRow → Option BatchStatus) :
    List InboxRow :=
  inbox.map (fun row => { row with status := (state row).getD row.status })

/-- The attribution that supersedes an earlier verdict. -/
def lateAttribution [Digest] (t : Attribution) : Attribution :=
  { t with
    attributionId := t.attributionId ++ ":late-" ++
      String.ofList ((sha256 (toJson t.evidenceRefs)).toList.take 12)
    finality := .superseded
    supersedesAttributionId := some t.attributionId }

/-- `persistLateAttribution`: a referrer verdict that arrives behind another
verdict supersedes it. -/
def persistLateAttribution [Digest] (l : Ledger) (t : Attribution) : Ledger :=
  match l.attributions.find? (fun prior =>
      prior.attributionId = t.attributionId && prior.scope = t.scope) with
  | none => l
  | some prior =>
      if prior.reasonCode = t.reasonCode ∨ t.reasonCode ≠ .validInstallReferrer then l
      else (l.write (.attribution (lateAttribution t))).getD l

/-- A sealed batch as it reaches the inbox; sequence numbers grow, with
gaps. -/
structure SealedBatch where
  ingestBatchId : Identifier
  tenantId : Identifier
  appId : Identifier
  producer : Producer
  receivedAt : Timestamp
  installationKeyId : Option Identifier
  gap : Nat
  records : List Record

/-- The next sequence number of the inbox. -/
def nextInboxSeq (inbox : List InboxRow) : Nat :=
  (inbox.getLast?).elim 1 (fun row => row.inboxSeq + 1)

/-- The inbox row of a sealed batch. -/
def SealedBatch.row (batch : SealedBatch) (inboxSeq : Nat) : InboxRow where
  ingestBatchId := batch.ingestBatchId
  tenantId := batch.tenantId
  appId := batch.appId
  producer := batch.producer
  receivedAt := batch.receivedAt
  status := .pending
  installationKeyId := batch.installationKeyId
  inboxSeq := inboxSeq
  body := batch.records

/-- `appendDurableBatch`: a batch of one to a hundred records, under a batch
id of its own. -/
def SdkWorld.receive (w : SdkWorld) (batch : SealedBatch) : SdkWorld :=
  if batch.records.length < 1 ∨ 100 < batch.records.length ∨
      batch.ingestBatchId ∈ w.inbox.map (·.ingestBatchId) then w
  else { w with inbox := w.inbox ++ [batch.row (nextInboxSeq w.inbox + batch.gap)] }

variable [Digest] [PayloadSchemas]

/-- `processSdkInbox`: one pass over the inbox of a tenant.  A crash leaves
the pending batches pending. -/
def processSdkInbox (w : SdkWorld) (tenantId : Identifier) (pass : SdkPass) : SdkWorld :=
  let decoded := decodedBatches w tenantId pass
  let readIds := (inboxRows w tenantId).map (·.ingestBatchId)
  let decodedIds := decoded.map (·.1.ingestBatchId)
  -- pending batches that cannot be decoded fail at once
  let inbox := appendStates w.inbox (fun row =>
    if row.status = .pending ∧ row.ingestBatchId ∈ readIds ∧ row.ingestBatchId ∉ decodedIds then
      some .failed
    else none)
  let pending := attemptsWithStatus .pending w tenantId pass
  if pending.isEmpty then { w with inbox := inbox }
  else
    let result := ingestRuntimeBatch w.ledger pass.context pending
      (attemptsWithStatus .processed w tenantId pass) false
    let final : BatchStatus := if result.completed then .processed else .failed
    { inbox := if pass.crashes then inbox else appendStates inbox (fun row =>
        if row.status = .pending ∧ row.ingestBatchId ∈ decodedIds then some final else none)
      ledger := if result.completed then
          result.attributions.foldl persistLateAttribution result.ledger
        else result.ledger }

/-- A step of the worker. -/
inductive SdkEvent where
  | receive (batch : SealedBatch)
  | pass (tenantId : Identifier) (environment : SdkPass)

def SdkWorld.step (w : SdkWorld) : SdkEvent → SdkWorld
  | .receive batch => w.receive batch
  | .pass tenantId environment => processSdkInbox w tenantId environment

end OpenMasu
