import OpenMasu.AndroidInstall
import OpenMasu.DurableTasks
import OpenMasu.KeyedSort
import OpenMasu.SdkDevice

/-!
# The SDK of Android

The SDK keeps its state in preferences that are committed one by one and its
events in a queue; its methods submit tasks to a single executor.  Reset and
the first start write several preferences and events in sequence.

* `Store` — preferences and queue, with the history of what was inserted;
* `enqueueJson`, `drain`, `initialize`, `updateConsent`,
  `resetInstallationId`, … — the tasks;
* `device` — the calls and what else changes the store.
-/

namespace OpenMasu.Android

open DurableTasks (Interface Program Device)

section Events

/-- The payloads of `EventFactory`. -/
inductive Payload where
  | install (installationId : InstallationId) (sdkVersion : String) (play : PlayReferrerEvidence)
      (evidence : MetaReferrerEvidence) (origin : String)
  | custom (installationId : InstallationId) (eventKey : String) (attributes : List (String × Json))
  | session (installationId : InstallationId) (sessionId : Nat)
  | directOpen (installationId : InstallationId) (link : DirectDeepLink)
  | deferredOpen (installationId : InstallationId) (link : OpenMasuDeepLink)
  | consent (state : ConsentState) (effectiveAtMs : Nat) (policyVersion : String)
  | adRevenue (installationId : Option InstallationId) (members : List (String × Json))

/-- The `installation_id` of a payload. -/
def Payload.installationId : Payload → Option InstallationId
  | install id _ _ _ _ => some id
  | custom id _ _ => some id
  | session id _ => some id
  | directOpen id _ => some id
  | deferredOpen id _ => some id
  | consent _ _ _ => none
  | adRevenue id _ => id

def Payload.isInstall : Payload → Bool
  | install _ _ _ _ _ => true
  | _ => false

/-- An opening with `open_source` `android_deferred_referrer`. -/
def Payload.isDeferredOpen : Payload → Bool
  | deferredOpen _ _ => true
  | _ => false

structure QueuedEvent where
  eventId : EventId
  eventName : String
  processingPurposeId : String
  payload : Payload
  occurredAtMs : Nat
  processingSequence : Nat
  createdAtEpochMs : Nat

end Events

section Storage

/-- `OpenMasuStorage` and the queue; whether `initialize` was called; and the
ids drawn and handed out, the ids made by a reset and the events inserted so
far. -/
structure Store where
  installationId : Option InstallationId
  collectionEnabled : Option Bool
  referrerConsumed : Bool
  deferredDestinationConsumed : Bool
  processingSequence : Nat
  credential : Option InstallationCredential
  queue : List QueuedEvent
  initialized : Bool
  drawn : Nat
  measured : List InstallationId
  resetIds : List InstallationId
  inserted : List QueuedEvent

/-- A device on which the SDK has never run. -/
def Store.fresh : Store where
  installationId := none
  collectionEnabled := none
  referrerConsumed := false
  deferredDestinationConsumed := false
  processingSequence := 0
  credential := none
  queue := []
  initialized := false
  drawn := 0
  measured := []
  resetIds := []
  inserted := []

/-- One commit of the preferences, or one transaction of the queue. -/
inductive Write where
  | setInstallationId (id : InstallationId)
  | replaceInstallationId (id : InstallationId)
  | markReferrerConsumed
  | markDeferredDestinationConsumed
  | setSequence (n : Nat)
  | setCredential (c : InstallationCredential)
  | clearAfterDeletion
  | insert (purged : List String) (e : QueuedEvent)
  | deleteByIds (ids : List EventId)
  | deleteAll

/-- The rows of the queue besides those of some purposes. -/
def deleteByPurposes (purposes : List String) (queue : List QueuedEvent) : List QueuedEvent :=
  queue.filter fun e => !purposes.contains e.processingPurposeId

/-- `@Insert(onConflict = IGNORE)`, after rows were purged in the same
transaction. -/
def Store.insert (s : Store) (purged : List String) (e : QueuedEvent) : Store :=
  let queue := deleteByPurposes purged s.queue
  if queue.any (fun row => row.eventId = e.eventId) then { s with queue := queue }
  else { s with queue := queue ++ [e], inserted := s.inserted ++ [e] }

def Write.apply (s : Store) : Write → Store
  | setInstallationId id => { s with installationId := some id }
  | replaceInstallationId id =>
      { s with installationId := some id, resetIds := id :: s.resetIds }
  | markReferrerConsumed => { s with referrerConsumed := true }
  | markDeferredDestinationConsumed => { s with deferredDestinationConsumed := true }
  | setSequence n => { s with processingSequence := n }
  | setCredential c => { s with credential := some c }
  | clearAfterDeletion => { s with credential := none, processingSequence := 0 }
  | insert purged e => s.insert purged e
  | deleteByIds ids => { s with queue := s.queue.filter fun e => !ids.contains e.eventId }
  | deleteAll => { s with queue := [] }

end Storage

section Interfaces

inductive Op where
  | look
  | drawUuid
  | write (w : Write)

def Op.Result : Op → Type
  | look => Store
  | drawUuid => Nat
  | write _ => Unit

def Op.exec : (o : Op) → Store → o.Result × Store
  | look, s => (s, s)
  | drawUuid, s => (s.drawn, { s with drawn := s.drawn + 1 })
  | write w, s => ((), w.apply s)

/-- The readers of referrers, the clock and the transport. -/
inductive Query where
  | readPlay
  | readMeta
  | now
  | enroll (id : InstallationId)
  | deliver (credential : InstallationCredential) (batch : List QueuedEvent)
  | deleteInstallation (credential : InstallationCredential) (id : InstallationId)

/-- What comes back; nothing when the transport throws. -/
def Query.Answer : Query → Type
  | readPlay => PlayReferrerEvidence
  | readMeta => MetaReferrerEvidence
  | now => Nat
  | enroll _ => Option InstallationCredential
  | deliver _ _ => Option Bool
  | deleteInstallation _ _ => Option Bool

def sdkInterface : Interface Store where
  Op := Op
  Result := Op.Result
  exec := Op.exec
  Query := Query
  Answer := Query.Answer

abbrev SdkTask (α : Type) : Type := Program sdkInterface α

def look : SdkTask Store := Program.op (I := sdkInterface) .look

def drawUuid : SdkTask Nat := Program.op (I := sdkInterface) .drawUuid

def write (w : Write) : SdkTask Unit := Program.op (I := sdkInterface) (.write w)

def readPlay : SdkTask PlayReferrerEvidence := Program.query (I := sdkInterface) .readPlay

def readMeta : SdkTask MetaReferrerEvidence := Program.query (I := sdkInterface) .readMeta

def currentTimeMillis : SdkTask Nat := Program.query (I := sdkInterface) .now

def enroll (id : InstallationId) : SdkTask (Option InstallationCredential) :=
  Program.query (I := sdkInterface) (.enroll id)

def deliver (c : InstallationCredential) (batch : List QueuedEvent) : SdkTask (Option Bool) :=
  Program.query (I := sdkInterface) (.deliver c batch)

def deleteInstallation (c : InstallationCredential) (id : InstallationId) : SdkTask (Option Bool) :=
  Program.query (I := sdkInterface) (.deleteInstallation c id)

end Interfaces

/-- `OpenMasuConfiguration`, the default of the manifest, and the bytes of the
ids of events. -/
structure Configuration where
  sdkVersion : String
  wrapperVersion : Option String
  deferredDeepLinkTtlSeconds : Int
  defaultCollectionEnabled : Bool
  idBytes : EventId → List Nat

variable (configuration : Configuration)

section Tasks

def Store.isCollectionEnabled (s : Store) : Bool :=
  s.collectionEnabled.getD configuration.defaultCollectionEnabled

/-- `OpenMasuStorage.installationId`. -/
def installationId : SdkTask InstallationId := do
  match (← look).installationId with
  | some id => return id
  | none =>
      let uuid ← drawUuid
      write (.setInstallationId ⟨uuid⟩)
      return ⟨uuid⟩

/-- `OpenMasuStorage.replaceInstallationId`. -/
def replaceInstallationId : SdkTask InstallationId := do
  let uuid ← drawUuid
  write (.replaceInstallationId ⟨uuid⟩)
  return ⟨uuid⟩

/-- `OpenMasuStorage.nextSequence`. -/
def nextSequence : SdkTask Nat := do
  let s ← look
  write (.setSequence (s.processingSequence + 1))
  return s.processingSequence + 1

/-- The id of an event. -/
def newEventId : Option EventId → SdkTask EventId
  | some id => return id
  | none => return .drawn (← drawUuid)

/-- The row that `enqueueJson` inserts. -/
def queuedEvent (eventName purpose : String) (payload : Payload) (eventId : Option EventId) :
    SdkTask QueuedEvent := do
  let now ← currentTimeMillis
  let id ← newEventId eventId
  let sequence ← nextSequence
  let created ← currentTimeMillis
  return ⟨id, eventName, purpose, payload, now, sequence, created⟩

def enqueueJson (eventName purpose : String) (payload : Payload) (eventId : Option EventId) :
    SdkTask Unit := do
  let s ← look
  Program.onlyIf (s.isCollectionEnabled configuration || eventName == "consent_changed") do
    let e ← queuedEvent eventName purpose payload eventId
    write (.insert [] e)

/-- `ensureCredential`; none when the transport throws. -/
def ensureCredential (id : InstallationId) : SdkTask (Option InstallationCredential) := do
  let s ← look
  match s.credential with
  | some c => return some c
  | none =>
      let enrolled ← enroll id
      match enrolled with
      | some c =>
          write (.setCredential c)
          return some c
      | none => return none

/-- `QueueDao.pending`. -/
def pending (limit : Nat) (queue : List QueuedEvent) : List QueuedEvent :=
  (KeyedSort.sortOn
    (fun e : QueuedEvent => e.processingSequence :: configuration.idBytes e.eventId) queue).take limit

/-- The batch of `drain`. -/
def deliverPending (credential : InstallationCredential) : SdkTask Bool := do
  let s ← look
  let batch := pending configuration 100 s.queue
  if batch.isEmpty then
    return true
  else
    let delivered ← deliver credential batch
    if delivered = some true then
      write (.deleteByIds (batch.map QueuedEvent.eventId))
      return true
    else
      return false

/-- `storage.credential() ?: ensureCredential(storage.installationId())` -/
def drainCredential : SdkTask (Option InstallationCredential) := do
  let s ← look
  match s.credential with
  | some c => return some c
  | none => ensureCredential (← installationId)

def drain : SdkTask Bool := do
  let s ← look
  if s.isCollectionEnabled configuration then
    let credential ← drainCredential
    match credential with
    | some c => deliverPending configuration c
    | none => return false
  else
    return false

/-- An event, and a drain. -/
def enqueueAndDrain (eventName purpose : String) (payload : Payload) (eventId : Option EventId) :
    SdkTask Unit := do
  enqueueJson configuration eventName purpose payload eventId
  let _ ← drain configuration
  return ()

/-- The version an install names. -/
def Configuration.installVersion : String :=
  configuration.wrapperVersion.getD configuration.sdkVersion

/-- The opening of a deferred deep link, if the referrer brings one. -/
def recordDeferred (id : InstallationId) : Option OpenMasuDeepLink → SdkTask Unit
  | none => return ()
  | some deferred => do
      let s ← look
      Program.onlyIf (!s.deferredDestinationConsumed) do
        enqueueJson configuration "deep_link_open" "attribution" (.deferredOpen id deferred) none
        write .markDeferredDestinationConsumed

/-- The install, once the referrers are read. -/
def recordFirstLaunch (id : InstallationId) (play : PlayReferrerEvidence)
    (evidence : MetaReferrerEvidence) : SdkTask Unit := do
  enqueueJson configuration "install" "attribution"
    (.install id configuration.installVersion play evidence "play_first_launch") none
  recordDeferred configuration id (deepLinkFromReferrer play)
  Program.onlyIf (!play.shouldRetry) (write .markReferrerConsumed)

def readReferrers (id : InstallationId) : SdkTask Unit := do
  let play ← readPlay
  let now ← currentTimeMillis
  let evidence ← readMeta
  recordFirstLaunch configuration id
    (normalizeDeferred now configuration.deferredDeepLinkTtlSeconds play) evidence

/-- What `initialize` executes. -/
def initializeSdk : SdkTask Unit := do
  let id ← installationId
  let s ← look
  Program.onlyIf (!s.referrerConsumed) (readReferrers configuration id)
  let _ ← drain configuration
  return ()

def trackCustomEvent (eventKey : String) (attributes : List (String × Json)) : SdkTask Unit := do
  let id ← installationId
  enqueueAndDrain configuration "custom_event" "analytics" (.custom id eventKey attributes) none

def startSession : SdkTask Unit := do
  let id ← installationId
  let session ← drawUuid
  enqueueAndDrain configuration "session_start" "analytics" (.session id session) none

def handleDeepLink (link : DirectDeepLink) : SdkTask Unit := do
  let id ← installationId
  enqueueAndDrain configuration "deep_link_open" "attribution" (.directOpen id link) none

def enqueueAdRevenue (id : Option InstallationId) (members : List (String × Json))
    (eventId : Option String) : SdkTask Unit :=
  enqueueAndDrain configuration "ad_revenue" "revenue_measurement" (.adRevenue id members)
    (eventId.map .supplied)

/-- The purposes that a refusal purges. -/
def purgedPurposes : ConsentState → List String
  | .withdrawn => ["attribution", "analytics", "revenue_measurement"]
  | .denied => ["attribution", "analytics", "revenue_measurement"]
  | _ => []

/-- What `updateConsent` executes; purge and event are one transaction. -/
def updateConsent (state : ConsentState) (policyVersion : String) : SdkTask Unit := do
  let effectiveAt ← currentTimeMillis
  let e ← queuedEvent "consent_changed" "fraud_prevention"
    (.consent state effectiveAt policyVersion) none
  write (.insert (purgedPurposes state) e)
  let _ ← drain configuration
  return ()

/-- The evidence of an install that a reset makes. -/
def resetPlayEvidence : PlayReferrerEvidence := withoutDetails .none .ok false

def resetMetaEvidence : MetaReferrerEvidence := ⟨.providerUnavailable, none, none, none, none⟩

/-- A reset, once the server has deleted the installation. -/
def replaceInstallation : SdkTask Unit := do
  write .deleteAll
  write .clearAfterDeletion
  let id ← replaceInstallationId
  let enrolled ← ensureCredential id
  match enrolled with
  | some _ =>
      enqueueAndDrain configuration "install" "attribution"
        (.install id configuration.installVersion resetPlayEvidence resetMetaEvidence
          "identifier_reset") none
  | none => .crash

/-- What `resetInstallationId` executes.  An exception ends the process. -/
def resetInstallationId : SdkTask Unit := do
  let id ← installationId
  let s ← look
  match s.credential with
  | none => return ()
  | some c =>
      let deleted ← deleteInstallation c id
      match deleted with
      | some true => replaceInstallation configuration
      | some false => return ()
      | none => .crash

end Tasks

section Devices

/-- The public methods that submit a task. -/
inductive Call where
  | initializeSdk
  | trackCustomEvent (eventKey : String) (attributes : List (String × Json))
  | startSession
  | handleDeepLink (link : DirectDeepLink)
  | enqueueAdRevenue (id : Option InstallationId) (members : List (String × Json))
      (eventId : Option String)
  | drain
  | updateConsent (state : ConsentState) (policyVersion : String)
  | resetInstallationId

def Call.task : Call → SdkTask Unit
  | initializeSdk => Android.initializeSdk configuration
  | trackCustomEvent key attributes => Android.trackCustomEvent configuration key attributes
  | startSession => Android.startSession configuration
  | handleDeepLink link => Android.handleDeepLink configuration link
  | enqueueAdRevenue id members eventId => Android.enqueueAdRevenue configuration id members eventId
  | drain => do
      let _ ← Android.drain configuration
      return ()
  | updateConsent state version => Android.updateConsent configuration state version
  | resetInstallationId => Android.resetInstallationId configuration

/-- What a method does on the thread of its caller, and whether it submits. -/
def Call.submit (c : Call) (s : Store) : Bool × Store :=
  match c with
  | initializeSdk =>
      if s.initialized then (false, s)
      else (s.isCollectionEnabled configuration, { s with initialized := true })
  | trackCustomEvent key attributes =>
      (isParameterName key.toList && attributes.length ≤ 20 && s.isCollectionEnabled configuration, s)
  | startSession => (s.isCollectionEnabled configuration, s)
  | handleDeepLink _ => (s.isCollectionEnabled configuration, s)
  | enqueueAdRevenue _ _ _ => (s.isCollectionEnabled configuration, s)
  | drain => (true, s)
  | updateConsent _ _ => (true, s)
  | resetInstallationId => (true, s)

/-- What other threads do. -/
inductive Outside where
  | setCollectionEnabled (enabled : Bool)
  | installationIdForMeasurement

/-- The id that is stored, or a new one. -/
def Store.installationIdForMeasurement (s : Store) : Store :=
  match s.installationId with
  | some id => { s with measured := id :: s.measured }
  | none => { s with
      installationId := some ⟨s.drawn⟩
      drawn := s.drawn + 1
      measured := ⟨s.drawn⟩ :: s.measured }

def Outside.apply (s : Store) : Outside → Store
  | setCollectionEnabled enabled => { s with collectionEnabled := some enabled }
  | installationIdForMeasurement => s.installationIdForMeasurement

/-- A device with the SDK. -/
def device : Device Store where
  toInterface := sdkInterface
  Call := Call
  submit := Call.submit configuration
  task := Call.task configuration
  Outside := Outside
  outside := fun e s => e.apply s
  restart := fun s => { s with initialized := false }

end Devices

end OpenMasu.Android
