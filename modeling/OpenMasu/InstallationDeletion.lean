import OpenMasu.InstallationFacts
import OpenMasu.PrivacyErasure

/-!
# What the deletion of an installation reaches

A request for an installation finds its records through five fact tables.  In
a ledger that ingestion built, the record of a stored logical event has such a
row exactly where the event is of one of five kinds; events of other kinds,
and deliveries that did not become the logical event, have none.  A batch goes
when all its records are found.

* `InstallationReached` — the records and batches of an installation, and no
  other records;
* `mem_affected_installation_iff` — the records a request finds;
* `installationReached_iff_projects` — the law, by the fact rows of any ledger;
* `IsCountedRecord`, `StoresCounted` — the condition, by kinds of events;
* `installationReached_iff` — the law, for a ledger that ingestion built.
-/

namespace OpenMasu

section Law

variable [Digest] (db : Database) (w : PrivacyWorld) (c : PrivacyCall)
  (installationOf : EvidenceKey → Option Identifier)

/-- **The deletion of an installation.**  Behind it every raw record whose
payload names the installation is affected and carries a purged state, no
record of another installation is affected, and no batch that came with the
key of the installation can be read. -/
structure InstallationReached : Prop where
  reached : ∀ r ∈ w.tables.ledger.rawRecords, r.evidenceKey.scope = c.body.scope →
    installationOf r.evidenceKey = some c.body.deletionSubjectRef →
      r.recordId ∈ c.affected db w.tables ∧ (w.execute db c).tables.isPurged r.evidenceKey
  alone : ∀ r ∈ w.tables.ledger.rawRecords, r.recordId ∈ c.affected db w.tables →
    ∀ installationId, installationOf r.evidenceKey = some installationId →
      installationId = c.body.deletionSubjectRef
  batches : ∀ b ∈ w.tables.batches, c.identity.installationKeyId.isSome = true →
    b.installationKeyId = c.identity.installationKeyId → isEncrypted b.bodyRef = true →
      b.bodyRef ∉ (w.execute db c).readable

omit [Digest] in
/-- The fact rows of the installation belong to its records, to all of them
and to no others; the records of its batches are among them. -/
structure ProjectsInstallation : Prop where
  all : ∀ r ∈ w.tables.ledger.rawRecords, r.evidenceKey.scope = c.body.scope →
    installationOf r.evidenceKey = some c.body.deletionSubjectRef →
      ∃ e ∈ w.tables.ledger.logicalEvents, e.event.evidenceKey = r.evidenceKey ∧
        w.tables.ledger.projectedInstallation e.event = some c.body.deletionSubjectRef
  only : ∀ e ∈ w.tables.ledger.logicalEvents, e.event.evidenceKey.scope = c.body.scope →
    w.tables.ledger.projectedInstallation e.event = some c.body.deletionSubjectRef →
      ∀ installationId, installationOf e.event.evidenceKey = some installationId →
        installationId = c.body.deletionSubjectRef
  batches : ∀ b ∈ w.tables.batches, c.identity.installationKeyId.isSome = true →
    b.installationKeyId = c.identity.installationKeyId → isEncrypted b.bodyRef = true →
      b.bodyRef ∈ w.readable → c.Erases db w.tables b.bodyRef

variable {db w c installationOf}

omit [Digest] in
/-- **The records a request finds.**  Those of a logical event of its app with
a fact row of the installation. -/
theorem mem_affected_installation_iff (hscope : c.body.deletionScope = .installation)
    {recordId : Identifier} : recordId ∈ c.affected db w.tables ↔
      ∃ e ∈ w.tables.ledger.logicalEvents, e.event.evidenceKey = ⟨c.body.scope, recordId⟩ ∧
        w.tables.ledger.projectedInstallation e.event = some c.body.deletionSubjectRef := by
  rw [PrivacyCall.affected, affectedRecordIds, Database.mem_sortTexts, if_pos hscope]
  simp only [List.mem_dedup, List.mem_map, List.mem_filter, Bool.and_eq_true, decide_eq_true_iff]
  constructor
  · rintro ⟨e, ⟨he, hevent, hprojected⟩, rfl⟩
    refine ⟨e, he, ?_, hprojected⟩
    rw [← hevent]
    rfl
  · rintro ⟨e, he, hkey, hprojected⟩
    have hevent : e.event.evidenceKey.scope = c.body.scope := congrArg EvidenceKey.scope hkey
    exact ⟨e, ⟨he, hevent, hprojected⟩, congrArg EvidenceKey.recordId hkey⟩

omit [Digest] in
/-- A stored record is affected exactly when it is that of such an event. -/
theorem affected_iff_of_raw (hconstraints : w.tables.Constraints)
    (hscope : c.body.deletionScope = .installation) {r : RawRecord}
    (hr : r ∈ w.tables.ledger.rawRecords) : r.recordId ∈ c.affected db w.tables ↔
      ∃ e ∈ w.tables.ledger.logicalEvents, e.event.evidenceKey = r.evidenceKey ∧
        r.evidenceKey.scope = c.body.scope ∧
        w.tables.ledger.projectedInstallation e.event = some c.body.deletionSubjectRef := by
  rw [mem_affected_installation_iff hscope]
  constructor
  · rintro ⟨e, he, hkey, hprojected⟩
    have hevent := hconstraints.logicalEvents e he
    rw [hkey] at hevent
    have hsame := hconstraints.scope_eq (List.mem_map_of_mem hr) hevent
    refine ⟨e, he, ?_, hsame, hprojected⟩
    rw [hkey, ← hsame]
    rfl
  · rintro ⟨e, he, hkey, hsame, hprojected⟩
    refine ⟨e, he, ?_, hprojected⟩
    rw [hkey, ← hsame]
    rfl

/-- A request reaches an installation exactly when its fact rows are those of
its records, and its batches hold no other records. -/
theorem installationReached_iff_projects (hconstraints : w.tables.Constraints)
    (hscope : c.body.deletionScope = .installation) (hcompletes : Completes db w c) :
    InstallationReached db w c installationOf ↔ ProjectsInstallation db w c installationOf := by
  obtain ⟨t', hdeletion, hrun⟩ := execute_of_completes hcompletes
  have hpurged := isPurged_recordDeletion_iff hconstraints hdeletion
  have hreadable : ∀ ref, isEncrypted ref = true →
      (ref ∈ (w.execute db c).readable ↔ ref ∈ w.readable ∧ ¬c.Erases db w.tables ref) := by
    intro ref henc
    rw [hrun, ObjectStore.mem_purgeAll, mem_erasedReferences henc]
  constructor
  · intro hlaw
    refine ⟨fun r hr hsame hnames => ?_, fun e he hsame hprojected installationId hid => ?_,
      fun b hb hdevice hkey henc hread => ?_⟩
    · obtain ⟨e, he, hevent, -, hprojected⟩ :=
        (affected_iff_of_raw hconstraints hscope hr).mp (hlaw.reached r hr hsame hnames).1
      exact ⟨e, he, hevent, hprojected⟩
    · obtain ⟨r, hr, hkey⟩ := List.mem_map.mp (hconstraints.logicalEvents e he)
      have haffected : r.recordId ∈ c.affected db w.tables :=
        (affected_iff_of_raw hconstraints hscope hr).mpr ⟨e, he, hkey.symm, hkey ▸ hsame, hprojected⟩
      exact hlaw.alone r hr haffected installationId (hkey ▸ hid)
    · by_contra hnot
      exact hlaw.batches b hb hdevice hkey henc ((hreadable _ henc).mpr ⟨hread, hnot⟩)
  · intro hprojects
    refine ⟨fun r hr hsame hnames => ?_, fun r hr haffected installationId hid => ?_,
      fun b hb hdevice hkey henc hread => ?_⟩
    · obtain ⟨e, he, hevent, hprojected⟩ := hprojects.all r hr hsame hnames
      have haffected : r.recordId ∈ c.affected db w.tables :=
        (affected_iff_of_raw hconstraints hscope hr).mpr ⟨e, he, hevent, hsame, hprojected⟩
      refine ⟨haffected, ?_⟩
      rw [hrun]
      refine (hpurged r.evidenceKey).mpr (.inr ⟨List.mem_map_of_mem hr, covers_iff.mpr ⟨?_, ?_⟩⟩)
      · rw [hsame]
        simp [PrivacyRequestBody.reads, PrivacyRequestBody.scope]
      · exact .inr haffected
    · obtain ⟨e, he, hevent, hsame, hprojected⟩ :=
        (affected_iff_of_raw hconstraints hscope hr).mp haffected
      refine hprojects.only e he (hevent ▸ hsame) hprojected installationId ?_
      rw [hevent]
      exact hid
    · obtain ⟨hread, hnot⟩ := (hreadable _ henc).mp hread
      exact hnot (hprojects.batches b hb hdevice hkey henc hread)

end Law

section Ingestion

variable [Digest] (db : Database) (w : PrivacyWorld) (c : PrivacyCall)
  (payloadOf : EvidenceKey → Payload)

omit [Digest] in
/-- The record is that of a stored logical event of a counted kind, and its
payload names the installation. -/
structure IsCountedRecord (key : EvidenceKey) : Prop where
  stored : key ∈ w.tables.ledger.logicalEvents.map (·.event.evidenceKey)
  kind : isCounted (payloadOf key).eventName = true
  names : (payloadOf key).installationId = some c.body.deletionSubjectRef

omit [Digest] in
/-- The object holds counted records of the installation alone: it is the body
of a batch of them, or their payload, or one of them refers to it as its query,
token or response. -/
def HoldsCounted (ref : String) : Prop :=
  (∃ r ∈ w.tables.ledger.rawRecords, r.rawPayloadRef = ref ∧ r.evidenceKey.scope = c.body.scope ∧
    IsCountedRecord w c payloadOf ⟨c.body.scope, r.recordId⟩ ∧
    ∀ shared ∈ w.tables.ledger.rawRecords, shared.tenantId = r.tenantId →
      shared.rawPayloadRef = ref → IsCountedRecord w c payloadOf ⟨c.body.scope, shared.recordId⟩) ∨
  (∃ b ∈ w.tables.batches, b.bodyRef = ref ∧ b.scope = c.body.scope ∧
    ((∃ m ∈ w.tables.membersOf b, m.scope = b.scope ∧
        IsCountedRecord w c payloadOf ⟨c.body.scope, m.recordId⟩) ∨
      (c.identity.installationKeyId.isSome = true ∧
        b.installationKeyId = c.identity.installationKeyId)) ∧
    ∀ m ∈ w.tables.membersOf b, IsCountedRecord w c payloadOf ⟨c.body.scope, m.recordId⟩) ∨
  ∃ key, w.tables.RefersDirectly ref key ∧ key.scope = c.body.scope ∧
    IsCountedRecord w c payloadOf ⟨c.body.scope, key.recordId⟩

omit [Digest] in
/-- **The condition.**  Every record of the installation is that of a stored
logical event of a counted kind, and every batch that came with its key holds
such records alone. -/
structure StoresCounted : Prop where
  records : ∀ r ∈ w.tables.ledger.rawRecords, r.evidenceKey.scope = c.body.scope →
    (payloadOf r.evidenceKey).installationId = some c.body.deletionSubjectRef →
      IsCountedRecord w c payloadOf r.evidenceKey
  batches : ∀ b ∈ w.tables.batches, c.identity.installationKeyId.isSome = true →
    b.installationKeyId = c.identity.installationKeyId → isEncrypted b.bodyRef = true →
      b.bodyRef ∈ w.readable → HoldsCounted w c payloadOf b.bodyRef

variable {db w c payloadOf} {kindOf : Scope → String → EventName}

omit [Digest] in
/-- A request for an installation reads its own app. -/
theorem reads_installation_iff (hscope : c.body.deletionScope = .installation) {scope : Scope} :
    c.body.reads scope = true ↔ scope = c.body.scope := by
  cases scope
  simp [PrivacyRequestBody.reads, PrivacyRequestBody.scope, hscope, Scope.mk.injEq]

omit [Digest] in
/-- **The records a request finds**, in a ledger that ingestion built: the
counted records of the installation. -/
theorem mem_affected_iff_counted (hkept : FactsKept payloadOf kindOf w.tables.ledger)
    (hscope : c.body.deletionScope = .installation) {recordId : Identifier} :
    recordId ∈ c.affected db w.tables ↔ IsCountedRecord w c payloadOf ⟨c.body.scope, recordId⟩ := by
  rw [mem_affected_installation_iff hscope]
  have hprojected : ∀ e ∈ w.tables.ledger.logicalEvents,
      (w.tables.ledger.projectedInstallation e.event = some c.body.deletionSubjectRef ↔
        isCounted (payloadOf e.event.evidenceKey).eventName = true ∧
          (payloadOf e.event.evidenceKey).installationId = some c.body.deletionSubjectRef) := by
    intro e he
    have hnamed := hkept.events e he
    have hname : e.event.eventName = (payloadOf e.event.evidenceKey).eventName := by
      rw [← hnamed.payload, hnamed.name]
      rfl
    rw [hkept.projectedInstallation he, hname]
    split
    · case isTrue hcounted => simp [hcounted]
    · case isFalse hother => simp [hother]
  constructor
  · rintro ⟨e, he, hkey, hinstallation⟩
    obtain ⟨hkind, hnames⟩ := (hprojected e he).mp hinstallation
    rw [hkey] at hkind hnames
    exact ⟨List.mem_map.mpr ⟨e, he, hkey⟩, hkind, hnames⟩
  · intro hcounted
    obtain ⟨e, he, hkey⟩ := List.mem_map.mp hcounted.stored
    refine ⟨e, he, hkey, (hprojected e he).mpr ?_⟩
    rw [hkey]
    exact ⟨hcounted.kind, hcounted.names⟩

omit [Digest] in
/-- The objects a request erases hold counted records alone. -/
theorem erases_iff_holdsCounted (hkept : FactsKept payloadOf kindOf w.tables.ledger)
    (hscope : c.body.deletionScope = .installation) {ref : String} :
    c.Erases db w.tables ref ↔ HoldsCounted w c payloadOf ref := by
  have hnarrow : c.isWide = false := by simp [PrivacyCall.isWide, hscope]
  simp only [PrivacyCall.Erases, PrivacyCall.ErasesPayload, PrivacyCall.ErasesBatch,
    PrivacyCall.ErasesQueries, HoldsCounted, covers_iff, hnarrow, reads_installation_iff hscope,
    mem_affected_iff_counted hkept hscope, Bool.false_eq_true, false_or, false_and, and_assoc]
  rfl

variable [PayloadSchemas] in
/-- **When the deletion of an installation reaches it.**  In every ledger that
calls built in which a record id stands for one payload, and the deliveries
that become the event of one id are of one kind, a request that completes
reaches the installation if and only if its records are those of stored events
of a counted kind, and its batches hold such records alone. -/
theorem installationReached_iff {calls : List RuntimeCall}
    (hledger : w.tables.ledger = calls.foldl Ledger.ingest {})
    (hcalls : ∀ call ∈ calls, CallNames payloadOf kindOf call)
    (hconstraints : w.tables.Constraints) (hscope : c.body.deletionScope = .installation)
    (hcompletes : Completes db w c) :
    InstallationReached db w c (fun key => (payloadOf key).installationId) ↔
      StoresCounted w c payloadOf := by
  have hkept : FactsKept payloadOf kindOf w.tables.ledger := hledger ▸ factsKept_of_calls hcalls
  rw [installationReached_iff_projects hconstraints hscope hcompletes]
  have hfound : ∀ key : EvidenceKey, key.scope = c.body.scope →
      (IsCountedRecord w c payloadOf key ↔ ∃ e ∈ w.tables.ledger.logicalEvents,
        e.event.evidenceKey = key ∧
          w.tables.ledger.projectedInstallation e.event = some c.body.deletionSubjectRef) := by
    intro key hkey
    have haffected : key.recordId ∈ c.affected db w.tables ↔
        IsCountedRecord w c payloadOf ⟨c.body.scope, key.recordId⟩ :=
      mem_affected_iff_counted hkept hscope
    rw [mem_affected_installation_iff hscope, ← hkey] at haffected
    exact haffected.symm
  constructor
  · intro hprojects
    refine ⟨fun r hr hsame hnames => (hfound _ hsame).mpr (hprojects.all r hr hsame hnames),
      fun b hb hdevice hkey henc hread => ?_⟩
    exact (erases_iff_holdsCounted hkept hscope).mp (hprojects.batches b hb hdevice hkey henc hread)
  · intro hstores
    refine ⟨fun r hr hsame hnames => (hfound _ hsame).mp (hstores.records r hr hsame hnames),
      fun e he hsame hprojected installationId hid => ?_, fun b hb hdevice hkey henc hread => ?_⟩
    · have hcounted := (hfound e.event.evidenceKey hsame).mpr ⟨e, he, rfl, hprojected⟩
      exact Option.some.inj (hid.symm.trans hcounted.names)
    · exact (erases_iff_holdsCounted hkept hscope).mpr
        (hstores.batches b hb hdevice hkey henc hread)

end Ingestion

section Runs

attribute [local instance] checksumDigest memberSchemas

/-- The device deletes its own installation. -/
def deviceCall : PrivacyCall where
  identity := ⟨.named "tenant", .named "app", .actor {
    actorType := .sdkInstallation
    actorRef := "installation"
    requesterAuthRef := "device"
    installationKeyId := some (.named "key") }⟩
  body := { adminRequest .installation with
    requestedVia := .onDeviceSdk
    deletionSubjectRef := .named "installation" }
  environment := quietEnvironment

/-- The ledger of one delivery. -/
def deliveredWorld (a : Attempt) : PrivacyWorld where
  tables := { ledger := ({} : Ledger).ingest (launchCall [a] []) }

/-- The installation of the deliveries. -/
def launchedInstallation (_ : EvidenceKey) : Option Identifier :=
  some (.named "installation")

/-- The ledger keeps a record of the app that the request does not affect. -/
def missesRecord (a : Attempt) : Bool :=
  (deliveredWorld a).tables.ledger.rawRecords.any (fun r =>
    r.evidenceKey.scope = deviceCall.body.scope &&
      r.recordId ∉ deviceCall.affected plainDatabase (deliveredWorld a).tables)

theorem not_reached_of_missesRecord {a : Attempt} (h : missesRecord a = true) :
    ¬InstallationReached plainDatabase (deliveredWorld a) deviceCall launchedInstallation := by
  intro hlaw
  obtain ⟨r, hr, hmissed⟩ := List.any_eq_true.mp h
  rw [Bool.and_eq_true, decide_eq_true_iff, decide_eq_true_iff] at hmissed
  exact hmissed.2 (hlaw.reached r hr hmissed.1 rfl).1

set_option maxRecDepth 4000 in
/-- **A record that is not reached.**  An opened deep link is the only record
of the installation; its deletion affects none, since the row of an open stands
in a table the request does not read. -/
theorem deepLinkOpen_not_reached :
    launchOpen.record.payload.installationId = launchedInstallation ⟨launchOpen.scope, launchOpen.record.recordId⟩ ∧
    Completes plainDatabase (deliveredWorld launchOpen) deviceCall ∧
    ¬InstallationReached plainDatabase (deliveredWorld launchOpen) deviceCall launchedInstallation :=
  ⟨rfl, completes_of_isOk (by decide +kernel), not_reached_of_missesRecord (by decide +kernel)⟩

/-- A second session of the installation, and an install of another one. -/
def launchSession : Attempt :=
  launchAttempt (.named "session") {
    eventName := .sessionStart
    installationId := some (.named "installation") }

def otherInstall : Attempt :=
  launchAttempt (.named "other") {
    eventName := .install
    installationId := some (.named "other")
    installType := some .firstInstall }

/-- An event of the other installation that bears the event id of the session.
It conflicts, and no logical event is made of it. -/
def conflictingEvent : Attempt :=
  let a := launchAttempt (.named "session-again") {
    eventName := .customEvent
    installationId := some (.named "other") }
  { a with record := { a.record with eventId := launchSession.record.eventId } }

/-- The deliveries of a call. -/
def reachedAttempts : List Attempt :=
  [launchInstall, otherInstall, launchSession, conflictingEvent]

/-- The payload of a record, and the kind of a logical event, by the first
delivery with its id. -/
def reachedPayload (key : EvidenceKey) : Payload :=
  ((reachedAttempts.find? (fun a => a.evidenceKey = key)).map (·.record.payload)).getD
    { eventName := .install }

def reachedKind (scope : Scope) (id : String) : EventName :=
  ((reachedAttempts.find? (fun a => a.scope = scope && (logicalEvent a).logicalEventId = id)).map
    (·.record.eventName)).getD .install

/-- The call that brought the records; one batch of the device holds its
install and its session. -/
def reachedCall : RuntimeCall := launchCall reachedAttempts []

def reachedBatch : StoredBatch where
  ingestBatchId := .named "batch"
  scope := deviceCall.body.scope
  installationKeyId := some (.named "key")
  bodyRef := "encrypted:batch"

def reachedWorld : PrivacyWorld where
  tables := {
    ledger := [reachedCall].foldl Ledger.ingest {}
    batches := [reachedBatch]
    batchRecords := [
      ⟨.named "batch", deviceCall.body.scope, launchInstall.record.recordId⟩,
      ⟨.named "batch", deviceCall.body.scope, launchSession.record.recordId⟩] }
  readable := ["encrypted:batch"]

/-- A record of the installation that the request finds. -/
def isReached (key : EvidenceKey) : Bool :=
  key ∈ reachedWorld.tables.ledger.logicalEvents.map (·.event.evidenceKey) &&
    isCounted (reachedPayload key).eventName &&
    (reachedPayload key).installationId = some deviceCall.body.deletionSubjectRef

/-- Four records are stored, also the one that conflicts; the two of the
installation, and the members of the batch, are found.  The keys of the tables hold, and the request completes. -/
def storesReached : Bool :=
  (executePrivacyRequest plainDatabase reachedWorld deviceCall.identity deviceCall.body
    deviceCall.environment).2.isOk &&
  (reachedWorld.tables.ledger.rawRecords.map (·.recordId)).Nodup &&
  reachedWorld.tables.ledger.rawRecords.length = 4 &&
  reachedWorld.tables.ledger.rawRecords.all (fun r =>
    (reachedPayload r.evidenceKey).installationId ≠ some deviceCall.body.deletionSubjectRef ||
      isReached r.evidenceKey) &&
  (reachedWorld.tables.batchRecords.all (fun m =>
    isReached ⟨deviceCall.body.scope, m.recordId⟩)) &&
  reachedWorld.tables.ledger.payloadStates.all (fun s =>
    (⟨s.scope, s.recordId⟩ : EvidenceKey) ∈
      reachedWorld.tables.ledger.rawRecords.map (·.evidenceKey)) &&
  reachedWorld.tables.ledger.logicalEvents.all (fun e =>
    e.event.evidenceKey ∈ reachedWorld.tables.ledger.rawRecords.map (·.evidenceKey))

set_option maxRecDepth 4000 in
theorem storesReached_holds : storesReached = true := by
  decide +kernel

/-- A record that is found is counted. -/
theorem counted_of_isReached {key : EvidenceKey} (h : isReached key = true) :
    IsCountedRecord reachedWorld deviceCall reachedPayload key := by
  simp only [isReached, Bool.and_eq_true, decide_eq_true_eq] at h
  exact ⟨h.1.1, h.1.2, h.2⟩

/-- The conflicting event does not lead its key. -/
theorem conflicting_not_leads :
    ¬LeadsKey (reachedCall.delivered conflictingEvent.scope) conflictingEvent := by
  intro hleads
  have hmem : launchSession ∈ reachedCall.delivered conflictingEvent.scope := by
    refine List.mem_append_right _ (List.mem_filter.mpr ⟨List.mem_filter.mpr ⟨?_, rfl⟩, ?_⟩)
    · simp [reachedCall, launchCall, reachedAttempts]
    · decide +kernel
  exact absurd (hleads.first launchSession hmem rfl) (by decide +kernel)

/-- An installation with an install and a session is reached, with its batch;
the records of another installation, one of which conflicts with the session,
are not. -/
theorem launched_reached :
    InstallationReached plainDatabase reachedWorld deviceCall
      (fun key => (reachedPayload key).installationId) := by
  have hall := storesReached_holds
  simp only [storesReached, Bool.and_eq_true, Bool.or_eq_true, decide_eq_true_iff,
    List.all_eq_true] at hall
  obtain ⟨⟨⟨⟨⟨⟨hok, hids⟩, -⟩, hrecords⟩, hmembers⟩, hstates⟩, hevents⟩ := hall
  have hcompletes : Completes plainDatabase reachedWorld deviceCall := by
    rw [Completes]
    revert hok
    cases (executePrivacyRequest plainDatabase reachedWorld deviceCall.identity deviceCall.body
      deviceCall.environment).2 with
    | error failure => exact fun hok => absurd hok Bool.false_ne_true
    | ok artifact => exact fun _ => ⟨artifact, rfl⟩
  have hpayload : ∀ a ∈ reachedAttempts, a.record.payload = reachedPayload a.evidenceKey := by
    simp only [reachedAttempts, List.forall_mem_cons]
    exact ⟨rfl, rfl, rfl, rfl, fun a ha => absurd ha List.not_mem_nil⟩
  have hkind : ∀ a ∈ reachedAttempts, LeadsKey (reachedCall.delivered a.scope) a →
      a.record.eventName = reachedKind a.scope (logicalEvent a).logicalEventId := by
    simp only [reachedAttempts, List.forall_mem_cons]
    exact ⟨fun _ => rfl, fun _ => rfl, fun _ => rfl,
      fun hleads => absurd hleads conflicting_not_leads, fun a ha => absurd ha List.not_mem_nil⟩
  have hcalls : ∀ call ∈ [reachedCall], CallNames reachedPayload reachedKind call := by
    intro call hcall
    rw [List.mem_singleton.mp hcall]
    exact ⟨fun a ha => hpayload a ((List.mem_append.mp ha).resolve_right List.not_mem_nil), hkind⟩
  have hledger : reachedWorld.tables.ledger = [reachedCall].foldl Ledger.ingest {} := by
    rw [reachedWorld]
  refine (installationReached_iff hledger hcalls ⟨hids, hstates, hevents⟩ rfl hcompletes).mpr
    ⟨fun r hr _ hnames => ?_, fun b hb hdevice hkey _ _ => .inr (.inl ?_)⟩
  · exact counted_of_isReached ((hrecords r hr).resolve_left (not_not_intro hnames))
  · have hone : b = reachedBatch := List.mem_singleton.mp hb
    have hscope : b.scope = deviceCall.body.scope := by
      rw [hone]
      rfl
    refine ⟨b, hb, rfl, hscope, .inr ⟨hdevice, hkey⟩, fun m hm => ?_⟩
    exact counted_of_isReached (hmembers m (List.mem_filter.mp hm).1)

end Runs

end OpenMasu
