import OpenMasu.PrivacyAtomicity
import OpenMasu.PrivacyReapply

/-!
# What a run of privacy requests erases

Records refer to objects, and a request covers records.  A run of completed
requests erases the union of what each of its requests erases; a request
erases a raw payload or a batch only where it covers all records that share
it, and erases the other objects as soon as it covers one.

* `PrivacyTables.Refers`, `PrivacyCall.covers` — records of objects, and
  records of requests;
* `Erases`, `mem_erasedReferences` — the objects a request erases;
* `ErasureInvariant`, `erasureInvariant_run` — what a run has erased so far;
* `ErasureIsExact`, `erasureIsExact_iff` — the law.
-/

namespace OpenMasu

section Objects

variable (t : PrivacyTables) (ref : String) (key : EvidenceKey)

/-- The object is the payload of a raw record. -/
def PrivacyTables.RefersAsPayload : Prop :=
  ∃ r ∈ t.ledger.rawRecords, r.evidenceKey = key ∧ r.rawPayloadRef = ref

/-- The object is the inbox query a raw record came by. -/
def PrivacyTables.RefersAsQuery : Prop :=
  ∃ q ∈ t.inbox, q.rawQueryRef = ref ∧ ∃ r ∈ t.ledger.rawRecords, r.evidenceKey = key ∧
    r.evidenceKey.scope = q.scope ∧ r.producer = q.producer ∧ r.eventId = q.eventId

/-- The object is the body of a batch of the record. -/
def PrivacyTables.RefersAsBatch : Prop :=
  ∃ b ∈ t.batches, b.bodyRef = ref ∧ ∃ m ∈ t.membersOf b, (⟨m.scope, m.recordId⟩ : EvidenceKey) = key

/-- The object is a token that waits for the lookup of an install. -/
def PrivacyTables.RefersAsToken : Prop :=
  ∃ r ∈ t.lookups, r.tokenRef = ref ∧ (⟨r.scope, r.installRecordId⟩ : EvidenceKey) = key

/-- The object is the response to the lookup of an install. -/
def PrivacyTables.RefersAsResponse : Prop :=
  ∃ r ∈ t.lookupResults, r.responseRef = ref ∧ (⟨r.scope, r.installRecordId⟩ : EvidenceKey) = key

/-- The object is the response to the integrity check of a record. -/
def PrivacyTables.RefersAsVerification : Prop :=
  ∃ r ∈ t.verificationResults, r.evidenceRef = some ref ∧
    (⟨r.scope, r.subjectRecordId⟩ : EvidenceKey) = key

/-- The object is a query, a token or a response of the record. -/
def PrivacyTables.RefersDirectly : Prop :=
  t.RefersAsQuery ref key ∨ t.RefersAsToken ref key ∨ t.RefersAsResponse ref key

/-- The record refers to the object. -/
def PrivacyTables.Refers : Prop :=
  t.RefersAsPayload ref key ∨ t.RefersAsBatch ref key ∨ t.RefersDirectly ref key ∨
    t.RefersAsVerification ref key

end Objects

section Calls

variable [Digest] (db : Database)

/-- One request with what it meets. -/
structure PrivacyCall where
  identity : PrivacyIdentity
  body : PrivacyRequestBody
  environment : RequestEnvironment

/-- The world behind a request. -/
def PrivacyWorld.execute (w : PrivacyWorld) (c : PrivacyCall) : PrivacyWorld :=
  (executePrivacyRequest db w c.identity c.body c.environment).1

/-- The request completes. -/
def Completes (w : PrivacyWorld) (c : PrivacyCall) : Prop :=
  ∃ artifact, (executePrivacyRequest db w c.identity c.body c.environment).2 = .ok artifact

/-- A request that returns has completed. -/
theorem completes_of_isOk {db} {w : PrivacyWorld} {c : PrivacyCall}
    (h : (executePrivacyRequest db w c.identity c.body c.environment).2.isOk = true) :
    Completes db w c := by
  rw [Completes]
  generalize (executePrivacyRequest db w c.identity c.body c.environment).2 = result at h ⊢
  cases result with
  | error e => cases h
  | ok artifact => exact ⟨artifact, rfl⟩

/-- The world behind several requests. -/
def PrivacyWorld.executeAll (w : PrivacyWorld) (calls : List PrivacyCall) : PrivacyWorld :=
  calls.foldl (·.execute db) w

/-- Passes over the requests of tenants, one after another. -/
def PrivacyWorld.reapplyAll (w : PrivacyWorld) (tenants : List Identifier) : PrivacyWorld :=
  tenants.foldl (fun w tenantId => (reapplyCompletedPrivacyRequests db w tenantId).1) w

omit [Digest] in
/-- The records of a request in some tables. -/
def PrivacyCall.affected (c : PrivacyCall) (t : PrivacyTables) : List Identifier :=
  affectedRecordIds db c.body t.ledger

omit [Digest] in
/-- The request covers a record. -/
def PrivacyCall.covers (c : PrivacyCall) (t : PrivacyTables) (key : EvidenceKey) : Bool :=
  c.body.selects (c.affected db t) key.scope key.recordId

omit [Digest] in
/-- The request deletes an app or a tenant. -/
def PrivacyCall.isWide (c : PrivacyCall) : Bool := c.body.deletionScope ≠ .installation

omit [Digest] in
/-- The request is about a payload: one of its raw records is covered, and all
that share it, unless the request is wide. -/
def PrivacyCall.ErasesPayload (c : PrivacyCall) (t : PrivacyTables) (ref : String) : Prop :=
  ∃ r ∈ t.ledger.rawRecords, r.rawPayloadRef = ref ∧ c.covers db t r.evidenceKey = true ∧
    (c.isWide = true ∨ ∀ shared ∈ t.ledger.rawRecords, shared.tenantId = r.tenantId →
      shared.rawPayloadRef = ref → shared.recordId ∈ c.affected db t)

omit [Digest] in
/-- The request is about a batch: it is wide, or it covers all members of the
batch and either has one or the key the batch came with. -/
def PrivacyCall.ErasesBatch (c : PrivacyCall) (t : PrivacyTables) (ref : String) : Prop :=
  ∃ b ∈ t.batches, b.bodyRef = ref ∧ c.body.reads b.scope = true ∧
    (c.isWide = true ∨
      (((∃ m ∈ t.membersOf b, m.scope = b.scope ∧ m.recordId ∈ c.affected db t) ∨
          (c.identity.installationKeyId.isSome = true ∧
            b.installationKeyId = c.identity.installationKeyId)) ∧
        ∀ m ∈ t.membersOf b, m.recordId ∈ c.affected db t))

omit [Digest] in
/-- The request is wide and reads the inbox query. -/
def PrivacyCall.ErasesQueries (c : PrivacyCall) (t : PrivacyTables) (ref : String) : Prop :=
  c.isWide = true ∧ ∃ q ∈ t.inbox, q.rawQueryRef = ref ∧ c.body.reads q.scope = true

omit [Digest] in
/-- The request erases the object. -/
def PrivacyCall.Erases (c : PrivacyCall) (t : PrivacyTables) (ref : String) : Prop :=
  c.ErasesPayload db t ref ∨ c.ErasesBatch db t ref ∨ c.ErasesQueries t ref ∨
    ∃ key, t.RefersDirectly ref key ∧ c.covers db t key = true

end Calls

section Selection

variable [Digest] {db : Database} {t t' : PrivacyTables} {c : PrivacyCall} {ref : String}

omit [Digest] in
/-- The payloads of raw records that a request erases. -/
theorem mem_rawPayloads (henc : isEncrypted ref = true) :
    ref ∈ t.rawPayloads db c.body (c.affected db t) ↔ c.ErasesPayload db t ref := by
  simp only [PrivacyTables.rawPayloads, Database.mem_sortTexts, List.mem_dedup, List.mem_map,
    List.mem_filter]
  constructor
  · rintro ⟨r, ⟨hr, hsel⟩, rfl⟩
    simp only [PrivacyTables.sharesPayload, Bool.and_eq_true, Bool.or_eq_true, decide_eq_true_eq,
      Bool.not_eq_true', List.any_eq_false] at hsel
    obtain ⟨⟨hreads, -⟩, hwide | ⟨hmem, hshared⟩⟩ := hsel
    · refine ⟨r, hr, rfl, ?_, .inl (by simpa [PrivacyCall.isWide] using hwide)⟩
      simp [PrivacyCall.covers, PrivacyRequestBody.selects, hreads, hwide]
    · refine ⟨r, hr, rfl, ?_, .inr (fun shared hs htenant href => ?_)⟩
      · simp only [PrivacyCall.covers, PrivacyRequestBody.selects, hreads, Bool.true_and,
          Bool.or_eq_true]
        exact .inr hmem
      · have := hshared shared hs
        simpa [htenant, href] using this
  · rintro ⟨r, hr, rfl, hcovers, hshared⟩
    refine ⟨r, ⟨hr, ?_⟩, rfl⟩
    simp only [PrivacyCall.covers, PrivacyRequestBody.selects, Bool.and_eq_true, Bool.or_eq_true,
      decide_eq_true_eq] at hcovers
    simp only [PrivacyTables.sharesPayload, Bool.and_eq_true, Bool.or_eq_true, decide_eq_true_eq,
      Bool.not_eq_true', List.any_eq_false]
    refine ⟨⟨hcovers.1, henc⟩, ?_⟩
    by_cases hwide : c.body.deletionScope = .installation
    · refine .inr ⟨hcovers.2.resolve_left (fun h => h hwide), fun shared hs => ?_⟩
      have hall := hshared.resolve_left (by simp [PrivacyCall.isWide, hwide])
      rintro ⟨⟨htenant, href⟩, hnot⟩
      simp [hall shared hs htenant href] at hnot
    · exact .inl hwide

omit [Digest] in
/-- A request is wide where it is for more than an installation. -/
theorem isWide_iff : c.isWide = true ↔ c.body.deletionScope ≠ .installation := by
  simp [PrivacyCall.isWide]

omit [Digest] in
/-- A row is covered when it is read and the request is wide or has it. -/
theorem covers_iff {key : EvidenceKey} : c.covers db t key = true ↔
    c.body.reads key.scope = true ∧ (c.isWide = true ∨ key.recordId ∈ c.affected db t) := by
  simp [PrivacyCall.covers, PrivacyRequestBody.selects, PrivacyCall.isWide]

omit [Digest] in
/-- A query is of some records where it was made for the event of one of them.
-/
theorem isQueryOf_iff {q : StoredQuery} {records : List Identifier} :
    t.isQueryOf records q = true ↔ ∃ r ∈ t.ledger.rawRecords, r.evidenceKey.scope = q.scope ∧
      r.producer = q.producer ∧ r.eventId = q.eventId ∧ r.recordId ∈ records := by
  simp [PrivacyTables.isQueryOf, and_assoc]

omit [Digest] in
/-- The payloads that a request erases with its records: of its queries, and of
the records it covers. -/
theorem mem_payloads : ref ∈ t.payloads db c.body (c.affected db t) ↔
    c.ErasesQueries t ref ∨ ∃ key, t.RefersAsQuery ref key ∧ c.covers db t key = true := by
  have hrows : ref ∈ t.payloads db c.body (c.affected db t) ↔
      ∃ q ∈ t.inbox, q.rawQueryRef = ref ∧ c.body.reads q.scope = true ∧
        (c.isWide = true ∨ t.isQueryOf (c.affected db t) q = true) := by
    unfold PrivacyTables.payloads
    dsimp only
    split <;>
      simp [PrivacyCall.isWide, and_comm, and_left_comm]
  rw [hrows]
  constructor
  · rintro ⟨q, hq, href, hreads, hwide | hquery⟩
    · exact .inl ⟨hwide, q, hq, href, hreads⟩
    · obtain ⟨r, hr, hscope, hproducer, hevent, hmem⟩ := isQueryOf_iff.mp hquery
      refine .inr ⟨r.evidenceKey, ⟨q, hq, href, r, hr, rfl, hscope, hproducer, hevent⟩, ?_⟩
      exact covers_iff.mpr ⟨hscope ▸ hreads, .inr hmem⟩
  · rintro (⟨hwide, q, hq, href, hreads⟩ | ⟨key, ⟨q, hq, href, r, hr, rfl, hscope, hrest⟩, hcovers⟩)
    · exact ⟨q, hq, href, hreads, .inl hwide⟩
    · obtain ⟨hreads, hmem⟩ := covers_iff.mp hcovers
      refine ⟨q, hq, href, hscope ▸ hreads, hmem.imp id (fun hmem => ?_)⟩
      exact isQueryOf_iff.mpr ⟨r, hr, hscope, hrest.1, hrest.2, hmem⟩

omit [Digest] in
/-- The batches that a request erases. -/
theorem mem_batchPayloads :
    ref ∈ t.batchPayloads db c.body (c.affected db t) c.identity.installationKeyId ↔
      c.ErasesBatch db t ref := by
  unfold PrivacyTables.batchPayloads PrivacyCall.ErasesBatch
  dsimp only
  split <;>
    simp [PrivacyCall.isWide, and_assoc, and_comm, and_left_comm]

omit [Digest] in
/-- The responses of the attribution service that a request erases. -/
theorem mem_adServicesPayloads : ref ∈ t.adServicesPayloads db c.body (c.affected db t) ↔
    ∃ key, t.RefersAsResponse ref key ∧ c.covers db t key = true := by
  simp only [PrivacyTables.adServicesPayloads, Database.mem_sortTexts, List.mem_map,
    List.mem_filter]
  constructor
  · rintro ⟨r, ⟨hr, hsel⟩, href⟩
    exact ⟨_, ⟨r, hr, href, rfl⟩, hsel⟩
  · rintro ⟨_, ⟨r, hr, href, rfl⟩, hcovers⟩
    exact ⟨r, ⟨hr, hcovers⟩, href⟩

omit [Digest] in
/-- The tokens that wait for the service and that a request erases. -/
theorem mem_pendingAdServicesPayloads :
    ref ∈ t.pendingAdServicesPayloads db c.body (c.affected db t) ↔
      ∃ key, t.RefersAsToken ref key ∧ c.covers db t key = true := by
  simp only [PrivacyTables.pendingAdServicesPayloads, Database.mem_sortTexts, List.mem_map,
    List.mem_filter]
  constructor
  · rintro ⟨r, ⟨hr, hsel⟩, href⟩
    exact ⟨_, ⟨r, hr, href, rfl⟩, hsel⟩
  · rintro ⟨_, ⟨r, hr, href, rfl⟩, hcovers⟩
    exact ⟨r, ⟨hr, hcovers⟩, href⟩

omit [Digest] in
/-- **What a request erases.**  Among the encrypted objects, those it is
about. -/
theorem mem_erasedReferences (henc : isEncrypted ref = true) :
    ref ∈ t.erasedReferences db c.body (c.affected db t) c.identity ↔ c.Erases db t ref := by
  simp only [PrivacyTables.erasedReferences, List.mem_eraseDups, List.mem_append,
    mem_rawPayloads henc, mem_payloads, mem_batchPayloads, mem_adServicesPayloads,
    mem_pendingAdServicesPayloads, PrivacyCall.Erases, PrivacyTables.RefersDirectly, or_and_right,
    exists_or]
  simp only [or_assoc]
  grind

end Selection

section Frame

variable [Digest] {db : Database} {t t' t'' : PrivacyTables} {c : PrivacyCall} {ref : String}
  {key : EvidenceKey}

/-- The tables have the records and the objects of others; lookups can be
gone. -/
structure SameObjects (t t' : PrivacyTables) : Prop where
  rawRecords : t'.ledger.rawRecords = t.ledger.rawRecords
  logicalEvents : t'.ledger.logicalEvents = t.ledger.logicalEvents
  installFacts : t'.ledger.installFacts = t.ledger.installFacts
  facts : t'.ledger.facts = t.ledger.facts
  inbox : t'.inbox = t.inbox
  batches : t'.batches = t.batches
  batchRecords : t'.batchRecords = t.batchRecords
  lookups : ∀ r ∈ t'.lookups, r ∈ t.lookups
  lookupResults : t'.lookupResults = t.lookupResults

omit [Digest] in
/-- The tables refer to the objects they refer to. -/
theorem SameObjects.refl (t : PrivacyTables) : SameObjects t t :=
  ⟨rfl, rfl, rfl, rfl, rfl, rfl, rfl, fun _ hr => hr, rfl⟩

omit [Digest] in
/-- What is the same twice is the same. -/
theorem SameObjects.trans (h : SameObjects t t') (h' : SameObjects t' t'') : SameObjects t t'' where
  rawRecords := h'.rawRecords.trans h.rawRecords
  logicalEvents := h'.logicalEvents.trans h.logicalEvents
  installFacts := h'.installFacts.trans h.installFacts
  facts := h'.facts.trans h.facts
  inbox := h'.inbox.trans h.inbox
  batches := h'.batches.trans h.batches
  batchRecords := h'.batchRecords.trans h.batchRecords
  lookups := fun r hr => h.lookups r (h'.lookups r hr)
  lookupResults := h'.lookupResults.trans h.lookupResults

omit [Digest] in
/-- A purge in the ledger changes no reference to an object. -/
theorem AppendsPurges.sameObjects {scope : Scope} (h : AppendsPurges scope t t') :
    SameObjects t t' := by
  obtain ⟨_, _, _, rfl, -⟩ := h.appended
  exact ⟨rfl, rfl, rfl, rfl, rfl, rfl, rfl, fun _ hr => hr, rfl⟩

omit [Digest] in
/-- A request has the same records in them. -/
theorem SameObjects.affected (h : SameObjects t t') (c : PrivacyCall) :
    c.affected db t' = c.affected db t := by
  have hprojected : t'.ledger.projectedInstallation = t.ledger.projectedInstallation := by
    funext e
    simp only [Ledger.projectedInstallation, Ledger.installInstallation, Ledger.factInstallation,
      h.installFacts, h.facts]
  simp only [PrivacyCall.affected, affectedRecordIds, h.rawRecords, h.logicalEvents, hprojected]

omit [Digest] in
/-- So a request covers the same records. -/
theorem SameObjects.covers (h : SameObjects t t') (c : PrivacyCall) (key : EvidenceKey) :
    c.covers db t' key = c.covers db t key := by
  simp only [PrivacyCall.covers, h.affected]

omit [Digest] in
/-- Apart from tokens, the records refer to the same objects. -/
theorem SameObjects.refersDirectly_iff (h : SameObjects t t') : t'.RefersDirectly ref key ↔
    t.RefersAsQuery ref key ∨ t'.RefersAsToken ref key ∨ t.RefersAsResponse ref key := by
  simp only [PrivacyTables.RefersDirectly, PrivacyTables.RefersAsQuery,
    PrivacyTables.RefersAsResponse, h.inbox, h.rawRecords, h.lookupResults]

omit [Digest] in
/-- What waits for the service was waiting. -/
theorem SameObjects.token (h : SameObjects t t') (htoken : t'.RefersAsToken ref key) :
    t.RefersAsToken ref key := by
  obtain ⟨r, hr, href⟩ := htoken
  exact ⟨r, h.lookups r hr, href⟩

omit [Digest] in
/-- What a request erases, but for the tokens, is the same. -/
theorem SameObjects.erases_iff (h : SameObjects t t') : c.Erases db t' ref ↔
    c.ErasesPayload db t ref ∨ c.ErasesBatch db t ref ∨ c.ErasesQueries t ref ∨
      ∃ key, (t.RefersAsQuery ref key ∨ t'.RefersAsToken ref key ∨ t.RefersAsResponse ref key) ∧
        c.covers db t key = true := by
  simp only [PrivacyCall.Erases, h.refersDirectly_iff, h.covers, PrivacyCall.ErasesPayload,
    PrivacyCall.ErasesBatch, PrivacyCall.ErasesQueries, h.rawRecords, h.affected, h.batches,
    PrivacyTables.membersOf, h.batchRecords, h.inbox]

omit [Digest] in
/-- And erases the same objects. -/
theorem SameObjects.erases (h : SameObjects t t') (herases : c.Erases db t' ref) :
    c.Erases db t ref := by
  rcases h.erases_iff.mp herases with hpayload | hbatch | hqueries | ⟨key, hrefers, hcovers⟩
  · exact .inl hpayload
  · exact .inr (.inl hbatch)
  · exact .inr (.inr (.inl hqueries))
  · exact .inr (.inr (.inr ⟨key, hrefers.imp id (.imp h.token id), hcovers⟩))

omit [Digest] in
/-- A request that erased an object in the earlier tables erases it in the
later ones, or the lookup it would erase it by is gone. -/
theorem SameObjects.erases_of_erases (h : SameObjects t t') (herases : c.Erases db t ref) :
    c.Erases db t' ref ∨ ∃ r ∈ t.lookups, r ∉ t'.lookups ∧ r.tokenRef = ref := by
  rw [h.erases_iff]
  rcases herases with hpayload | hbatch | hqueries | ⟨key, hrefers, hcovers⟩
  · exact .inl (.inl hpayload)
  · exact .inl (.inr (.inl hbatch))
  · exact .inl (.inr (.inr (.inl hqueries)))
  · rcases hrefers with hquery | ⟨r, hr, href, hkey⟩ | hresponse
    · exact .inl (.inr (.inr (.inr ⟨key, .inl hquery, hcovers⟩)))
    · by_cases hthere : r ∈ t'.lookups
      · exact .inl (.inr (.inr (.inr ⟨key, .inr (.inl ⟨r, hthere, href, hkey⟩), hcovers⟩)))
      · exact .inr ⟨r, hr, hthere, href⟩
    · exact .inl (.inr (.inr (.inr ⟨key, .inr (.inr hresponse), hcovers⟩)))

end Frame

section States

variable [Digest] {db : Database} {t t' : PrivacyTables} {p : PurgeContext} {key : EvidenceKey}

/-- A record carries a purged payload state. -/
def PrivacyTables.isPurged (t : PrivacyTables) (key : EvidenceKey) : Prop :=
  ∃ s ∈ t.ledger.payloadStates,
    s.scope = key.scope ∧ s.recordId = key.recordId ∧ s.lifecycleStatus = .purged

/-- A record is stored. -/
def PrivacyTables.isStored (t : PrivacyTables) (key : EvidenceKey) : Prop :=
  key ∈ t.ledger.rawRecords.map (·.evidenceKey)

/-- The records that carry a purged state behind the insertions for one. -/
theorem isPurged_appendPurge_iff (hconstraints : t.Constraints) {recordId : Identifier}
    (h : t.appendPurge p recordId = some t') : t'.isPurged key ↔
      t.isPurged key ∨ (key = ⟨p.scope, recordId⟩ ∧ t.isStored key) := by
  obtain ⟨t₁, h₁, rfl⟩ := appendPurge_eq_some h
  obtain ⟨-, ⟨⟨s, hs, hid, hstatus⟩, rfl⟩ | ⟨hraw, rfl⟩⟩ := appendState_eq_some h₁
  · refine ⟨.inl, ?_⟩
    rintro (hkey | ⟨rfl, hstored⟩)
    · exact hkey
    · -- the state that was there is that of the raw record
      have hstate := hconstraints.states s hs
      rw [hid] at hstate
      exact ⟨s, hs, hconstraints.scope_eq hstate hstored, hid, hstatus⟩
  · simp only [PrivacyTables.isPurged, List.mem_append, List.mem_singleton, or_and_right,
      exists_or, exists_eq_left]
    refine or_congr_right ⟨?_, ?_⟩
    · rintro ⟨hscope, hid, -⟩
      have hkey : key = ⟨p.scope, recordId⟩ := by
        rw [show p.scope = key.scope from hscope, show recordId = key.recordId from hid]
      exact ⟨hkey, hkey ▸ hraw⟩
    · rintro ⟨rfl, -⟩
      exact ⟨rfl, rfl, rfl⟩

/-- A purge in the ledger keeps the constraints of the tables. -/
theorem PrivacyTables.Constraints.appendPurges {records : List Identifier}
    (hconstraints : t.Constraints) (h : t.appendPurges p records = some t') : t'.Constraints := by
  induction records generalizing t with
  | nil =>
      cases h
      exact hconstraints
  | cons r rest ih =>
      obtain ⟨t₁, h₁, h⟩ := Option.bind_eq_some_iff.mp h
      exact ih (hconstraints.appendPurge h₁) h

/-- The records that carry a purged state behind the insertions for some. -/
theorem isPurged_appendPurges_iff {records : List Identifier} (hconstraints : t.Constraints)
    (h : t.appendPurges p records = some t') : t'.isPurged key ↔
      t.isPurged key ∨ (key.scope = p.scope ∧ key.recordId ∈ records ∧ t.isStored key) := by
  induction records generalizing t with
  | nil =>
      cases h
      simp
  | cons r rest ih =>
      obtain ⟨t₁, h₁, h⟩ := Option.bind_eq_some_iff.mp h
      have hstored : t₁.isStored key ↔ t.isStored key := by
        rw [PrivacyTables.isStored, (appendsPurges_of_appendPurge h₁).sameObjects.rawRecords]
        exact Iff.rfl
      rw [ih (hconstraints.appendPurge h₁) h, isPurged_appendPurge_iff hconstraints h₁, hstored,
        List.mem_cons]
      constructor
      · rintro ((hkey | ⟨rfl, hkey⟩) | ⟨hscope, hmem, hkey⟩)
        · exact .inl hkey
        · exact .inr ⟨rfl, .inl rfl, hkey⟩
        · exact .inr ⟨hscope, .inr hmem, hkey⟩
      · rintro (hkey | ⟨hscope, rfl | hmem, hkey⟩)
        · exact .inl (.inl hkey)
        · refine .inl (.inr ⟨?_, hkey⟩)
          rw [← hscope]
        · exact .inr ⟨hscope, hmem, hkey⟩

end States

section Reapplied

variable [Digest] {db : Database} {t t' : PrivacyTables} {c : PrivacyCall} {ref : String}
  {records : List Identifier}

/-- The artifact of a request over some records. -/
def PrivacyCall.artifact (c : PrivacyCall) (db : Database) (t : PrivacyTables) : DeletionArtifact :=
  deletionArtifact c.identity c.body c.environment (c.affected db t)

/-- The records of a stored request are those it affected. -/
theorem records_artifact (h : (c.artifact db t).records = some records) (r : Identifier) :
    r ∈ records ↔ r ∈ c.affected db t := by
  have hall : (c.artifact db t).affectedRecords.map (·.recordId) = c.affected db t := by
    simp [PrivacyCall.artifact, deletionArtifact, Function.comp_def]
  unfold DeletionArtifact.records at h
  split at h
  · cases h
    rw [KeyedSort.mem_sortOn, List.mem_eraseDups, hall]
  · cases h

omit [Digest] in
/-- A row of the request, in either list of its records. -/
theorem selects_eq_covers (hrecords : ∀ r, r ∈ records ↔ r ∈ c.affected db t) (key : EvidenceKey) :
    c.body.selects records key.scope key.recordId = c.covers db t key := by
  simp only [PrivacyCall.covers, PrivacyRequestBody.selects, List.contains_eq_mem, hrecords]

/-- The members of a batch are rows of its scope. -/
def PrivacyTables.membersInScope (t : PrivacyTables) : Prop :=
  ∀ b ∈ t.batches, ∀ m ∈ t.membersOf b, m.scope = b.scope

/-- **What a re-applied request erases.**  Nothing its request did not, as its
artifact names the same records. -/
theorem erases_of_mem_encryptedReferences (hmembers : t.membersInScope)
    (hrecords : ∀ r, r ∈ records ↔ r ∈ c.affected db t)
    (h : ref ∈ t.encryptedReferences (c.artifact db t) records) : c.Erases db t ref := by
  have hselects : ∀ scope recordId, (c.artifact db t).selects records scope recordId =
      c.covers db t ⟨scope, recordId⟩ := fun scope recordId =>
    selects_eq_covers hrecords ⟨scope, recordId⟩
  simp only [PrivacyTables.encryptedReferences, KeyedSort.mem_sortOn, List.mem_filter,
    List.mem_eraseDups, List.mem_append, List.mem_map] at h
  obtain ⟨((((⟨r, ⟨hr, hsel⟩, rfl⟩ | ⟨q, ⟨hq, hsel⟩, rfl⟩) | ⟨b, ⟨hb, hsel⟩, rfl⟩) |
    ⟨r, ⟨hr, hsel⟩, rfl⟩) | ⟨r, ⟨hr, hsel⟩, rfl⟩), henc⟩ := h
  · -- a raw payload
    refine .inl ((mem_rawPayloads henc).mp ?_)
    simp only [PrivacyTables.rawPayloads, Database.mem_sortTexts, List.mem_dedup, List.mem_map,
      List.mem_filter]
    refine ⟨r, ⟨hr, ?_⟩, rfl⟩
    have hshares : t.sharesPayload (c.affected db t) r = t.sharesPayload records r := by
      simp only [PrivacyTables.sharesPayload, List.contains_eq_mem, hrecords]
    rw [Bool.and_eq_true] at hsel
    rw [hshares, henc, Bool.and_true, Bool.and_eq_true]
    have hkind : (c.artifact db t).deletionScope = c.body.deletionScope := rfl
    refine ⟨hsel.1, ?_⟩
    simpa only [List.contains_eq_mem, hrecords, hkind] using hsel.2
  · -- an inbox query
    have hquery : t.isQueryOf records q = t.isQueryOf (c.affected db t) q := by
      simp only [PrivacyTables.isQueryOf, List.contains_eq_mem, hrecords]
    rw [Bool.and_eq_true, Bool.or_eq_true, hquery] at hsel
    have hreads : c.body.reads q.scope = true := hsel.1
    rcases hsel.2 with hwide | hquery
    · exact .inr (.inr (.inl ⟨hwide, q, hq, rfl, hreads⟩))
    · obtain ⟨r, hr, hscope, hproducer, hevent, hmem⟩ := isQueryOf_iff.mp hquery
      refine .inr (.inr (.inr ⟨r.evidenceKey,
        .inl ⟨q, hq, rfl, r, hr, rfl, hscope, hproducer, hevent⟩, ?_⟩))
      exact covers_iff.mpr ⟨hscope ▸ hreads, .inr hmem⟩
  · -- a batch
    refine .inr (.inl ⟨b, hb, rfl, ?_⟩)
    unfold PrivacyTables.reappliesBatch at hsel
    rw [Bool.and_eq_true, Bool.or_eq_true, Bool.and_eq_true, List.any_eq_true,
      List.all_eq_true] at hsel
    refine ⟨hsel.1, hsel.2.imp id fun hselected => ?_⟩
    obtain ⟨⟨m, hm, hmem⟩, hall⟩ := hselected
    refine ⟨.inl ⟨m, hm, ?_, ?_⟩, ?_⟩
    · exact hmembers b hb m hm
    · simpa [hrecords] using hmem
    · intro m' hm'
      simpa [hrecords] using hall m' hm'
  · -- a response
    rw [hselects] at hsel
    exact .inr (.inr (.inr ⟨_, .inr (.inr ⟨r, hr, rfl, rfl⟩), hsel⟩))
  · -- a token
    rw [hselects] at hsel
    exact .inr (.inr (.inr ⟨_, .inr (.inl ⟨r, hr, rfl, rfl⟩), hsel⟩))

end Reapplied

section Invariant

variable [Digest] (db : Database)

/-- **Rows behind the requests so far.**  The records and objects are those of
the start, without the lookups of covered installs; a stored record carries a
purged state when it did so or a request covers it. -/
structure PurgedSoFar (t₀ : PrivacyTables) (taken : List PrivacyCall) (t : PrivacyTables) :
    Prop where
  objects : SameObjects t₀ t
  lookups : ∀ r ∈ t₀.lookups, r ∈ t.lookups ∨
    ∃ c ∈ taken, c.covers db t₀ ⟨r.scope, r.installRecordId⟩ = true
  purged : ∀ key, t.isPurged key ↔ t₀.isPurged key ∨
    (t₀.isStored key ∧ ∃ c ∈ taken, c.covers db t₀ key = true)
  requests : ∀ a ∈ t.privacyRequests, ∃ c ∈ taken, a = c.artifact db t₀
  constraints : t.Constraints

omit [Digest] in
/-- **Objects behind the requests so far.**  An encrypted object can be read
when it could be and no request erases it. -/
def ReadableSoFar (w₀ : PrivacyWorld) (taken : List PrivacyCall) (readable : List String) : Prop :=
  ∀ ref, isEncrypted ref = true → (ref ∈ readable ↔
    ref ∈ w₀.readable ∧ ∀ c ∈ taken, ¬c.Erases db w₀.tables ref)

/-- What a run of requests has erased so far. -/
structure ErasureInvariant (w₀ : PrivacyWorld) (taken : List PrivacyCall) (w : PrivacyWorld) :
    Prop where
  tables : PurgedSoFar db w₀.tables taken w.tables
  readable : ReadableSoFar db w₀ taken w.readable


section Steps

variable {db} {t₀ t t' : PrivacyTables} {taken : List PrivacyCall} {c : PrivacyCall}

omit [Digest] in
/-- A record covered by a request is one of its records, where it is
stored. -/
theorem mem_affected_of_covers {key : EvidenceKey} (hstored : t.isStored key)
    (h : c.covers db t key = true) : key.recordId ∈ c.affected db t := by
  obtain ⟨hreads, hwide | hmem⟩ := covers_iff.mp h
  · obtain ⟨r, hr, rfl⟩ := List.mem_map.mp hstored
    rw [PrivacyCall.affected, affectedRecordIds, Database.mem_sortTexts,
      if_neg (isWide_iff.mp hwide)]
    exact List.mem_map.mpr ⟨r, List.mem_filter.mpr ⟨hr, hreads⟩, rfl⟩
  · exact hmem

/-- **The states of a request.**  Behind a completed request a record carries
a purged state when it did so or the request covers it. -/
theorem isPurged_recordDeletion_iff (hconstraints : t.Constraints)
    (h : recordDeletion t c.identity c.body c.environment (c.affected db t) = some t')
    (key : EvidenceKey) :
    t'.isPurged key ↔ t.isPurged key ∨ (t.isStored key ∧ c.covers db t key = true) := by
  obtain ⟨t₁, h₁, rfl⟩ := recordDeletion_eq_some h
  have hopen : (t.openRequest c.identity c.body c.environment (c.affected db t)).Constraints :=
    ⟨hconstraints.1, hconstraints.2, hconstraints.3⟩
  refine (isPurged_appendPurges_iff hopen h₁).trans (or_congr_right' (fun hnot => ⟨?_, ?_⟩))
  · rintro ⟨hscope, hmem, hstored⟩
    refine ⟨hstored, covers_iff.mpr ⟨?_, .inr hmem⟩⟩
    rw [hscope]
    simp [PrivacyRequestBody.reads, RequestEnvironment.context, PrivacyRequestBody.scope]
  · rintro ⟨hstored, hcovers⟩
    have hmem := mem_affected_of_covers hstored hcovers
    refine ⟨?_, hmem, hstored⟩
    -- the row of the record was allowed
    have hsome := appendPurges_isSome_iff.mp (Option.isSome_of_eq_some h₁) key.recordId hmem
    obtain ⟨s, hs, hid, hstatus⟩ | hraw := hsome.2
    · have hstate := hconstraints.states s hs
      rw [hid] at hstate
      exact absurd ⟨s, hs, hconstraints.scope_eq hstate hstored, hid, hstatus⟩ hnot
    · exact hconstraints.scope_eq hstored hraw

/-- **Step.**  The rows behind one more completed request: its records carry
purged states, and nothing else changes for them. -/
theorem PurgedSoFar.recordDeletion (h : PurgedSoFar db t₀ taken t)
    (hdeletion : recordDeletion t c.identity c.body c.environment (c.affected db t) = some t') :
    PurgedSoFar db t₀ (taken ++ [c]) t' := by
  have hpurged := isPurged_recordDeletion_iff h.constraints hdeletion
  obtain ⟨t₁, h₁, rfl⟩ := recordDeletion_eq_some hdeletion
  have happends := appendsPurges_of_appendPurges h₁
  have hopened : SameObjects t
      (t.openRequest c.identity c.body c.environment (c.affected db t)) :=
    ⟨rfl, rfl, rfl, rfl, rfl, rfl, rfl, fun r hr => (List.mem_filter.mp hr).1, rfl⟩
  have hclosed : SameObjects t₁ (t₁.closeRequest c.identity c.body c.environment
      (c.affected db t)) := ⟨rfl, rfl, rfl, rfl, rfl, rfl, rfl, fun _ hr => hr, rfl⟩
  have hopen : (t.openRequest c.identity c.body c.environment (c.affected db t)).Constraints :=
    ⟨h.constraints.1, h.constraints.2, h.constraints.3⟩
  have hconstraints := hopen.appendPurges h₁
  obtain ⟨_, _, _, ht₁, -⟩ := happends.appended
  refine ⟨h.objects.trans (hopened.trans (happends.sameObjects.trans hclosed)), ?_, ?_, ?_,
    ⟨hconstraints.1, hconstraints.2, hconstraints.3⟩⟩
  · -- a lookup is kept, unless one of the requests covers its install
    intro r hr
    rcases h.lookups r hr with hthere | ⟨c', hc', hcovers⟩
    · by_cases hcovers : c.covers db t ⟨r.scope, r.installRecordId⟩ = true
      · rw [h.objects.covers] at hcovers
        exact .inr ⟨c, List.mem_append_right _ List.mem_cons_self, hcovers⟩
      · refine .inl ?_
        rw [ht₁]
        have hkept : c.body.selects (c.affected db t) r.scope r.installRecordId = false :=
          Bool.eq_false_iff.mpr hcovers
        exact List.mem_filter.mpr ⟨hthere, by rw [hkept]; rfl⟩
    · exact .inr ⟨c', List.mem_append_left _ hc', hcovers⟩
  · intro key
    have hstored : t.isStored key ↔ t₀.isStored key := by
      rw [PrivacyTables.isStored, h.objects.rawRecords]
      exact Iff.rfl
    rw [hpurged key, h.purged key, h.objects.covers, hstored]
    simp only [List.mem_append, List.mem_singleton, or_and_right, exists_or, exists_eq_left,
      and_or_left, or_assoc]
  · intro a ha
    rw [ht₁] at ha
    rcases List.mem_append.mp ha with ha | ha
    · obtain ⟨c', hc', rfl⟩ := h.requests a ha
      exact ⟨c', List.mem_append_left _ hc', rfl⟩
    · refine ⟨c, List.mem_append_right _ List.mem_cons_self, ?_⟩
      rw [List.mem_singleton.mp ha, PrivacyCall.artifact, h.objects.affected]

/-- **Step.**  The objects behind one more completed request: those it is about
are gone, and all others are as they were. -/
theorem ReadableSoFar.purgeAll {w₀ : PrivacyWorld} {readable : List String}
    (h : ReadableSoFar db w₀ taken readable) (htables : PurgedSoFar db w₀.tables taken t) :
    ReadableSoFar db w₀ (taken ++ [c]) (ObjectStore.purgeAll readable
      (t.erasedReferences db c.body (c.affected db t) c.identity)) := by
  intro ref henc
  rw [ObjectStore.mem_purgeAll, mem_erasedReferences henc, h ref henc]
  simp only [List.mem_append, List.mem_singleton, or_imp, forall_and, forall_eq, and_assoc]
  refine and_congr_right (fun _ => and_congr_right (fun hnone => not_congr ⟨?_, ?_⟩))
  · exact htables.objects.erases
  · intro herases
    rcases htables.objects.erases_of_erases herases with hsame | ⟨r, hr, hgone, href⟩
    · exact hsame
    · -- the lookup is gone with an earlier request, which erased the object
      obtain ⟨c', hc', hcovers⟩ := (htables.lookups r hr).resolve_left hgone
      exact absurd (.inr (.inr (.inr ⟨_, .inr (.inl ⟨r, hr, href, rfl⟩), hcovers⟩)))
        (hnone c' hc')

/-- What a completed request leaves. -/
theorem execute_of_completes {w : PrivacyWorld} (h : Completes db w c) :
    ∃ t', recordDeletion w.tables c.identity c.body c.environment (c.affected db w.tables) = some t' ∧
      w.execute db c = ⟨t', ObjectStore.purgeAll w.readable
        (w.tables.erasedReferences db c.body (c.affected db w.tables) c.identity)⟩ := by
  obtain ⟨artifact, hok⟩ := h
  cases hrefusal : refusal c.identity c.body with
  | some failure =>
      rw [execute_of_refused hrefusal] at hok
      cases hok
  | none =>
      cases hfault : c.environment.fault with
      | some n =>
          rw [execute_of_fault db w hrefusal hfault] at hok
          cases hok
      | none =>
          have hrun := execute_of_no_fault db w hrefusal hfault
          rw [hrun] at hok
          unfold PrivacyWorld.execute PrivacyCall.affected
          cases hdeletion : OpenMasu.recordDeletion w.tables c.identity c.body c.environment
              (affectedRecordIds db c.body w.tables.ledger) with
          | none =>
              rw [hdeletion] at hok
              cases hok
          | some t' =>
              rw [hrun, hdeletion]
              exact ⟨t', rfl, rfl⟩

/-- **Step.**  A completed request keeps the invariant, with the request among
those taken. -/
theorem erasureInvariant_execute {w₀ w : PrivacyWorld} (h : ErasureInvariant db w₀ taken w)
    (hcompletes : Completes db w c) : ErasureInvariant db w₀ (taken ++ [c]) (w.execute db c) := by
  obtain ⟨t', hdeletion, hrun⟩ := execute_of_completes hcompletes
  rw [hrun]
  exact ⟨h.tables.recordDeletion hdeletion, h.readable.purgeAll h.tables⟩


/-- The replacement of metric runs changes no other table. -/
theorem replaceSources_eq_some {a : DeletionArtifact} {ms : List ReplayManifest}
    (h : replaceSources db a ms t = some t') : ∃ runs, t' = { t with metricRuns := runs } := by
  induction ms generalizing t with
  | nil =>
      cases h
      exact ⟨_, rfl⟩
  | cons m rest ih =>
      obtain ⟨t₁, h₁, hrest⟩ := Option.bind_eq_some_iff.mp h
      obtain ⟨runs, rfl⟩ := ih hrest
      unfold replaceSource at h₁
      split at h₁
      · cases h₁
        exact ⟨_, rfl⟩
      · obtain ⟨run, -, h₁⟩ := Option.bind_eq_some_iff.mp h₁
        obtain ⟨runs', -, h₁⟩ := Option.bind_eq_some_iff.mp h₁
        cases h₁
        exact ⟨_, rfl⟩

/-- What a re-applied request leaves: its purges, without the lookups it
selects, and rows of metrics and of the log. -/
theorem reapplyOne_eq_some {a : DeletionArtifact} {records : List Identifier}
    (h : reapplyOne db t a records = some t') :
    ∃ t₁ runs logs, t.appendPurges a.context records = some t₁ ∧ t' = { t₁ with
      lookups := t₁.lookups.filter (fun r => !a.selects records r.scope r.installRecordId)
      metricRuns := runs
      auditLogs := logs } := by
  obtain ⟨t₁, h₁, h⟩ := Option.bind_eq_some_iff.mp h
  obtain ⟨t₂, h₂, h⟩ := Option.bind_eq_some_iff.mp h
  obtain ⟨runs, rfl⟩ := replaceSources_eq_some h₂
  cases h
  unfold PrivacyTables.logReapply
  split
  · exact ⟨t₁, runs, _, h₁, rfl⟩
  · exact ⟨t₁, runs, _, h₁, rfl⟩

/-- **Step.**  The rows behind one more re-application of a request taken
before. -/
theorem PurgedSoFar.reapplyOne {records : List Identifier} (h : PurgedSoFar db t₀ taken t)
    (hc : c ∈ taken) (hrecords : ∀ r, r ∈ records ↔ r ∈ c.affected db t₀)
    (hreapplied : reapplyOne db t (c.artifact db t₀) records = some t') :
    PurgedSoFar db t₀ taken t' := by
  obtain ⟨t₁, runs, logs, h₁, rfl⟩ := reapplyOne_eq_some hreapplied
  have happends := appendsPurges_of_appendPurges h₁
  have hconstraints := h.constraints.appendPurges h₁
  have hdropped : SameObjects t₁ { t₁ with
      lookups := t₁.lookups.filter
        (fun r => !(c.artifact db t₀).selects records r.scope r.installRecordId)
      metricRuns := runs
      auditLogs := logs } :=
    ⟨rfl, rfl, rfl, rfl, rfl, rfl, rfl, fun r hr => (List.mem_filter.mp hr).1, rfl⟩
  obtain ⟨_, _, _, ht₁, -⟩ := happends.appended
  refine ⟨h.objects.trans (happends.sameObjects.trans hdropped), ?_, ?_, ?_,
    ⟨hconstraints.1, hconstraints.2, hconstraints.3⟩⟩
  · intro r hr
    rcases h.lookups r hr with hthere | hgone
    · have hselects : (c.artifact db t₀).selects records r.scope r.installRecordId =
          c.covers db t₀ ⟨r.scope, r.installRecordId⟩ :=
        selects_eq_covers hrecords ⟨r.scope, r.installRecordId⟩
      by_cases hcovers : c.covers db t₀ ⟨r.scope, r.installRecordId⟩ = true
      · exact .inr ⟨c, hc, hcovers⟩
      · refine .inl (List.mem_filter.mpr ⟨?_, ?_⟩)
        · rw [ht₁]
          exact hthere
        · rw [hselects, Bool.eq_false_iff.mpr hcovers]
          rfl
    · exact .inr hgone
  · intro key
    refine (isPurged_appendPurges_iff h.constraints h₁).trans ?_
    rw [h.purged key]
    refine ⟨?_, .inl⟩
    rintro (hkey | ⟨hscope, hmem, hstored⟩)
    · exact hkey
    · -- the request covered the record when it was taken
      rw [PrivacyTables.isStored, h.objects.rawRecords] at hstored
      refine .inr ⟨hstored, c, hc, covers_iff.mpr ⟨?_, .inr ((hrecords _).mp hmem)⟩⟩
      rw [hscope]
      simp [PrivacyRequestBody.reads, DeletionArtifact.context, PrivacyCall.artifact,
        deletionArtifact, PrivacyRequestBody.scope]
  · intro a ha
    rw [ht₁] at ha
    exact h.requests a ha

/-- **Step.**  The objects behind one more re-application are the same. -/
theorem ReadableSoFar.reapplied {w₀ : PrivacyWorld} {readable : List String}
    {records : List Identifier} (h : ReadableSoFar db w₀ taken readable)
    (htables : PurgedSoFar db w₀.tables taken t) (hmembers : w₀.tables.membersInScope)
    (hc : c ∈ taken) (hrecords : ∀ r, r ∈ records ↔ r ∈ c.affected db w₀.tables) :
    ReadableSoFar db w₀ taken (ObjectStore.purgeAll readable
      (t.encryptedReferences (c.artifact db w₀.tables) records)) := by
  intro ref henc
  rw [ObjectStore.mem_purgeAll, h ref henc]
  refine ⟨And.left, fun hreadable => ⟨hreadable, fun hmem => hreadable.2 c hc ?_⟩⟩
  -- what is purged again was erased by the request
  have hmembers' : t.membersInScope := by
    unfold PrivacyTables.membersInScope PrivacyTables.membersOf
    rw [htables.objects.batches, htables.objects.batchRecords]
    exact hmembers
  have hrecords' : ∀ r, r ∈ records ↔ r ∈ c.affected db t := by
    rw [htables.objects.affected]
    exact hrecords
  have hartifact : c.artifact db w₀.tables = c.artifact db t := by
    rw [PrivacyCall.artifact, PrivacyCall.artifact, htables.objects.affected]
  rw [hartifact] at hmem
  exact htables.objects.erases (erases_of_mem_encryptedReferences hmembers' hrecords' hmem)

/-- **Pass.**  Re-applying requests taken before keeps the invariant, whether
the pass returns or throws. -/
theorem reapplyRequests_invariant {w₀ : PrivacyWorld} (hmembers : w₀.tables.membersInScope)
    {requests : List DeletionArtifact} {readable : List String}
    (hrequests : ∀ a ∈ requests, ∃ c ∈ taken, a = c.artifact db w₀.tables)
    (htables : PurgedSoFar db w₀.tables taken t) (hreadable : ReadableSoFar db w₀ taken readable) :
    (∀ t', (reapplyRequests db requests t readable).1 = some t' →
      PurgedSoFar db w₀.tables taken t') ∧
    ReadableSoFar db w₀ taken (reapplyRequests db requests t readable).2 := by
  induction requests generalizing t readable with
  | nil =>
      refine ⟨fun t' h => ?_, hreadable⟩
      cases h
      exact htables
  | cons a rest ih =>
      obtain ⟨c, hc, rfl⟩ := hrequests a List.mem_cons_self
      unfold reapplyRequests
      cases hrecords : (c.artifact db w₀.tables).records with
      | none => exact ⟨fun _ h => (nomatch h), hreadable⟩
      | some records =>
          have hsame := records_artifact hrecords
          have hpurged := hreadable.reapplied htables hmembers hc hsame
          dsimp only
          cases hone : OpenMasu.reapplyOne db t (c.artifact db w₀.tables) records with
          | none => exact ⟨fun _ h => (nomatch h), hpurged⟩
          | some t₁ =>
              exact ih (fun a ha => hrequests a (List.mem_cons_of_mem _ ha))
                (htables.reapplyOne hc hsame hone) hpurged

/-- **Step.**  A pass over the requests of a tenant keeps the invariant. -/
theorem erasureInvariant_reapply {w₀ w : PrivacyWorld} (hmembers : w₀.tables.membersInScope)
    (h : ErasureInvariant db w₀ taken w) (tenantId : Identifier) :
    ErasureInvariant db w₀ taken (reapplyCompletedPrivacyRequests db w tenantId).1 := by
  have hrequests : ∀ a ∈ w.tables.completedRequests db tenantId,
      ∃ c ∈ taken, a = c.artifact db w₀.tables := by
    intro a ha
    rw [PrivacyTables.completedRequests, KeyedSort.mem_sortOn, Database.mem_sortTexts] at ha
    exact h.tables.requests a (List.mem_filter.mp ha).1
  obtain ⟨htables, hreadable⟩ :=
    reapplyRequests_invariant hmembers hrequests h.tables h.readable
  refine ⟨?_, hreadable⟩
  unfold reapplyCompletedPrivacyRequests
  cases hpass : (reapplyRequests db (w.tables.completedRequests db tenantId) w.tables
      w.readable).1 with
  | none =>
      simp only [hpass, Option.getD_none]
      exact h.tables
  | some t' =>
      simp only [hpass, Option.getD_some]
      exact htables t' hpass

end Steps

section Run

variable {db} {w : PrivacyWorld} {calls : List PrivacyCall}

/-- Before the first request: the constraints hold, the members of batches are
of their scope, and no request is stored. -/
structure BeforeDeletions (t : PrivacyTables) : Prop where
  constraints : t.Constraints
  members : t.membersInScope
  noRequests : t.privacyRequests = []

/-- **Start.**  Before the first request the invariant holds. -/
theorem erasureInvariant_start (db : Database) (hbefore : BeforeDeletions w.tables) :
    ErasureInvariant db w [] w where
  tables := {
    objects := .refl _
    lookups := fun _ hr => .inl hr
    purged := fun _ => by simp
    requests := fun a ha => by
      rw [hbefore.noRequests] at ha
      cases ha
    constraints := hbefore.constraints }
  readable := fun _ _ => by simp

/-- **Run.**  Behind any completed requests, and any passes over them, the
invariant holds of all of them. -/
theorem erasureInvariant_run (hbefore : BeforeDeletions w.tables)
    (hcomplete : AppendOnly.StepsMeet (PrivacyWorld.execute db) (Completes db) w calls)
    (tenants : List Identifier) :
    ErasureInvariant db w calls ((w.executeAll db calls).reapplyAll db tenants) := by
  have hrun := AppendOnly.invariant_of_history
    (fun _ _ _ h hc => erasureInvariant_execute h hc) hcomplete (erasureInvariant_start db hbefore)
  rw [List.nil_append] at hrun
  unfold PrivacyWorld.reapplyAll PrivacyWorld.executeAll
  induction tenants using List.reverseRecOn with
  | nil => exact hrun
  | append_singleton rest tenantId ih =>
      rw [List.foldl_append]
      exact erasureInvariant_reapply hbefore.members ih tenantId

end Run

section Law

/-- **Complete and exact erasure.**  Behind completed requests and passes over
them, an encrypted object whose records all carry a purged state cannot be
read, and one of a record no request covers can. -/
structure ErasureIsExact (w : PrivacyWorld) (calls : List PrivacyCall) (tenants : List Identifier) :
    Prop where
  complete : ∀ ref, isEncrypted ref = true → (∃ key, w.tables.Refers ref key) →
    (∀ key, w.tables.Refers ref key →
      ((w.executeAll db calls).reapplyAll db tenants).tables.isPurged key) →
    ref ∉ ((w.executeAll db calls).reapplyAll db tenants).readable
  exact : ∀ ref ∈ w.readable, isEncrypted ref = true →
    (∃ key, w.tables.Refers ref key ∧ ∀ c ∈ calls, c.covers db w.tables key = false) →
    ref ∈ ((w.executeAll db calls).reapplyAll db tenants).readable

omit [Digest] in
/-- A request is about an object that several records share. -/
def PrivacyCall.ErasesShared (c : PrivacyCall) (t : PrivacyTables) (ref : String) : Prop :=
  c.ErasesPayload db t ref ∨ c.ErasesBatch db t ref ∨ c.ErasesQueries t ref

omit [Digest] in
/-- The records of an object in one request.  An object whose records are all
deleted, none of which it is a query, token or response of, is about a single
request; an object of a record no request covers is about none, and is no
query, token or response of a covered record. -/
structure SharedInOneRequest (w : PrivacyWorld) (calls : List PrivacyCall) : Prop where
  together : ∀ ref ∈ w.readable, isEncrypted ref = true → (∃ key, w.tables.Refers ref key) →
    (∀ key, w.tables.Refers ref key → w.tables.isPurged key ∨
      (w.tables.isStored key ∧ ∃ c ∈ calls, c.covers db w.tables key = true)) →
    (∀ key, w.tables.RefersDirectly ref key → ∀ c ∈ calls, c.covers db w.tables key = false) →
    ∃ c ∈ calls, c.ErasesShared db w.tables ref
  apart : ∀ ref ∈ w.readable, isEncrypted ref = true →
    (∃ key, w.tables.Refers ref key ∧ ∀ c ∈ calls, c.covers db w.tables key = false) →
    ∀ c ∈ calls, ¬c.ErasesShared db w.tables ref ∧
      ∀ key, w.tables.RefersDirectly ref key → c.covers db w.tables key = false

variable {db} {w : PrivacyWorld} {calls : List PrivacyCall}

omit [Digest] in
/-- A request erases what it is about, and the queries, tokens and responses
of its records. -/
theorem erases_iff {c : PrivacyCall} {t : PrivacyTables} {ref : String} : c.Erases db t ref ↔
    c.ErasesShared db t ref ∨ ∃ key, t.RefersDirectly ref key ∧ c.covers db t key = true := by
  rw [PrivacyCall.Erases, PrivacyCall.ErasesShared, or_assoc, or_assoc]

/-- **When erasure is complete and exact.**  Exactly when the records of each
object meet in one request: an object whose records are deleted by several
requests is erased by none, and one that a wide request erases may be of a
record that stays. -/
theorem erasureIsExact_iff (hbefore : BeforeDeletions w.tables)
    (hcomplete : AppendOnly.StepsMeet (PrivacyWorld.execute db) (Completes db) w calls)
    (tenants : List Identifier) :
    ErasureIsExact db w calls tenants ↔ SharedInOneRequest db w calls := by
  have hrun := erasureInvariant_run hbefore hcomplete tenants
  have hpurged := hrun.tables.purged
  constructor
  · intro hexact
    refine ⟨fun ref hread henc hrefers hdeleted hindirect => ?_,
      fun ref hread henc huncovered c hc => ?_⟩
    · -- the object is gone, so some request erased it
      have hgone := hexact.complete ref henc hrefers
        (fun key hkey => (hpurged key).mpr (hdeleted key hkey))
      rw [hrun.readable ref henc, not_and] at hgone
      obtain ⟨c, hc, herases⟩ : ∃ c ∈ calls, c.Erases db w.tables ref := by
        by_contra hnone
        exact hgone hread (fun c hc herases => hnone ⟨c, hc, herases⟩)
      rcases erases_iff.mp herases with hshared | ⟨key, hdirect, hcovers⟩
      · exact ⟨c, hc, hshared⟩
      · rw [hindirect key hdirect c hc] at hcovers
        cases hcovers
    · -- the object is there, so no request erased it
      have hthere := hexact.exact ref hread henc huncovered
      have hnot := ((hrun.readable ref henc).mp hthere).2 c hc
      rw [erases_iff, not_or] at hnot
      refine ⟨hnot.1, fun key hdirect => ?_⟩
      by_contra hcovers
      exact hnot.2 ⟨key, hdirect, by simpa using hcovers⟩
  · intro hshared
    refine ⟨fun ref henc hrefers hstates hread => ?_, fun ref hread henc huncovered => ?_⟩
    · obtain ⟨hread₀, hnone⟩ := (hrun.readable ref henc).mp hread
      have hindirect : ∀ key, w.tables.RefersDirectly ref key →
          ∀ c ∈ calls, c.covers db w.tables key = false := by
        intro key hdirect c hc
        by_contra hcovers
        exact hnone c hc (erases_iff.mpr (.inr ⟨key, hdirect, by simpa using hcovers⟩))
      obtain ⟨c, hc, herases⟩ := hshared.together ref hread₀ henc hrefers
        (fun key hkey => (hpurged key).mp (hstates key hkey)) hindirect
      exact hnone c hc (erases_iff.mpr (.inl herases))
    · refine (hrun.readable ref henc).mpr ⟨hread, fun c hc herases => ?_⟩
      obtain ⟨hnot, hdirect⟩ := hshared.apart ref hread henc huncovered c hc
      rcases erases_iff.mp herases with hone | ⟨key, hkey, hcovers⟩
      · exact hnot hone
      · rw [hdirect key hkey] at hcovers
        cases hcovers

end Law

end Invariant

section Runs

attribute [local instance] checksumDigest

/-- The app's administrator deletes the app. -/
def appCall : PrivacyCall := ⟨appAdmin, adminRequest .app, quietEnvironment⟩

/-- A ledger of one record, whose integrity was verified. -/
def verifiedWorld : PrivacyWorld where
  tables := { (oneRecordWorld cohortScope).tables with
    verificationResults := [⟨cohortScope, .named "record",
      some "encrypted:verdict"⟩] }
  readable := ["encrypted:record", "encrypted:verdict"]

/-- **A response that stays.**  The app is deleted and its one record purged;
the response to the record's integrity check can still be read, since no
selection of the request lists it. -/
theorem verification_response_stays :
    Completes plainDatabase verifiedWorld appCall ∧
    isEncrypted "encrypted:verdict" = true ∧
    verifiedWorld.tables.Refers "encrypted:verdict" ⟨cohortScope, ⟨"record", by decide⟩⟩ ∧
    (∀ key, verifiedWorld.tables.Refers "encrypted:verdict" key →
      ((verifiedWorld.executeAll plainDatabase [appCall]).reapplyAll plainDatabase
        [cohortScope.tenantId]).tables.isPurged key) ∧
    "encrypted:verdict" ∈ ((verifiedWorld.executeAll plainDatabase [appCall]).reapplyAll
      plainDatabase [cohortScope.tenantId]).readable := by
  refine ⟨completes_of_isOk (by decide +kernel), by decide +kernel,
    .inr (.inr (.inr ⟨_, List.mem_cons_self, rfl, rfl⟩)), ?_, by decide +kernel⟩
  intro key hkey
  have hpurged : ((verifiedWorld.executeAll plainDatabase [appCall]).reapplyAll plainDatabase
      [cohortScope.tenantId]).tables.isPurged ⟨cohortScope, ⟨"record", by decide⟩⟩ :=
    ⟨_, List.mem_cons_self, rfl, rfl, rfl⟩
  rcases hkey with ⟨r, hr, -, href⟩ | ⟨b, hb, -⟩ | (⟨q, hq, -⟩ | ⟨r, hr, -⟩ | ⟨r, hr, -⟩) |
    ⟨v, hv, -, rfl⟩
  · rw [List.mem_singleton.mp hr] at href
    exact absurd href (by decide)
  · exact absurd hb List.not_mem_nil
  · exact absurd hq List.not_mem_nil
  · exact absurd hr List.not_mem_nil
  · exact absurd hr List.not_mem_nil
  · rw [List.mem_singleton.mp hv]
    exact hpurged

/-- An object is of a record of the app, which the request covers, or of the
other app's record. -/
theorem batchWorld_refers {ref : String} {key : EvidenceKey}
    (h : batchWorld.tables.Refers ref key) :
    (ref ∈ ["encrypted:pair", "encrypted:batch"] ∧
        appCall.covers plainDatabase batchWorld.tables key = true) ∨
      (ref = "encrypted:other" ∧ appCall.covers plainDatabase batchWorld.tables key = false ∧
        ¬batchWorld.tables.isPurged key) := by
  have hpayloads : ∀ r ∈ batchWorld.tables.ledger.rawRecords,
      (r.rawPayloadRef ∈ ["encrypted:pair", "encrypted:batch"] ∧
        appCall.covers plainDatabase batchWorld.tables r.evidenceKey = true) ∨
      (r.rawPayloadRef = "encrypted:other" ∧
        appCall.covers plainDatabase batchWorld.tables r.evidenceKey = false) := by decide
  have hmembers : ∀ b ∈ batchWorld.tables.batches,
      b.bodyRef ∈ ["encrypted:pair", "encrypted:batch"] ∧ ∀ m ∈ batchWorld.tables.membersOf b,
        appCall.covers plainDatabase batchWorld.tables ⟨m.scope, m.recordId⟩ = true := by decide
  rcases h with ⟨r, hr, rfl, rfl⟩ | ⟨b, hb, rfl, m, hm, rfl⟩ | (⟨q, hq, -⟩ | ⟨r, hr, -⟩ |
    ⟨r, hr, -⟩) | ⟨v, hv, -⟩
  · have hunpurged : ¬batchWorld.tables.isPurged r.evidenceKey := by
      rintro ⟨s, hs, -⟩
      exact absurd hs List.not_mem_nil
    exact (hpayloads r hr).imp_right fun h => ⟨h.1, h.2, hunpurged⟩
  · obtain ⟨href, hcovered⟩ := hmembers b hb
    exact .inl ⟨href, hcovered m hm⟩
  · exact absurd hq List.not_mem_nil
  · exact absurd hr List.not_mem_nil
  · exact absurd hr List.not_mem_nil
  · exact absurd hv List.not_mem_nil

/-- The deletion of an app is complete and exact: the payload its two records
share and the batch they came in are gone, and the other app's payload can be
read. -/
theorem app_erasure_isExact :
    ErasureIsExact plainDatabase batchWorld [appCall] [cohortScope.tenantId] := by
  have hmembers : batchWorld.tables.membersInScope := by
    unfold PrivacyTables.membersInScope
    decide
  have hbefore : BeforeDeletions batchWorld.tables := ⟨batchWorld_constraints, hmembers, rfl⟩
  have hcomplete : AppendOnly.StepsMeet (PrivacyWorld.execute plainDatabase)
      (Completes plainDatabase) batchWorld [appCall] :=
    ⟨completes_of_isOk (by decide +kernel), trivial⟩
  have hreferred : ∀ ref key, batchWorld.tables.RefersDirectly ref key → False := by
    rintro ref key (⟨q, hq, -⟩ | ⟨r, hr, -⟩ | ⟨r, hr, -⟩)
    · exact absurd hq List.not_mem_nil
    · exact absurd hr List.not_mem_nil
    · exact absurd hr List.not_mem_nil
  have hpair : appCall.ErasesPayload plainDatabase batchWorld.tables "encrypted:pair" :=
    ⟨_, List.mem_cons_self, rfl, by decide, .inl rfl⟩
  have hbatch : appCall.ErasesBatch plainDatabase batchWorld.tables "encrypted:batch" :=
    ⟨_, List.mem_cons_self, rfl, by decide, .inl rfl⟩
  have hother : ¬appCall.ErasesShared plainDatabase batchWorld.tables "encrypted:other" := by
    rintro (⟨r, hr, href, hcovers, -⟩ | ⟨b, hb, href, -⟩ | ⟨-, q, hq, -⟩)
    · rcases batchWorld_refers (.inl ⟨r, hr, rfl, href⟩) with ⟨hmem, -⟩ | ⟨-, hkept, -⟩
      · exact absurd hmem (by decide)
      · rw [hkept] at hcovers
        cases hcovers
    · rw [List.mem_singleton.mp hb] at href
      exact absurd href (by decide)
    · exact absurd hq List.not_mem_nil
  refine (erasureIsExact_iff hbefore hcomplete [cohortScope.tenantId]).mpr ⟨?_, ?_⟩
  · intro ref _ _ hsome hdeleted _
    obtain ⟨key, hkey⟩ := hsome
    refine ⟨appCall, List.mem_cons_self, ?_⟩
    rcases batchWorld_refers hkey with ⟨href, -⟩ | ⟨-, hkept, hunpurged⟩
    · rcases List.mem_cons.mp href with rfl | href
      · exact .inl hpair
      · rw [List.mem_singleton.mp href]
        exact .inr (.inl hbatch)
    · -- the other app's record is not deleted
      rcases hdeleted key hkey with hpurged | ⟨-, c, hc, hcovers⟩
      · exact absurd hpurged hunpurged
      · rw [List.mem_singleton.mp hc, hkept] at hcovers
        cases hcovers
  · intro ref _ _ huncovered c hc
    obtain ⟨key, hkey, hnone⟩ := huncovered
    rw [List.mem_singleton.mp hc]
    rcases batchWorld_refers hkey with ⟨-, hcovers⟩ | ⟨rfl, -, -⟩
    · rw [hnone appCall List.mem_cons_self] at hcovers
      cases hcovers
    · exact ⟨hother, fun key hdirect => (hreferred _ key hdirect).elim⟩

end Runs

end OpenMasu
