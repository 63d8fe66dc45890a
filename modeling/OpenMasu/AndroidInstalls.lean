import OpenMasu.AndroidSdk
import OpenMasu.InputChecks
import Mathlib.Data.List.Pairwise

/-!
# One install for each installation

The first start inserts the install before it marks the referrer as read, and
a reset makes a new id before it inserts the install of it.  Where no first
start finds the mark missing after an install, and no reset is cut off between
the two, every installation has one install, which comes first.

* `InstallsOnce` — at most one install and one deferred opening each, and a
  reset id's install before its other events;
* `policy` — the steps in which the mark and the history agree;
* `Undisturbed` — what other threads and the bookkeeping of a task leave;
* `installsOnce_of_run` — every run of such steps.
-/

namespace OpenMasu.Android

open DurableTasks

section Histories

/-- The installation that a payload is the install of. -/
def Payload.installOf : Payload → Option InstallationId
  | install id _ _ _ _ => some id
  | _ => none

/-- The installation that a payload is the deferred opening of. -/
def Payload.deferredOf : Payload → Option InstallationId
  | deferredOpen id _ => some id
  | _ => none

/-- The installations that have an install. -/
def installedIds (events : List QueuedEvent) : List InstallationId :=
  events.filterMap fun e => e.payload.installOf

/-- The installations that have a deferred opening. -/
def deferredIds (events : List QueuedEvent) : List InstallationId :=
  events.filterMap fun e => e.payload.deferredOf

/-- One more event adds the installation it is the install of, if there is one.
-/
@[simp] theorem installedIds_append (l : List QueuedEvent) (e : QueuedEvent) :
    installedIds (l ++ [e]) = installedIds l ++ e.payload.installOf.toList := by
  rw [installedIds, List.filterMap_append]
  cases h : e.payload.installOf <;> simp [installedIds, h]

/-- One more event adds the installation it is the deferred opening of, if
there is one. -/
@[simp] theorem deferredIds_append (l : List QueuedEvent) (e : QueuedEvent) :
    deferredIds (l ++ [e]) = deferredIds l ++ e.payload.deferredOf.toList := by
  rw [deferredIds, List.filterMap_append]
  cases h : e.payload.deferredOf <;> simp [deferredIds, h]

/-- The install of an installation names it. -/
theorem Payload.installationId_of_installOf {p : Payload} {id : InstallationId}
    (h : p.installOf = some id) : p.installationId = some id := by
  cases p <;> first | exact h | cases h

/-- Every event that names one of the ids, and is not its install, comes after
its install. -/
def Anchored (ids : List InstallationId) (events : List QueuedEvent) : Prop :=
  ∀ before e after, events = before ++ e :: after → e.payload.installOf = none →
    ∀ id ∈ ids, e.payload.installationId = some id → id ∈ installedIds before

/-- One more event keeps the others behind their installs, where it is an
install itself or the install it needs is already there. -/
theorem Anchored.snoc {ids : List InstallationId} {l : List QueuedEvent} {e : QueuedEvent}
    (h : Anchored ids l) (he : e.payload.installOf = none → ∀ id ∈ ids,
      e.payload.installationId = some id → id ∈ installedIds l) : Anchored ids (l ++ [e]) := by
  intro before x after heq
  rcases List.eq_nil_or_concat after with rfl | ⟨init, last, rfl⟩
  · obtain ⟨rfl, hx⟩ := List.append_inj' heq rfl
    cases hx
    exact he
  · have hsplit : l ++ [e] = (before ++ x :: init) ++ [last] := by simpa using heq
    obtain ⟨rfl, -⟩ := List.append_inj' hsplit rfl
    exact h before x init rfl

/-- An id that no event names can be added. -/
theorem Anchored.cons {ids : List InstallationId} {l : List QueuedEvent} {new : InstallationId}
    (h : Anchored ids l) (hnew : ∀ e ∈ l, e.payload.installationId ≠ some new) :
    Anchored (new :: ids) l := by
  intro before e after heq hnone id hid hnames
  rcases List.mem_cons.mp hid with rfl | hid
  · exact absurd hnames (hnew e (by simp [heq]))
  · exact h before e after heq hnone id hid hnames

end Histories

section Invariants

variable (configuration : Configuration)

/-- At most one install and one deferred opening for each installation, and
the install of a reset id before its other events. -/
structure InstallsOnce (s : Store) : Prop where
  installs : (installedIds s.inserted).Nodup
  deferred : (deferredIds s.inserted).Nodup
  anchored : Anchored s.resetIds s.inserted

/-- An id that was drawn. -/
def Drawn (s : Store) (id : InstallationId) : Prop := id.uuid < s.drawn

/-- What holds at every moment. -/
structure Consistent (s : Store) : Prop extends InstallsOnce s where
  inserted : ∀ e ∈ s.inserted, ∀ id, e.payload.installationId = some id → Drawn s id
  reset : ∀ id ∈ s.resetIds, Drawn s id
  current : ∀ id, s.installationId = some id → Drawn s id
  measured : ∀ id ∈ s.measured, Drawn s id
  queued : ∀ e ∈ s.queue, ∀ uuid, e.eventId = .drawn uuid → uuid < s.drawn

/-- The referrer counts as unread, but an install or a deferred opening whose
own mark is missing was inserted. -/
def Store.unsettled (s : Store) : Prop :=
  s.referrerConsumed = false ∧ (installedIds s.inserted ≠ [] ∨
    (s.deferredDestinationConsumed = false ∧ deferredIds s.inserted ≠ []))

/-- An id made by a reset has no install. -/
def Store.anchorless (s : Store) : Prop := ∃ id ∈ s.resetIds, id ∉ installedIds s.inserted

/-- A first start finds the referrer settled; a reset makes its id while
collection is on; and until that id has its install, collection is not turned
off and the process does not die.  Ad revenue names an id that was handed
out. -/
def policy : Policy (device configuration) where
  begins := fun c s => match c with
    | .initializeSdk => ¬s.unsettled
    | .enqueueAdRevenue id _ _ => ∀ given, id = some given → given ∈ s.measured
    | _ => True
  permits := fun o s => ∀ id, o = .write (.replaceInstallationId id) →
    s.isCollectionEnabled configuration = true
  answers := fun _ _ _ => True
  outside := fun e s => e = .setCollectionEnabled false → ¬s.anchorless
  death := fun s => ¬s.anchorless

/-- What other threads and the bookkeeping of a task leave. -/
structure Undisturbed (s t : Store) : Prop where
  inserted : t.inserted = s.inserted
  reset : t.resetIds = s.resetIds
  referrer : t.referrerConsumed = s.referrerConsumed
  destination : t.deferredDestinationConsumed = s.deferredDestinationConsumed
  drawn : s.drawn ≤ t.drawn
  current : ∀ id, t.installationId = some id → s.installationId = some id ∨ Drawn t id
  measured : ∀ id ∈ t.measured, id ∈ s.measured ∨ Drawn t id
  measuredKept : ∀ id ∈ s.measured, id ∈ t.measured
  queued : ∀ e ∈ t.queue, e ∈ s.queue
  enabled : s.anchorless → s.isCollectionEnabled configuration = true →
    t.isCollectionEnabled configuration = true

variable {configuration}

/-- What others do neither brings the missing install of a reset id nor makes a
reset id. -/
theorem Undisturbed.anchorless_iff {s t : Store} (h : Undisturbed configuration s t) :
    t.anchorless ↔ s.anchorless := by
  rw [Store.anchorless, Store.anchorless, h.inserted, h.reset]

/-- What others do twice, they do. -/
theorem Undisturbed.trans {s t u : Store} (h : Undisturbed configuration s t)
    (h' : Undisturbed configuration t u) : Undisturbed configuration s u where
  inserted := h'.inserted.trans h.inserted
  reset := h'.reset.trans h.reset
  referrer := h'.referrer.trans h.referrer
  destination := h'.destination.trans h.destination
  drawn := h.drawn.trans h'.drawn
  current := by
    intro id hid
    rcases h'.current id hid with hid | hid
    · rcases h.current id hid with hid | hid
      · exact .inl hid
      · exact .inr (lt_of_lt_of_le hid h'.drawn)
    · exact .inr hid
  measured := by
    intro id hid
    rcases h'.measured id hid with hid | hid
    · rcases h.measured id hid with hid | hid
      · exact .inl hid
      · exact .inr (lt_of_lt_of_le hid h'.drawn)
    · exact .inr hid
  measuredKept := fun id hid => h'.measuredKept id (h.measuredKept id hid)
  queued := fun e he => h.queued e (h'.queued e he)
  enabled := fun hs henabled => h'.enabled (h.anchorless_iff.mpr hs) (h.enabled hs henabled)

/-- A consistent store stays consistent under what others do. -/
theorem Consistent.of_undisturbed {s t : Store} (hs : Consistent s)
    (h : Undisturbed configuration s t) : Consistent t where
  installs := h.inserted ▸ hs.installs
  deferred := h.inserted ▸ hs.deferred
  anchored := by
    rw [h.inserted, h.reset]
    exact hs.anchored
  inserted := by
    intro e he id hid
    exact lt_of_lt_of_le (hs.inserted e (h.inserted ▸ he) id hid) h.drawn
  reset := by
    intro id hid
    exact lt_of_lt_of_le (hs.reset id (h.reset ▸ hid)) h.drawn
  current := by
    intro id hid
    rcases h.current id hid with hid | hid
    · exact lt_of_lt_of_le (hs.current id hid) h.drawn
    · exact hid
  measured := by
    intro id hid
    rcases h.measured id hid with hid | hid
    · exact lt_of_lt_of_le (hs.measured id hid) h.drawn
    · exact hid
  queued := by
    intro e he uuid huuid
    exact lt_of_lt_of_le (hs.queued e (h.queued e he) uuid huuid) h.drawn

end Invariants

section Quietness

variable {configuration : Configuration} (s : Store)

/-- Others may do nothing. -/
theorem Undisturbed.refl : Undisturbed configuration s s :=
  ⟨rfl, rfl, rfl, rfl, le_rfl, fun _ h => .inl h, fun _ h => .inl h, fun _ h => h, fun _ h => h,
    fun _ h => h⟩

/-- Drawing an id disturbs nothing that a task relies on. -/
theorem undisturbed_drawUuid :
    Undisturbed configuration s { s with drawn := s.drawn + 1 } :=
  ⟨rfl, rfl, rfl, rfl, Nat.le_succ _, fun _ h => .inl h, fun _ h => .inl h, fun _ h => h,
    fun _ h => h, fun _ h => h⟩

/-- Nor does the next sequence number. -/
theorem undisturbed_setSequence (n : Nat) :
    Undisturbed configuration s ((Write.setSequence n).apply s) :=
  ⟨rfl, rfl, rfl, rfl, le_rfl, fun _ h => .inl h, fun _ h => .inl h, fun _ h => h, fun _ h => h,
    fun _ h => h⟩

/-- Nor does a credential. -/
theorem undisturbed_setCredential (c : InstallationCredential) :
    Undisturbed configuration s ((Write.setCredential c).apply s) :=
  ⟨rfl, rfl, rfl, rfl, le_rfl, fun _ h => .inl h, fun _ h => .inl h, fun _ h => h, fun _ h => h,
    fun _ h => h⟩

/-- Nor does the deletion of what was delivered: the history keeps it. -/
theorem undisturbed_deleteByIds (ids : List EventId) :
    Undisturbed configuration s ((Write.deleteByIds ids).apply s) :=
  ⟨rfl, rfl, rfl, rfl, le_rfl, fun _ h => .inl h, fun _ h => .inl h, fun _ h => h,
    fun _ h => List.mem_of_mem_filter h, fun _ h => h⟩

/-- Nor does the deletion of the whole queue. -/
theorem undisturbed_deleteAll : Undisturbed configuration s (Write.deleteAll.apply s) :=
  ⟨rfl, rfl, rfl, rfl, le_rfl, fun _ h => .inl h, fun _ h => .inl h, fun _ h => h,
    fun _ h => (nomatch h), fun _ h => h⟩

/-- Nor does the store that a deletion of the device leaves. -/
theorem undisturbed_clearAfterDeletion :
    Undisturbed configuration s (Write.clearAfterDeletion.apply s) :=
  ⟨rfl, rfl, rfl, rfl, le_rfl, fun _ h => .inl h, fun _ h => .inl h, fun _ h => h, fun _ h => h,
    fun _ h => h⟩

/-- Nor does the mark that the process is initialized. -/
theorem undisturbed_initialized :
    Undisturbed configuration s { s with initialized := true } :=
  ⟨rfl, rfl, rfl, rfl, le_rfl, fun _ h => .inl h, fun _ h => .inl h, fun _ h => h, fun _ h => h,
    fun _ h => h⟩

/-- A first installation id, drawn before, disturbs nothing: no reset made it.
-/
theorem undisturbed_setInstallationId {s : Store} {id : InstallationId} (hid : Drawn s id) :
    Undisturbed configuration s ((Write.setInstallationId id).apply s) :=
  ⟨rfl, rfl, rfl, rfl, le_rfl, fun _ h => .inr (Option.some.inj h ▸ hid), fun _ h => .inl h,
    fun _ h => h, fun _ h => h, fun _ h => h⟩

/-- A call that comes in only waits in the queue of the executor. -/
theorem undisturbed_submit (c : Call) :
    Undisturbed configuration s (c.submit configuration s).2 := by
  cases c with
  | initializeSdk =>
      rw [Call.submit]
      split
      · exact Undisturbed.refl s
      · exact undisturbed_initialized s
  | trackCustomEvent key attributes => exact Undisturbed.refl s
  | startSession => exact Undisturbed.refl s
  | handleDeepLink link => exact Undisturbed.refl s
  | enqueueAdRevenue id members eventId => exact Undisturbed.refl s
  | drain => exact Undisturbed.refl s
  | updateConsent state version => exact Undisturbed.refl s
  | resetInstallationId => exact Undisturbed.refl s

/-- To hand the installation id out makes one where there is none yet. -/
theorem undisturbed_installationIdForMeasurement (hs : Consistent s) :
    Undisturbed configuration s s.installationIdForMeasurement := by
  rw [Store.installationIdForMeasurement]
  split
  · case h_1 id hid =>
      refine ⟨rfl, rfl, rfl, rfl, le_rfl, fun _ h => .inl h, ?_, fun _ h => List.mem_cons_of_mem _ h,
        fun _ h => h, fun _ h => h⟩
      intro given hgiven
      rcases List.mem_cons.mp hgiven with rfl | hgiven
      · exact .inr (hs.current given hid)
      · exact .inl hgiven
  · refine ⟨rfl, rfl, rfl, rfl, Nat.le_succ _, ?_, ?_, fun _ h => List.mem_cons_of_mem _ h,
      fun _ h => h, fun _ h => h⟩
    · intro id hid
      exact .inr (Option.some.inj hid ▸ Nat.lt_succ_self s.drawn)
    · intro id hid
      rcases List.mem_cons.mp hid with rfl | hid
      · exact .inr (Nat.lt_succ_self s.drawn)
      · exact .inl hid

/-- What the calling threads do at once disturbs no task, as long as collection
is not turned off before a reset id has its install. -/
theorem undisturbed_outside (hs : Consistent s) (e : Outside)
    (he : e = .setCollectionEnabled false → ¬s.anchorless) :
    Undisturbed configuration s (e.apply s) := by
  cases e with
  | installationIdForMeasurement => exact undisturbed_installationIdForMeasurement s hs
  | setCollectionEnabled enabled =>
      refine ⟨rfl, rfl, rfl, rfl, le_rfl, fun _ h => .inl h, fun _ h => .inl h, fun _ h => h,
        fun _ h => h, fun hanchorless _ => ?_⟩
      cases enabled with
      | true => rfl
      | false => exact absurd hanchorless (he rfl)

end Quietness

section Tasks

variable {configuration : Configuration}

/-- What is relied on, and what is kept throughout. -/
def surroundings (configuration : Configuration) : Surroundings (policy configuration) where
  rely := Undisturbed configuration
  always := Consistent
  refl := Undisturbed.refl
  trans := Undisturbed.trans

/-- A task that relies on a consistent store may be interrupted. -/
theorem stable_consistent : Stable (surroundings configuration) Consistent where
  always := id
  rely := Consistent.of_undisturbed

/-- Between two tasks every reset id has its install. -/
def Settled (s : Store) : Prop := Consistent s ∧ ¬s.anchorless

/-- A task that relies on a settled store may be interrupted. -/
theorem stable_settled : Stable (surroundings configuration) Settled :=
  stable_consistent.and fun h hrely => mt hrely.anchorless_iff.mp h

variable {Q : Store → Prop} {s : Store}

/-- An id that was drawn stays drawn. -/
theorem Drawn.of_undisturbed {t : Store} {id : InstallationId} (h : Drawn s id)
    (hrely : Undisturbed configuration s t) : Drawn t id :=
  lt_of_lt_of_le h hrely.drawn

/-- A task that relies on an id it drew may be interrupted. -/
theorem stable_drawn (hQ : Stable (surroundings configuration) Q) (id : InstallationId) :
    Stable (surroundings configuration) fun t => Q t ∧ Drawn t id :=
  hQ.and Drawn.of_undisturbed

/-- What `installationId` does after its look. -/
def installationIdOf : Option InstallationId → SdkTask InstallationId
  | some id => pure id
  | none => do
      let uuid ← drawUuid
      write (.setInstallationId ⟨uuid⟩)
      return ⟨uuid⟩

/-- To read the installation id, or to make it, keeps what holds and gives an
id that was drawn. -/
theorem safe_installationId (hQ : Stable (surroundings configuration) Q) (hs : Q s) :
    Safe (surroundings configuration) (fun id t => Q t ∧ Drawn t id) installationId s := by
  refine safe_op hQ hs fun t ht _ => ?_
  change Safe (surroundings configuration) _ (installationIdOf t.installationId) t
  unfold installationIdOf
  split
  · case h_1 id hid =>
      have hdrawn : Drawn t id := (hQ.always ht).current id hid
      exact safe_done (hQ.and Drawn.of_undisturbed) id ⟨ht, hdrawn⟩ fun _ h => h
  · refine safe_op hQ ht fun u hu _ => ?_
    -- the id just drawn is one no other thread draws
    have hdrawn : Drawn { u with drawn := u.drawn + 1 } ⟨u.drawn⟩ := Nat.lt_succ_self u.drawn
    have hQu := hQ.rely hu (undisturbed_drawUuid u)
    refine safe_op (stable_drawn hQ ⟨u.drawn⟩) ⟨hQu, hdrawn⟩ fun v hv _ => ?_
    exact safe_done (stable_drawn hQ ⟨u.drawn⟩) _
      ⟨hQ.rely hv.1 (undisturbed_setInstallationId hv.2), hv.2⟩ fun _ h => h

/-- To take a sequence number disturbs nothing. -/
theorem quiet_nextSequence : Quiet (surroundings configuration) nextSequence := by
  intro s hs
  refine ⟨Undisturbed.refl s, ?_⟩
  intro t ht
  exact ⟨undisturbed_setSequence t _, trivial⟩

/-- What `ensureCredential` does with the answer to its enrolment. -/
def credentialOf : Option InstallationCredential → SdkTask (Option InstallationCredential)
  | some c => do
      write (.setCredential c)
      return some c
  | none => return none

/-- What `ensureCredential` does after its look. -/
def enrolledCredential (id : InstallationId) :
    Option InstallationCredential → SdkTask (Option InstallationCredential)
  | some c => return some c
  | none => do credentialOf (← enroll id)

/-- To enroll disturbs nothing. -/
theorem quiet_ensureCredential (id : InstallationId) :
    Quiet (surroundings configuration) (ensureCredential id) := by
  intro s hs
  refine ⟨Undisturbed.refl s, ?_⟩
  change Quiet (surroundings configuration) (enrolledCredential id s.credential)
  cases s.credential with
  | some c => trivial
  | none =>
      intro answer
      cases answer with
      | none => trivial
      | some c => exact fun t _ => ⟨undisturbed_setCredential t c, trivial⟩

/-- To deliver what is queued disturbs nothing. -/
theorem quiet_deliverPending (c : InstallationCredential) :
    Quiet (surroundings configuration) (deliverPending configuration c) := by
  intro s hs
  refine ⟨Undisturbed.refl s, ?_⟩
  obtain ⟨batch, hbatch⟩ : ∃ batch, batch = pending configuration 100 s.queue := ⟨_, rfl⟩
  change Quiet (surroundings configuration) (if (pending configuration 100 s.queue).isEmpty then return true
    else do
      let delivered ← deliver c (pending configuration 100 s.queue)
      if delivered = some true then
        write (.deleteByIds ((pending configuration 100 s.queue).map QueuedEvent.eventId))
        return true
      else return false : SdkTask Bool)
  rw [← hbatch]
  cases batch with
  | nil => trivial
  | cons e rest =>
      intro (answer : Option Bool)
      rcases answer with _ | _ | _
      · trivial
      · trivial
      · exact fun t _ => ⟨undisturbed_deleteByIds t _, trivial⟩

/-- What `drainCredential` does after its look. -/
def drainCredentialOf : Option InstallationCredential → SdkTask (Option InstallationCredential)
  | some c => return some c
  | none => do ensureCredential (← installationId)

/-- To look for the credential of a delivery keeps what holds. -/
theorem safe_drainCredential (hQ : Stable (surroundings configuration) Q) (hs : Q s) :
    Safe (surroundings configuration) (fun _ => Q) drainCredential s := by
  refine safe_op hQ hs fun t ht _ => ?_
  change Safe (surroundings configuration) _ (drainCredentialOf t.credential) t
  cases t.credential with
  | some c => exact safe_done hQ _ ht fun _ h => h
  | none =>
      exact safe_seq (safe_installationId hQ ht) fun id u hu =>
        safe_of_quiet (quiet_ensureCredential id) hQ hu.1

/-- What `drain` does with its credential. -/
def deliverWith (configuration : Configuration) : Option InstallationCredential → SdkTask Bool
  | some c => deliverPending configuration c
  | none => return false

/-- A drain inserts nothing. -/
theorem safe_drain (hQ : Stable (surroundings configuration) Q) (hs : Q s) :
    Safe (surroundings configuration) (fun _ => Q) (drain configuration) s := by
  refine safe_op hQ hs fun t ht _ => ?_
  change Safe (surroundings configuration) _ (if t.isCollectionEnabled configuration then do
      deliverWith configuration (← drainCredential)
    else return false : SdkTask Bool) t
  cases t.isCollectionEnabled configuration with
  | false => exact safe_done hQ _ ht fun _ h => h
  | true =>
      refine safe_seq (safe_drainCredential hQ ht) fun credential u hu => ?_
      cases credential with
      | none => exact safe_done hQ _ hu fun _ h => h
      | some c => exact safe_of_quiet (quiet_deliverPending c) hQ hu

end Tasks

section Insertions

variable {configuration : Configuration} {s : Store}

/-- Inserting leaves all but the queue and the history. -/
theorem insert_cases (purged : List String) (e : QueuedEvent) :
    s.insert purged e = { s with queue := deleteByPurposes purged s.queue } ∨
    s.insert purged e = { s with
      queue := deleteByPurposes purged s.queue ++ [e]
      inserted := s.inserted ++ [e] } := by
  rw [Store.insert]
  split
  · exact .inl rfl
  · exact .inr rfl

/-- An event with an id of its own is inserted. -/
theorem insert_eq {purged : List String} {e : QueuedEvent}
    (hfresh : ∀ row ∈ s.queue, row.eventId ≠ e.eventId) :
    s.insert purged e = { s with
      queue := deleteByPurposes purged s.queue ++ [e]
      inserted := s.inserted ++ [e] } := by
  rw [Store.insert, if_neg]
  intro hany
  obtain ⟨row, hrow, hid⟩ := List.any_eq_true.mp hany
  exact hfresh row (List.mem_of_mem_filter hrow) (of_decide_eq_true hid)

/-- The payload keeps the history in order. -/
structure Fitting (s : Store) (p : Payload) : Prop where
  drawn : ∀ id, p.installationId = some id → Drawn s id
  install : ∀ id, p.installOf = some id → id ∉ installedIds s.inserted
  deferred : ∀ id, p.deferredOf = some id → id ∉ deferredIds s.inserted
  anchored : p.installOf = none → ∀ id ∈ s.resetIds, p.installationId = some id →
    id ∈ installedIds s.inserted

/-- A payload that fits the history goes on to fit. -/
theorem Fitting.of_undisturbed {t : Store} {p : Payload} (h : Fitting s p)
    (hrely : Undisturbed configuration s t) : Fitting t p where
  drawn := fun id hid => Drawn.of_undisturbed (h.drawn id hid) hrely
  install := hrely.inserted ▸ h.install
  deferred := hrely.inserted ▸ h.deferred
  anchored := by
    rw [hrely.inserted, hrely.reset]
    exact h.anchored

/-- A list without duplicates has none with one more entry that is new, or
without one. -/
theorem nodup_snoc {α : Type} {l : List α} {o : Option α} (hl : l.Nodup)
    (h : ∀ a, o = some a → a ∉ l) : (l ++ o.toList).Nodup := by
  cases o with
  | none => simpa using hl
  | some a => simpa [List.nodup_append] using ⟨hl, fun b hb heq => h a rfl (heq ▸ hb)⟩

/-- The insertion of an event that fits keeps the store consistent. -/
theorem Consistent.insert {purged : List String} {e : QueuedEvent} (hs : Consistent s)
    (hfit : Fitting s e.payload) (hid : ∀ uuid, e.eventId = .drawn uuid → uuid < s.drawn) :
    Consistent (s.insert purged e) := by
  have hkept : ∀ row ∈ deleteByPurposes purged s.queue, row ∈ s.queue :=
    fun row hrow => List.mem_of_mem_filter hrow
  rcases insert_cases (s := s) purged e with h | h
  · rw [h]
    exact ⟨⟨hs.installs, hs.deferred, hs.anchored⟩, hs.inserted, hs.reset, hs.current, hs.measured,
      fun row hrow => hs.queued row (hkept row hrow)⟩
  · rw [h]
    refine ⟨⟨?_, ?_, ?_⟩, ?_, hs.reset, hs.current, hs.measured, ?_⟩
    · rw [installedIds_append]
      exact nodup_snoc hs.installs hfit.install
    · rw [deferredIds_append]
      exact nodup_snoc hs.deferred hfit.deferred
    · exact hs.anchored.snoc hfit.anchored
    · intro row hrow
      rcases List.mem_append.mp hrow with hrow | hrow
      · exact hs.inserted row hrow
      · cases List.mem_singleton.mp hrow
        exact hfit.drawn
    · intro row hrow
      rcases List.mem_append.mp hrow with hrow | hrow
      · exact hs.queued row (hkept row hrow)
      · cases List.mem_singleton.mp hrow
        exact hid

/-- The insertion of an event takes no install away. -/
theorem not_anchorless_insert {purged : List String} {e : QueuedEvent} (h : ¬s.anchorless) :
    ¬(s.insert purged e).anchorless := by
  rintro ⟨id, hid, hmissing⟩
  refine h ⟨id, ?_, ?_⟩
  · rcases insert_cases (s := s) purged e with h | h <;> rw [h] at hid <;> exact hid
  · intro hin
    apply hmissing
    rcases insert_cases (s := s) purged e with h | h <;> rw [h]
    · exact hin
    · simp [hin]

end Insertions

section Enqueueing

variable {configuration : Configuration} {Q : Store → Prop} {s : Store}

/-- The id of an event about to be inserted: it was drawn, and is new unless it
was given. -/
structure FreshId (given : Option EventId) (id : EventId) (s : Store) : Prop where
  drawn : ∀ uuid, id = .drawn uuid → uuid < s.drawn
  fresh : given = none → ∀ row ∈ s.queue, row.eventId ≠ id

/-- An event id that is free stays free. -/
theorem FreshId.of_undisturbed {given : Option EventId} {id : EventId} {t : Store}
    (h : FreshId given id s) (hrely : Undisturbed configuration s t) : FreshId given id t where
  drawn := fun uuid huuid => lt_of_lt_of_le (h.drawn uuid huuid) hrely.drawn
  fresh := fun hnone row hrow => h.fresh hnone row (hrely.queued row hrow)

/-- An id that a caller gives is a text of its own. -/
def Supplied (given : Option EventId) : Prop := ∀ id, given = some id → ∃ text, id = .supplied text

/-- A new event id, drawn or given, is free. -/
theorem safe_newEventId {given : Option EventId} (hgiven : Supplied given)
    (hQ : Stable (surroundings configuration) Q) (hs : Q s) :
    Safe (surroundings configuration) (fun id t => Q t ∧ FreshId given id t) (newEventId given) s := by
  cases given with
  | some id =>
      obtain ⟨text, rfl⟩ := hgiven id rfl
      have hid : FreshId (some (.supplied text)) (.supplied text) s :=
        ⟨fun _ h => (nomatch h), fun h => (nomatch h)⟩
      exact safe_done (hQ.and FreshId.of_undisturbed) _ ⟨hs, hid⟩ fun _ h => h
  | none =>
      refine safe_op hQ hs fun t ht _ => ?_
      have hid : FreshId none (.drawn t.drawn) { t with drawn := t.drawn + 1 } := by
        refine ⟨fun uuid huuid => ?_, fun _ row hrow heq => ?_⟩
        · cases huuid
          exact Nat.lt_succ_self _
        · exact absurd ((hQ.always ht).queued row hrow _ heq) (lt_irrefl _)
      exact safe_done (hQ.and FreshId.of_undisturbed) _
        ⟨hQ.rely ht (undisturbed_drawUuid t), hid⟩ fun _ h => h

/-- An event is built with its payload and a free id. -/
theorem safe_queuedEvent {eventName purpose : String} {payload : Payload} {given : Option EventId}
    (hgiven : Supplied given) (hQ : Stable (surroundings configuration) Q) (hs : Q s) :
    Safe (surroundings configuration)
      (fun e t => Q t ∧ FreshId given e.eventId t ∧ e.payload = payload)
      (queuedEvent eventName purpose payload given) s := by
  refine safe_query hQ hs fun t now ht _ => ?_
  refine safe_seq (safe_newEventId hgiven hQ ht) fun id u hu => ?_
  have hstable : Stable (surroundings configuration) fun t => Q t ∧ FreshId given id t :=
    hQ.and FreshId.of_undisturbed
  refine safe_seq (safe_of_quiet quiet_nextSequence hstable hu) fun n v hv => ?_
  refine safe_query hstable hv fun w created hw _ => ?_
  exact safe_done hstable _ hw fun x hx => ⟨hx.1, hx.2, rfl⟩

/-- What is enqueued keeps what inserting and dropping keep. -/
theorem safe_enqueueJson {Q' : Store → Prop} {eventName purpose : String} {payload : Payload}
    {given : Option EventId} (hgiven : Supplied given)
    (hQ : Stable (surroundings configuration) Q) (hQ' : Stable (surroundings configuration) Q')
    (hdrop : ∀ t, Q t → t.isCollectionEnabled configuration = false → Q' t)
    (hinsert : ∀ t e, Q t → e.payload = payload → FreshId given e.eventId t → Q' (t.insert [] e))
    (hs : Q s) :
    Safe (surroundings configuration) (fun _ => Q')
      (enqueueJson configuration eventName purpose payload given) s := by
  refine safe_op hQ hs fun t ht _ => ?_
  change Safe (surroundings configuration) _
    (Program.onlyIf (t.isCollectionEnabled configuration || eventName == "consent_changed") do
      let e ← queuedEvent eventName purpose payload given
      write (.insert [] e)) t
  cases henabled : t.isCollectionEnabled configuration || eventName == "consent_changed" with
  | false =>
      have hoff : t.isCollectionEnabled configuration = false := (Bool.or_eq_false_iff.mp henabled).1
      exact safe_done hQ' () (hdrop t ht hoff) fun _ h => h
  | true =>
      refine safe_seq (safe_queuedEvent hgiven hQ ht) fun e u hu => ?_
      have hstable : Stable (surroundings configuration)
          fun t => Q t ∧ FreshId given e.eventId t := hQ.and FreshId.of_undisturbed
      refine safe_op hstable ⟨hu.1, hu.2.1⟩ fun v hv _ => ?_
      exact safe_done hQ' () (hinsert v e hv.1 hu.2.2 hv.2) fun _ h => h

/-- Where all reset ids have their installs, none is without. -/
theorem not_anchorless_of {t : Store} (h : ∀ id ∈ t.resetIds, id ∈ installedIds t.inserted) :
    ¬t.anchorless :=
  fun ⟨id, hid, hmissing⟩ => hmissing (h id hid)

/-- In a settled store a reset id has its install. -/
theorem mem_installedIds_of_settled (hs : Settled s) {id : InstallationId} (hid : id ∈ s.resetIds) :
    id ∈ installedIds s.inserted :=
  Classical.byContradiction fun hmissing => hs.2 ⟨id, hid, hmissing⟩

/-- An event of another kind about an id that was drawn. -/
theorem fitting_of_settled {payload : Payload} (hs : Settled s)
    (hdrawn : ∀ id, payload.installationId = some id → Drawn s id)
    (hinstall : payload.installOf = none) (hdeferred : payload.deferredOf = none) :
    Fitting s payload where
  drawn := hdrawn
  install := fun id hid => by rw [hinstall] at hid; cases hid
  deferred := fun id hid => by rw [hdeferred] at hid; cases hid
  anchored := fun _ _ hid _ => mem_installedIds_of_settled hs hid

/-- The insertion of an event that fits keeps the store settled. -/
theorem Settled.insert {purged : List String} {e : QueuedEvent} (hs : Settled s)
    (hfit : Fitting s e.payload) (hid : ∀ uuid, e.eventId = .drawn uuid → uuid < s.drawn) :
    Settled (s.insert purged e) :=
  ⟨hs.1.insert hfit hid, not_anchorless_insert hs.2⟩

/-- To queue an event that fits, and to deliver, keeps the store settled. -/
theorem safe_enqueueAndDrain {eventName purpose : String} {payload : Payload}
    {given : Option EventId} (hgiven : Supplied given) (hs : Settled s) (hfit : Fitting s payload) :
    Safe (surroundings configuration) (fun _ => Settled)
      (enqueueAndDrain configuration eventName purpose payload given) s := by
  have hQ : Stable (surroundings configuration) fun t => Settled t ∧ Fitting t payload :=
    stable_settled.and Fitting.of_undisturbed
  have henqueue : Safe (surroundings configuration) (fun _ => Settled)
      (enqueueJson configuration eventName purpose payload given) s := safe_enqueueJson hgiven hQ
    stable_settled (fun t ht _ => ht.1)
    (fun t e ht hpayload hid => ht.1.insert (hpayload ▸ ht.2) hid.drawn) ⟨hs, hfit⟩
  refine safe_seq henqueue fun _ t ht => ?_
  refine safe_seq (safe_drain stable_settled ht) fun _ u hu => ?_
  exact safe_done stable_settled () hu fun _ h => h

/-- An event about the stored id. -/
theorem safe_aboutInstallation {eventName purpose : String} (payload : InstallationId → Payload)
    (hnames : ∀ id, (payload id).installationId = some id)
    (hinstall : ∀ id, (payload id).installOf = none)
    (hdeferred : ∀ id, (payload id).deferredOf = none) (hs : Settled s) {id : InstallationId}
    (hdrawn : Drawn s id) :
    Safe (surroundings configuration) (fun _ => Settled)
      (enqueueAndDrain configuration eventName purpose (payload id) none) s := by
  refine safe_enqueueAndDrain (fun _ h => (nomatch h)) hs
    (fitting_of_settled hs ?_ (hinstall id) (hdeferred id))
  intro named hnamed
  rw [hnames id] at hnamed
  exact Option.some.inj hnamed ▸ hdrawn

end Enqueueing

section Calls

variable {configuration : Configuration} {s : Store}

/-- So does a custom event. -/
theorem safe_trackCustomEvent (eventKey : String) (attributes : List (String × Json))
    (hs : Settled s) :
    Safe (surroundings configuration) (fun _ => Settled)
      (trackCustomEvent configuration eventKey attributes) s :=
  safe_seq (safe_installationId stable_settled hs) fun _ _ ht =>
    safe_aboutInstallation (fun id => .custom id eventKey attributes)
      (fun _ => rfl) (fun _ => rfl) (fun _ => rfl) ht.1 ht.2

/-- So does the start of a session. -/
theorem safe_startSession (hs : Settled s) :
    Safe (surroundings configuration) (fun _ => Settled) (startSession configuration) s := by
  refine safe_seq (safe_installationId stable_settled hs) fun id t ht => ?_
  refine safe_op (stable_drawn stable_settled id) ht fun u hu _ => ?_
  have hdraw : Undisturbed configuration u _ := undisturbed_drawUuid u
  exact safe_aboutInstallation (fun id => .session id u.drawn)
    (fun _ => rfl) (fun _ => rfl) (fun _ => rfl) (stable_settled.rely hu.1 hdraw)
    (hu.2.of_undisturbed hdraw)

/-- So does a direct deep link. -/
theorem safe_handleDeepLink (link : DirectDeepLink) (hs : Settled s) :
    Safe (surroundings configuration) (fun _ => Settled) (handleDeepLink configuration link) s :=
  safe_seq (safe_installationId stable_settled hs) fun _ _ ht =>
    safe_aboutInstallation (fun id => .directOpen id link)
      (fun _ => rfl) (fun _ => rfl) (fun _ => rfl) ht.1 ht.2

/-- So does ad revenue, for an installation id that was handed out. -/
theorem safe_enqueueAdRevenue (id : Option InstallationId) (members : List (String × Json))
    (eventId : Option String) (hs : Settled s)
    (hmeasured : ∀ given, id = some given → given ∈ s.measured) :
    Safe (surroundings configuration) (fun _ => Settled)
      (enqueueAdRevenue configuration id members eventId) s := by
  refine safe_enqueueAndDrain ?_ hs (fitting_of_settled hs ?_ rfl rfl)
  · intro given hgiven
    obtain ⟨text, -, rfl⟩ := Option.map_eq_some_iff.mp hgiven
    exact ⟨text, rfl⟩
  · exact fun given hgiven => hs.1.measured given (hmeasured given hgiven)

/-- So does a change of consent. -/
theorem safe_updateConsent (state : ConsentState) (policyVersion : String) (hs : Settled s) :
    Safe (surroundings configuration) (fun _ => Settled)
      (updateConsent configuration state policyVersion) s := by
  refine safe_query stable_settled hs fun t effectiveAt ht _ => ?_
  refine safe_seq (safe_queuedEvent (fun _ h => (nomatch h)) stable_settled ht)
    fun e u hu => ?_
  have hstable : Stable (surroundings configuration) fun t => Settled t ∧ FreshId none e.eventId t :=
    stable_settled.and FreshId.of_undisturbed
  refine safe_op hstable ⟨hu.1, hu.2.1⟩ fun v hv _ => ?_
  have hfit : Fitting v e.payload := by
    rw [hu.2.2]
    exact fitting_of_settled hv.1 (fun _ h => (nomatch h)) rfl rfl
  refine safe_seq (safe_drain stable_settled (hv.1.insert hfit hv.2.drawn))
    fun _ w hw => ?_
  exact safe_done stable_settled () hw fun _ h => h

end Calls

section FirstLaunches

variable {configuration : Configuration} {s : Store}

/-- The mark of the deferred destination leaves the store settled. -/
theorem Settled.markDestination (hs : Settled s) :
    Settled (Write.markDeferredDestinationConsumed.apply s) :=
  ⟨⟨⟨hs.1.installs, hs.1.deferred, hs.1.anchored⟩, hs.1.inserted, hs.1.reset, hs.1.current,
    hs.1.measured, hs.1.queued⟩, hs.2⟩

/-- So does the mark of the referrer. -/
theorem Settled.markReferrer (hs : Settled s) : Settled (Write.markReferrerConsumed.apply s) :=
  ⟨⟨⟨hs.1.installs, hs.1.deferred, hs.1.anchored⟩, hs.1.inserted, hs.1.reset, hs.1.current,
    hs.1.measured, hs.1.queued⟩, hs.2⟩

/-- No deferred opening of the installation can come twice: none was inserted,
or the destination counts as consumed. -/
structure Unopened (id : InstallationId) (s : Store) : Prop where
  settled : Settled s
  drawn : Drawn s id
  noReset : s.resetIds = []
  noOpening : s.deferredDestinationConsumed = false → deferredIds s.inserted = []

/-- A first start that has not yet recorded the deferred opening may be
interrupted. -/
theorem stable_unopened (id : InstallationId) :
    Stable (surroundings configuration) (Unopened id) where
  always := fun h => h.settled.1
  rely := by
    intro s t h hrely
    refine ⟨stable_settled.rely h.settled hrely, h.drawn.of_undisturbed hrely, ?_, ?_⟩
    · rw [hrely.reset, h.noReset]
    · rw [hrely.destination, hrely.inserted]
      exact h.noOpening

/-- The opening is the first of the installation. -/
theorem Unopened.insert {id : InstallationId} {e : QueuedEvent} {deferred : OpenMasuDeepLink}
    (hs : Unopened id s) (hconsumed : s.deferredDestinationConsumed = false)
    (he : e.payload = .deferredOpen id deferred) (hid : FreshId none e.eventId s) :
    Settled (s.insert [] e) := by
  refine hs.settled.insert ?_ hid.drawn
  rw [he]
  refine ⟨fun named hnamed => ?_, fun _ h => (nomatch h), fun _ _ => ?_, fun _ named h => ?_⟩
  · exact Option.some.inj hnamed ▸ hs.drawn
  · rw [hs.noOpening hconsumed]
    exact List.not_mem_nil
  · rw [hs.noReset] at h
    cases h

/-- To record the deferred opening, where there is none yet, leaves the store
settled. -/
theorem safe_recordDeferred {id : InstallationId} (link : Option OpenMasuDeepLink)
    (hs : Unopened id s) :
    Safe (surroundings configuration) (fun _ => Settled)
      (recordDeferred configuration id link) s := by
  cases link with
  | none => exact safe_done (stable_unopened id) () hs fun _ h => h.settled
  | some deferred =>
      refine safe_op (stable_unopened id) hs fun t ht _ => ?_
      change Safe (surroundings configuration) _
        (Program.onlyIf (!t.deferredDestinationConsumed) do
          enqueueJson configuration "deep_link_open" "attribution" (.deferredOpen id deferred) none
          write .markDeferredDestinationConsumed) t
      cases hconsumed : t.deferredDestinationConsumed with
      | true => exact safe_done (stable_unopened id) () ht fun _ h => h.settled
      | false =>
          have hstable : Stable (surroundings configuration)
              fun t => Unopened id t ∧ t.deferredDestinationConsumed = false :=
            (stable_unopened id).and fun h hrely => hrely.destination.trans h
          have henqueue : Safe (surroundings configuration) (fun _ => Settled)
              (enqueueJson configuration "deep_link_open" "attribution"
                (.deferredOpen id deferred) none) t :=
            safe_enqueueJson (fun _ h => (nomatch h)) hstable stable_settled
              (fun t ht _ => ht.1.settled) (fun t e ht he hid => ht.1.insert ht.2 he hid)
              ⟨ht, hconsumed⟩
          refine safe_seq henqueue fun _ u hu => ?_
          refine safe_op stable_settled hu fun v hv _ => ?_
          exact safe_done stable_settled () hv.markDestination fun _ h => h

/-- The referrer counts as unread, and nothing was inserted that it brings. -/
structure Unread (id : InstallationId) (s : Store) : Prop where
  unopened : Unopened id s
  noInstall : installedIds s.inserted = []

/-- A first start that has not yet recorded the install may be interrupted. -/
theorem stable_unread (id : InstallationId) : Stable (surroundings configuration) (Unread id) where
  always := fun h => h.unopened.settled.1
  rely := fun h hrely =>
    ⟨(stable_unopened id).rely h.unopened hrely, hrely.inserted ▸ h.noInstall⟩

/-- The install is the first of the installation. -/
theorem Unread.insert {id : InstallationId} {e : QueuedEvent} {sdkVersion : String}
    {play : PlayReferrerEvidence} {evidence : MetaReferrerEvidence} {origin : String}
    (hs : Unread id s) (he : e.payload = .install id sdkVersion play evidence origin)
    (hid : FreshId none e.eventId s) : Unopened id (s.insert [] e) := by
  have hfit : Fitting s e.payload := by
    rw [he]
    refine ⟨fun named hnamed => ?_, fun _ _ => ?_, fun _ h => (nomatch h), fun h => (nomatch h)⟩
    · exact Option.some.inj hnamed ▸ hs.unopened.drawn
    · rw [hs.noInstall]
      exact List.not_mem_nil
  have hsettled : Settled (s.insert [] e) := hs.unopened.settled.insert hfit hid.drawn
  rw [insert_eq (hid.fresh rfl)] at hsettled ⊢
  refine ⟨hsettled, hs.unopened.drawn, hs.unopened.noReset, fun hconsumed => ?_⟩
  rw [deferredIds_append, hs.unopened.noOpening hconsumed, he]
  rfl

/-- To record the install and behind it the deferred opening leaves the store
settled. -/
theorem safe_recordFirstLaunch {id : InstallationId} (play : PlayReferrerEvidence)
    (evidence : MetaReferrerEvidence) (hs : Unread id s) :
    Safe (surroundings configuration) (fun _ => Settled)
      (recordFirstLaunch configuration id play evidence) s := by
  have henqueue : Safe (surroundings configuration) (fun _ => Unopened id)
      (enqueueJson configuration "install" "attribution"
        (.install id configuration.installVersion play evidence "play_first_launch") none) s :=
    safe_enqueueJson (fun _ h => (nomatch h)) (stable_unread id) (stable_unopened id)
      (fun t ht _ => ht.unopened) (fun t e ht he hid => ht.insert he hid) hs
  refine safe_seq henqueue fun _ t ht => ?_
  refine safe_seq (safe_recordDeferred _ ht) fun _ u hu => ?_
  refine safe_onlyIf stable_settled hu (fun _ => ?_) fun _ v hv => hv
  refine safe_op (k := pure) stable_settled hu fun v hv _ => ?_
  exact safe_done stable_settled () hv.markReferrer fun _ h => h

/-- So do the readings of the referrers before. -/
theorem safe_readReferrers {id : InstallationId} (hs : Unread id s) :
    Safe (surroundings configuration) (fun _ => Settled) (readReferrers configuration id) s := by
  refine safe_query (stable_unread id) hs fun t play ht _ => ?_
  refine safe_query (stable_unread id) ht fun u now hu _ => ?_
  refine safe_query (stable_unread id) hu fun v evidence hv _ => ?_
  exact safe_recordFirstLaunch _ evidence hv

/-- A start that finds the mark missing in a store that the condition admits
finds no install of the id. -/
theorem unread_of_settled {id : InstallationId} (hs : Settled s) (hunsettled : ¬s.unsettled)
    (hdrawn : Drawn s id) (hreferrer : s.referrerConsumed = false) : Unread id s := by
  have hnoInstall : installedIds s.inserted = [] :=
    Classical.byContradiction fun h => hunsettled ⟨hreferrer, .inl h⟩
  refine ⟨⟨hs, hdrawn, ?_, fun hdestination => ?_⟩, hnoInstall⟩
  · -- an id made by a reset would have an install
    refine List.eq_nil_iff_forall_not_mem.mpr fun reset hreset => ?_
    have hmem := mem_installedIds_of_settled hs hreset
    rw [hnoInstall] at hmem
    cases hmem
  · exact Classical.byContradiction fun h => hunsettled ⟨hreferrer, .inr ⟨hdestination, h⟩⟩

/-- What others do does not change whether the mark is behind the history. -/
theorem Undisturbed.unsettled_iff {t : Store} (h : Undisturbed configuration s t) :
    t.unsettled ↔ s.unsettled := by
  rw [Store.unsettled, Store.unsettled, h.inserted, h.referrer, h.destination]

/-- **First start.**  It keeps the store settled where it finds the mark and
the history in step. -/
theorem safe_initializeSdk (hs : Settled s) (hunsettled : ¬s.unsettled) :
    Safe (surroundings configuration) (fun _ => Settled) (initializeSdk configuration) s := by
  have hstable : Stable (surroundings configuration) fun s => Settled s ∧ ¬s.unsettled :=
    stable_settled.and fun h hrely => mt hrely.unsettled_iff.mp h
  refine safe_seq (safe_installationId hstable ⟨hs, hunsettled⟩) fun id t ht => ?_
  have hdrawn : Stable (surroundings configuration)
      fun s => (Settled s ∧ ¬s.unsettled) ∧ Drawn s id := hstable.and Drawn.of_undisturbed
  refine safe_op hdrawn ht fun u hu _ => ?_
  change Safe (surroundings configuration) _ (do
    Program.onlyIf (!u.referrerConsumed) (readReferrers configuration id)
    let _ ← drain configuration
    return () : SdkTask Unit) u
  have hread : Safe (surroundings configuration) (fun _ => Settled)
      (Program.onlyIf (!u.referrerConsumed) (readReferrers configuration id)) u := by
    cases hreferrer : u.referrerConsumed with
    | true => exact safe_done stable_settled () hu.1.1 fun _ h => h
    | false => exact safe_readReferrers (unread_of_settled hu.1.1 hu.1.2 hu.2 hreferrer)
  refine safe_seq hread fun _ v hv => ?_
  refine safe_seq (safe_drain stable_settled hv) fun _ w hw => ?_
  exact safe_done stable_settled () hw fun _ h => h

end FirstLaunches

section Resets

variable {configuration : Configuration} {s : Store}

/-- No event names the id. -/
def Unused (id : InstallationId) (s : Store) : Prop :=
  ∀ e ∈ s.inserted, e.payload.installationId ≠ some id

/-- An id that no event names stays so under what others do. -/
theorem Unused.of_undisturbed {id : InstallationId} {t : Store} (h : Unused id s)
    (hrely : Undisturbed configuration s t) : Unused id t :=
  fun e he => h e (hrely.inserted ▸ he)

/-- An id that no event names has no install. -/
theorem Unused.notMem_installedIds {id : InstallationId} (h : Unused id s) :
    id ∉ installedIds s.inserted := by
  intro hmem
  obtain ⟨e, he, hid⟩ := List.mem_filterMap.mp hmem
  exact h e he (Payload.installationId_of_installOf hid)

/-- The id was just made: nothing names it, every other reset id has its
install, and collection is on. -/
structure Replacing (configuration : Configuration) (id : InstallationId) (s : Store) : Prop where
  consistent : Consistent s
  drawn : Drawn s id
  unused : Unused id s
  reset : id ∈ s.resetIds
  others : ∀ other ∈ s.resetIds, other = id ∨ other ∈ installedIds s.inserted
  enabled : s.isCollectionEnabled configuration = true

/-- Between the new id of a reset and its install, the store has a reset id
without one. -/
theorem Replacing.anchorless {id : InstallationId} (h : Replacing configuration id s) :
    s.anchorless :=
  ⟨id, h.reset, h.unused.notMem_installedIds⟩

/-- A reset may be interrupted behind its new id. -/
theorem stable_replacing (id : InstallationId) :
    Stable (surroundings configuration) (Replacing configuration id) where
  always := Replacing.consistent
  rely := by
    intro s t h hrely
    refine ⟨h.consistent.of_undisturbed hrely, h.drawn.of_undisturbed hrely,
      h.unused.of_undisturbed hrely, hrely.reset ▸ h.reset, ?_, hrely.enabled h.anchorless h.enabled⟩
    rw [hrely.reset, hrely.inserted]
    exact h.others

/-- A reset that finds collection on makes an id that no event names. -/
theorem replacing_of_settled {id : InstallationId} (hs : Settled s) (hdrawn : Drawn s id)
    (hunused : Unused id s) (henabled : s.isCollectionEnabled configuration = true) :
    Replacing configuration id ((Write.replaceInstallationId id).apply s) where
  consistent := {
    installs := hs.1.installs
    deferred := hs.1.deferred
    anchored := hs.1.anchored.cons hunused
    inserted := hs.1.inserted
    reset := by
      intro other hother
      rcases List.mem_cons.mp hother with rfl | hother
      · exact hdrawn
      · exact hs.1.reset other hother
    current := fun other hother => Option.some.inj hother ▸ hdrawn
    measured := hs.1.measured
    queued := hs.1.queued }
  drawn := hdrawn
  unused := hunused
  reset := List.mem_cons_self
  others := by
    intro other hother
    rcases List.mem_cons.mp hother with rfl | hother
    · exact .inl rfl
    · exact .inr (mem_installedIds_of_settled hs hother)
  enabled := henabled

/-- The install of the id settles the reset. -/
theorem Replacing.insert {id : InstallationId} {e : QueuedEvent}
    (hs : Replacing configuration id s) (hinstall : e.payload.installOf = some id)
    (hdeferred : e.payload.deferredOf = none) (hid : FreshId none e.eventId s) :
    Settled (s.insert [] e) := by
  have hnames := Payload.installationId_of_installOf hinstall
  have hfit : Fitting s e.payload := by
    refine ⟨fun named hnamed => ?_, fun named hnamed => ?_, fun named hnamed => ?_, fun h => ?_⟩
    · rw [hnames] at hnamed
      exact Option.some.inj hnamed ▸ hs.drawn
    · rw [hinstall] at hnamed
      exact Option.some.inj hnamed ▸ hs.unused.notMem_installedIds
    · rw [hdeferred] at hnamed
      cases hnamed
    · rw [hinstall] at h
      cases h
  refine ⟨hs.consistent.insert hfit hid.drawn, not_anchorless_of fun other hother => ?_⟩
  rw [insert_eq (hid.fresh rfl)] at hother ⊢
  rw [installedIds_append, hinstall]
  rcases hs.others other hother with rfl | hother
  · simp
  · simp [hother]

/-- To replace the installation id leaves the store without the install of the
new one, and nothing else missing. -/
theorem safe_replaceInstallationId (hs : Settled s) :
    Safe (surroundings configuration) (fun id t => Replacing configuration id t)
      replaceInstallationId s := by
  refine safe_op stable_settled hs fun v hv _ => ?_
  have hdraw : Undisturbed configuration v _ := undisturbed_drawUuid v
  have hunused : Unused ⟨v.drawn⟩ { v with drawn := v.drawn + 1 } := fun e he hid =>
    absurd (hv.1.inserted e he _ hid) (lt_irrefl _)
  have hstable : Stable (surroundings configuration)
      fun t => (Settled t ∧ Drawn t ⟨v.drawn⟩) ∧ Unused ⟨v.drawn⟩ t :=
    (stable_drawn stable_settled _).and Unused.of_undisturbed
  refine safe_op hstable ⟨⟨stable_settled.rely hv hdraw, Nat.lt_succ_self _⟩, hunused⟩
    fun w hw hpermits => ?_
  exact safe_done (stable_replacing _) _
    (replacing_of_settled hw.1.1 hw.1.2 hw.2 (hpermits _ rfl)) fun _ h => h

/-- A reset brings the install behind its id, and leaves the store settled. -/
theorem safe_replaceInstallation (hs : Settled s) :
    Safe (surroundings configuration) (fun _ => Settled) (replaceInstallation configuration) s := by
  refine safe_op stable_settled hs fun t ht _ => ?_
  have hdeleted : Undisturbed configuration t _ := undisturbed_deleteAll t
  refine safe_op stable_settled (stable_settled.rely ht hdeleted) fun u hu _ => ?_
  have hcleared : Undisturbed configuration u _ := undisturbed_clearAfterDeletion u
  refine safe_seq (safe_replaceInstallationId (stable_settled.rely hu hcleared)) fun id v hv => ?_
  refine safe_seq (safe_of_quiet (quiet_ensureCredential id) (stable_replacing id) hv)
    fun enrolled w hw => ?_
  cases enrolled with
  | none => exact safe_crash (stable_replacing id) hw
  | some c =>
      have henqueue : Safe (surroundings configuration) (fun _ => Settled)
          (enqueueJson configuration "install" "attribution"
            (.install id configuration.installVersion resetPlayEvidence resetMetaEvidence
              "identifier_reset") none) w :=
        safe_enqueueJson (fun _ h => (nomatch h)) (stable_replacing id) stable_settled
          (fun t ht hoff => absurd ht.enabled (by simp [hoff]))
          (fun t e ht he hid => ht.insert (by rw [he]; rfl) (by rw [he]; rfl) hid) hw
      refine safe_seq henqueue fun _ x hx => ?_
      refine safe_seq (safe_drain stable_settled hx) fun _ y hy => ?_
      exact safe_done stable_settled () hy fun _ h => h

/-- What `resetInstallationId` does with the answer to its deletion. -/
def replaceIfDeleted (configuration : Configuration) : Option Bool → SdkTask Unit
  | some true => replaceInstallation configuration
  | some false => return ()
  | none => .crash

/-- What `resetInstallationId` does after its look. -/
def resetWith (configuration : Configuration) (id : InstallationId) :
    Option InstallationCredential → SdkTask Unit
  | none => return ()
  | some c => do replaceIfDeleted configuration (← deleteInstallation c id)

/-- So does the call for a reset. -/
theorem safe_resetInstallationId (hs : Settled s) :
    Safe (surroundings configuration) (fun _ => Settled) (resetInstallationId configuration) s := by
  refine safe_seq (safe_installationId stable_settled hs) fun id t ht => ?_
  refine safe_op stable_settled ht.1 fun u hu _ => ?_
  change Safe (surroundings configuration) _ (resetWith configuration id u.credential) u
  cases u.credential with
  | none => exact safe_done stable_settled () hu fun _ h => h
  | some c =>
      refine safe_query stable_settled hu fun v (answer : Option Bool) hv _ => ?_
      rcases answer with _ | _ | _
      · exact safe_crash stable_settled hv
      · exact safe_done stable_settled () hv fun _ h => h
      · exact safe_replaceInstallation hv

end Resets

section Runs

variable {configuration : Configuration}

/-- The tasks of the SDK keep every reset id installed. -/
def assurance (configuration : Configuration) : Assurance (surroundings configuration) where
  between := Settled
  stable := stable_settled
  submit_rely := fun c s _ => undisturbed_submit s c
  outside_rely := fun e s hs he => undisturbed_outside s hs e he
  task := by
    intro c s hs hbegins
    cases c with
    | initializeSdk => exact safe_initializeSdk hs hbegins
    | trackCustomEvent key attributes => exact safe_trackCustomEvent key attributes hs
    | startSession => exact safe_startSession hs
    | handleDeepLink link => exact safe_handleDeepLink link hs
    | enqueueAdRevenue id members eventId =>
        exact safe_enqueueAdRevenue id members eventId hs hbegins
    | drain =>
        refine safe_seq (safe_drain stable_settled hs) fun _ t ht => ?_
        exact safe_done stable_settled () ht fun _ h => h
    | updateConsent state version => exact safe_updateConsent state version hs
    | resetInstallationId => exact safe_resetInstallationId hs
  restart := fun s hs hdeath =>
    ⟨⟨⟨hs.installs, hs.deferred, hs.anchored⟩, hs.inserted, hs.reset, hs.current, hs.measured,
      hs.queued⟩, hdeath⟩

/-- The store of a new installation is settled. -/
theorem settled_fresh : Settled Store.fresh :=
  ⟨⟨⟨List.nodup_nil, List.nodup_nil, fun _ _ _ h => by simp [Store.fresh] at h⟩,
    fun _ h => (nomatch h), fun _ h => (nomatch h), fun _ h => (nomatch h), fun _ h => (nomatch h),
    fun _ h => (nomatch h)⟩, fun ⟨_, h, _⟩ => (nomatch h)⟩

/-- An accepted install that the server got from an event of the device. -/
structure CarriesInstall (name : InstallationId → Identifier) (s : Store) (a : Attempt)
    (e : QueuedEvent) : Prop where
  inserted : e ∈ s.inserted
  installation : ∃ id, e.payload.installOf = some id ∧
    a.record.payload.installationId = some (name id)

/-- Installs of different events anchor different installations. -/
def AnchorsApart (s : Store) : Prop :=
  ∀ name : InstallationId → Identifier, Function.Injective name → ∀ a b e f,
    CarriesInstall name s a e → CarriesInstall name s b f → e.eventId ≠ f.eventId →
      anchorKey a ≠ anchorKey b

/-- Where every installation has one install, no two events of the server's
index of installs clash. -/
theorem InstallsOnce.anchorsApart {s : Store} (h : InstallsOnce s) : AnchorsApart s := by
  intro name hname a b e f ha hb hne hkey
  obtain ⟨id, hid, hanchor⟩ := ha.installation
  obtain ⟨id', hid', hanchor'⟩ := hb.installation
  have hsame : id = id' := by
    have hinstallation := (Prod.mk.inj hkey).2
    rw [hanchor, hanchor'] at hinstallation
    exact hname (Option.some.inj hinstallation)
  have hpairs := List.pairwise_filterMap.mp h.installs
  have hsym : Std.Symm fun x y : QueuedEvent =>
      ∀ i, x.payload.installOf = some i → ∀ j, y.payload.installOf = some j → i ≠ j :=
    ⟨fun x y hxy i hi j hj heq => hxy j hj i hi heq.symm⟩
  have happart := hpairs.forall ha.inserted hb.inserted
    (fun heq => hne (congrArg QueuedEvent.eventId heq)) id hid id' hid'
  exact happart hsame

/-- **One install.**  In a run in which every first start finds the referrer
settled, and no reset is cut off before its install, each installation has at
most one install and one deferred opening, and a reset id its install before
its other events; the server sees no two installs of one installation. -/
theorem installsOnce_of_run {events : List (Event (device configuration))}
    {last : Process (device configuration)}
    (hadmits : (policy configuration).AdmitsRun (Process.start _ Store.fresh) events)
    (hrun : (Process.start _ Store.fresh).run events = some last) :
    InstallsOnce last.store ∧ AnchorsApart last.store := by
  have hstart : (assurance configuration).Sound (Process.start _ Store.fresh) := settled_fresh
  have hsound := (assurance configuration).run hstart hadmits hrun
  have honce := ((assurance configuration).always hsound).toInstallsOnce
  exact ⟨honce, honce.anchorsApart⟩

/-- A device on which collection is on by default. -/
def sampleConfiguration : Configuration := ⟨"0.1.0", none, 604800, true, fun _ => []⟩

/-- No service answers; the Play service may do so later. -/
def offline (shouldRetry : Bool) : (q : Query) → q.Answer
  | .readPlay => withoutDetails .unavailable .serviceUnavailable shouldRetry
  | .readMeta => resetMetaEvidence
  | .now => (0 : Nat)
  | .enroll _ => none
  | .deliver _ _ => none
  | .deleteInstallation _ _ => none

/-- A start of the SDK, of `n` operations. -/
def launch (shouldRetry : Bool) (n : Nat) : List (Event (device sampleConfiguration)) :=
  .call .initializeSdk :: .begin :: List.replicate n (.advance (offline shouldRetry))

/-- A first start that reads no referrer and marks it as read.  The law at the
run, which has no second install. -/
theorem launch_installsOnce : ∃ last,
    (Process.start (device sampleConfiguration) Store.fresh).run (launch false 21) = some last ∧
    installedIds last.store.inserted = [⟨0⟩] ∧ InstallsOnce last.store := by
  obtain ⟨last, hlast, hids⟩ : ∃ last,
      (Process.start (device sampleConfiguration) Store.fresh).run (launch false 21) = some last ∧
      installedIds last.store.inserted = [⟨0⟩] := ⟨_, rfl, rfl⟩
  have hadmits : (policy sampleConfiguration).AdmitsRun
      (Process.start (device sampleConfiguration) Store.fresh) (launch false 21) := by
    refine Policy.admitsRun_cons trivial rfl (Policy.admitsRun_cons ?_ rfl ?_)
    · intro c rest h
      cases h
      rintro ⟨-, h | ⟨-, h⟩⟩ <;> exact h rfl
    · repeat' first
        | exact trivial
        | exact fun id h => nomatch h
        | refine Policy.admitsRun_cons ?_ rfl ?_
  exact ⟨last, hlast, hids, (installsOnce_of_run hadmits hlast).1⟩

/-- A start that is to read the referrer again, and the next one. -/
def retriedLaunch : List (Event (device sampleConfiguration)) :=
  launch true 20 ++ .death :: launch true 18

/-- A first start that is to read the referrer again inserts a second install
when the process starts again, since the mark that stops it is set only for a
referrer that was read. -/
theorem retried_launch_installs_twice : ∃ events last,
    (Process.start (device sampleConfiguration) Store.fresh).run events = some last ∧
    ¬InstallsOnce last.store := by
  have hrun : ((Process.start (device sampleConfiguration) Store.fresh).run retriedLaunch).map
      (fun p => installedIds p.store.inserted) = some [⟨0⟩, ⟨0⟩] := rfl
  obtain ⟨last, hlast, hids⟩ := Option.map_eq_some_iff.mp hrun
  refine ⟨_, last, hlast, fun h => ?_⟩
  have hnodup := h.installs
  rw [hids] at hnodup
  exact absurd hnodup (by decide)

end Runs

end OpenMasu.Android
