import OpenMasu.AdminAuth

/-!
# Administrative keys over a history

The table of keys and the table of their states only grow.  A key has one row,
one tenant and one role; its states are its activation and at most one
retirement behind it, so that the current state tells whether the key was
retired, whatever the configuration still lists.

* `ensureAdminKey_cases` — a turn of the provisioning loop finds the key in its
  role or creates it;
* `KeysInvariant` — every key was configured, and is active until it is retired;
* `ensureAdminKeys_ok`, `KeysInvariant.retire` — what a provision and a
  retirement do to them.
-/

namespace OpenMasu

open AppendOnly (insertOnce)

section Keeping

variable {P : AdminPrimitives} {t t' : AdminTables} {tenantId keyId : String}
  {salt : String → String} {c : ConfiguredAdminKey} {events : List AdminEvent}

/-- The states of a key, in the order of their sequence. -/
def AdminTables.statesOf (t : AdminTables) (tenantId keyId : String) : List AdminKeyStatus :=
  (t.keyStates.filter fun s => s.tenantId = tenantId && s.keyId = keyId).map
    AdminKeyStateRow.status

/-- The status of a key is the last one written for it in its tenant. -/
theorem AdminTables.currentStatus_eq :
    t.currentStatus tenantId keyId = (t.statesOf tenantId keyId).getLast? :=
  (List.getLast?_map).symm

/-- A row that is found is one of the table, of the tenant and the key that
were looked up. -/
theorem mem_of_keyRow {k : AdminKeyRow} (h : t.keyRow tenantId keyId = some k) :
    k ∈ t.adminKeys ∧ k.tenantId = tenantId ∧ k.keyId = keyId := by
  have hfits := List.find?_some h
  simp only [Bool.and_eq_true, decide_eq_true_eq] at hfits
  exact ⟨List.mem_of_find?_eq_some h, hfits⟩

/-- Every key has one row and one tenant, which also owns its states; it was
activated first and is retired at most once. -/
structure KeysKept (t : AdminTables) : Prop where
  keys : (t.adminKeys.map AdminKeyRow.keyId).Nodup
  owned : ∀ row ∈ t.keyStates, ∃ k ∈ t.adminKeys, k.keyId = row.keyId ∧ k.tenantId = row.tenantId
  states : ∀ k ∈ t.adminKeys, t.statesOf k.tenantId k.keyId = [.active] ∨
    t.statesOf k.tenantId k.keyId = [.active, .retired]

/-- The identifier of a key tells its row: no two rows bear one identifier, in
whatever tenants. -/
theorem KeysKept.eq_of_keyId (hkept : KeysKept t) {k k' : AdminKeyRow} (hk : k ∈ t.adminKeys)
    (hk' : k' ∈ t.adminKeys) (h : k.keyId = k'.keyId) : k = k' :=
  List.inj_on_of_nodup_map hkept.keys hk hk' h

/-- The statuses of a key are read from its rows in the order in which they
were written. -/
theorem mem_statesOf {status : AdminKeyStatus} :
    status ∈ t.statesOf tenantId keyId ↔ ⟨keyId, tenantId, status⟩ ∈ t.keyStates := by
  constructor
  · intro h
    obtain ⟨row, hrow, rfl⟩ := List.mem_map.mp h
    obtain ⟨hmem, hfits⟩ := List.mem_filter.mp hrow
    simp only [Bool.and_eq_true, decide_eq_true_eq] at hfits
    obtain ⟨rfl, rfl⟩ := hfits
    exact hmem
  · intro h
    exact List.mem_map.mpr ⟨_, List.mem_filter.mpr ⟨h, by simp⟩, rfl⟩

/-- A state of a known key is under the unique constraint. -/
theorem KeysKept.mem_stateKeys (hkept : KeysKept t) {k : AdminKeyRow} (hk : k ∈ t.adminKeys)
    {status : AdminKeyStatus} : (k.keyId, status) ∈ t.keyStates.map AdminKeyStateRow.key ↔
      status ∈ t.statesOf k.tenantId k.keyId := by
  rw [mem_statesOf]
  constructor
  · intro h
    obtain ⟨row, hrow, hkey⟩ := List.mem_map.mp h
    obtain ⟨k', hk', hid, htenant⟩ := hkept.owned row hrow
    obtain ⟨hkeyId, hstatus⟩ := Prod.mk.inj hkey
    obtain rfl := hkept.eq_of_keyId hk' hk (hid.trans hkeyId)
    obtain ⟨rowKey, rowTenant, rowStatus⟩ := row
    simp only at hid htenant hstatus
    rwa [hid, htenant, ← hstatus]
  · intro h
    exact List.mem_map.mpr ⟨_, h, rfl⟩

/-- The states of a key after a row more. -/
theorem statesOf_append (row : AdminKeyStateRow) :
    { t with keyStates := t.keyStates ++ [row] }.statesOf tenantId keyId =
      t.statesOf tenantId keyId ++
        if row.tenantId = tenantId ∧ row.keyId = keyId then [row.status] else [] := by
  unfold AdminTables.statesOf
  rw [List.filter_append, List.map_append]
  by_cases h : row.tenantId = tenantId ∧ row.keyId = keyId <;> simp [h]

/-- The tables with a new key. -/
def AdminTables.withKey (t : AdminTables) (row : AdminKeyRow) : AdminTables :=
  { t with
    adminKeys := t.adminKeys ++ [row]
    keyStates := t.keyStates ++ [⟨row.keyId, row.tenantId, .active⟩] }

/-- The tables after a retirement. -/
def AdminTables.withRetired (t : AdminTables) (tenantId keyId : String) : AdminTables :=
  { t with keyStates := t.keyStates ++ [⟨keyId, tenantId, .retired⟩] }

/-- A key that is known is not written again, whatever the rest of its row
says. -/
theorem insertKey_of_mem {row : AdminKeyRow}
    (h : row.keyId ∈ t.adminKeys.map AdminKeyRow.keyId) : t.insertKey row = t := by
  rw [AdminTables.insertKey, insertOnce, if_pos h]

/-- A status that was written for a key before is not written again. -/
theorem insertState_of_mem {row : AdminKeyStateRow}
    (h : row.key ∈ t.keyStates.map AdminKeyStateRow.key) : t.insertState row = t := by
  rw [AdminTables.insertState, insertOnce, if_pos h]

/-- A key that is not known is written behind the others. -/
theorem insertKey_of_notMem {row : AdminKeyRow}
    (h : row.keyId ∉ t.adminKeys.map AdminKeyRow.keyId) :
    t.insertKey row = { t with adminKeys := t.adminKeys ++ [row] } := by
  rw [AdminTables.insertKey, insertOnce, if_neg h]

/-- A status that is new for its key is written behind all others. -/
theorem insertState_of_notMem {row : AdminKeyStateRow}
    (h : row.key ∉ t.keyStates.map AdminKeyStateRow.key) :
    t.insertState row = { t with keyStates := t.keyStates ++ [row] } := by
  rw [AdminTables.insertState, insertOnce, if_neg h]

/-- A turn of the loop finds the key in its role, or creates it. -/
theorem ensureAdminKey_cases (hkept : KeysKept t)
    (h : ensureAdminKey P tenantId salt t c = .ok t') : c.key ≠ "" ∧
    ((t' = t ∧ ∃ k ∈ t.adminKeys,
        k.keyId = P.keyId c.key ∧ k.tenantId = tenantId ∧ k.role = c.role) ∨
      (P.keyId c.key ∉ t.adminKeys.map AdminKeyRow.keyId ∧
        t' = t.withKey (configuredRow P tenantId salt c))) := by
  unfold ensureAdminKey at h
  dsimp only at h
  split at h
  · cases h
  · case isFalse hsize =>
    split at h
    · cases h
    · case isFalse hrole =>
        cases h
        refine ⟨fun hempty => hsize (hempty ▸ by decide), ?_⟩
        by_cases hid : P.keyId c.key ∈ t.adminKeys.map AdminKeyRow.keyId
        · have hsame : t.insertKey (configuredRow P tenantId salt c) = t := insertKey_of_mem hid
          rw [hsame, not_not] at hrole
          obtain ⟨k, hrow, hkrole⟩ := Option.map_eq_some_iff.mp hrole
          obtain ⟨hk, hktenant, hkid⟩ := mem_of_keyRow hrow
          refine .inl ⟨?_, k, hk, hkid, hktenant, hkrole⟩
          have hactive : (P.keyId c.key, AdminKeyStatus.active) ∈
              t.keyStates.map AdminKeyStateRow.key := by
            rw [← hkid, hkept.mem_stateKeys hk]
            rcases hkept.states k hk with hstates | hstates <;> rw [hstates] <;> simp
          rw [hsame, insertState_of_mem hactive]
        · refine .inr ⟨hid, ?_⟩
          have hfree : (P.keyId c.key, AdminKeyStatus.active) ∉
              t.keyStates.map AdminKeyStateRow.key := by
            intro hmem
            obtain ⟨row, hrow, hkey⟩ := List.mem_map.mp hmem
            obtain ⟨k, hk, hkid, -⟩ := hkept.owned row hrow
            exact hid (List.mem_map.mpr ⟨k, hk, hkid.trans (Prod.mk.inj hkey).1⟩)
          have hinserted : t.insertKey (configuredRow P tenantId salt c) = { t with
              adminKeys := t.adminKeys ++ [configuredRow P tenantId salt c] } :=
            insertKey_of_notMem hid
          rw [hinserted, insertState_of_notMem hfree]
          rfl

/-- A key without a row has no status either: statuses are written behind the
row of their key. -/
theorem statesOf_of_free (hkept : KeysKept t) (h : keyId ∉ t.adminKeys.map AdminKeyRow.keyId) :
    t.statesOf tenantId keyId = [] := by
  refine List.eq_nil_iff_forall_not_mem.mpr fun status hstatus => ?_
  obtain ⟨k, hk, hkid, -⟩ := hkept.owned _ (mem_statesOf.mp hstatus)
  exact h (List.mem_map.mpr ⟨k, hk, hkid⟩)

/-- A new key begins with the status active; the statuses of the others stay.
-/
theorem statesOf_withKey {row : AdminKeyRow} :
    (t.withKey row).statesOf tenantId keyId = t.statesOf tenantId keyId ++
      if row.tenantId = tenantId ∧ row.keyId = keyId then [.active] else [] :=
  statesOf_append (t := t) ⟨row.keyId, row.tenantId, .active⟩

/-- A retirement is the last status of its key; the statuses of the others
stay. -/
theorem statesOf_withRetired {a b : String} :
    (t.withRetired a b).statesOf tenantId keyId = t.statesOf tenantId keyId ++
      if a = tenantId ∧ b = keyId then [.retired] else [] :=
  statesOf_append (t := t) ⟨b, a, .retired⟩

/-- The states of a key that was there before a new one. -/
theorem statesOf_withKey_of_mem {row k : AdminKeyRow} (hk : k ∈ t.adminKeys)
    (hfree : row.keyId ∉ t.adminKeys.map AdminKeyRow.keyId) :
    (t.withKey row).statesOf k.tenantId k.keyId = t.statesOf k.tenantId k.keyId := by
  have hne : ¬ (row.tenantId = k.tenantId ∧ row.keyId = k.keyId) := fun h =>
    hfree (List.mem_map.mpr ⟨k, hk, h.2.symm⟩)
  rw [statesOf_withKey, if_neg hne, List.append_nil]

/-- A new key, written with its first status, keeps the tables in order. -/
theorem KeysKept.withKey (hkept : KeysKept t) {row : AdminKeyRow}
    (hfree : row.keyId ∉ t.adminKeys.map AdminKeyRow.keyId) : KeysKept (t.withKey row) where
  keys := by
    rw [AdminTables.withKey, List.map_append]
    exact hkept.keys.append (List.nodup_singleton _) (by simpa using hfree)
  owned := by
    intro st hst
    rcases List.mem_append.mp hst with hst | hst
    · obtain ⟨k, hk, hkst⟩ := hkept.owned st hst
      exact ⟨k, List.mem_append_left _ hk, hkst⟩
    · obtain rfl := List.mem_singleton.mp hst
      exact ⟨row, List.mem_append_right _ List.mem_cons_self, rfl, rfl⟩
  states := by
    intro k hk
    rcases List.mem_append.mp hk with hk | hk
    · rw [statesOf_withKey_of_mem hk hfree]
      exact hkept.states k hk
    · obtain rfl := List.mem_singleton.mp hk
      rw [statesOf_withKey, statesOf_of_free hkept hfree, if_pos ⟨rfl, rfl⟩]
      exact .inl rfl

/-- A retirement follows the activation of its key and leaves the others. -/
theorem KeysKept.statesOf_withRetired_of_mem (hkept : KeysKept t) {k k' : AdminKeyRow}
    (hk : k ∈ t.adminKeys) (hk' : k' ∈ t.adminKeys)
    (hnew : (k.keyId, AdminKeyStatus.retired) ∉ t.keyStates.map AdminKeyStateRow.key) :
    (t.withRetired k.tenantId k.keyId).statesOf k'.tenantId k'.keyId =
      if k' = k then [.active, .retired] else t.statesOf k'.tenantId k'.keyId := by
  rw [statesOf_withRetired]
  by_cases hsame : k' = k
  · subst hsame
    rw [hkept.mem_stateKeys hk] at hnew
    rcases hkept.states k' hk with hstates | hstates
    · rw [if_pos ⟨rfl, rfl⟩, if_pos rfl, hstates]
      rfl
    · exact absurd (by rw [hstates]; simp) hnew
  · rw [if_neg hsame, if_neg fun h => hsame (hkept.eq_of_keyId hk' hk h.2.symm), List.append_nil]

/-- The retirement of a key that is known and not retired keeps the tables in
order. -/
theorem KeysKept.withRetired (hkept : KeysKept t) {k : AdminKeyRow} (hk : k ∈ t.adminKeys)
    (hnew : (k.keyId, AdminKeyStatus.retired) ∉ t.keyStates.map AdminKeyStateRow.key) :
    KeysKept (t.withRetired k.tenantId k.keyId) where
  keys := hkept.keys
  owned := by
    intro st hst
    rcases List.mem_append.mp hst with hst | hst
    · exact hkept.owned st hst
    · obtain rfl := List.mem_singleton.mp hst
      exact ⟨k, hk, rfl, rfl⟩
  states := by
    intro k' hk'
    rw [hkept.statesOf_withRetired_of_mem hk hk' hnew]
    split
    · exact .inr rfl
    · exact hkept.states k' hk'

end Keeping

section KeyHistory

variable {P : AdminPrimitives} {t t' : AdminTables} {tenantId : String}
  {salt : String → String} {c : ConfiguredAdminKey} {entries : List AdminKeyEntry}
  {events : List AdminEvent} {e : AdminEvent}

/-- A key of the identity was configured, under the role of the identity. -/
def Configures (P : AdminPrimitives) (history : List AdminEvent) (identity : AdminIdentity)
    (c : ConfiguredAdminKey) : Prop :=
  ∃ entries, .provision identity.tenantId entries ∈ history ∧ c ∈ uniqueKeys entries ∧
    P.keyId c.key = identity.keyId ∧ c.role = identity.role

/-- Who a request with the key acts as. -/
def AdminKeyRow.identity (k : AdminKeyRow) : AdminIdentity := ⟨k.keyId, k.tenantId, k.role⟩

/-- What was configured stays configured: later events take no entry back. -/
theorem Configures.snoc {identity : AdminIdentity} (h : Configures P events identity c) :
    Configures P (events ++ [e]) identity c := by
  obtain ⟨entries, hmem, hc⟩ := h
  exact ⟨entries, List.mem_append_left _ hmem, hc⟩

/-- The keys of the tables are the configured ones, and their states tell
whether they were retired. -/
structure KeysInvariant (P : AdminPrimitives) (events : List AdminEvent) (t : AdminTables) : Prop
    extends KeysKept t where
  configured : ∀ k ∈ t.adminKeys, ∃ c, Configures P events k.identity c ∧
    k.scryptDigest = P.verifier c.key k.scryptSalt
  retired : ∀ k ∈ t.adminKeys, t.statesOf k.tenantId k.keyId = [.active, .retired] ↔
    .retire k.tenantId k.keyId ∈ events
  known : ∀ a b, .retire a b ∈ events → ∃ k ∈ t.adminKeys, k.tenantId = a ∧ k.keyId = b

/-- A key is active as long as it was not retired. -/
theorem KeysInvariant.isActive_iff (hinv : KeysInvariant P events t) {k : AdminKeyRow}
    (hk : k ∈ t.adminKeys) : t.isActive k.tenantId k.keyId = true ↔
      .retire k.tenantId k.keyId ∉ events := by
  rw [AdminTables.isActive, decide_eq_true_eq, AdminTables.currentStatus_eq,
    ← hinv.retired k hk]
  rcases hinv.states k hk with hstates | hstates <;> simp [hstates]

/-- An event that retires no key, over the same keys. -/
theorem KeysInvariant.snoc (hinv : KeysInvariant P events t) (hkeys : t'.adminKeys = t.adminKeys)
    (hstates : t'.keyStates = t.keyStates) (he : ∀ a b, e ≠ .retire a b) :
    KeysInvariant P (events ++ [e]) t' := by
  have hof (a b : String) : t'.statesOf a b = t.statesOf a b := by
    rw [AdminTables.statesOf, hstates]
    rfl
  have hretire (a b : String) : .retire a b ∈ events ++ [e] ↔ .retire a b ∈ events := by
    rw [List.mem_append, List.mem_singleton, or_iff_left fun h => he a b h.symm]
  refine ⟨⟨hkeys ▸ hinv.keys, fun row hrow => ?_, fun k hk => ?_⟩, fun k hk => ?_, fun k hk => ?_,
    fun a b h => ?_⟩
  · rw [hkeys]
    exact hinv.owned row (hstates ▸ hrow)
  · rw [hof]
    exact hinv.states k (hkeys ▸ hk)
  · obtain ⟨c, hc, hdigest⟩ := hinv.configured k (hkeys ▸ hk)
    exact ⟨c, hc.snoc, hdigest⟩
  · rw [hof, hretire]
    exact hinv.retired k (hkeys ▸ hk)
  · rw [hkeys]
    exact hinv.known a b ((hretire a b).mp h)

/-- What the loop over the configured keys of a tenant leaves as it was, and
that it knows every key it went through. -/
structure LoopDone (P : AdminPrimitives) (tenantId : String) (cs : List ConfiguredAdminKey)
    (t t' : AdminTables) : Prop where
  kept : ∀ k ∈ t.adminKeys, k ∈ t'.adminKeys
  known : ∀ c ∈ cs, c.key ≠ "" ∧
    ∃ k ∈ t'.adminKeys, k.identity = ⟨P.keyId c.key, tenantId, c.role⟩
  others : ∀ a, a ≠ tenantId → t'.activeKeys a = t.activeKeys a
  sessions : t'.sessions = t.sessions

/-- A key of one tenant changes nothing in another. -/
theorem activeKeys_withKey {row : AdminKeyRow} {a : String}
    (hfree : row.keyId ∉ t.adminKeys.map AdminKeyRow.keyId) (ha : a ≠ row.tenantId) :
    (t.withKey row).activeKeys a = t.activeKeys a := by
  unfold AdminTables.activeKeys AdminTables.isActive
  rw [AdminTables.withKey, List.filter_append]
  have hnew : [row].filter (fun k => k.tenantId = a && Decidable.decide
      ((t.withKey row).currentStatus a k.keyId = some .active)) = [] := by
    simp [ha.symm]
  rw [← AdminTables.withKey, hnew, List.append_nil]
  refine List.filter_congr fun k hk => ?_
  by_cases hk' : k.tenantId = a
  · subst hk'
    rw [AdminTables.currentStatus_eq, AdminTables.currentStatus_eq,
      statesOf_withKey_of_mem hk hfree]
  · simp [hk']

/-- **Step.**  One turn of the loop over the configured keys keeps the
invariant, and leaves its key known. -/
theorem ensureAdminKey_done (hinv : KeysInvariant P events t)
    (hentries : .provision tenantId entries ∈ events) (hc : c ∈ uniqueKeys entries)
    (h : ensureAdminKey P tenantId salt t c = .ok t') :
    KeysInvariant P events t' ∧ LoopDone P tenantId [c] t t' := by
  obtain ⟨hne, ⟨rfl, k, hk, hid, htenant, hrole⟩ | ⟨hfree, rfl⟩⟩ :=
    ensureAdminKey_cases hinv.toKeysKept h
  · refine ⟨hinv, fun _ hk => hk, fun c' hc' => ?_, fun _ _ => rfl, rfl⟩
    rw [List.mem_singleton.mp hc']
    refine ⟨hne, k, hk, ?_⟩
    rw [AdminKeyRow.identity, hid, htenant, hrole]
  · let row := configuredRow P tenantId salt c
    have hfree' : row.keyId ∉ t.adminKeys.map AdminKeyRow.keyId := hfree
    have hrow : row ∈ (t.withKey row).adminKeys := List.mem_append_right _ List.mem_cons_self
    have hunretired : .retire row.tenantId row.keyId ∉ events := fun hretire => by
      obtain ⟨k, hk, -, hid⟩ := hinv.known _ _ hretire
      exact hfree' (List.mem_map.mpr ⟨k, hk, hid⟩)
    refine ⟨⟨hinv.toKeysKept.withKey hfree', fun k hk => ?_, fun k hk => ?_, fun a b hab => ?_⟩,
      fun k hk => List.mem_append_left _ hk, fun c' hc' => ?_,
      fun a ha => activeKeys_withKey hfree' ha, rfl⟩
    · rcases List.mem_append.mp hk with hk | hk
      · exact hinv.configured k hk
      · obtain rfl := List.mem_singleton.mp hk
        exact ⟨c, ⟨entries, hentries, hc, rfl, rfl⟩, rfl⟩
    · rcases List.mem_append.mp hk with hk | hk
      · rw [statesOf_withKey_of_mem hk hfree']
        exact hinv.retired k hk
      · obtain rfl := List.mem_singleton.mp hk
        rw [statesOf_withKey, statesOf_of_free hinv.toKeysKept hfree', if_pos ⟨rfl, rfl⟩]
        exact iff_of_false (by simp) hunretired
    · obtain ⟨k, hk, hkab⟩ := hinv.known a b hab
      exact ⟨k, List.mem_append_left _ hk, hkab⟩
    · rw [List.mem_singleton.mp hc']
      exact ⟨hne, row, hrow, rfl⟩

/-- The whole loop keeps the invariant, and leaves every key it went through
known in its role. -/
theorem foldlM_ensureAdminKey {cs : List ConfiguredAdminKey} (hinv : KeysInvariant P events t)
    (hentries : .provision tenantId entries ∈ events) (hcs : ∀ c ∈ cs, c ∈ uniqueKeys entries)
    (h : cs.foldlM (ensureAdminKey P tenantId salt) t = .ok t') :
    KeysInvariant P events t' ∧ LoopDone P tenantId cs t t' := by
  induction cs generalizing t with
  | nil =>
      cases h
      exact ⟨hinv, fun _ hk => hk, nofun, fun _ _ => rfl, rfl⟩
  | cons c cs ih =>
      rw [List.foldlM_cons] at h
      cases hfirst : ensureAdminKey P tenantId salt t c with
      | error err =>
          rw [hfirst] at h
          cases h
      | ok m =>
          rw [hfirst] at h
          obtain ⟨hm, hdone⟩ := ensureAdminKey_done hinv hentries (hcs c List.mem_cons_self) hfirst
          obtain ⟨ht', hrest⟩ := ih hm (fun c hc => hcs c (List.mem_cons_of_mem _ hc)) h
          refine ⟨ht', fun k hk => hrest.kept k (hdone.kept k hk), fun c' hc' => ?_,
            fun a ha => (hrest.others a ha).trans (hdone.others a ha),
            hrest.sessions.trans hdone.sessions⟩
          rcases List.mem_cons.mp hc' with rfl | hc'
          · obtain ⟨hne, k, hk, hkc⟩ := hdone.known c' List.mem_cons_self
            exact ⟨hne, k, hrest.kept k hk, hkc⟩
          · exact hrest.known c' hc'

/-- A provision that succeeds knows its keys, and leaves at most two of a role
active. -/
theorem ensureAdminKeys_ok {ids : List String} (hinv : KeysInvariant P events t)
    (h : ensureAdminKeys P tenantId salt entries t = .ok (ids, t')) :
    KeysInvariant P (events ++ [.provision tenantId entries]) t' ∧
      LoopDone P tenantId (uniqueKeys entries) t t' ∧ ∀ role, t'.activeCount tenantId role ≤ 2 := by
  unfold ensureAdminKeys at h
  dsimp only at h
  split at h
  · cases h
  · cases hloop : (uniqueKeys entries).foldlM (ensureAdminKey P tenantId salt) t with
    | error err =>
        rw [hloop] at h
        cases h
    | ok stored =>
        rw [hloop] at h
        change (if _ then _ else _) = _ at h
        split at h
        · cases h
        · case isFalse hcounts =>
            cases h
            have hstart : KeysInvariant P (events ++ [.provision tenantId entries]) t :=
              hinv.snoc rfl rfl nofun
            obtain ⟨ht', hdone⟩ := foldlM_ensureAdminKey hstart
              (List.mem_append_right _ List.mem_cons_self) (fun _ hc => hc) hloop
            refine ⟨ht', hdone, fun role => Nat.le_of_not_lt fun hlt => hcounts ?_⟩
            exact List.any_eq_true.mpr ⟨role, by cases role <;> simp, decide_eq_true hlt⟩

/-- A retirement leaves the other keys and takes one from the active ones. -/
theorem KeysInvariant.retire (hinv : KeysInvariant P events t) {k : AdminKeyRow}
    (hk : k ∈ t.adminKeys)
    (hnew : (k.keyId, AdminKeyStatus.retired) ∉ t.keyStates.map AdminKeyStateRow.key) :
    KeysInvariant P (events ++ [.retire k.tenantId k.keyId]) (t.withRetired k.tenantId k.keyId) ∧
      ∀ a role, (t.withRetired k.tenantId k.keyId).activeCount a role ≤ t.activeCount a role := by
  have hof (k' : AdminKeyRow) (hk' : k' ∈ t.adminKeys) :=
    hinv.toKeysKept.statesOf_withRetired_of_mem hk hk' hnew
  refine ⟨⟨hinv.toKeysKept.withRetired hk hnew, fun k' hk' => ?_, fun k' hk' => ?_,
    fun a b hab => ?_⟩, fun a role => ?_⟩
  · obtain ⟨c, hc, hdigest⟩ := hinv.configured k' hk'
    exact ⟨c, hc.snoc, hdigest⟩
  · rw [hof k' hk', List.mem_append, List.mem_singleton]
    split
    · case isTrue hsame => simp [hsame]
    · case isFalse hne =>
        rw [hinv.retired k' hk', or_iff_left]
        intro heq
        exact hne (hinv.toKeysKept.eq_of_keyId hk' hk (AdminEvent.retire.inj heq).2)
  · rcases List.mem_append.mp hab with hab | hab
    · exact hinv.known a b hab
    · cases List.mem_singleton.mp hab
      exact ⟨k, hk, rfl, rfl⟩
  · unfold AdminTables.activeCount AdminTables.activeKeys
    rw [List.countP_filter, List.countP_filter]
    refine List.countP_mono_left fun k' hk' h => ?_
    simp only [Bool.and_eq_true, decide_eq_true_eq, AdminTables.isActive,
      AdminTables.currentStatus_eq] at h ⊢
    obtain ⟨hrole, rfl, hactive⟩ := h
    refine ⟨hrole, rfl, ?_⟩
    rw [hof k' hk'] at hactive
    split at hactive
    · cases hactive
    · exact hactive

end KeyHistory

end OpenMasu
