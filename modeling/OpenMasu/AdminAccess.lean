import OpenMasu.AdminKeys

/-!
# What stands behind an administrative operation

In a run of any deployments over one database the check of a request, the login
or the operation it comes to and the retirement of a key are steps of their
own.  The checks are made in the state the request finds; what they establish
is read back from the history of the run.

* `AdminAccess` — every operation was requested with a key in force, or with an
  open session of a login with such a key, for a route its role may use;
* `AdminKeysKept` — a key keeps its role, and is accepted until it is retired;
* `SessionsEnd` — a session that was logged out opens nothing any more;
* `AdminInvariant`, `dispatch_eq_task` — the invariant of the steps, and what
  the checks of a request come to;
* `loginRun_entitled`, `loginRun_accepted`, `loginRun_closed` — a login, what
  its session asks for, and its logout.
-/

namespace OpenMasu

section Laws

variable (P : AdminPrimitives)

/-- The text passes for a key of the identity. -/
def OpensKey (history : List AdminEvent) (identity : AdminIdentity) (candidate : String) : Prop :=
  P.keyId candidate = identity.keyId ∧ ∃ c salt, Configures P history identity c ∧
    P.verifier candidate salt = P.verifier c.key salt

/-- The event opens a session of the identity for the digest of a token, past
a time. -/
def OpensSession (identity : AdminIdentity) (sessionId tokenDigest : String) (now : Int)
    (e : AdminEvent) : Prop :=
  ∃ ttlSeconds token since, e = .issue identity ttlSeconds sessionId token since ∧
    P.digest token = tokenDigest ∧ now < since + ttlSeconds * 1000

/-- The event logs a session out. -/
def EndsSession (tenantId sessionId : String) (e : AdminEvent) : Prop :=
  ∃ session, e = .revoke session ∧ session.tenantId = tenantId ∧ session.sessionId = sessionId

/-- What a request for an operation has shown: the operation is the one of its
route and the role may perform it, the key was configured and not retired, and
the credential is the key or an open session of a login with it, in a request
of the dashboard's own where the route writes. -/
structure Entitled (history : List AdminEvent) (config : DashboardConfig) (r : AdminRequest)
    (now : Int) (op : Operation) : Prop where
  tenant : op.identity.tenantId = config.tenantId
  configured : ∃ c, Configures P history op.identity c
  notRetired : .retire op.identity.tenantId op.identity.keyId ∉ history
  credential : ∃ route, matchRoute r.method r.pathname = some route ∧
    route.handler = op.handler ∧ roleAllows op.identity.role route.capability = true ∧
    ((∃ candidate, bearerCandidate r.authorization = some candidate ∧
        OpensKey P history op.identity candidate) ∨
      ∃ token sessionId, readDashboardToken config.cookieName r.cookie = some token ∧
        TransitionSystem.Since
          (OpensSession P op.identity sessionId (P.digest token) now)
          (EndsSession op.identity.tenantId sessionId) history ∧
        (route.mutates = true → csrfAccepted P config r token = true))

/-- What stands behind the operations and the sessions of every run. -/
structure AdminAccess : Prop where
  /-- Whoever performs an operation was entitled to it by an earlier request. -/
  entitled (events : List AdminEvent) (s : AdminState) : (adminSystem P).Run events s →
    ∀ op ∈ s.performed, ∃ before config r context after,
      events = before ++ .request config r context :: after ∧
      Entitled P before config r context.now op
  /-- A session is opened for an earlier request to the login route, with the
  text of a key that was in force. -/
  loggedIn (before after : List AdminEvent) (identity : AdminIdentity) (ttlSeconds : Int)
      (sessionId token : String) (now : Int) (s : AdminState) :
    (adminSystem P).Run (before ++ .issue identity ttlSeconds sessionId token now :: after) s →
    ∃ earlier config r context later, before = earlier ++ .request config r context :: later ∧
      (∃ route, matchRoute r.method r.pathname = some route ∧ route.handler = .dashboardLogin) ∧
      identity.tenantId = config.tenantId ∧
      .retire identity.tenantId identity.keyId ∉ earlier ∧
      ∃ candidate, r.field "admin_key" = some candidate ∧ OpensKey P earlier identity candidate

/-- What becomes of the keys in every run. -/
structure AdminKeysKept : Prop where
  /-- A key acts for one tenant in one role. -/
  oneRole (events : List AdminEvent) (s : AdminState) : (adminSystem P).Run events s →
    ∀ op ∈ s.performed, ∀ op' ∈ s.performed, op.identity.keyId = op'.identity.keyId →
      op.identity = op'.identity
  atMostTwo (events : List AdminEvent) (s : AdminState) : (adminSystem P).Run events s →
    ∀ tenantId role, s.tables.activeCount tenantId role ≤ 2
  /-- A configured key that was not retired is accepted in its role, where no
  two configured keys share an identifier. -/
  accepted (events : List AdminEvent) (s : AdminState) : (adminSystem P).Run events s →
    (∀ tenantId entries tenantId' entries',
      .provision tenantId entries ∈ events → .provision tenantId' entries' ∈ events →
      ∀ c ∈ uniqueKeys entries, ∀ c' ∈ uniqueKeys entries', P.keyId c.key = P.keyId c'.key →
        c.key = c'.key) →
    ∀ tenantId entries, .provision tenantId entries ∈ events → ∀ c ∈ uniqueKeys entries,
      (c.key.toList.all fun x => !NumberText.isSpace x) = true →
      .retire tenantId (P.keyId c.key) ∉ events →
      verifyAdminKey P s.tables tenantId (some ("Bearer " ++ c.key)) =
        some ⟨P.keyId c.key, tenantId, c.role⟩

/-- The digest of the token that an event gives out. -/
def AdminEvent.issuedDigest : AdminEvent → Option String
  | .issue _ _ _ token _ => some (P.digest token)
  | _ => none

/-- A session that was logged out stays closed, where the digests of the tokens
that are given out are distinct: no token is drawn twice, and the digest tells
those that are drawn apart. -/
def SessionsEnd : Prop :=
  ∀ (before after : List AdminEvent) (session : DashboardSession) (s : AdminState),
    (adminSystem P).Run (before ++ .revoke session :: after) s →
    ((before ++ .revoke session :: after).filterMap (AdminEvent.issuedDigest P)).Nodup →
    ∀ now, readDashboardSession P s.tables session.tenantId session.token now = none

end Laws

section Runs

open TransitionSystem (Since Saw)

variable {P : AdminPrimitives} {events : List AdminEvent} {e : AdminEvent} {s s' : AdminState}
  {t : AdminTables}

/-- The session was opened by an event and not logged out since. -/
def Opened (P : AdminPrimitives) (row : DashboardSessionRow) : List AdminEvent → Prop :=
  Since
    (fun e => ∃ identity ttlSeconds token,
      e = .issue identity ttlSeconds row.sessionId token row.createdAt ∧
        identity.keyId = row.adminKeyId ∧ identity.tenantId = row.tenantId ∧
        P.digest token = row.tokenDigest ∧ row.expiresAt = row.createdAt + ttlSeconds * 1000)
    (EndsSession row.tenantId row.sessionId)

/-- The event is a request whose checks come to a task of a kind. -/
def ComesTo (P : AdminPrimitives) (kind : AdminTask → Prop) (_ : List AdminEvent) (s : AdminState)
    (e : AdminEvent) : Prop :=
  ∃ config r context task, e = .request config r context ∧
    dispatch P config s.tables r context = .task task ∧ kind task

/-- The task carries the operation out. -/
def AdminTask.CarriesOut (op : Operation) (task : AdminTask) : Prop :=
  task = .operation op ∨
    ∃ session, task = .logout session ∧ op = ⟨.dashboardLogout, session.identity⟩

/-- What holds in every state of a run: the keys are in order, every session
row was opened and not logged out, and every task in flight or operation
performed came from a request that passed its checks. -/
structure AdminInvariant (P : AdminPrimitives) (events : List AdminEvent) (s : AdminState) :
    Prop where
  keys : KeysInvariant P events s.tables
  counts : ∀ tenantId role, s.tables.activeCount tenantId role ≤ 2
  provided : ∀ tenantId entries, .provision tenantId entries ∈ events →
    ∀ c ∈ uniqueKeys entries, c.key ≠ "" ∧ ∃ k ∈ s.tables.adminKeys,
      k.identity = ⟨P.keyId c.key, tenantId, c.role⟩
  sessions : ∀ row ∈ s.tables.sessions, Opened P row events
  inFlight : ∀ task ∈ s.inFlight, (adminSystem P).Saw (ComesTo P (· = task)) events s
  performed : ∀ op ∈ s.performed, (adminSystem P).Saw (ComesTo P (·.CarriesOut op)) events s

/-- How many keys of a role are active depends on the tables of keys and
statuses alone. -/
theorem activeCount_congr {t' : AdminTables} (hkeys : t'.adminKeys = t.adminKeys)
    (hstates : t'.keyStates = t.keyStates) (tenantId : String) (role : AdminRole) :
    t'.activeCount tenantId role = t.activeCount tenantId role := by
  unfold AdminTables.activeCount AdminTables.activeKeys AdminTables.isActive
    AdminTables.currentStatus
  rw [hkeys, hstates]

/-- A step that leaves the keys alone. -/
theorem AdminInvariant.keep (hinv : AdminInvariant P events s) (hstep : AdminStep P s e s')
    (hkeys : s'.tables.adminKeys = s.tables.adminKeys)
    (hstates : s'.tables.keyStates = s.tables.keyStates)
    (hretire : ∀ a b, e ≠ .retire a b) (hprovision : ∀ a entries, e ≠ .provision a entries)
    (hsessions : ∀ row ∈ s'.tables.sessions, Opened P row (events ++ [e]))
    (hflight : ∀ task ∈ s'.inFlight, task ∈ s.inFlight ∨
      (adminSystem P).Saw (ComesTo P (· = task)) (events ++ [e]) s')
    (hperformed : ∀ op ∈ s'.performed, op ∈ s.performed ∨
      (adminSystem P).Saw (ComesTo P (·.CarriesOut op)) events s) :
    AdminInvariant P (events ++ [e]) s' where
  keys := hinv.keys.snoc hkeys hstates hretire
  counts tenantId role := activeCount_congr hkeys hstates tenantId role ▸ hinv.counts tenantId role
  provided tenantId entries hmem c hc := by
    rw [hkeys]
    rcases List.mem_append.mp hmem with hmem | hmem
    · exact hinv.provided tenantId entries hmem c hc
    · exact absurd (List.mem_singleton.mp hmem).symm (hprovision tenantId entries)
  sessions := hsessions
  inFlight task htask := (hflight task htask).elim (fun h => (hinv.inFlight task h).snoc hstep) id
  performed op hop := ((hperformed op hop).elim (hinv.performed op) id).snoc hstep

/-- An event that does not log the session out leaves it open. -/
theorem Opened.snoc {row : DashboardSessionRow} (h : Opened P row events)
    (he : ¬ EndsSession row.tenantId row.sessionId e) : Opened P row (events ++ [e]) :=
  Since.snoc h he

/-- A login writes one row, under a session id and a token digest that are new.
-/
theorem issueDashboardSession_eq_some {identity : AdminIdentity} {ttlSeconds now : Int}
    {sessionId token : String} {t' : AdminTables}
    (h : issueDashboardSession P t identity ttlSeconds sessionId token now = some t') :
    t' = { t with sessions := t.sessions ++ [
        ⟨sessionId, identity.tenantId, identity.keyId, P.digest token, now,
          now + ttlSeconds * 1000⟩] } ∧
      ∀ row ∈ t.sessions, row.sessionId ≠ sessionId ∧ row.tokenDigest ≠ P.digest token := by
  unfold issueDashboardSession at h
  dsimp only at h
  split at h
  · cases h
  · split at h
    · cases h
    · case isFalse hfree =>
        cases h
        refine ⟨rfl, fun row hrow => ?_⟩
        rw [not_or, Bool.not_eq_true, Bool.not_eq_true, List.any_eq_false] at hfree
        simpa using hfree.2 row hrow

/-- A session was opened by the event that wrote its row. -/
theorem opened_of_issue {identity : AdminIdentity} {ttlSeconds now : Int}
    {sessionId token : String} : Opened P
      ⟨sessionId, identity.tenantId, identity.keyId, P.digest token, now, now + ttlSeconds * 1000⟩
      (events ++ [.issue identity ttlSeconds sessionId token now]) :=
  Since.last ⟨identity, ttlSeconds, token, rfl, rfl, rfl, rfl, rfl⟩

/-- **Step lemma.**  The step of any party keeps the invariant: a party adds to
the history what its step reads and writes. -/
theorem AdminInvariant.step (hrun : (adminSystem P).Run events s)
    (hinv : AdminInvariant P events s) (hstep : AdminStep P s e s') :
    AdminInvariant P (events ++ [e]) s' := by
  -- the sessions after an event that logs nobody out
  have hopened (hne : ∀ session, e ≠ .revoke session) {rows : List DashboardSessionRow}
      (hrows : ∀ row ∈ rows, row ∈ s.tables.sessions) :
      ∀ row ∈ rows, Opened P row (events ++ [e]) := by
    intro row hrow
    refine (hinv.sessions row (hrows row hrow)).snoc ?_
    rintro ⟨session, rfl, -⟩
    exact hne session rfl
  have hstep' : (adminSystem P).step s e s' := hstep
  cases hstep with
  | @provision tenantId entries salt ids tables hok =>
      obtain ⟨hkeys, hdone, hcounts⟩ := ensureAdminKeys_ok hinv.keys hok
      refine ⟨hkeys, fun a role => ?_, fun a entries' hmem c hc => ?_, fun row hrow => ?_,
        fun task htask => (hinv.inFlight task htask).snoc hstep',
        fun op hop => (hinv.performed op hop).snoc hstep'⟩
      · by_cases ha : a = tenantId
        · exact ha ▸ hcounts role
        · have hsame := hinv.counts a role
          rwa [AdminTables.activeCount, ← hdone.others a ha] at hsame
      · rcases List.mem_append.mp hmem with hmem | hmem
        · obtain ⟨hne, k, hk, hkc⟩ := hinv.provided a entries' hmem c hc
          exact ⟨hne, k, hdone.kept k hk, hkc⟩
        · cases List.mem_singleton.mp hmem
          exact hdone.known c hc
      · exact hopened nofun (fun _ h => hdone.sessions ▸ h) row hrow
  | @retire tenantId keyId hrow hnew =>
      obtain ⟨k, hk⟩ := Option.isSome_iff_exists.mp hrow
      obtain ⟨hmem, rfl, rfl⟩ := mem_of_keyRow hk
      have hstate : s.tables.insertState ⟨k.keyId, k.tenantId, .retired⟩ =
          s.tables.withRetired k.tenantId k.keyId := insertState_of_notMem hnew
      obtain ⟨hkeys, hcounts⟩ := hinv.keys.retire hmem hnew
      rw [hstate] at hstep' ⊢
      refine ⟨hkeys, fun a role => (hcounts a role).trans (hinv.counts a role),
        fun a entries' hentries c hc => ?_, fun row hrow => ?_,
        fun task htask => (hinv.inFlight task htask).snoc hstep',
        fun op hop => (hinv.performed op hop).snoc hstep'⟩
      · rcases List.mem_append.mp hentries with hentries | hentries
        · exact hinv.provided a entries' hentries c hc
        · cases List.mem_singleton.mp hentries
      · exact hopened nofun (fun _ h => h) row hrow
  | @request config r context =>
      cases hd : dispatch P config s.tables r context with
      | refused status =>
          rw [hd] at hstep'
          exact hinv.keep hstep' rfl rfl nofun nofun (hopened nofun fun _ h => h)
            (fun _ => .inl) fun _ => .inl
      | unguarded handler =>
          rw [hd] at hstep'
          exact hinv.keep hstep' rfl rfl nofun nofun (hopened nofun fun _ h => h)
            (fun _ => .inl) fun _ => .inl
      | task task =>
          rw [hd] at hstep'
          refine hinv.keep hstep' rfl rfl nofun nofun (hopened nofun fun _ h => h)
            (fun task' htask' => ?_) fun _ => .inl
          rcases List.mem_cons.mp htask' with rfl | htask'
          · exact .inr (Saw.last hrun hstep' ⟨config, r, context, task', rfl, hd, rfl⟩)
          · exact .inl htask'
  | @issue identity ttlSeconds sessionId token now tables hmem hissue =>
      obtain ⟨rfl, -⟩ := issueDashboardSession_eq_some hissue
      refine hinv.keep hstep' rfl rfl nofun nofun (fun row hrow => ?_)
        (fun task htask => .inl (List.mem_of_mem_erase htask)) fun _ => .inl
      rcases List.mem_append.mp hrow with hrow | hrow
      · exact hopened nofun (fun _ h => h) row hrow
      · rw [List.mem_singleton.mp hrow]
        exact opened_of_issue
  | @revoke session hmem =>
      refine hinv.keep hstep' rfl rfl nofun nofun (fun row hrow => ?_)
        (fun task htask => .inl (List.mem_of_mem_erase htask)) fun op hop => ?_
      · obtain ⟨hrow, hother⟩ := List.mem_filter.mp hrow
        refine (hinv.sessions row hrow).snoc ?_
        rintro ⟨session', heq, htenant, hid⟩
        cases heq
        simp [htenant, hid] at hother
      · rcases List.mem_append.mp hop with hop | hop
        · exact .inl hop
        · obtain rfl := List.mem_singleton.mp hop
          refine .inr ((hinv.inFlight _ hmem).mono fun es m e hsaw => ?_)
          obtain ⟨config, r, context, task, he, hd, rfl⟩ := hsaw
          exact ⟨config, r, context, _, he, hd, .inr ⟨session, rfl, rfl⟩⟩
  | @perform op hmem =>
      refine hinv.keep hstep' rfl rfl nofun nofun (hopened nofun fun _ h => h)
        (fun task htask => .inl (List.mem_of_mem_erase htask)) fun op' hop' => ?_
      rcases List.mem_append.mp hop' with hop' | hop'
      · exact .inl hop'
      · obtain rfl := List.mem_singleton.mp hop'
        refine .inr ((hinv.inFlight _ hmem).mono fun es m e hsaw => ?_)
        obtain ⟨config, r, context, task, he, hd, rfl⟩ := hsaw
        exact ⟨config, r, context, _, he, hd, .inl rfl⟩
  | abandon hmem =>
      exact hinv.keep hstep' rfl rfl nofun nofun (hopened nofun fun _ h => h)
        (fun task htask => .inl (List.mem_of_mem_erase htask)) fun _ => .inl
  | sweep =>
      exact hinv.keep hstep' rfl rfl nofun nofun
        (hopened nofun fun _ h => (List.mem_filter.mp h).1)
        (fun _ => .inl) fun _ => .inl

/-- **Run lemma.**  The invariant holds in every state of every run, by
induction on the history. -/
theorem adminInvariant (h : (adminSystem P).Run events s) : AdminInvariant P events s := by
  refine h.invariant (fun s hs => ?_) fun es s e s' hrun hinv hstep => hinv.step hrun hstep
  obtain rfl : s = ⟨⟨[], [], []⟩, [], []⟩ := hs
  refine ⟨⟨⟨List.nodup_nil, nofun, nofun⟩, nofun, nofun, nofun⟩, fun _ _ => ?_, nofun, nofun,
    nofun, nofun⟩
  exact Nat.zero_le 2

end Runs

section Requests

variable {P : AdminPrimitives} {config : DashboardConfig} {t : AdminTables} {r : AdminRequest}
  {context : RequestContext} {events : List AdminEvent}

/-- A text behind `Bearer ` is read as it is, where it is not empty and has no
white space. -/
theorem bearerCandidate_bearer {key candidate : String} :
    bearerCandidate (some ("Bearer " ++ key)) = some candidate ↔
      candidate = key ∧ key ≠ "" ∧ (key.toList.all fun c => !NumberText.isSpace c) = true := by
  have hprefix : "Bearer ".toList.isPrefixOf? ("Bearer " ++ key).toList = some key.toList :=
    List.isPrefixOf?_eq_some_iff_append_eq.mpr String.toList_append.symm
  rw [bearerCandidate, Option.getD_some, hprefix]
  dsimp only
  have hempty : key.toList = [] ↔ key = "" := String.toList_eq_nil_iff
  split
  · case isTrue h =>
      rw [Option.some.injEq, String.ofList_toList]
      exact ⟨fun heq => ⟨heq.symm, fun he => h.1 (hempty.mpr he), h.2⟩, fun heq => heq.1.symm⟩
  · case isFalse h =>
      exact iff_of_false nofun fun heq => h ⟨fun he => heq.2.1 (hempty.mp he), heq.2.2⟩

/-- A key that is accepted has a row of the tenant that is active, and passes
for it under the salt of the row. -/
theorem verifyAdminKey_eq_some {tenantId : String} {authorization : Option String}
    {identity : AdminIdentity} (h : verifyAdminKey P t tenantId authorization = some identity) :
    ∃ candidate, bearerCandidate authorization = some candidate ∧
      ∃ k ∈ t.adminKeys, k.tenantId = tenantId ∧ t.isActive tenantId k.keyId = true ∧
        k.keyId = P.keyId candidate ∧ P.verifier candidate k.scryptSalt = k.scryptDigest ∧
        identity = k.identity := by
  obtain ⟨candidate, hcandidate, h⟩ := Option.bind_eq_some_iff.mp h
  obtain ⟨k, hk, h⟩ := Option.bind_eq_some_iff.mp h
  have hid := List.find?_some hk
  obtain ⟨hmem, hactive⟩ := List.mem_filter.mp (List.mem_of_find?_eq_some hk)
  simp only [Bool.and_eq_true, decide_eq_true_eq] at hid hactive
  split at h
  · case isTrue hverifier =>
      cases h
      refine ⟨candidate, hcandidate, k, hmem, hactive.1, hactive.2, hid, hverifier, ?_⟩
      rw [AdminKeyRow.identity, hactive.1]
  · cases h

/-- A session that is read has a row that has not expired, under the digest of
the token, and the key it was opened with is still active. -/
theorem readDashboardSession_eq_some {tenantId token : String} {now : Int}
    {session : DashboardSession} (h : readDashboardSession P t tenantId token now = some session) :
    ∃ row ∈ t.sessions, ∃ k ∈ t.adminKeys, row.tenantId = tenantId ∧
      row.tokenDigest = P.digest token ∧ now < row.expiresAt ∧
      t.isActive tenantId row.adminKeyId = true ∧ k.keyId = row.adminKeyId ∧
      k.tenantId = tenantId ∧
      session = ⟨row.sessionId, tenantId, row.adminKeyId, k.role, token, row.expiresAt⟩ := by
  obtain ⟨row, hrow, h⟩ := Option.bind_eq_some_iff.mp h
  obtain ⟨k, hk, rfl⟩ := Option.map_eq_some_iff.mp h
  have hfits := List.find?_some hrow
  simp only [Bool.and_eq_true, decide_eq_true_eq] at hfits
  obtain ⟨⟨⟨htenant, hdigest⟩, hnow⟩, hactive⟩ := hfits
  obtain ⟨hkmem, hktenant, hkid⟩ := mem_of_keyRow hk
  exact ⟨row, List.mem_of_find?_eq_some hrow, k, hkmem, htenant, hdigest, hnow, hactive, hkid,
    hktenant, rfl⟩

/-- What the checks of a route have shown of an identity. -/
inductive Shown (P : AdminPrimitives) (config : DashboardConfig) (t : AdminTables)
    (r : AdminRequest) (now : Int) (route : RouteDefinition) (identity : AdminIdentity) : Prop
  | bearer (h : verifyAdminKey P t config.tenantId r.authorization = some identity)
  | session (token : String) (session : DashboardSession)
      (htoken : readDashboardToken config.cookieName r.cookie = some token)
      (hsession : readDashboardSession P t config.tenantId token now = some session)
      (hidentity : identity = session.identity)
      (hcsrf : route.mutates = true → csrfAccepted P config r token = true)

/-- The start page of the dashboard asks for no capability and writes nothing.
-/
theorem rootRoute : ∀ route ∈ routes, route.handler = .dashboardRoot →
    route.capability = none ∧ route.mutates = false := by
  decide +kernel

/-- To log out is open to every role. -/
theorem logoutRoute : ∀ route ∈ routes, route.handler = .dashboardLogout →
    route.capability = some .read := by
  decide +kernel

/-- Of the dashboard's own routes two write, and both look at the CSRF token.
-/
theorem writingRoutes : ∀ route ∈ routes, route.handler ∈ dashboardRoutes →
    route.mutates = true →
      route.handler = .dashboardAppsCreate ∨ route.handler = .dashboardTrackingLinksCreate := by
  decide +kernel

/-- Every role may read. -/
theorem roleAllows_read (role : AdminRole) : roleAllows role (some .read) = true := by
  cases role <;> rfl

/-- A session that is verified is the one of the token in the cookie. -/
theorem verifyDashboardSession_eq_some {tenantId cookieName : String}
    {cookieHeader : Option String} {now : Int} {session : DashboardSession}
    (h : verifyDashboardSession P t tenantId cookieName cookieHeader now = some session) :
    readDashboardToken cookieName cookieHeader = some session.token ∧
      readDashboardSession P t tenantId session.token now = some session := by
  obtain ⟨token, htoken, hread⟩ := Option.bind_eq_some_iff.mp h
  have hsame : session.token = token := by
    obtain ⟨_, _, _, _, _, _, _, _, _, _, rfl⟩ := readDashboardSession_eq_some hread
    rfl
  exact ⟨hsame ▸ htoken, hsame ▸ hread⟩

/-- An administrative route comes to its own operation, for an identity whose
role may perform it and whose key was shown. -/
theorem dispatchBearer_eq_task {route : RouteDefinition} {task : AdminTask}
    (h : dispatchBearer P config t r context route = .task task) :
    ∃ identity, task = .operation ⟨route.handler, identity⟩ ∧
      roleAllows identity.role route.capability = true ∧
      Shown P config t r context.now route identity := by
  unfold dispatchBearer at h
  split at h
  · cases h
  · split at h
    · cases h
    · case h_2 identity hverify =>
        split at h
        · cases h
        · case isFalse hrole =>
            split at h
            · cases h
            · cases h
              exact ⟨identity, rfl, by simpa using hrole, .bearer hverify⟩

/-- A route of the dashboard comes to its own operation, for the identity of
the session in the cookie, with the CSRF token where the route writes. -/
theorem dispatchDashboard_eq_task {route : RouteDefinition} {task : AdminTask}
    (hroute : route ∈ routes) (hdashboard : route.handler ∈ dashboardRoutes)
    (h : dispatchDashboard P config t r context route = .task task) :
    ∃ identity, task = .operation ⟨route.handler, identity⟩ ∧
      roleAllows identity.role route.capability = true ∧
      Shown P config t r context.now route identity := by
  unfold dispatchDashboard at h
  split at h
  · cases h
  · case h_2 session hsession =>
      obtain ⟨htoken, hread⟩ := verifyDashboardSession_eq_some hsession
      split at h
      · cases h
      · case isFalse hrole =>
          have hrole : roleAllows session.identity.role route.capability = true :=
            Bool.not_eq_false _ ▸ hrole
          have hshown (hcsrf : route.mutates = true → csrfAccepted P config r session.token = true)
              (heq : Dispatched.task (.operation ⟨route.handler, session.identity⟩) =
                .task task) : ∃ identity, task = .operation ⟨route.handler, identity⟩ ∧
              roleAllows identity.role route.capability = true ∧
              Shown P config t r context.now route identity := by
            cases heq
            exact ⟨session.identity, rfl, hrole,
              .session session.token session htoken hread rfl hcsrf⟩
          split at h
          · split at h
            · case isTrue hcsrf => exact hshown (fun _ => hcsrf) h
            · cases h
          · case isFalse happs =>
              split at h
              · cases h
              · split at h
                · split at h
                  · case isTrue hcsrf => exact hshown (fun _ => hcsrf) h
                  · cases h
                · case isFalse hlinks =>
                    refine hshown (fun hmutates => ?_) h
                    rcases writingRoutes route hroute hdashboard hmutates with heq | heq
                    · exact absurd heq happs
                    · exact absurd heq hlinks

/-- What the checks of a route come to: a login, a logout or an operation. -/
inductive Passed (P : AdminPrimitives) (config : DashboardConfig) (t : AdminTables)
    (r : AdminRequest) (now : Int) (route : RouteDefinition) : AdminTask → Prop
  | login (identity : AdminIdentity) (hhandler : route.handler = .dashboardLogin)
      (hverify : verifyAdminKey P t config.tenantId
        (some ("Bearer " ++ (r.field "admin_key").getD "")) = some identity) :
      Passed P config t r now route (.login identity config.sessionTtlSeconds)
  | logout (session : DashboardSession) (hhandler : route.handler = .dashboardLogout)
      (htoken : readDashboardToken config.cookieName r.cookie = some session.token)
      (hsession : readDashboardSession P t config.tenantId session.token now = some session)
      (hcsrf : csrfAccepted P config r session.token = true) :
      Passed P config t r now route (.logout session)
  | operation (identity : AdminIdentity)
      (hrole : roleAllows identity.role route.capability = true)
      (hshown : Shown P config t r now route identity) :
      Passed P config t r now route (.operation ⟨route.handler, identity⟩)

/-- A request that comes to a task has passed the checks of its route. -/
theorem dispatch_eq_task {task : AdminTask} (h : dispatch P config t r context = .task task) :
    ∃ route, matchRoute r.method r.pathname = some route ∧
      Passed P config t r context.now route task := by
  cases hmatch : matchRoute r.method r.pathname with
  | none =>
      rw [dispatch, hmatch] at h
      cases h
  | some route =>
      have hroute : route ∈ routes := List.mem_of_find?_eq_some hmatch
      refine ⟨route, rfl, ?_⟩
      rw [dispatch, hmatch] at h
      dsimp only at h
      by_cases hdisabled : (!config.enabled && route.handler.isDashboard) = true
      · rw [if_pos hdisabled] at h
        cases h
      rw [if_neg hdisabled] at h
      by_cases hreceiver : [.health, .maxIngest, .appleSkanPostback, .appleAakPostback].contains
          route.handler = true
      · rw [if_pos hreceiver] at h
        cases h
      rw [if_neg hreceiver] at h
      by_cases hsdk : ([.sdkEnrollment, .sdkBatch, .devicePrivacy].contains route.handler &&
          config.sdk) = true
      · rw [if_pos hsdk] at h
        cases h
      rw [if_neg hsdk] at h
      by_cases hcss : route.handler = .dashboardCss
      · rw [if_pos hcss] at h
        cases h
      rw [if_neg hcss] at h
      by_cases hroot : route.handler = .dashboardRoot
      · rw [if_pos hroot] at h
        split at h
        · cases h
        · case h_2 session hsession =>
            obtain ⟨htoken, hread⟩ := verifyDashboardSession_eq_some hsession
            obtain ⟨hcapability, hmutates⟩ := rootRoute route hroute hroot
            cases h
            rw [← hroot]
            exact .operation _ (by rw [hcapability]; rfl) (.session session.token session htoken
              hread rfl fun hwrites => absurd hwrites (hmutates ▸ Bool.false_ne_true))
      rw [if_neg hroot] at h
      by_cases hlogin : route.handler = .dashboardLogin
      · rw [if_pos hlogin] at h
        split at h
        · cases h
        · split at h
          · cases h
          · case h_2 identity hverify =>
              cases h
              exact .login identity hlogin hverify
      rw [if_neg hlogin] at h
      by_cases hlogout : route.handler = .dashboardLogout
      · rw [if_pos hlogout] at h
        split at h
        · cases h
        · case h_2 session hsession =>
            obtain ⟨htoken, hread⟩ := verifyDashboardSession_eq_some hsession
            split at h
            · case isTrue hcsrf =>
                cases h
                exact .logout session hlogout htoken hread hcsrf
            · cases h
      rw [if_neg hlogout] at h
      by_cases hboard : dashboardRoutes.contains route.handler = true
      · rw [if_pos hboard] at h
        obtain ⟨identity, rfl, hrole, hshown⟩ :=
          dispatchDashboard_eq_task hroute (List.contains_iff_mem.mp hboard) h
        exact .operation identity hrole hshown
      rw [if_neg hboard] at h
      by_cases hbearer : route.auth = .adminBearer
      · rw [if_pos hbearer] at h
        obtain ⟨identity, rfl, hrole, hshown⟩ := dispatchBearer_eq_task h
        exact .operation identity hrole hshown
      rw [if_neg hbearer] at h
      cases h

/-- A request that comes to an operation is for a route the role may use, and
has shown who asks. -/
theorem dispatch_carriesOut {task : AdminTask} {op : Operation}
    (h : dispatch P config t r context = .task task) (hop : task.CarriesOut op) :
    ∃ route, matchRoute r.method r.pathname = some route ∧ route.handler = op.handler ∧
      roleAllows op.identity.role route.capability = true ∧
      Shown P config t r context.now route op.identity := by
  obtain ⟨route, hmatch, hpassed⟩ := dispatch_eq_task h
  refine ⟨route, hmatch, ?_⟩
  cases hpassed with
  | login identity hhandler hverify => rcases hop with hop | ⟨_, hop, -⟩ <;> cases hop
  | logout session hhandler htoken hsession hcsrf =>
      rcases hop with hop | ⟨_, hop, rfl⟩
      · cases hop
      · cases hop
        refine ⟨hhandler, ?_, .session session.token session htoken hsession rfl fun _ => hcsrf⟩
        rw [logoutRoute route (List.mem_of_find?_eq_some hmatch) hhandler]
        exact roleAllows_read _
  | operation identity hrole hshown =>
      rcases hop with hop | ⟨_, hop, -⟩
      · cases hop
        exact ⟨rfl, hrole, hshown⟩
      · cases hop

/-- A login comes from a request to its route, with a key that is accepted. -/
theorem dispatch_login {identity : AdminIdentity} {ttlSeconds : Int}
    (h : dispatch P config t r context = .task (.login identity ttlSeconds)) :
    (∃ route, matchRoute r.method r.pathname = some route ∧ route.handler = .dashboardLogin) ∧
      verifyAdminKey P t config.tenantId (some ("Bearer " ++ (r.field "admin_key").getD "")) =
        some identity := by
  obtain ⟨route, hmatch, hpassed⟩ := dispatch_eq_task h
  cases hpassed with
  | login _ hhandler hverify => exact ⟨⟨route, hmatch, hhandler⟩, hverify⟩

/-- A logout comes from a request with the token of the session. -/
theorem dispatch_logout {session : DashboardSession}
    (h : dispatch P config t r context = .task (.logout session)) :
    readDashboardSession P t config.tenantId session.token context.now = some session := by
  obtain ⟨route, -, hpassed⟩ := dispatch_eq_task h
  cases hpassed
  assumption

end Requests

section Results

open TransitionSystem (Since Saw Run Path)

variable {P : AdminPrimitives} {config : DashboardConfig} {t : AdminTables} {r : AdminRequest}
  {context : RequestContext} {events before after : List AdminEvent} {s s' : AdminState}
  {identity : AdminIdentity} {op : Operation}

/-- Later steps keep the row of a key. -/
theorem kept_key {k : AdminKeyRow} {later : List AdminEvent} (hrun : (adminSystem P).Run events s)
    (hpath : (adminSystem P).Path s later s') (hk : k ∈ s.tables.adminKeys) :
    k ∈ s'.tables.adminKeys := by
  refine hrun.stable (Q := fun s => k ∈ s.tables.adminKeys)
    (fun es s e s' hrun hk hstep => ?_) hpath hk
  cases hstep with
  | provision hok => exact (ensureAdminKeys_ok (adminInvariant hrun).keys hok).2.1.kept k hk
  | request => cases hd : dispatch P _ s.tables _ _ <;> exact hk
  | issue hmem hissue =>
      obtain ⟨rfl, -⟩ := issueDashboardSession_eq_some hissue
      exact hk
  | retire => exact hk
  | revoke => exact hk
  | perform => exact hk
  | abandon => exact hk
  | sweep => exact hk

/-- A key that is accepted was configured and not retired. -/
theorem KeysInvariant.opensKey (hinv : KeysInvariant P events t) {tenantId : String}
    {authorization : Option String}
    (h : verifyAdminKey P t tenantId authorization = some identity) :
    ∃ candidate, bearerCandidate authorization = some candidate ∧
      OpensKey P events identity candidate ∧ identity.tenantId = tenantId ∧
      .retire identity.tenantId identity.keyId ∉ events ∧
      ∃ k ∈ t.adminKeys, k.identity = identity := by
  obtain ⟨candidate, hcandidate, k, hk, rfl, hactive, hid, hverifier, rfl⟩ :=
    verifyAdminKey_eq_some h
  obtain ⟨c, hc, hdigest⟩ := hinv.configured k hk
  exact ⟨candidate, hcandidate, ⟨hid.symm, c, k.scryptSalt, hc, hverifier.trans hdigest⟩, rfl,
    (hinv.isActive_iff hk).mp hactive, k, hk, rfl⟩

/-- A task in flight came from a request, in a state behind it. -/
theorem requested {task : AdminTask} (hrun : (adminSystem P).Run events s)
    (htask : task ∈ s.inFlight) : ∃ earlier config r context later m,
      events = earlier ++ .request config r context :: later ∧
      (adminSystem P).Run earlier m ∧ dispatch P config m.tables r context = .task task ∧
      (adminSystem P).Path m (.request config r context :: later) s := by
  obtain ⟨earlier, e, later, m, heq, hm, ⟨config, r, context, task', rfl, hd, rfl⟩, hpath⟩ :=
    (adminInvariant hrun).inFlight task htask
  exact ⟨earlier, config, r, context, later, m, heq, hm, hd, hpath⟩

/-- A session was issued for a key that the tables know. -/
theorem issued_key {ttlSeconds now : Int} {sessionId token : String}
    (hrun : (adminSystem P).Run events s)
    (hissue : .issue identity ttlSeconds sessionId token now ∈ events) :
    ∃ k ∈ s.tables.adminKeys, k.identity = identity := by
  obtain ⟨before, after, rfl⟩ := List.append_of_mem hissue
  obtain ⟨m, m', hm, hstep, hpath⟩ := hrun.middle
  have hflight : .login identity ttlSeconds ∈ m.inFlight := by
    cases hstep
    assumption
  obtain ⟨earlier, config, r, context, later, m₀, rfl, hm₀, hd, hlater⟩ := requested hm hflight
  obtain ⟨-, -, -, -, -, k, hk, hidentity⟩ :=
    (adminInvariant hm₀).keys.opensKey (dispatch_login hd).2
  have hkm : k ∈ m.tables.adminKeys := kept_key hm₀ hlater hk
  have hkm' : k ∈ m'.tables.adminKeys := kept_key hm (.snoc .nil hstep) hkm
  exact ⟨k, kept_key (hm.snoc hstep) hpath hkm', hidentity⟩

/-- Whoever comes to an operation was entitled to it, with a key the tables
know. -/
theorem entitled_of_dispatch {task : AdminTask} (hrun : (adminSystem P).Run events s)
    (hd : dispatch P config s.tables r context = .task task) (hop : task.CarriesOut op) :
    Entitled P events config r context.now op ∧
      ∃ k ∈ s.tables.adminKeys, k.identity = op.identity := by
  have hinv := adminInvariant hrun
  obtain ⟨route, hroute, hhandler, hrole, hshown⟩ := dispatch_carriesOut hd hop
  cases hshown with
  | bearer hverify =>
      obtain ⟨candidate, hcandidate, hopens, htenant, hretire, hk⟩ := hinv.keys.opensKey hverify
      obtain ⟨-, c, -, hc, -⟩ := id hopens
      exact ⟨⟨htenant, ⟨c, hc⟩, hretire, route, hroute, hhandler, hrole,
        .inl ⟨candidate, hcandidate, hopens⟩⟩, hk⟩
  | session token session htoken hsession hidentity hcsrf =>
      obtain ⟨row, hrow, k, hk, htenant, hdigest, hnow, hactive, hkid, hktenant, rfl⟩ :=
        readDashboardSession_eq_some hsession
      have hkop : k.identity = op.identity := by
        rw [hidentity, AdminKeyRow.identity, hkid, hktenant]
        rfl
      have hopened := hinv.sessions row hrow
      obtain ⟨c, hc, -⟩ := hinv.keys.configured k hk
      rw [hkop] at hc
      rw [← hkid, ← hktenant] at hactive
      refine ⟨⟨hkop ▸ hktenant, ⟨c, hc⟩, hkop ▸ (hinv.keys.isActive_iff hk).mp hactive, route,
        hroute, hhandler, hrole, .inr ⟨token, row.sessionId, htoken, ?_, hcsrf⟩⟩, k, hk, hkop⟩
      have hrowTenant : row.tenantId = op.identity.tenantId := by
        rw [htenant, ← hkop, ← hktenant]
        rfl
      rw [← hrowTenant]
      refine hopened.mono (fun e he hopens => ?_) fun _ _ => id
      obtain ⟨identity, ttlSeconds, token', rfl, hid, -, hdigest', hexpires⟩ := hopens
      obtain ⟨k', hk', hkidentity⟩ := issued_key hrun he
      obtain rfl : k' = k := by
        refine hinv.keys.eq_of_keyId hk' hk ?_
        rw [hkid, ← hid, ← hkidentity]
        rfl
      obtain rfl : op.identity = identity := hkop.symm.trans hkidentity
      exact ⟨ttlSeconds, token', row.createdAt, rfl, hdigest'.trans hdigest, hexpires ▸ hnow⟩

/-- An operation that was performed was entitled by its request, with a key
that the tables still know. -/
theorem performed_entitled (hrun : (adminSystem P).Run events s) (hop : op ∈ s.performed) :
    (∃ before config r context after, events = before ++ .request config r context :: after ∧
      Entitled P before config r context.now op) ∧
      ∃ k ∈ s.tables.adminKeys, k.identity = op.identity := by
  obtain ⟨before, e, after, m, heq, hm, ⟨config, r, context, task, rfl, hd, hcarries⟩, hpath⟩ :=
    (adminInvariant hrun).performed op hop
  obtain ⟨hentitled, k, hk, hidentity⟩ := entitled_of_dispatch hm hd hcarries
  exact ⟨⟨before, config, r, context, after, heq, hentitled⟩, k, kept_key hm hpath hk, hidentity⟩

end Results

section Theorems

variable (P : AdminPrimitives)

/-- **Access.**  In every interleaving of provisions, retirements, logins,
logouts and requests, whoever performs an operation was entitled to it when
the request was checked. -/
theorem adminAccess : AdminAccess P where
  entitled _ _ hrun _ hop := (performed_entitled hrun hop).1
  loggedIn before after identity ttlSeconds sessionId token now s hrun := by
    obtain ⟨m, m', hm, hstep, -⟩ := hrun.middle
    have hflight : .login identity ttlSeconds ∈ m.inFlight := by
      cases hstep
      assumption
    obtain ⟨earlier, config, r, context, later, m₀, rfl, hm₀, hd, -⟩ := requested hm hflight
    obtain ⟨candidate, hcandidate, hopens, htenant, hretire, -⟩ :=
      (adminInvariant hm₀).keys.opensKey (dispatch_login hd).2
    obtain ⟨rfl, hne, -⟩ := bearerCandidate_bearer.mp hcandidate
    refine ⟨earlier, config, r, context, later, rfl, (dispatch_login hd).1, htenant, hretire, _, ?_,
      hopens⟩
    cases hfield : r.field "admin_key" with
    | none => exact absurd (by rw [hfield]; rfl) hne
    | some key => rfl

/-- **Keys.**  Over a run a key keeps its tenant and its role, at most two keys
of a role are active, and a configured key is accepted until it is retired.
The keys are told apart by their ids, of which each has one row. -/
theorem adminKeysKept : AdminKeysKept P where
  oneRole events s hrun op hop op' hop' hid := by
    obtain ⟨k, hk, hidentity⟩ := (performed_entitled hrun hop).2
    obtain ⟨k', hk', hidentity'⟩ := (performed_entitled hrun hop').2
    have hsame : k = k' := by
      refine (adminInvariant hrun).keys.eq_of_keyId hk hk' ?_
      rw [← hidentity, ← hidentity'] at hid
      exact hid
    rw [← hidentity, ← hidentity', hsame]
  atMostTwo _ _ hrun := (adminInvariant hrun).counts
  accepted events s hrun happart tenantId entries hprovision c hc hspace hretire := by
    have hinv := adminInvariant hrun
    obtain ⟨hne, k, hk, hidentity⟩ := hinv.provided tenantId entries hprovision c hc
    obtain ⟨hid, rfl, hrole⟩ := AdminIdentity.mk.inj hidentity
    obtain ⟨c', ⟨entries', hprovision', hc', hid', -⟩, hdigest⟩ := hinv.keys.configured k hk
    have hkey : c'.key = c.key := happart _ entries' _ entries hprovision' hprovision c' hc' c hc
      (hid'.trans hid)
    rw [← hid] at hretire
    have hactive : k ∈ s.tables.activeKeys k.tenantId :=
      List.mem_filter.mpr ⟨hk, by simp [(hinv.keys.isActive_iff hk).mpr hretire]⟩
    have hfind : (s.tables.activeKeys k.tenantId).find? (fun k' => k'.keyId = P.keyId c.key) =
        some k := by
      cases hfound : (s.tables.activeKeys k.tenantId).find? fun k' => k'.keyId = P.keyId c.key with
      | none => exact absurd (by simp [hid]) (List.find?_eq_none.mp hfound k hactive)
      | some k' =>
          have hk' := (List.mem_filter.mp (List.mem_of_find?_eq_some hfound)).1
          have hkid := List.find?_some hfound
          rw [hinv.keys.eq_of_keyId hk' hk ((of_decide_eq_true hkid).trans hid.symm)]
    rw [verifyAdminKey, bearerCandidate_bearer.mpr ⟨rfl, hne, hspace⟩, Option.bind_some, hfind,
      Option.bind_some, if_pos (hkey ▸ hdigest.symm)]
    rw [hid, hrole]

/-- **Logout.**  The token of a session that was logged out opens nothing in
any later state, since a session whose end is recorded is looked up no more and
none is opened twice for one digest. -/
theorem sessionsEnd : SessionsEnd P := by
  intro before after session s hrun hnodup now
  obtain ⟨m, m', hm, hstep, -⟩ := hrun.middle
  have hflight : .logout session ∈ m.inFlight := by
    cases hstep
    assumption
  obtain ⟨earlier, config, r, context, later, m₀, rfl, hm₀, hd, -⟩ := requested hm hflight
  -- the session was there at the logout, under the digest of its token
  obtain ⟨row, hrow, k, -, -, hdigest, -, -, -, -, hsession⟩ :=
    readDashboardSession_eq_some (dispatch_logout hd)
  obtain ⟨x, i, y, rfl, ⟨identity, ttlSeconds, token, rfl, -, -, htoken, -⟩, -⟩ :=
    (adminInvariant hm₀).sessions row hrow
  cases hread : readDashboardSession P s.tables session.tenantId session.token now with
  | none => rfl
  | some found =>
      obtain ⟨row', hrow', -, -, htenant', hdigest', -⟩ := readDashboardSession_eq_some hread
      have hopened := (adminInvariant hrun).sessions row' hrow'
      -- a session there with this digest was issued by the same event
      obtain ⟨⟨identity', ttlSeconds', token', heq, -⟩, hnot⟩ := hopened.not_ended
        (f := AdminEvent.issuedDigest P) (k := P.digest session.token)
        (fun e ⟨_, _, token', he, _, _, htoken', _⟩ => by
          rw [he, ← hdigest', ← htoken']
          rfl)
        hnodup (x := x) (i := .issue identity ttlSeconds row.sessionId token row.createdAt)
        (y := y ++ .request config r context :: later ++ .revoke session :: after)
        (by simp) (by rw [← hdigest, ← htoken]; rfl)
      refine absurd ⟨session, rfl, htenant'.symm, ?_⟩ (hnot (.revoke session) (by simp))
      obtain ⟨-, -, hid, -, -⟩ := AdminEvent.issue.inj heq
      rw [hsession, ← hid]

end Theorems

section Login

/-- The state behind an event, where it can happen, with one salt for all
keys. -/
def AdminState.next (P : AdminPrimitives) (s : AdminState) : AdminEvent → Option AdminState
  | .provision tenantId entries =>
      match ensureAdminKeys P tenantId (fun _ => "salt") entries s.tables with
      | .ok (_, tables) => some { s with tables := tables }
      | .error _ => none
  | .retire tenantId keyId =>
      if (s.tables.keyRow tenantId keyId).isSome ∧
          (keyId, AdminKeyStatus.retired) ∉ s.tables.keyStates.map AdminKeyStateRow.key then
        some { s with tables := s.tables.insertState ⟨keyId, tenantId, .retired⟩ }
      else none
  | .request config r context => some (s.receive (dispatch P config s.tables r context))
  | .issue identity ttlSeconds sessionId token now =>
      if .login identity ttlSeconds ∈ s.inFlight then
        (issueDashboardSession P s.tables identity ttlSeconds sessionId token now).map
          (fun tables => { s with
            tables := tables, inFlight := s.inFlight.erase (.login identity ttlSeconds) })
      else none
  | .revoke session =>
      if .logout session ∈ s.inFlight then
        some { s with
          tables := revokeDashboardSession s.tables session
          inFlight := s.inFlight.erase (.logout session)
          performed := s.performed ++ [⟨.dashboardLogout, session.identity⟩] }
      else none
  | .perform op =>
      if .operation op ∈ s.inFlight then
        some { s with
          inFlight := s.inFlight.erase (.operation op)
          performed := s.performed ++ [op] }
      else none
  | .abandon task =>
      if task ∈ s.inFlight then some { s with inFlight := s.inFlight.erase task } else none
  | .sweep tenantId now =>
      some { s with tables := sweepExpiredDashboardSessions s.tables tenantId now }

variable {P : AdminPrimitives} {s s' : AdminState}

/-- The step function takes only steps of the system. -/
theorem adminStep_of_next {e : AdminEvent} (h : s.next P e = some s') : AdminStep P s e s' := by
  cases e with
  | provision tenantId entries =>
      rw [AdminState.next] at h
      split at h
      · rename_i ids tables hok
        cases h
        exact .provision hok
      · cases h
  | retire tenantId keyId =>
      obtain ⟨hcond, hs⟩ := Option.ite_none_right_eq_some.mp h
      cases hs
      exact .retire hcond.1 hcond.2
  | request config r context =>
      cases h
      exact .request
  | issue identity ttlSeconds sessionId token now =>
      obtain ⟨hflight, hs⟩ := Option.ite_none_right_eq_some.mp h
      obtain ⟨tables, hissue, rfl⟩ := Option.map_eq_some_iff.mp hs
      exact .issue hflight hissue
  | revoke session =>
      obtain ⟨hflight, hs⟩ := Option.ite_none_right_eq_some.mp h
      cases hs
      exact .revoke hflight
  | perform op =>
      obtain ⟨hflight, hs⟩ := Option.ite_none_right_eq_some.mp h
      cases hs
      exact .perform hflight
  | abandon task =>
      obtain ⟨hflight, hs⟩ := Option.ite_none_right_eq_some.mp h
      cases hs
      exact .abandon hflight
  | sweep tenantId now =>
      cases h
      exact .sweep

/-- Digests that keep their text. -/
def plainPrimitives : AdminPrimitives where
  keyId key := key
  verifier key _ := key
  digest token := token
  csrfToken _ := "csrf"

/-- A deployment with the dashboard alone. -/
def plainDashboard : DashboardConfig where
  enabled := true
  tenantId := "tenant"
  cookieName := "session"
  origin := "https://localhost"
  sessionTtlSeconds := 60
  sdk := false
  operationalMetrics := false

/-- The key of the operator. -/
def operatorKey : String := String.ofList (List.replicate 32 'k')

/-- Who the key acts as. -/
def operatorIdentity : AdminIdentity := ⟨operatorKey, "tenant", .operator⟩

/-- The token of the session. -/
def sessionToken : String := String.ofList (List.replicate 43 'a')

/-- The session that the login of the run opens. -/
def plainSession : DashboardSession :=
  ⟨"session:1", "tenant", operatorKey, .operator, sessionToken, 60000⟩

/-- A request with the cookie of the session. -/
def sessionRequest (method path : String) (form : List (String × String)) : AdminRequest where
  method := some method
  pathname := path
  authorization := none
  cookie := some ("session=" ++ sessionToken)
  origin := none
  form := form

/-- The key is configured, opens a session, reads the dashboard in it, logs out
and is retired; the last request meets a closed session. -/
def loginRun : List AdminEvent := [
  .provision "tenant" [.configured ⟨operatorKey, .operator⟩],
  .request plainDashboard { sessionRequest "POST" "/dashboard/session" [("admin_key", operatorKey)]
    with cookie := none } ⟨0, true, true⟩,
  .issue operatorIdentity 60 "session:1" sessionToken 0,
  .request plainDashboard (sessionRequest "GET" "/dashboard" []) ⟨1, true, true⟩,
  .perform ⟨.dashboardRoot, operatorIdentity⟩,
  .request plainDashboard (sessionRequest "POST" "/dashboard/session/delete"
    [("csrf_token", "csrf")]) ⟨2, true, true⟩,
  .revoke plainSession,
  .retire "tenant" operatorKey,
  .request plainDashboard (sessionRequest "GET" "/dashboard" []) ⟨3, true, true⟩]

/-- The run happens, and performs what the session asked for. -/
theorem loginRun_performs : ∃ s, (adminSystem plainPrimitives).Run loginRun s ∧
    s.performed = [⟨.dashboardRoot, operatorIdentity⟩, ⟨.dashboardLogout, operatorIdentity⟩] := by
  have hnext : (loginRun.foldlM (AdminState.next plainPrimitives) ⟨⟨[], [], []⟩, [], []⟩).any
      (fun s => s.performed = [⟨.dashboardRoot, operatorIdentity⟩,
        ⟨.dashboardLogout, operatorIdentity⟩]) = true := by
    decide +kernel
  obtain ⟨s, hs, hperformed⟩ := (Option.any_eq_true _ _).mp hnext
  exact ⟨s, (TransitionSystem.Run.start rfl).foldlM (fun _ _ _ => adminStep_of_next) hs,
    of_decide_eq_true hperformed⟩

/-- What the session asked for was entitled, by the requests of the run. -/
theorem loginRun_entitled : ∃ s, (adminSystem plainPrimitives).Run loginRun s ∧
    ∀ op ∈ [Operation.mk .dashboardRoot operatorIdentity, ⟨.dashboardLogout, operatorIdentity⟩],
      ∃ before config r context after, loginRun = before ++ .request config r context :: after ∧
        Entitled plainPrimitives before config r context.now op := by
  obtain ⟨s, hrun, hperformed⟩ := loginRun_performs
  refine ⟨s, hrun, fun op hop => ?_⟩
  exact (adminAccess plainPrimitives).entitled loginRun s hrun op (hperformed ▸ hop)

/-- Up to its retirement the key of the run is accepted in its role. -/
theorem loginRun_accepted : ∃ s, (adminSystem plainPrimitives).Run (loginRun.take 7) s ∧
    verifyAdminKey plainPrimitives s.tables "tenant" (some ("Bearer " ++ operatorKey)) =
      some operatorIdentity := by
  obtain ⟨s', hrun, -⟩ := loginRun_performs
  rw [← List.take_append_drop 7 loginRun] at hrun
  obtain ⟨s, hbefore, -⟩ := hrun.split
  refine ⟨s, hbefore, ?_⟩
  refine (adminKeysKept plainPrimitives).accepted (loginRun.take 7) s hbefore
    (fun _ _ _ _ _ _ _ _ _ _ hid => hid) "tenant" [.configured ⟨operatorKey, .operator⟩]
    List.mem_cons_self ⟨operatorKey, .operator⟩ (by decide +kernel) (by decide +kernel) ?_
  simp [loginRun]

/-- The session of the run stays closed behind its logout. -/
theorem loginRun_closed : ∃ s, (adminSystem plainPrimitives).Run loginRun s ∧
    ∀ now, readDashboardSession plainPrimitives s.tables "tenant" sessionToken now = none := by
  obtain ⟨s, hrun, -⟩ := loginRun_performs
  refine ⟨s, hrun, fun now => ?_⟩
  exact sessionsEnd plainPrimitives (loginRun.take 6) (loginRun.drop 7) plainSession s hrun
    (List.nodup_singleton _) now

end Login

end OpenMasu
