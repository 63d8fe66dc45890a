import OpenMasu.ApiRoutes
import OpenMasu.InsertionMap
import OpenMasu.NumberText
import OpenMasu.Traces

/-!
# Administrative keys, dashboard sessions and the checks of a request

Administrative keys are provisioned from the configuration at every start of
the server and retired by an operator.  A request to a guarded route carries
such a key as a bearer credential, or the token of a dashboard session, which
an earlier login with a key has opened.  The check of a credential, the login
it leads to and the operation it permits are transactions of their own, and
those of other requests and other deployments come between them.

* `ensureAdminKeys`, `verifyAdminKey` — the keys;
* `issueDashboardSession`, `verifyDashboardSession` — the sessions;
* `dispatch` — the order of the checks in the router;
* `adminSystem` — provisions, retirements and requests in any interleaving.
-/

namespace OpenMasu

open AppendOnly (insertOnce)

/-- The digests the server calls. -/
structure AdminPrimitives where
  keyId : String → String
  /-- `scrypt` of a key under a salt. -/
  verifier : String → String → String
  digest : String → String
  csrfToken : String → String

/-- Who a request acts as: a key of a tenant, with the role it was configured
in. -/
structure AdminIdentity where
  keyId : String
  tenantId : String
  role : AdminRole
  deriving DecidableEq

/-- A key of the configuration with its role. -/
structure ConfiguredAdminKey where
  key : String
  role : AdminRole
  deriving DecidableEq

/-- An entry of the configuration: a bare text is an `admin` key. -/
inductive AdminKeyEntry where
  | text (key : String)
  | configured (key : ConfiguredAdminKey)

/-- The statuses of `control.admin_key_states`. -/
inductive AdminKeyStatus where
  | active
  | retired
  deriving DecidableEq

/-- A row of `control.admin_keys`. -/
structure AdminKeyRow where
  keyId : String
  tenantId : String
  scryptSalt : String
  scryptDigest : String
  role : AdminRole
  deriving DecidableEq

/-- A row of `control.admin_key_states`, which is kept in the order of its
sequence. -/
structure AdminKeyStateRow where
  keyId : String
  tenantId : String
  status : AdminKeyStatus
  deriving DecidableEq

/-- The columns under the unique constraint. -/
def AdminKeyStateRow.key (row : AdminKeyStateRow) : String × AdminKeyStatus :=
  (row.keyId, row.status)

/-- A row of `ephemeral.dashboard_sessions`. -/
structure DashboardSessionRow where
  sessionId : String
  tenantId : String
  adminKeyId : String
  tokenDigest : String
  createdAt : Int
  expiresAt : Int
  deriving DecidableEq

/-- The tables of keys, of their statuses, and of the sessions of the
dashboard. -/
structure AdminTables where
  adminKeys : List AdminKeyRow
  keyStates : List AdminKeyStateRow
  sessions : List DashboardSessionRow

section Keys

variable (P : AdminPrimitives)

/-- Entries that are empty texts are dropped. -/
def normalizedKeys (entries : List AdminKeyEntry) : List ConfiguredAdminKey :=
  entries.filterMap fun
    | .text key => if key = "" then none else some ⟨key, .admin⟩
    | .configured key => some key

/-- One entry a key, the last one written for it. -/
def uniqueKeys (entries : List AdminKeyEntry) : List ConfiguredAdminKey :=
  (InsertionMap.ofList ((normalizedKeys entries).map fun c => (c.key, c))).values

/-- What `ensureAdminKeys` throws. -/
inductive AdminKeyError where
  | keyCount
  | keyTooShort
  | roleImmutable
  | overlap
  deriving DecidableEq

/-- The texts of the errors. -/
def AdminKeyError.message : AdminKeyError → String
  | keyCount => "one to six admin keys must be configured"
  | keyTooShort => "admin keys must contain at least 32 bytes"
  | roleImmutable => "admin key role is immutable"
  | overlap => "admin key overlap exceeds two active keys per role"

namespace AdminTables

variable (t : AdminTables) (tenantId keyId : String)

/-- The row of a key that its tenant sees. -/
def keyRow : Option AdminKeyRow :=
  t.adminKeys.find? fun k => k.tenantId = tenantId && k.keyId = keyId

/-- The state of a key with the highest sequence. -/
def currentStatus : Option AdminKeyStatus :=
  ((t.keyStates.filter fun s => s.tenantId = tenantId && s.keyId = keyId).getLast?).map
    AdminKeyStateRow.status

/-- The key was not retired. -/
def isActive : Bool := t.currentStatus tenantId keyId = some .active

/-- The active rows of `control.admin_keys_current`. -/
def activeKeys : List AdminKeyRow :=
  t.adminKeys.filter fun k => k.tenantId = tenantId && t.isActive tenantId k.keyId

/-- How many keys of a role are active in the tenant. -/
def activeCount (role : AdminRole) : Nat := (t.activeKeys tenantId).countP fun k => k.role = role

/-- The insertion of a key, which leaves a row that is there. -/
def insertKey (row : AdminKeyRow) : AdminTables :=
  { t with adminKeys := insertOnce AdminKeyRow.keyId row t.adminKeys }

/-- The insertion of a status, which leaves a row that is there. -/
def insertState (row : AdminKeyStateRow) : AdminTables :=
  { t with keyStates := insertOnce AdminKeyStateRow.key row t.keyStates }

end AdminTables

/-- The row inserted for a configured key, under the salt drawn for it. -/
def configuredRow (tenantId : String) (salt : String → String)
    (configured : ConfiguredAdminKey) : AdminKeyRow where
  keyId := P.keyId configured.key
  tenantId := tenantId
  scryptSalt := salt configured.key
  scryptDigest := P.verifier configured.key (salt configured.key)
  role := configured.role

/-- One turn of the loop over the configured keys. -/
def ensureAdminKey (tenantId : String) (salt : String → String) (t : AdminTables)
    (configured : ConfiguredAdminKey) : Except AdminKeyError AdminTables :=
  let id := P.keyId configured.key
  let inserted := t.insertKey (configuredRow P tenantId salt configured)
  if configured.key.utf8ByteSize < 32 then .error .keyTooShort
  else if (inserted.keyRow tenantId id).map AdminKeyRow.role ≠ some configured.role then
    .error .roleImmutable
  else .ok (inserted.insertState ⟨id, tenantId, .active⟩)

/-- The identifiers of the keys and the tables after the transaction, which
rolls back when it throws. -/
def ensureAdminKeys (tenantId : String) (salt : String → String)
    (entries : List AdminKeyEntry) (t : AdminTables) :
    Except AdminKeyError (List String × AdminTables) :=
  let unique := uniqueKeys entries
  if unique.length < 1 ∨ 6 < unique.length then .error .keyCount
  else do
    let stored ← unique.foldlM (ensureAdminKey P tenantId salt) t
    if [AdminRole.admin, .operator, .readOnly].any (fun role =>
        2 < stored.activeCount tenantId role) then .error .overlap
    else .ok (unique.map (fun c => P.keyId c.key), stored)

/-- What follows `Bearer `, a text without white space. -/
def bearerCandidate (authorization : Option String) : Option String :=
  match "Bearer ".toList.isPrefixOf? (authorization.getD "").toList with
  | some candidate =>
      if candidate ≠ [] ∧ candidate.all (fun c => !NumberText.isSpace c) then
        some (String.ofList candidate)
      else none
  | none => none

/-- The identity of a credential: the active key of the tenant with its
identifier, where `scrypt` confirms it. -/
def verifyAdminKey (t : AdminTables) (tenantId : String) (authorization : Option String) :
    Option AdminIdentity :=
  (bearerCandidate authorization).bind fun candidate =>
    ((t.activeKeys tenantId).find? fun k => k.keyId = P.keyId candidate).bind fun row =>
      if P.verifier candidate row.scryptSalt = row.scryptDigest then
        some ⟨row.keyId, tenantId, row.role⟩
      else none

end Keys

section Sessions

/-- A session as the handlers read it. -/
structure DashboardSession where
  sessionId : String
  tenantId : String
  adminKeyId : String
  role : AdminRole
  token : String
  expiresAt : Int
  deriving DecidableEq

/-- Who a session acts as. -/
def DashboardSession.identity (s : DashboardSession) : AdminIdentity :=
  ⟨s.adminKeyId, s.tenantId, s.role⟩

/-- A character of `base64url`. -/
def isTokenChar (c : Char) : Bool :=
  ('A' ≤ c && c ≤ 'Z') || ('a' ≤ c && c ≤ 'z') || ('0' ≤ c && c ≤ '9') || c = '_' || c = '-'

/-- `tokenPattern`. -/
def isDashboardToken (token : List Char) : Bool := token.length = 43 && token.all isTokenChar

/-- The first cookie of the name; a token of another form counts as none. -/
def readDashboardToken (cookieName : String) (cookieHeader : Option String) : Option String :=
  let parts := ((cookieHeader.getD "").toList.splitOn ';').map NumberText.trimmed
  (parts.find? ((cookieName.toList ++ ['=']).isPrefixOf ·)).bind fun candidate =>
    let token := candidate.drop (cookieName.toList.length + 1)
    if isDashboardToken token then some (String.ofList token) else none

variable (P : AdminPrimitives)

/-- The tables after the login of a key; none when it throws, by its own
checks or by a constraint of the table. -/
def issueDashboardSession (t : AdminTables) (identity : AdminIdentity) (ttlSeconds : Int)
    (sessionId token : String) (now : Int) : Option AdminTables :=
  let row : DashboardSessionRow := {
    sessionId := sessionId
    tenantId := identity.tenantId
    adminKeyId := identity.keyId
    tokenDigest := P.digest token
    createdAt := now
    expiresAt := now + ttlSeconds * 1000 }
  if ttlSeconds < 60 ∨ isDashboardToken token.toList = false then none
  else if (t.keyRow identity.tenantId identity.keyId).isNone ∨
      t.sessions.any (fun s => s.sessionId = row.sessionId || s.tokenDigest = row.tokenDigest) then
    none
  else some { t with sessions := t.sessions ++ [row] }

/-- The session of a token that has not expired, with the role of its key,
which must be active. -/
def readDashboardSession (t : AdminTables) (tenantId token : String) (now : Int) :
    Option DashboardSession :=
  (t.sessions.find? fun s => s.tenantId = tenantId && s.tokenDigest = P.digest token &&
      now < s.expiresAt && t.isActive tenantId s.adminKeyId).bind fun row =>
    (t.keyRow tenantId row.adminKeyId).map fun key =>
      ⟨row.sessionId, tenantId, row.adminKeyId, key.role, token, row.expiresAt⟩

/-- The session of the token in the cookie. -/
def verifyDashboardSession (t : AdminTables) (tenantId cookieName : String)
    (cookieHeader : Option String) (now : Int) : Option DashboardSession :=
  (readDashboardToken cookieName cookieHeader).bind fun token =>
    readDashboardSession P t tenantId token now

/-- The rows behind a logout. -/
def revokeDashboardSession (t : AdminTables) (session : DashboardSession) : AdminTables :=
  { t with sessions := t.sessions.filter fun s =>
      !(s.tenantId = session.tenantId && s.sessionId = session.sessionId) }

/-- The rows behind a sweep of what has expired in a tenant. -/
def sweepExpiredDashboardSessions (t : AdminTables) (tenantId : String) (now : Int) :
    AdminTables :=
  { t with sessions := t.sessions.filter fun s => !(s.tenantId = tenantId && s.expiresAt ≤ now) }

end Sessions

section Router

/-- What a deployment is configured with. -/
structure DashboardConfig where
  enabled : Bool
  tenantId : String
  cookieName : String
  /-- The origin of the public base URL. -/
  origin : String
  sessionTtlSeconds : Int
  /-- The SDK routes are configured. -/
  sdk : Bool
  /-- The operational metrics are configured. -/
  operationalMetrics : Bool

/-- What the checks read of a request. -/
structure AdminRequest where
  method : Option String
  pathname : String
  authorization : Option String
  cookie : Option String
  origin : Option String
  /-- The fields of a form. -/
  form : List (String × String)

/-- `URLSearchParams.get`. -/
def AdminRequest.field (r : AdminRequest) (name : String) : Option String :=
  (r.form.find? fun f => f.1 = name).map Prod.snd

/-- What a request meets next to the tables: the clock, whether the token
buckets of its route let it pass, and whether the app it names is registered. -/
structure RequestContext where
  now : Int
  allowed : Bool
  registered : Bool

/-- A handler that runs for an administrator. -/
structure Operation where
  handler : RouteHandler
  identity : AdminIdentity
  deriving DecidableEq

/-- What a request goes on with behind its checks. -/
inductive AdminTask where
  | login (identity : AdminIdentity) (ttlSeconds : Int)
  | logout (session : DashboardSession)
  | operation (op : Operation)
  deriving DecidableEq

/-- What the checks of a request come to: an answer, a handler that does not
ask who calls, or a task. -/
inductive Dispatched where
  | refused (status : Nat)
  | unguarded (handler : RouteHandler)
  | task (t : AdminTask)

/-- The routes that answer 404 where the dashboard is switched off. -/
def RouteHandler.isDashboard (h : RouteHandler) : Bool :=
  [.dashboardRoot, .dashboardCss, .dashboardLogin, .dashboardLogout, .dashboardApp,
    .dashboardExport, .dashboardDifferences, .dashboardFraud, .dashboardTrackingLinksList,
    .dashboardTrackingLinksCreate, .dashboardAppsCreate].contains h

variable (P : AdminPrimitives)

/-- A request from the own origin with the token of its session. -/
def csrfAccepted (config : DashboardConfig) (r : AdminRequest) (sessionToken : String) : Bool :=
  (r.origin = none || r.origin = some "" || r.origin = some config.origin) &&
    match r.field "csrf_token" with
    | some candidate => candidate ≠ "" && candidate = P.csrfToken sessionToken
    | none => false

/-- A guarded route of the dashboard, the logout apart. -/
def dispatchDashboard (config : DashboardConfig) (t : AdminTables) (r : AdminRequest)
    (context : RequestContext) (route : RouteDefinition) : Dispatched :=
  match verifyDashboardSession P t config.tenantId config.cookieName r.cookie context.now with
  | none => .refused 401
  | some session =>
      if roleAllows session.role route.capability = false then .refused 403
      else if route.handler = .dashboardAppsCreate then
        if csrfAccepted P config r session.token then
          .task (.operation ⟨route.handler, session.identity⟩)
        else .refused 403
      else if context.registered = false then .refused 404
      else if route.handler = .dashboardTrackingLinksCreate then
        if csrfAccepted P config r session.token then
          .task (.operation ⟨route.handler, session.identity⟩)
        else .refused 403
      else .task (.operation ⟨route.handler, session.identity⟩)

/-- A route that takes a bearer credential. -/
def dispatchBearer (config : DashboardConfig) (t : AdminTables) (r : AdminRequest)
    (context : RequestContext) (route : RouteDefinition) : Dispatched :=
  if context.allowed = false then .refused 429
  else
    match verifyAdminKey P t config.tenantId r.authorization with
    | none => .refused 401
    | some identity =>
        if roleAllows identity.role route.capability = false then .refused 403
        else if route.handler = .operationalMetrics && !config.operationalMetrics then
          .refused 503
        else .task (.operation ⟨route.handler, identity⟩)

/-- The routes of the dashboard that ask for a session and a role. -/
def dashboardRoutes : List RouteHandler :=
  [.dashboardApp, .dashboardExport, .dashboardDifferences, .dashboardFraud,
    .dashboardTrackingLinksList, .dashboardTrackingLinksCreate, .dashboardAppsCreate]

/-- The checks of a request, in the order of `createRequestHandler`. -/
def dispatch (config : DashboardConfig) (t : AdminTables) (r : AdminRequest)
    (context : RequestContext) : Dispatched :=
  let session :=
    verifyDashboardSession P t config.tenantId config.cookieName r.cookie context.now
  match matchRoute r.method r.pathname with
  | none => .refused 404
  | some route =>
      if !config.enabled && route.handler.isDashboard then .refused 404
      else if [.health, .maxIngest, .appleSkanPostback, .appleAakPostback].contains
          route.handler then .unguarded route.handler
      else if [.sdkEnrollment, .sdkBatch, .devicePrivacy].contains route.handler &&
          config.sdk then .unguarded route.handler
      else if route.handler = .dashboardCss then .unguarded .dashboardCss
      else if route.handler = .dashboardRoot then
        match session with
        | none => .unguarded .dashboardRoot
        | some session => .task (.operation ⟨.dashboardRoot, session.identity⟩)
      else if route.handler = .dashboardLogin then
        if context.allowed = false then .refused 429
        else
          match verifyAdminKey P t config.tenantId
            (some ("Bearer " ++ (r.field "admin_key").getD "")) with
          | none => .refused 401
          | some identity => .task (.login identity config.sessionTtlSeconds)
      else if route.handler = .dashboardLogout then
        match session with
        | none => .refused 401
        | some session =>
            if csrfAccepted P config r session.token then .task (.logout session)
            else .refused 403
      else if dashboardRoutes.contains route.handler then
        dispatchDashboard P config t r context route
      else if route.auth = .adminBearer then dispatchBearer P config t r context route
      else .refused 404

end Router

section System

/-- The tables, the tasks of requests that passed their checks, and what was
carried out. -/
structure AdminState where
  tables : AdminTables
  /-- The tasks of requests whose checks are done. -/
  inFlight : List AdminTask
  /-- The operations that were carried out. -/
  performed : List Operation

/-- What can happen: a deployment starts, an operator retires a key, a request
comes, a task goes on or is given up, expired sessions are swept. -/
inductive AdminEvent where
  | provision (tenantId : String) (entries : List AdminKeyEntry)
  | retire (tenantId keyId : String)
  | request (config : DashboardConfig) (r : AdminRequest) (context : RequestContext)
  | issue (identity : AdminIdentity) (ttlSeconds : Int) (sessionId token : String) (now : Int)
  | revoke (session : DashboardSession)
  | perform (op : Operation)
  | abandon (task : AdminTask)
  | sweep (tenantId : String) (now : Int)

/-- A request whose checks come to a task leaves it in flight. -/
def AdminState.receive (s : AdminState) : Dispatched → AdminState
  | .task t => { s with inFlight := t :: s.inFlight }
  | _ => s

variable (P : AdminPrimitives)

/-- One transaction of a deployment or the operator. -/
inductive AdminStep : AdminState → AdminEvent → AdminState → Prop
  /-- A provision that throws rolls back and is no step. -/
  | provision {s tenantId entries salt ids tables} :
      ensureAdminKeys P tenantId salt entries s.tables = .ok (ids, tables) →
      AdminStep s (.provision tenantId entries) { s with tables := tables }
  /-- An operator retires a key of its tenant, by a statement of its own. -/
  | retire {s : AdminState} {tenantId keyId} : (s.tables.keyRow tenantId keyId).isSome →
      (keyId, AdminKeyStatus.retired) ∉ s.tables.keyStates.map AdminKeyStateRow.key →
      AdminStep s (.retire tenantId keyId)
        { s with tables := s.tables.insertState ⟨keyId, tenantId, .retired⟩ }
  | request {s config r context} :
      AdminStep s (.request config r context) (s.receive (dispatch P config s.tables r context))
  | issue {s : AdminState} {identity ttlSeconds sessionId token now tables} :
      .login identity ttlSeconds ∈ s.inFlight →
      issueDashboardSession P s.tables identity ttlSeconds sessionId token now = some tables →
      AdminStep s (.issue identity ttlSeconds sessionId token now)
        { s with tables := tables, inFlight := s.inFlight.erase (.login identity ttlSeconds) }
  | revoke {s : AdminState} {session} : .logout session ∈ s.inFlight →
      AdminStep s (.revoke session)
        { s with
          tables := revokeDashboardSession s.tables session
          inFlight := s.inFlight.erase (.logout session)
          performed := s.performed ++ [⟨.dashboardLogout, session.identity⟩] }
  | perform {s : AdminState} {op} : .operation op ∈ s.inFlight →
      AdminStep s (.perform op)
        { s with
          inFlight := s.inFlight.erase (.operation op)
          performed := s.performed ++ [op] }
  /-- The server stops, or the rest of the request throws. -/
  | abandon {s : AdminState} {task} : task ∈ s.inFlight →
      AdminStep s (.abandon task) { s with inFlight := s.inFlight.erase task }
  | sweep {s tenantId now} :
      AdminStep s (.sweep tenantId now)
        { s with tables := sweepExpiredDashboardSessions s.tables tenantId now }

/-- Deployments of any tenants over one database that starts empty. -/
def adminSystem : TransitionSystem AdminState AdminEvent where
  start s := s = ⟨⟨[], [], []⟩, [], []⟩
  step := AdminStep P

end System

end OpenMasu
