import OpenMasu.AppendOnly
import OpenMasu.PathPatterns

/-!
# The routes of the API

The server has one table of routes and takes the first whose method and
pattern fit a request.  Each route says who may call it, whether it writes,
and the capability an administrative role needs for it.

* `routes`, `matchRoute` — the table and the lookup;
* `roleAllows` — the capabilities of the roles;
* `RoutesApart` — no two routes fit one request, so the order of the table
  does not matter, and a handler that reads the app from the path finds it.
-/

namespace OpenMasu

/-- The roles a key can have. -/
inductive AdminRole where
  | admin
  | operator
  | readOnly
  deriving DecidableEq

/-- How a route is guarded. -/
inductive RouteAuth where
  | publicAccess
  | adminBearer
  | sdkHmac
  | dashboardSession
  deriving DecidableEq

/-- What a route asks of a role. -/
inductive RouteCapability where
  | read
  | operate
  | administer
  deriving DecidableEq

/-- The methods the table names. -/
inductive RouteMethod where
  | get
  | post
  deriving DecidableEq

/-- The method as a request spells it. -/
def RouteMethod.text : RouteMethod → String
  | get => "GET"
  | post => "POST"

/-- The handlers of `createRequestHandler`. -/
inductive RouteHandler where
  | health
  | operationalMetrics
  | maxIngest
  | reportMetrics
  | reportRecords
  | auditDifferences
  | auditFraud
  | sdkEnrollment
  | sdkBatch
  | devicePrivacy
  | adminAppsList
  | adminAppsCreate
  | adminTrackingLinksList
  | adminTrackingLinks
  | adminLinkDomain
  | adminAppLinkIdentity
  | adminPrivacy
  | adminAppleRegistration
  | adminConversionSchema
  | adminRuleBundle
  | appleSkanPostback
  | appleAakPostback
  | dashboardRoot
  | dashboardCss
  | dashboardLogin
  | dashboardLogout
  | dashboardApp
  | dashboardExport
  | dashboardDifferences
  | dashboardFraud
  | dashboardTrackingLinksList
  | dashboardTrackingLinksCreate
  | dashboardAppsCreate
  deriving DecidableEq

/-- A row of the table of routes. -/
structure RouteDefinition where
  handler : RouteHandler
  method : RouteMethod
  /-- The alternatives of the regular expression. -/
  pattern : List (List PathPart)
  auth : RouteAuth
  mutates : Bool
  capability : Option RouteCapability
  deriving DecidableEq

/-- The table of routes, in its order. -/
def routes : List RouteDefinition :=
  [ ⟨.health, .get, [[.text "health"]], .publicAccess, false, none⟩,
    ⟨.operationalMetrics, .get, [[.text "metrics"]], .adminBearer, false, some .read⟩,
    ⟨.maxIngest, .get, [[.text "v1", .text "ingest", .text "max", .any]],
      .publicAccess, true, none⟩,
    ⟨.reportMetrics, .get, [[.text "v1", .text "reports", .text "metrics"]],
      .adminBearer, false, some .read⟩,
    ⟨.reportRecords, .get, [[.text "v1", .text "reports", .text "records"]],
      .adminBearer, false, some .read⟩,
    ⟨.auditDifferences, .get, [[.text "v1", .text "audit", .text "differences"]],
      .adminBearer, false, some .read⟩,
    ⟨.auditFraud, .get, [[.text "v1", .text "audit", .text "fraud"]],
      .adminBearer, false, some .read⟩,
    ⟨.sdkEnrollment, .post, [[.text "v1", .text "installations"]], .sdkHmac, true, none⟩,
    ⟨.sdkBatch, .post, [[.text "v1", .text "events", .text "batch"]], .sdkHmac, true, none⟩,
    ⟨.devicePrivacy, .post, [[.text "v1", .text "privacy", .text "on-device"]],
      .sdkHmac, true, none⟩,
    ⟨.appleSkanPostback, .post,
      [[.text ".well-known", .text "skadnetwork", .text "report-attribution", .text ""]],
      .publicAccess, true, none⟩,
    ⟨.appleAakPostback, .post,
      [[.text ".well-known", .text "appattribution", .text "report-attribution", .text ""]],
      .publicAccess, true, none⟩,
    ⟨.adminAppsList, .get, [[.text "v1", .text "admin", .text "apps"]],
      .adminBearer, false, some .read⟩,
    ⟨.adminAppsCreate, .post, [[.text "v1", .text "admin", .text "apps"]],
      .adminBearer, true, some .administer⟩,
    ⟨.adminTrackingLinksList, .get, [[.text "v1", .text "admin", .text "tracking-links"]],
      .adminBearer, false, some .read⟩,
    ⟨.adminTrackingLinks, .post, [[.text "v1", .text "admin", .text "tracking-links"]],
      .adminBearer, true, some .operate⟩,
    ⟨.adminLinkDomain, .post, [[.text "v1", .text "admin", .text "link-domain"]],
      .adminBearer, true, some .administer⟩,
    ⟨.adminAppLinkIdentity, .post,
      [[.text "v1", .text "admin", .text "apps", .any, .text "link-identity"]],
      .adminBearer, true, some .administer⟩,
    ⟨.adminPrivacy, .post, [[.text "v1", .text "admin", .text "privacy-requests"]],
      .adminBearer, true, some .operate⟩,
    ⟨.adminAppleRegistration, .post,
      [[.text "v1", .text "admin", .text "apps", .any, .text "apple-registration"]],
      .adminBearer, true, some .administer⟩,
    ⟨.adminConversionSchema, .post,
      [[.text "v1", .text "admin", .text "apps", .any, .text "conversion-schemas"]],
      .adminBearer, true, some .administer⟩,
    ⟨.adminRuleBundle, .post,
      [[.text "v1", .text "admin", .text "apps", .any, .text "rule-bundles"]],
      .adminBearer, true, some .administer⟩,
    ⟨.dashboardRoot, .get, [[.text "dashboard"], [.text "dashboard", .text ""]],
      .publicAccess, false, none⟩,
    ⟨.dashboardCss, .get, [[.text "dashboard", .text "app.css"]], .publicAccess, false, none⟩,
    ⟨.dashboardLogin, .post, [[.text "dashboard", .text "session"]], .publicAccess, true, none⟩,
    ⟨.dashboardLogout, .post, [[.text "dashboard", .text "session", .text "delete"]],
      .dashboardSession, true, some .read⟩,
    ⟨.dashboardExport, .get, [[.text "dashboard", .text "apps", .any, .text "cohorts.csv"]],
      .dashboardSession, false, some .read⟩,
    ⟨.dashboardDifferences, .get, [[.text "dashboard", .text "apps", .any, .text "differences"]],
      .dashboardSession, false, some .read⟩,
    ⟨.dashboardFraud, .get, [[.text "dashboard", .text "apps", .any, .text "fraud"]],
      .dashboardSession, false, some .read⟩,
    ⟨.dashboardTrackingLinksList, .get,
      [[.text "dashboard", .text "apps", .any, .text "tracking-links"]],
      .dashboardSession, false, some .read⟩,
    ⟨.dashboardTrackingLinksCreate, .post,
      [[.text "dashboard", .text "apps", .any, .text "tracking-links"]],
      .dashboardSession, true, some .operate⟩,
    ⟨.dashboardApp, .get, [[.text "dashboard", .text "apps", .any]],
      .dashboardSession, false, some .read⟩,
    ⟨.dashboardAppsCreate, .post, [[.text "dashboard", .text "apps"]],
      .dashboardSession, true, some .administer⟩ ]

/-- A regular expression accepts a path. -/
def acceptsPath (pattern : List (List PathPart)) (pathname : String) : Bool :=
  match PathPart.segments pathname with
  | some path => pattern.any (PathPart.admits · path)
  | none => false

/-- The row fits a request: its method, and its regular expression. -/
def RouteDefinition.fits (route : RouteDefinition) (method : Option String)
    (pathname : String) : Bool :=
  method = some route.method.text && acceptsPath route.pattern pathname

/-- The first row that fits. -/
def matchRoute (method : Option String) (pathname : String) : Option RouteDefinition :=
  routes.find? (RouteDefinition.fits · method pathname)

/-- What a role may do. -/
def roleCapabilities : AdminRole → List RouteCapability
  | .admin => [.read, .operate, .administer]
  | .operator => [.read, .operate]
  | .readOnly => [.read]

/-- A route without a capability is open to every role. -/
def roleAllows (role : AdminRole) : Option RouteCapability → Bool
  | none => true
  | some capability => (roleCapabilities role).contains capability

section AppIds

/-- The paths from which `dashboardAppId` reads an app. -/
def dashboardAppPatterns : List (List PathPart) :=
  [none, some "cohorts.csv", some "differences", some "fraud", some "tracking-links"].map
    fun last => [.text "dashboard", .text "apps", .any] ++ last.toList.map .text

/-- The paths from which `adminAppId` reads an app. -/
def adminAppPatterns : List (List PathPart) :=
  ["apple-registration", "conversion-schemas", "rule-bundles", "link-identity"].map
    fun last => [.text "v1", .text "admin", .text "apps", .any, .text last]

/-- What a regular expression captures from a path. -/
def capturedFrom (pattern : List (List PathPart)) (pathname : String) : Option String :=
  match PathPart.segments pathname with
  | some path => ((pattern.find? (PathPart.admits · path)).bind
      (PathPart.captured · path)).map String.ofList
  | none => none

variable (decodeURIComponent : String → Option String)

/-- The app that a path of the dashboard names. -/
def dashboardAppId (pathname : String) : Option String :=
  (capturedFrom dashboardAppPatterns pathname).bind decodeURIComponent

/-- The app that an administrative path names. -/
def adminAppId (pathname : String) : Option String :=
  (capturedFrom adminAppPatterns pathname).bind decodeURIComponent

end AppIds

/-- The handlers that call `dashboardAppId`. -/
def readsDashboardApp : List RouteHandler :=
  [.dashboardApp, .dashboardExport, .dashboardDifferences, .dashboardFraud,
    .dashboardTrackingLinksList, .dashboardTrackingLinksCreate]

/-- The handlers that call `adminAppId`. -/
def readsAdminApp : List RouteHandler :=
  [.adminAppleRegistration, .adminConversionSchema, .adminRuleBundle, .adminAppLinkIdentity]

/-- Two routes may fit one request. -/
def RouteDefinition.clashes (route other : RouteDefinition) : Bool :=
  route.method = other.method &&
    route.pattern.any fun p => other.pattern.any fun q => PathPart.meets p q

/-- What the table of routes promises the server. -/
structure RoutesApart : Prop where
  /-- The route found is the only one that fits. -/
  unique (method : Option String) (pathname : String) (route : RouteDefinition) :
    matchRoute method pathname = some route ↔
      route ∈ routes ∧ route.fits method pathname = true
  /-- The table may be written in any order. -/
  anyOrder (table : List RouteDefinition) (method : Option String) (pathname : String) :
    table.Perm routes →
      table.find? (RouteDefinition.fits · method pathname) = matchRoute method pathname
  /-- A handler of the dashboard finds its app unless it cannot be decoded. -/
  dashboardApp (method : Option String) (pathname : String) (route : RouteDefinition) :
    matchRoute method pathname = some route → route.handler ∈ readsDashboardApp →
      ∃ segment ≠ "", ∀ decode, dashboardAppId decode pathname = decode segment
  adminApp (method : Option String) (pathname : String) (route : RouteDefinition) :
    matchRoute method pathname = some route → route.handler ∈ readsAdminApp →
      ∃ segment ≠ "", ∀ decode, adminAppId decode pathname = decode segment

section Proofs

variable {method : Option String} {pathname : String} {route other : RouteDefinition}

/-- A path is accepted by one of the alternatives, segment by segment. -/
theorem acceptsPath_eq_true {pattern : List (List PathPart)} :
    acceptsPath pattern pathname = true ↔ ∃ path, PathPart.segments pathname = some path ∧
      ∃ p ∈ pattern, PathPart.admits p path = true := by
  unfold acceptsPath
  cases PathPart.segments pathname with
  | none => simp
  | some path => simp

/-- Two rows that fit one request clash. -/
theorem clashes_of_fits (h : route.fits method pathname = true)
    (h' : other.fits method pathname = true) : route.clashes other = true := by
  simp only [RouteDefinition.fits, Bool.and_eq_true, decide_eq_true_eq] at h h'
  obtain ⟨path, hpath, p, hp, hadmits⟩ := acceptsPath_eq_true.mp h.2
  obtain ⟨path', hpath', q, hq, hadmits'⟩ := acceptsPath_eq_true.mp h'.2
  obtain rfl := Option.some.inj (hpath.symm.trans hpath')
  have hmethod : route.method = other.method := by
    have htext := Option.some.inj (h.1.symm.trans h'.1)
    cases hr : route.method <;> cases ho : other.method <;>
      simp [hr, ho, RouteMethod.text] at htext ⊢
  refine Bool.and_eq_true_iff.mpr ⟨decide_eq_true hmethod, ?_⟩
  exact List.any_eq_true.mpr ⟨p, hp, List.any_eq_true.mpr ⟨q, hq,
    PathPart.admits_meet hadmits hadmits'⟩⟩

/-- It does not matter which of two rows is looked at first. -/
theorem clashes_comm : route.clashes other = other.clashes route := by
  unfold RouteDefinition.clashes
  rw [Bool.eq_iff_iff]
  simp only [Bool.and_eq_true, decide_eq_true_eq, List.any_eq_true]
  constructor <;> rintro ⟨hmethod, p, hp, q, hq, hmeets⟩ <;>
    exact ⟨hmethod.symm, q, hq, p, hp, PathPart.meets_comm _ _ ▸ hmeets⟩

/-- No two rows of the table clash. -/
theorem routes_apart : AppendOnly.Apart RouteDefinition.clashes routes := by
  unfold AppendOnly.Apart
  decide +kernel

/-- So a request fits one row at most. -/
theorem eq_of_fits (hroute : route ∈ routes) (hother : other ∈ routes)
    (h : route.fits method pathname = true) (h' : other.fits method pathname = true) :
    route = other :=
  routes_apart.eq_of_clash (fun _ _ => clashes_comm) hroute hother (clashes_of_fits h h')

/-- In any order of the table, the route found is the one that fits. -/
theorem find?_fits_iff {table : List RouteDefinition} (hperm : table.Perm routes) :
    table.find? (RouteDefinition.fits · method pathname) = some route ↔
      route ∈ routes ∧ route.fits method pathname = true := by
  constructor
  · intro h
    have hfits := List.find?_some h
    exact ⟨hperm.mem_iff.mp (List.mem_of_find?_eq_some h), hfits⟩
  · rintro ⟨hmem, hfits⟩
    cases hfind : table.find? (RouteDefinition.fits · method pathname) with
    | none => exact absurd hfits (List.find?_eq_none.mp hfind route (hperm.mem_iff.mpr hmem))
    | some found =>
        have hfound := hperm.mem_iff.mp (List.mem_of_find?_eq_some hfind)
        have hfits' := List.find?_some hfind
        rw [eq_of_fits hmem hfound hfits hfits']

/-- A path that a route admits through a pattern of a regular expression with
one open segment gives that segment. -/
theorem exists_capturedFrom {pattern : List (List PathPart)}
    (hroute : ∀ p ∈ route.pattern, p ∈ pattern) (hany : ∀ p ∈ pattern, PathPart.any ∈ p)
    (h : route.fits method pathname = true) :
    ∃ segment ≠ "", capturedFrom pattern pathname = some segment := by
  simp only [RouteDefinition.fits, Bool.and_eq_true] at h
  obtain ⟨path, hpath, p, hp, hadmits⟩ := acceptsPath_eq_true.mp h.2
  cases hfind : pattern.find? (PathPart.admits · path) with
  | none => exact absurd hadmits (List.find?_eq_none.mp hfind p (hroute p hp))
  | some q =>
      have hadmits' := List.find?_some hfind
      obtain ⟨segment, hne, hsegment⟩ := PathPart.exists_captured
        (hany q (List.mem_of_find?_eq_some hfind)) hadmits'
      refine ⟨String.ofList segment, fun hempty => hne ?_, ?_⟩
      · simpa using congrArg String.toList hempty
      · simp only [capturedFrom, hpath, hfind, Option.bind_some, hsegment, Option.map_some]

/-- The routes whose handler reads the app from the path have one of the paths
it can be read from. -/
theorem dashboardApp_patterns : ∀ r ∈ routes, r.handler ∈ readsDashboardApp →
    ∀ p ∈ r.pattern, p ∈ dashboardAppPatterns := by
  decide +kernel

/-- The same of the administrative routes. -/
theorem adminApp_patterns : ∀ r ∈ routes, r.handler ∈ readsAdminApp →
    ∀ p ∈ r.pattern, p ∈ adminAppPatterns := by
  decide +kernel

end Proofs

/-- **The routes are apart.**  Whatever the request, the table of routes
answers it by the only route that fits, in any order of its rows, and the
handlers read the app from every path their routes admit. -/
theorem routesApart : RoutesApart where
  unique _ _ _ := find?_fits_iff (List.Perm.refl routes)
  anyOrder table method pathname hperm := by
    apply Option.ext
    intro route
    exact (find?_fits_iff hperm).trans (find?_fits_iff (List.Perm.refl routes)).symm
  dashboardApp method pathname route hmatch hreads := by
    obtain ⟨hmem, hfits⟩ := (find?_fits_iff (List.Perm.refl routes)).mp hmatch
    obtain ⟨segment, hne, hsegment⟩ := exists_capturedFrom
      (dashboardApp_patterns route hmem hreads) (by decide) hfits
    exact ⟨segment, hne, fun decode => by rw [dashboardAppId, hsegment, Option.bind_some]⟩
  adminApp method pathname route hmatch hreads := by
    obtain ⟨hmem, hfits⟩ := (find?_fits_iff (List.Perm.refl routes)).mp hmatch
    obtain ⟨segment, hne, hsegment⟩ := exists_capturedFrom
      (adminApp_patterns route hmem hreads) (by decide) hfits
    exact ⟨segment, hne, fun decode => by rw [adminAppId, hsegment, Option.bind_some]⟩

end OpenMasu
