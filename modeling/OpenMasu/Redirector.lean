import OpenMasu.EventSchemas
import OpenMasu.FormEncoding

/-!
# The redirector

A tracking link is created from a dashboard request and stored under the
column domains of its table.  The redirector serves it: a request that names
an active link leaves a click behind, or the evidence of a prefetch, which is
enqueued as a record of its own batch.

* `createTrackingLink` — the links that can be stored;
* `classifyClientClass`, `assertDeepLinkValue`, `bindDeepLinkParameters`,
  `buildDeferredReferrer` — the parts of the redirector core;
* `resolveRedirect`, `prefetchEvidence` — the click of a request;
* `handleRedirect` — what a request leaves behind;
* `clickPayload` — the payload of its record.
-/

namespace OpenMasu

/-- A value of the domain `control.identifier`. -/
structure ControlIdentifier where
  text : String
  valid : isIdText text.toList = true

/-- A text that fits the domain. -/
def controlIdentifier (s : String) : Option ControlIdentifier :=
  if h : isIdText s.toList = true then some ⟨s, h⟩ else none

/-- A version 7 UUID, as the runtime writes it. -/
structure Uuid where
  chars : List Char
  length : chars.length = 36
  hex : chars.all (fun c => isHex c || c = '-') = true

/-- A check that throws. -/
def demand (holds : Bool) (message : String) : Except String Unit :=
  if holds then .ok () else .error message

/-- A parsed URL. -/
structure Url where
  href : String
  protocol : String
  hostname : String
  pathname : String
  origin : String
  username : String
  password : String

inductive DestinationKind where
  | playStore
  | customHttps
  deriving DecidableEq

/-- `assertDeepLinkValue`: a path of one to eight parts, none of them a dot or
two. -/
def assertDeepLinkValue (value : String) : Except String String := do
  let segments := (slashParts value.toList).tail
  demand (value.length ≤ 256 && !segments.any (fun segment => segment = ['.'] || segment = ['.', '.']) &&
    isDeepLinkPath value.toList) "deep_link_value_invalid"
  return value

section Referrer

/-- `encodeInstallReferrer`. -/
def encodeInstallReferrer (clickId : String) (extras : List (String × String)) :
    Except String String := do
  demand (isClickIdText clickId.toList) "click_id_invalid"
  return FormEncoding.text ([("omv", "1"), ("cid", clickId)] ++ extras)

/-- The place of a character of a parameter name in the English collation. -/
def collationWeight (c : Char) : Nat :=
  if c = '_' then 0 else if c.isDigit then 1 + (c.toNat - 48) else 11 + (c.toNat - 97)

inductive DeferredStatus where
  | carried
  | omittedLength
  | omittedPlatform
  | notConfigured
  deriving DecidableEq

def DeferredStatus.text : DeferredStatus → String
  | carried => "carried"
  | omittedLength => "omitted_length"
  | omittedPlatform => "omitted_platform"
  | notConfigured => "not_configured"

/-- `buildDeferredReferrer`: the referrer carries the deep link if it fits. -/
def buildDeferredReferrer (clickId : String) (deepLinkValue : Option String)
    (deepLinkParams : List (String × String)) (maximumEncodedCharacters : Nat) :
    Except String (String × DeferredStatus) := do
  let minimal ← encodeInstallReferrer clickId []
  match deepLinkValue.filter (fun value => value ≠ "") with
  | none => return (minimal, .notConfigured)
  | some value =>
      let dl ← assertDeepLinkValue value
      let sorted := KeyedSort.sortOn (fun p : String × String => p.1.toList.map collationWeight)
        deepLinkParams
      let expanded ← encodeInstallReferrer clickId
        (("dl", dl) :: sorted.map fun p => ("dlp_" ++ p.1, p.2))
      if expanded.length ≤ maximumEncodedCharacters then return (expanded, .carried)
      else return (minimal, .omittedLength)

end Referrer

section Links

inductive LinkState where
  | active
  | paused
  | archived
  deriving DecidableEq

/-- A row of `control.tracking_links`, with its current status. -/
structure TrackingLinkRow where
  trackingLinkId : ControlIdentifier
  tenantId : ControlIdentifier
  appId : ControlIdentifier
  slug : String
  destinationKind : DestinationKind
  destinationUrl : String
  playPackageName : Option String
  network : Option ControlIdentifier
  siteId : Option ControlIdentifier
  campaignId : Option ControlIdentifier
  adGroupId : Option ControlIdentifier
  creativeId : Option ControlIdentifier
  deepLinkValue : Option String
  deepLinkParamNames : List String
  deferredDeepLinkTtlSeconds : Nat
  status : LinkState

/-- The body of a request for a link: of an optional member the text of its
value, when the value is truthy. -/
structure TrackingLinkBody where
  destinationKind : Option DestinationKind
  destinationUrl : Option Url
  playPackageName : String
  network : Option String
  siteId : Option String
  campaignId : Option String
  adGroupId : Option String
  creativeId : Option String
  deepLinkValue : Option String
  deepLinkParamNames : List String
  /-- `none` when the value is no finite number. -/
  deferredDeepLinkTtlSeconds : Option Rat

/-- `assertAllowedDestination`. -/
def assertAllowedDestination (destination : Option Url) (allowedOrigins : List String) :
    Except String Url :=
  match destination with
  | none => .error "destination_invalid"
  | some parsed =>
      if parsed.username ≠ "" ∨ parsed.password ≠ "" then
        .error "destination_credentials_forbidden"
      else if parsed.protocol = "market:" ∧ parsed.hostname = "details" then .ok parsed
      else if parsed.protocol ≠ "https:" then .error "destination_scheme_not_allowed"
      else if parsed.hostname = "play.google.com" ∧ parsed.pathname = "/store/apps/details" then
        .ok parsed
      else if allowedOrigins.contains parsed.origin then .ok parsed
      else .error "destination_origin_not_allowed"

/-- `^[A-Za-z][A-Za-z0-9_.]{2,254}$` -/
def isPackageName : List Char → Bool
  | c :: cs => c.isAlpha && ofClass (fun c => c.isAlphanum || c = '_' || c = '.') 2 254 cs
  | [] => false

/-- An optional column of the domain `control.identifier`. -/
def controlIdentifierColumn : Option String → Except String (Option ControlIdentifier)
  | none => .ok none
  | some s =>
      match controlIdentifier s with
      | some identifier => .ok (some identifier)
      | none => .error "identifier_check"

/-- The ids and texts a creation draws. -/
structure LinkDraw where
  trackingLink : Uuid
  slug : String

/-- The id of a new link. -/
def trackingLinkId (u : Uuid) : ControlIdentifier where
  text := String.ofList ("tracking-link:".toList ++ u.chars)
  valid := by
    rw [String.toList_ofList, isIdText, ofClass, List.length_append, u.length, List.all_append]
    have hhex : u.chars.all isIdChar = true := by
      refine List.all_eq_true.mpr fun c hc => ?_
      have hclass := List.all_eq_true.mp u.hex c hc
      rw [Bool.or_eq_true, isHex, Bool.or_eq_true, Bool.and_eq_true] at hclass
      rcases hclass with (hdigit | ⟨hlow, hhigh⟩) | hdash
      · simp only [isIdChar, hdigit, Bool.or_true, Bool.true_or]
      · have hlower : isLowerAlpha c = true := by
          simp only [isLowerAlpha, Bool.and_eq_true, decide_eq_true_eq] at hlow hhigh ⊢
          exact ⟨hlow, Nat.le_trans hhigh (by decide)⟩
        simp only [isIdChar, hlower, Bool.true_or]
      · rw [of_decide_eq_true hdash]
        decide
    rw [hhex]
    decide

/-- The time to live of a deferred deep link. -/
def deferredTtl : Option Rat → Except String Nat
  | none => .error "deferred_deep_link_ttl_invalid"
  | some q => do
      demand (q.den = 1 && 0 ≤ q.num && q.num ≤ 7776000) "deferred_deep_link_ttl_invalid"
      return q.num.toNat

/-- The longest referrer of the link carries its deep link. -/
def checkReferrerBudget (deepLinkValue : Option String) (names : List String) (maximum : Nat) :
    Except String Unit :=
  if deepLinkValue.isSome then do
    let probe ← buildDeferredReferrer (String.ofList (List.replicate 44 'x')) deepLinkValue
      (names.map fun name => (name, String.ofList (List.replicate 64 'x'))) maximum
    demand (probe.2 = .carried) "deep_link_referrer_budget_exceeded"
  else .ok ()

/-- The deep link of a body, if it has one. -/
def checkedDeepLink : Option String → Except String (Option String)
  | none => .ok none
  | some value => some <$> assertDeepLinkValue value

/-- `createTrackingLink`. -/
def createTrackingLink (tenantId appId : ControlIdentifier) (allowedOrigins : List String)
    (referrerMaximumEncodedCharacters : Option Nat) (draw : LinkDraw) (body : TrackingLinkBody) :
    Except String TrackingLinkRow := do
  let kind ← body.destinationKind.elim (.error "destination_kind_invalid") .ok
  let destination ← assertAllowedDestination body.destinationUrl allowedOrigins
  demand (kind ≠ .playStore || destination.protocol = "market:" ||
    (destination.hostname = "play.google.com" && destination.pathname = "/store/apps/details"))
    "play_destination_required"
  demand (kind ≠ .customHttps || destination.protocol = "https:") "custom_https_required"
  demand (kind ≠ .playStore || isPackageName body.playPackageName.toList)
    "play_package_name_invalid"
  let deepLinkValue ← checkedDeepLink body.deepLinkValue
  let names := body.deepLinkParamNames
  demand (names.length ≤ 10 && names.Nodup && names.all (fun name => isParameterName name.toList))
    "deep_link_param_names_invalid"
  let ttl ← deferredTtl body.deferredDeepLinkTtlSeconds
  checkReferrerBudget deepLinkValue names (referrerMaximumEncodedCharacters.getD 512)
  -- what follows is checked by the columns of the table
  demand (1 ≤ destination.href.length && destination.href.length ≤ 2048)
    "tracking_links_destination_url_check"
  let network ← controlIdentifierColumn body.network
  let siteId ← controlIdentifierColumn body.siteId
  let campaignId ← controlIdentifierColumn body.campaignId
  let adGroupId ← controlIdentifierColumn body.adGroupId
  let creativeId ← controlIdentifierColumn body.creativeId
  return {
    trackingLinkId := trackingLinkId draw.trackingLink
    tenantId := tenantId
    appId := appId
    slug := draw.slug
    destinationKind := kind
    destinationUrl := destination.href
    playPackageName := if kind = .playStore then some body.playPackageName else none
    network := network
    siteId := siteId
    campaignId := campaignId
    adGroupId := adGroupId
    creativeId := creativeId
    deepLinkValue := deepLinkValue
    deepLinkParamNames := names
    deferredDeepLinkTtlSeconds := ttl
    status := .active }

end Links

section Clicks

inductive SourceRateClass where
  | normal
  | elevated
  | saturated
  deriving DecidableEq

def SourceRateClass.text : SourceRateClass → String
  | normal => "normal"
  | elevated => "elevated"
  | saturated => "saturated"

inductive ClientClass where
  | mobileAppEligible
  | bot
  | other
  deriving DecidableEq

def ClientClass.text : ClientClass → String
  | mobileAppEligible => "mobile_app_eligible"
  | bot => "bot"
  | other => "other"

/-- The word occurs in a text, letter case aside. -/
def mentions (word : String) (text : String) : Bool :=
  (text.toList.map Char.toLower).tails.any fun rest => word.toList.isPrefixOf rest

def publicBotTokens : List String := ["bot", "crawler", "spider", "preview"]

/-- `classifyClientClass`. -/
def classifyClientClass (userAgent : String) : ClientClass :=
  if publicBotTokens.any (fun token => mentions token userAgent) then .bot
  else if mentions "android" userAgent || mentions "iphone" userAgent || mentions "ipad" userAgent then
    .mobileAppEligible
  else .other

/-- `bindDeepLinkParameters`: the declared parameters of a query, the last
value of each. -/
def bindDeepLinkParameters (source : List (String × String)) (declared : List String) :
    List (String × String) :=
  (InsertionMap.ofList (source.filterMap fun p =>
    match p.1.toList with
    | 'd' :: 'l' :: 'p' :: '_' :: name =>
        if declared.contains (String.ofList name) && ofClass isUrlChar 1 64 p.2.toList then
          some (String.ofList name, p.2)
        else none
    | _ => none)).entries

/-- The evidence of a click or a prefetch. -/
structure RedirectClick where
  clickId : Option String
  trackingLinkId : ControlIdentifier
  tenantId : ControlIdentifier
  appId : ControlIdentifier
  redirectorClickAt : Timestamp
  campaignId : Option ControlIdentifier
  adGroupId : Option ControlIdentifier
  creativeId : Option ControlIdentifier
  network : Option ControlIdentifier
  siteId : Option ControlIdentifier
  remoteClickRef : Option String
  sourceRateClass : SourceRateClass
  clientClass : Option ClientClass
  botPrefetch : Bool
  deepLinkValue : Option String
  deferredDeepLinkStatus : Option DeferredStatus

/-- What a redirect is resolved from. -/
structure RedirectOptions where
  link : TrackingLinkRow
  now : Timestamp
  clickId : String
  remoteClickRef : Option String
  sourceRateClass : SourceRateClass
  clientClass : Option ClientClass
  deepLinkParams : List (String × String)
  referrerMaximumEncodedCharacters : Nat
  deepLinkValue : Option String

/-- `resolveRedirect`, for an active link. -/
def resolveRedirect (o : RedirectOptions) : Except String RedirectClick := do
  let deepLinkValue := (o.deepLinkValue <|> o.link.deepLinkValue).filter (fun value => value ≠ "")
  let (referrer, status) ← buildDeferredReferrer o.clickId deepLinkValue o.deepLinkParams
    o.referrerMaximumEncodedCharacters
  demand (referrer.length ≤ o.referrerMaximumEncodedCharacters) "referrer_too_long"
  demand (o.link.destinationKind ≠ .playStore || o.link.playPackageName.isSome)
    "play_package_name_missing"
  return {
    clickId := some o.clickId
    trackingLinkId := o.link.trackingLinkId
    tenantId := o.link.tenantId
    appId := o.link.appId
    redirectorClickAt := o.now
    campaignId := o.link.campaignId
    adGroupId := o.link.adGroupId
    creativeId := o.link.creativeId
    network := o.link.network
    siteId := o.link.siteId
    remoteClickRef := o.remoteClickRef
    sourceRateClass := o.sourceRateClass
    clientClass := o.clientClass
    botPrefetch := o.clientClass = some .bot
    deepLinkValue := deepLinkValue
    deferredDeepLinkStatus := some status }

/-- `prefetchEvidence`. -/
def prefetchEvidence (link : TrackingLinkRow) (now : Timestamp) (remoteClickRef : Option String)
    (sourceRateClass : SourceRateClass) (clientClass : Option ClientClass) : RedirectClick where
  clickId := none
  trackingLinkId := link.trackingLinkId
  tenantId := link.tenantId
  appId := link.appId
  redirectorClickAt := now
  campaignId := link.campaignId
  adGroupId := link.adGroupId
  creativeId := link.creativeId
  network := link.network
  siteId := link.siteId
  remoteClickRef := remoteClickRef
  sourceRateClass := sourceRateClass
  clientClass := some (clientClass.getD .bot)
  botPrefetch := true
  deepLinkValue := none
  deferredDeepLinkStatus := none

/-- The payload that `persistClick` enqueues. -/
def clickPayload (c : RedirectClick) : List (String × Option Json) := [
  ("click_id", c.clickId.map .str),
  ("tracking_link_id", some (.str c.trackingLinkId.text)),
  ("redirector_click_at", some (.str c.redirectorClickAt.text)),
  ("redirector_time_status", some (.str "available")),
  ("campaign_id", c.campaignId.map fun i => .str i.text),
  ("ad_group_id", c.adGroupId.map fun i => .str i.text),
  ("creative_id", c.creativeId.map fun i => .str i.text),
  ("network", c.network.map fun i => .str i.text),
  ("site_id", c.siteId.map fun i => .str i.text),
  ("remote_click_ref", c.remoteClickRef.map .str),
  ("source_rate_class", some (.str c.sourceRateClass.text)),
  ("client_class", c.clientClass.map fun k => .str k.text),
  ("deep_link_value", c.deepLinkValue.map .str),
  ("deferred_deep_link_status", c.deferredDeepLinkStatus.map fun s => .str s.text),
  ("bot_prefetch", if c.botPrefetch then some (.bool true) else none)]

end Clicks

section Requests

/-- What the redirector reads of a request. -/
structure RedirectRequest where
  method : String
  pathname : String
  query : List (String × String)
  userAgent : Option String
  purpose : Option String
  secPurpose : Option String

/-- What the redirector is set up with, and draws, for a request. -/
structure RedirectSetup where
  /-- The limiter lets the remote address pass. -/
  allowed : Bool
  sourceRateClass : Option SourceRateClass
  clientClassEnabled : Option Bool
  remoteClickParameter : Option String
  referrerMaximumEncodedCharacters : Option Nat
  now : Timestamp
  random : List UInt8
  /-- The link of a slug in the tenant of the request. -/
  link : String → Option TrackingLinkRow

/-- `^\/r\/([A-Za-z0-9_-]{12,64})(\/.*)?$` -/
def matchRedirectPath : List Char → Option (List Char × Option (List Char))
  | '/' :: 'r' :: '/' :: rest =>
      let slug := rest.takeWhile isSlugChar
      if 12 ≤ slug.length ∧ slug.length ≤ 64 then
        match rest.dropWhile isSlugChar with
        | [] => some (slug, none)
        | '/' :: tail =>
            if tail.any (fun c => c = '\n' || c = '\r' || c = '\u2028' || c = '\u2029') then none
            else some (slug, some ('/' :: tail))
        | _ => none
      else none
  | _ => none

/-- A base64url symbol. -/
def base64Symbol (n : Nat) : Char :=
  if n < 26 then Char.ofNat (65 + n)
  else if n < 52 then Char.ofNat (97 + (n - 26))
  else if n < 62 then Char.ofNat (48 + (n - 52))
  else if n = 62 then '-' else '_'

/-- Base64url without padding. -/
def base64url : List UInt8 → List Char
  | a :: b :: c :: rest =>
      base64Symbol (a.toNat / 4) :: base64Symbol (a.toNat % 4 * 16 + b.toNat / 16) ::
        base64Symbol (b.toNat % 16 * 4 + c.toNat / 64) :: base64Symbol (c.toNat % 64) ::
          base64url rest
  | [a, b] => [base64Symbol (a.toNat / 4), base64Symbol (a.toNat % 4 * 16 + b.toNat / 16),
      base64Symbol (b.toNat % 16 * 4)]
  | [a] => [base64Symbol (a.toNat / 4), base64Symbol (a.toNat % 4 * 16)]
  | [] => []

/-- `randomClickId`: 33 random bytes. -/
def randomClickId (random : List UInt8) : String := String.ofList (base64url (random.take 33))

/-- The request announces a prefetch. -/
def isPrefetch (request : RedirectRequest) : Bool :=
  mentions "prefetch" (request.purpose.getD "" ++ " " ++ request.secPurpose.getD "")

/-- The deep-link value behind the slug of a path, if there is one; the value
is refused when it is no path. -/
def directDeepLinkValue : Option (List Char) → Option (Option String)
  | none => some none
  | some path => (assertDeepLinkValue (String.ofList path)).toOption.map some

/-- The click reference of another network that a query carries. -/
def remoteClickRef (setup : RedirectSetup) (request : RedirectRequest) : Option String :=
  ((request.query.find? fun p => p.1 = setup.remoteClickParameter.getD "cid").map
    Prod.snd).filter (fun value => value ≠ "")

/-- The class of a client, when clients are classified. -/
def requestClientClass (setup : RedirectSetup) (request : RedirectRequest) : Option ClientClass :=
  if setup.clientClassEnabled = some false then none
  else some (classifyClientClass (request.userAgent.getD ""))

/-- What a request for an active link leaves behind. -/
def redirectEvidence (setup : RedirectSetup) (request : RedirectRequest) (link : TrackingLinkRow)
    (direct : Option String) : Option RedirectClick :=
  if isPrefetch request then
    some (prefetchEvidence link setup.now (remoteClickRef setup request)
      (setup.sourceRateClass.getD .normal) (requestClientClass setup request))
  else if link.destinationKind = .playStore ∧ ¬mentions "android" (request.userAgent.getD "") then
    none
  else
    (resolveRedirect {
      link := link
      now := setup.now
      clickId := randomClickId setup.random
      remoteClickRef := remoteClickRef setup request
      sourceRateClass := setup.sourceRateClass.getD .normal
      clientClass := requestClientClass setup request
      deepLinkParams := bindDeepLinkParameters request.query link.deepLinkParamNames
      referrerMaximumEncodedCharacters := setup.referrerMaximumEncodedCharacters.getD 512
      deepLinkValue := direct }).toOption

/-- What a request to `/r/` leaves behind; none when it is answered by the
fallback or refused. -/
def handleRedirect (setup : RedirectSetup) (request : RedirectRequest) : Option RedirectClick := do
  guard (request.method = "GET")
  let (slug, path) ← matchRedirectPath request.pathname.toList
  guard setup.allowed
  let link ← setup.link (String.ofList slug)
  guard (link.status = .active)
  let direct ← directDeepLinkValue path
  guard ((remoteClickRef setup request).all fun value => ofClass isUrlChar 1 128 value.toList)
  redirectEvidence setup request link direct

end Requests

end OpenMasu
