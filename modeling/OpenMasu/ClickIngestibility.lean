import OpenMasu.Redirector

/-!
# Which redirect clicks can be ingested

The payload of a click is assembled from the link, the request and the set-up
of the redirector.  All its texts fit the click schema, whatever the link and
the request; what the schema may miss is the campaign, and the click id of a
prefetch that no bot sent.

* `isClickIdText`, `isIdText` — a click id is an identifier;
* `ClickFits` — the texts of a click fit the schema;
* `clickPayload_admits_iff` — what the schema still asks of such a click;
* `redirectEvidence_cases` — the two kinds of evidence a request leaves;
* `clickIngestible_iff` — when the record of a request is valid.
-/

namespace OpenMasu

open JsonSchema (Schema closedObject memberOf MemberFits admits_property admits_required
  admits_closedObject)

section Texts

variable {accepts : List Char → Bool} {s : String}

@[simp] theorem textSchema_admits :
    (textSchema accepts).admits (.str s) = true ↔ accepts s.toList = true := by
  simp [textSchema, Schema.admits, JsonSchema.JsonType.isOf]

@[simp] theorem boundedText_admits {least most : Nat} :
    (boundedText least most).admits (.str s) = true ↔ least ≤ s.length ∧ s.length ≤ most := by
  simp [boundedText, Schema.admits, JsonSchema.JsonType.isOf]

@[simp] theorem deepLinkValueSchema_admits : deepLinkValueSchema.admits (.str s) = true ↔
    s.length ≤ 256 ∧ isDeepLinkPath s.toList = true := by
  simp [deepLinkValueSchema, Schema.admits, JsonSchema.JsonType.isOf]

/-- A wider class admits the texts of a narrower one. -/
theorem ofClass_mono {p q : Char → Bool} {a b a' b' : Nat} {cs : List Char}
    (hclass : ∀ c, p c = true → q c = true) (hlow : a' ≤ a) (hhigh : b ≤ b')
    (h : ofClass p a b cs = true) : ofClass q a' b' cs = true := by
  simp only [ofClass, Bool.and_eq_true, decide_eq_true_eq, List.all_eq_true] at h ⊢
  exact ⟨⟨by omega, by omega⟩, fun c hc => hclass c (h.2 c hc)⟩

/-- A text of a class is as long as the class allows. -/
theorem length_of_ofClass {p : Char → Bool} {a b : Nat} (h : ofClass p a b s.toList = true) :
    a ≤ s.length ∧ s.length ≤ b := by
  simp only [ofClass, Bool.and_eq_true, decide_eq_true_eq] at h
  exact h.1

/-- Every letter of a click id may stand in an identifier. -/
theorem isIdChar_of_isSlugChar {c : Char} (h : isSlugChar c = true) : isIdChar c = true := by
  simp only [isSlugChar, Char.isAlphanum, isAlpha_eq, isUpper_eq, isLower_eq, Char.isDigit,
    Bool.or_eq_true, Bool.and_eq_true, decide_eq_true_eq] at h
  simp only [isIdChar, isLowerAlpha, isDigit, Bool.or_eq_true, Bool.and_eq_true, decide_eq_true_eq]
  rcases h with (((hupper | hlower) | hdigit) | hunderscore) | hdash
  · exact .inl (.inl (.inr hupper))
  · exact .inl (.inl (.inl hlower))
  · exact .inl (.inr hdigit)
  · rw [hunderscore]
    decide
  · rw [hdash]
    decide

/-- A click id is an identifier. -/
theorem isIdText_of_isClickIdText {cs : List Char} (h : isClickIdText cs = true) :
    isIdText cs = true :=
  ofClass_mono (fun _ => isIdChar_of_isSlugChar) (by omega) (by omega) h

@[simp] theorem clickIdSchema_admits :
    clickIdSchema.admits (.str s) = true ↔ isClickIdText s.toList = true := by
  rw [clickIdSchema, Schema.admits, Bool.and_eq_true, idSchema, textSchema_admits, textSchema_admits]
  exact ⟨And.right, fun h => ⟨isIdText_of_isClickIdText h, h⟩⟩

/-- A check that does not throw holds. -/
theorem demand_ok {holds : Bool} {message : String} {u : Unit}
    (h : demand holds message = .ok u) : holds = true := by
  cases holds with
  | true => rfl
  | false => cases h

/-- What is left of a result as a value was one. -/
theorem ok_of_toOption {ε α : Type} {x : Except ε α} {a : α} (h : x.toOption = some a) :
    x = .ok a := by
  cases x with
  | error _ => cases h
  | ok b => rw [Option.some.inj h]

/-- A deep-link value that is accepted is a path of the length of the column. -/
theorem assertDeepLinkValue_ok {value v : String} (h : assertDeepLinkValue value = .ok v) :
    v = value ∧ value.length ≤ 256 ∧ isDeepLinkPath value.toList = true := by
  obtain ⟨_, hcheck, hvalue⟩ := PartialList.bind_eq_ok.mp h
  have hholds := demand_ok hcheck
  simp only [Bool.and_eq_true, decide_eq_true_eq] at hholds
  exact ⟨(Except.ok.inj hvalue).symm, hholds.1.1, hholds.2⟩

end Texts

section Payloads

/-- The texts of a click are of the form the columns of a click have. -/
structure ClickFits (c : RedirectClick) : Prop where
  clickId : ∀ id, c.clickId = some id → isClickIdText id.toList = true
  clock : c.redirectorClickAt.isCalendar = true
  remoteClickRef : ∀ ref, c.remoteClickRef = some ref → ofClass isUrlChar 1 128 ref.toList = true
  deepLinkValue : ∀ value, c.deepLinkValue = some value →
    value.length ≤ 256 ∧ isDeepLinkPath value.toList = true

/-- The members of a click payload fit the schemas they are declared with. -/
theorem clickPayload_fits {c : RedirectClick} (hfits : ClickFits c) :
    ∀ m ∈ clickPayload c, MemberFits clickProperties m := by
  have htext : ∀ i : ControlIdentifier, 1 ≤ i.text.length ∧ i.text.length ≤ 128 :=
    fun i => length_of_ofClass i.valid
  simp only [clickPayload, List.forall_mem_cons, List.not_mem_nil, false_imp_iff, implies_true,
    and_true]
  refine ⟨.optional (s := clickIdSchema) (by simp [clickProperties]) ?_,
    .present (s := idSchema) (by simp [clickProperties]) ?_,
    .present (s := dateTimeSchema) (by simp [clickProperties]) ?_,
    .present (s := .enum ["available", "missing", "invalid"]) (by simp [clickProperties]) rfl,
    .optional (s := idSchema) (by simp [clickProperties]) ?_,
    .optional (s := idSchema) (by simp [clickProperties]) ?_,
    .optional (s := idSchema) (by simp [clickProperties]) ?_,
    .optional (s := boundedText 1 128) (by simp [clickProperties]) ?_,
    .optional (s := boundedText 1 256) (by simp [clickProperties]) ?_,
    .optional (s := boundedText 1 256) (by simp [clickProperties]) ?_,
    .present (s := .enum ["normal", "elevated", "saturated"]) (by simp [clickProperties]) ?_,
    .optional (s := .enum ["mobile_app_eligible", "bot", "other"]) (by simp [clickProperties]) ?_,
    .optional (s := deepLinkValueSchema) (by simp [clickProperties]) ?_,
    .optional (s := .enum ["carried", "omitted_length", "omitted_platform", "not_configured"])
      (by simp [clickProperties]) ?_,
    .when (s := .type .boolean) (by simp [clickProperties]) fun _ => rfl⟩
  · intro id hid
    exact clickIdSchema_admits.mpr (hfits.clickId id hid)
  · exact textSchema_admits.mpr c.trackingLinkId.valid
  · exact textSchema_admits.mpr (isDateTimeText_text hfits.clock)
  · intro i _
    exact textSchema_admits.mpr i.valid
  · intro i _
    exact textSchema_admits.mpr i.valid
  · intro i _
    exact textSchema_admits.mpr i.valid
  · intro i _
    exact boundedText_admits.mpr (htext i)
  · intro i _
    have hlength := htext i
    exact boundedText_admits.mpr (by omega)
  · intro ref href
    have hlength := length_of_ofClass (hfits.remoteClickRef ref href)
    exact boundedText_admits.mpr (by omega)
  · cases c.sourceRateClass <;> rfl
  · intro k _
    cases k <;> rfl
  · intro value hvalue
    exact deepLinkValueSchema_admits.mpr (hfits.deepLinkValue value hvalue)
  · intro status _
    cases status <;> rfl

/-- The names of the payload's members differ. -/
theorem clickPayload_nodup (c : RedirectClick) :
    ((namedMembers "click" (clickPayload c)).map Prod.fst).Nodup := by
  have hnames : (namedMembers "click" (clickPayload c)).map Prod.fst
      = ["click_id", "tracking_link_id", "redirector_click_at", "redirector_time_status",
        "campaign_id", "ad_group_id", "creative_id", "network", "site_id", "remote_click_ref",
        "source_rate_class", "client_class", "deep_link_value", "deferred_deep_link_status",
        "bot_prefetch", "event_name"] := rfl
  rw [hnames]
  decide

/-- **What the schema asks of a click whose texts fit.**  A campaign, and a
click id unless the click is a bot's prefetch. -/
theorem clickPayload_admits_iff {c : RedirectClick} (hfits : ClickFits c) :
    validateEventPayload clickSchema "click" (Json.object (clickPayload c)) = true ↔
      c.campaignId.isSome ∧
        (c.clickId.isSome ∨ (c.botPrefetch = true ∧ c.clientClass = some .bot)) := by
  have hnodup := clickPayload_nodup c
  rw [validateEventPayload_object, clickSchema, Schema.admits, Bool.and_eq_true,
    admits_closedObject hnodup (by decide), Schema.admits_ifThenElse]
  have hmembers : ∀ m ∈ namedMembers "click" (clickPayload c), MemberFits clickProperties m :=
    namedMembers_fit (by simp [clickProperties]) (clickPayload_fits hfits)
  have hclick : memberOf (namedMembers "click" (clickPayload c)) "click_id"
      = c.clickId.map .str := rfl
  have hcampaign : memberOf (namedMembers "click" (clickPayload c)) "campaign_id"
      = c.campaignId.map fun i => .str i.text := rfl
  have hprefetch : memberOf (namedMembers "click" (clickPayload c)) "bot_prefetch"
      = if c.botPrefetch then some (.bool true) else none := rfl
  have hclient : memberOf (namedMembers "click" (clickPayload c)) "client_class"
      = c.clientClass.map fun k => .str k.text := rfl
  have hpresent : (∀ name ∈ ["event_name", "tracking_link_id", "campaign_id",
      "redirector_time_status"], (memberOf (namedMembers "click" (clickPayload c)) name).isSome) ↔
        c.campaignId.isSome := by
    simp only [List.forall_mem_cons, List.not_mem_nil, false_imp_iff, implies_true, and_true,
      hcampaign, Option.isSome_map]
    exact ⟨fun h => h.2.2.1, fun h => ⟨rfl, rfl, h, rfl⟩⟩
  have hbot : (Schema.all [.property "bot_prefetch" (.flag true),
      .property "client_class" (.enum ["bot"]), .required "bot_prefetch",
      .required "client_class"]).admits (Json.object (namedMembers "click" (clickPayload c))) = true ↔
        c.botPrefetch = true ∧ c.clientClass = some .bot := by
    simp only [Schema.admits_all, List.forall_mem_cons, List.not_mem_nil, false_imp_iff,
      implies_true, and_true, admits_property hnodup, admits_required hnodup, hprefetch, hclient]
    cases c.botPrefetch with
    | false => simp
    | true =>
        cases c.clientClass with
        | none => simp
        | some k => cases k <;> simp [ClientClass.text, Schema.admits]
  rw [hpresent, ← Bool.not_eq_true, hbot, admits_required hnodup, hclick, Option.isSome_map]
  constructor
  · rintro ⟨⟨_, hhas⟩, _, hid⟩
    exact ⟨hhas, or_iff_not_imp_right.mpr hid⟩
  · rintro ⟨hhas, hid⟩
    exact ⟨⟨hmembers, hhas⟩, fun _ => rfl, or_iff_not_imp_right.mp hid⟩

end Payloads

section Requests

/-- A deferred referrer is built for a click id and for a deep-link path. -/
theorem buildDeferredReferrer_ok {clickId : String} {deepLinkValue : Option String}
    {deepLinkParams : List (String × String)} {maximum : Nat} {result : String × DeferredStatus}
    (h : buildDeferredReferrer clickId deepLinkValue deepLinkParams maximum = .ok result) :
    isClickIdText clickId.toList = true ∧ ∀ value, deepLinkValue = some value → value ≠ "" →
      value.length ≤ 256 ∧ isDeepLinkPath value.toList = true := by
  obtain ⟨minimal, hminimal, hrest⟩ := PartialList.bind_eq_ok.mp h
  refine ⟨?_, ?_⟩
  · obtain ⟨_, hcheck, _⟩ := PartialList.bind_eq_ok.mp hminimal
    exact demand_ok hcheck
  · intro value hvalue hnonempty
    rw [hvalue, Option.filter_some_pos (by simpa using hnonempty)] at hrest
    obtain ⟨dl, hdl, _⟩ := PartialList.bind_eq_ok.mp hrest
    exact (assertDeepLinkValue_ok hdl).2

/-- The click of a resolved redirect. -/
theorem resolveRedirect_fits {o : RedirectOptions} {click : RedirectClick}
    (hnow : o.now.isCalendar = true)
    (hremote : ∀ ref, o.remoteClickRef = some ref → ofClass isUrlChar 1 128 ref.toList = true)
    (h : resolveRedirect o = .ok click) :
    ClickFits click ∧ click.campaignId = o.link.campaignId ∧ click.clickId.isSome := by
  obtain ⟨⟨referrer, status⟩, hbuilt, hrest⟩ := PartialList.bind_eq_ok.mp h
  obtain ⟨_, _, hrest⟩ := PartialList.bind_eq_ok.mp hrest
  obtain ⟨_, _, hclick⟩ := PartialList.bind_eq_ok.mp hrest
  obtain ⟨hid, hvalue⟩ := buildDeferredReferrer_ok hbuilt
  have hclick := Except.ok.inj hclick
  rw [← hclick]
  refine ⟨⟨?_, hnow, hremote, ?_⟩, rfl, rfl⟩
  · intro id hsome
    rw [← Option.some.inj hsome]
    exact hid
  · intro value hsome
    obtain ⟨hsome', hnonempty⟩ := Option.filter_eq_some_iff.mp hsome
    exact hvalue value hsome (by simpa using hnonempty)

/-- The link that a request names. -/
def requestedLink (setup : RedirectSetup) (request : RedirectRequest) : Option TrackingLinkRow :=
  (matchRedirectPath request.pathname.toList).bind fun named => setup.link (String.ofList named.1)

/-- User agents are classified, and this one is no bot's. -/
def isClassifiedOther (setup : RedirectSetup) (request : RedirectRequest) : Prop :=
  setup.clientClassEnabled ≠ some false ∧ classifyClientClass (request.userAgent.getD "") ≠ .bot

/-- The record of a request is valid: its link belongs to a campaign, and a
prefetch does not come from a user agent that is classified as no bot. -/
def RequestKeepable (setup : RedirectSetup) (request : RedirectRequest) : Prop :=
  (∃ link, requestedLink setup request = some link ∧ link.campaignId.isSome) ∧
    ¬(isPrefetch request = true ∧ isClassifiedOther setup request)

/-- A client is taken for a bot exactly unless it is classified as another. -/
theorem getD_requestClientClass (setup : RedirectSetup) (request : RedirectRequest) :
    (requestClientClass setup request).getD .bot = .bot ↔ ¬isClassifiedOther setup request := by
  rw [requestClientClass, isClassifiedOther]
  by_cases hoff : setup.clientClassEnabled = some false
  · simp [hoff]
  · simp [hoff]

/-- What a request leaves behind for a link is the evidence of a prefetch, or a
click with an id. -/
theorem redirectEvidence_cases {setup : RedirectSetup} {request : RedirectRequest}
    {link : TrackingLinkRow} {direct : Option String} {click : RedirectClick}
    (hnow : setup.now.isCalendar = true)
    (hremote : ∀ ref, remoteClickRef setup request = some ref →
      ofClass isUrlChar 1 128 ref.toList = true)
    (h : redirectEvidence setup request link direct = some click) :
    ClickFits click ∧ click.campaignId = link.campaignId ∧
      ((isPrefetch request = true ∧ click.clickId = none ∧ click.botPrefetch = true ∧
          (click.clientClass = some .bot ↔ ¬isClassifiedOther setup request)) ∨
        (isPrefetch request = false ∧ click.clickId.isSome)) := by
  rw [redirectEvidence] at h
  by_cases hprefetch : isPrefetch request = true
  · rw [if_pos hprefetch] at h
    rw [← Option.some.inj h]
    refine ⟨⟨?_, hnow, hremote, ?_⟩, rfl, .inl ⟨hprefetch, rfl, rfl, ?_⟩⟩
    · intro id hid
      exact absurd hid (by simp [prefetchEvidence])
    · intro value hvalue
      exact absurd hvalue (by simp [prefetchEvidence])
    · rw [prefetchEvidence, ← getD_requestClientClass, Option.some_inj]
  · rw [if_neg hprefetch] at h
    obtain ⟨_, hresolved⟩ := Option.ite_none_left_eq_some.mp h
    obtain ⟨hfits, hcampaign, hid⟩ := resolveRedirect_fits hnow hremote (ok_of_toOption hresolved)
    exact ⟨hfits, hcampaign, .inr ⟨by simpa using hprefetch, hid⟩⟩

/-- A request that leaves something behind names a link, and a reference of
the form of the parameter. -/
theorem handleRedirect_ok {setup : RedirectSetup} {request : RedirectRequest}
    {click : RedirectClick} (h : handleRedirect setup request = some click) :
    ∃ link direct, requestedLink setup request = some link ∧
      (∀ ref, remoteClickRef setup request = some ref → ofClass isUrlChar 1 128 ref.toList = true) ∧
      redirectEvidence setup request link direct = some click := by
  rw [handleRedirect] at h
  obtain ⟨_, _, h⟩ := Option.bind_eq_some_iff.mp h
  obtain ⟨⟨slug, path⟩, hpath, h⟩ := Option.bind_eq_some_iff.mp h
  obtain ⟨_, _, h⟩ := Option.bind_eq_some_iff.mp h
  obtain ⟨link, hlink, h⟩ := Option.bind_eq_some_iff.mp h
  obtain ⟨_, _, h⟩ := Option.bind_eq_some_iff.mp h
  obtain ⟨direct, _, h⟩ := Option.bind_eq_some_iff.mp h
  obtain ⟨_, hremote, h⟩ := Option.bind_eq_some_iff.mp h
  refine ⟨link, direct, ?_, ?_, h⟩
  · rw [requestedLink, hpath, Option.bind_some, hlink]
  · exact (Option.all_eq_true _ _).mp ((Option.guard_eq_some' _).mp hremote)

/-- **When the record of a redirect is valid.**  A request that leaves a record
behind leaves one that passes the click schema exactly when its link belongs to
a campaign and it is not a prefetch of a user agent classified as no bot. -/
theorem clickIngestible_iff {setup : RedirectSetup} {request : RedirectRequest}
    {click : RedirectClick} (hnow : setup.now.isCalendar = true)
    (h : handleRedirect setup request = some click) :
    validateEventPayload clickSchema "click" (Json.object (clickPayload click)) = true ↔
      RequestKeepable setup request := by
  obtain ⟨link, direct, hlink, hremote, hevidence⟩ := handleRedirect_ok h
  obtain ⟨hfits, hcampaign, hkind⟩ := redirectEvidence_cases hnow hremote hevidence
  have hhas : (∃ l, requestedLink setup request = some l ∧ l.campaignId.isSome) ↔
      click.campaignId.isSome := by
    rw [hcampaign, hlink]
    constructor
    · intro ⟨l, hl, hsome⟩
      rw [Option.some.inj hl]
      exact hsome
    · intro hsome
      exact ⟨link, rfl, hsome⟩
  rw [clickPayload_admits_iff hfits, RequestKeepable, hhas]
  refine and_congr_right fun _ => ?_
  rcases hkind with ⟨hprefetch, hid, hflag, hclient⟩ | ⟨hprefetch, hid⟩
  · simp only [hid, hflag, hprefetch, hclient, Option.isSome_none, Bool.false_eq_true, false_or,
      true_and]
  · simp only [hid, hprefetch, Bool.false_eq_true, true_or, false_and, not_false_eq_true]

end Requests

section Runs

/-- A body that asks for a link to a shop, of a campaign or of none. -/
def shopBody (campaignId : Option String) : TrackingLinkBody where
  destinationKind := some .customHttps
  destinationUrl := some ⟨"https://shop.example/", "https:", "shop.example", "/",
    "https://shop.example", "", ""⟩
  playPackageName := ""
  network := none
  siteId := none
  campaignId := campaignId
  adGroupId := none
  creativeId := none
  deepLinkValue := none
  deepLinkParamNames := []
  deferredDeepLinkTtlSeconds := some 604800

/-- The tenant of the shop is named by the domain. -/
theorem shopTenant_valid : isIdText "tenant:shop".toList = true := by decide

/-- So is its app. -/
theorem shopApp_valid : isIdText "app:shop".toList = true := by decide

/-- A UUID of zeros. -/
def zeroUuid : Uuid := ⟨List.replicate 36 '0', by decide, by decide⟩

/-- The link that is created from a body. -/
def shopLink (campaignId : Option String) : Except String TrackingLinkRow :=
  createTrackingLink ⟨"tenant:shop", shopTenant_valid⟩ ⟨"app:shop", shopApp_valid⟩ ["https://shop.example"] none
    ⟨zeroUuid, "shop-summer-1"⟩ (shopBody campaignId)

/-- A redirector that serves the link. -/
def shopSetup (campaignId : Option String) : RedirectSetup where
  allowed := true
  sourceRateClass := none
  clientClassEnabled := none
  remoteClickParameter := none
  referrerMaximumEncodedCharacters := none
  now := ⟨2026, 5, 1, 12, 0, 0, 0⟩
  random := List.replicate 33 0
  link := fun slug => if slug = "shop-summer-1" then (shopLink campaignId).toOption else none

/-- A phone opens the link. -/
def shopRequest : RedirectRequest where
  method := "GET"
  pathname := "/r/shop-summer-1"
  query := []
  userAgent := some "Mozilla/5.0 (iPhone; CPU iPhone OS 18_0 like Mac OS X)"
  purpose := none
  secPurpose := none

/-- The link of the shop is served. -/
theorem shopSetup_served :
    (handleRedirect (shopSetup (some "campaign:summer")) shopRequest).isSome = true := by
  decide +kernel

/-- The click of a link with a campaign is valid. -/
theorem campaignClick_ingestible :
    validateEventPayload clickSchema "click" (Json.object (clickPayload
      ((handleRedirect (shopSetup (some "campaign:summer")) shopRequest).get shopSetup_served))) = true ↔
      RequestKeepable (shopSetup (some "campaign:summer")) shopRequest :=
  clickIngestible_iff (by decide) (Option.some_get shopSetup_served).symm

/-- The click of a link without a campaign is not: the link may be made without
one, and the schema of clicks requires it. -/
theorem campaignlessClick_not_ingestible :
    ∃ link click, shopLink none = .ok link ∧
      (shopSetup none).link "shop-summer-1" = some link ∧
      handleRedirect (shopSetup none) shopRequest = some click ∧
      validateEventPayload clickSchema "click" (Json.object (clickPayload click)) = false := by
  have hrun : (handleRedirect (shopSetup none) shopRequest).any (fun click =>
      !validateEventPayload clickSchema "click" (Json.object (clickPayload click))) = true := by
    decide +kernel
  have hlink : (shopLink none).toOption.isSome = true := by decide +kernel
  obtain ⟨link, hcreated⟩ := Option.isSome_iff_exists.mp hlink
  obtain ⟨click, hclick, hinvalid⟩ := (Option.any_eq_true _ _).mp hrun
  refine ⟨link, click, ok_of_toOption hcreated, ?_, hclick, by simpa using hinvalid⟩
  rw [← hcreated]
  rfl

end Runs

end OpenMasu
