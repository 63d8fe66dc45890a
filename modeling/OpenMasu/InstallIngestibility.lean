import OpenMasu.AndroidInstall
import OpenMasu.ClickIngestibility

/-!
# Which Android installs can be ingested

The install of a first start is a closed record of the referrer, the evidence
of Meta and the configuration.  It passes its schema unless the referrer is of
a third party, a text is out of bounds or an instant lies behind the year 9999.
What the redirector wrote into a referrer is read back from it.

* `DeviceInstant.isDateTimeText_text` — the instants that are date-times;
* `installPayload_admits_iff` — what the schema asks of an install;
* `deepLinkPayload_admits_iff` — what the schema asks of a deferred opening;
* `prepareMetaRecord_consistent` — the members of Meta go together;
* `readReferrer_keepable_iff` — when a referrer is kept;
* `firstStart_ingestible_iff` — when the events of a first start are valid.
-/

namespace OpenMasu

open JsonSchema (Schema closedObject memberOf MemberFits memberFits_some_iff obj_eq_object
  admits_property admits_required admits_closedObject)

section Instants

/-- The last second of the year 9999. -/
def lastFourDigitSecond : Int := 253402300799

/-- An instant up to the end of 9999 is written as a timestamp. -/
theorem DeviceInstant.text_timestamp {i : DeviceInstant} (h : i.seconds ≤ lastFourDigitSecond) :
    ∃ t : Timestamp, t.isCalendar = true ∧ i.text = t.text := by
  have hpositive := i.positive
  rw [lastFourDigitSecond] at h
  have hdays : 0 ≤ i.seconds / 86400 := by omega
  obtain ⟨hyear, hfour⟩ := year_civilFromDays hdays
  obtain ⟨hmonth, hmonth', hday, hday'⟩ := civilFromDays_calendar hdays
  have hlast : (civilFromDays (i.seconds / 86400)).1 ≤ 9999 := hfour.mpr (by omega)
  rw [DeviceInstant.text]
  rcases hdate : civilFromDays (i.seconds / 86400) with ⟨year, month, day⟩
  rw [hdate] at hyear hmonth hmonth' hday hday' hlast
  simp only at hyear hmonth hmonth' hday hday' hlast
  obtain ⟨clock, hclock⟩ : ∃ clock, clock = (i.seconds % 86400).toNat := ⟨_, rfl⟩
  have hclockBound : clock < 86400 := by omega
  have hmonthDays : daysInMonth year.toNat month ≤ 31 := by
    rw [daysInMonth]
    split
    · split <;> omega
    · split <;> omega
  refine ⟨⟨⟨year.toNat, by omega⟩, ⟨month, by omega⟩, ⟨day, by omega⟩, ⟨clock / 3600, by omega⟩,
    ⟨clock / 60 % 60, by omega⟩, ⟨clock % 60, by omega⟩, 0⟩, ?_, ?_⟩
  · simp only [Timestamp.isCalendar, Bool.and_eq_true, decide_eq_true_eq]
    refine ⟨⟨⟨⟨⟨⟨hmonth, hmonth'⟩, hday⟩, hday'⟩, ?_⟩, ?_⟩, ?_⟩
    · omega
    · omega
    · omega
  · have hyearChars : instantYear year = digits 4 year.toNat := by
      rw [instantYear, if_pos]
      simp [fourDigitYear, hyear, hlast]
    simp only [hyearChars, ← hclock]
    rfl

/-- A later instant is not even of the form of a timestamp. -/
theorem DeviceInstant.text_expanded {i : DeviceInstant} (h : lastFourDigitSecond < i.seconds) :
    fitsForm "0000-00-00T00:00:00.000Z".toList i.text.toList = false := by
  rw [lastFourDigitSecond] at h
  have hpositive : 0 ≤ i.seconds / 86400 := by
    have hseconds := i.positive
    omega
  obtain ⟨-, hfour⟩ := year_civilFromDays hpositive
  have hlast : ¬(civilFromDays (i.seconds / 86400)).1 ≤ 9999 := fun hle => by
    have hdays := hfour.mp hle
    omega
  rw [DeviceInstant.text]
  rcases hdate : civilFromDays (i.seconds / 86400) with ⟨year, month, day⟩
  rw [hdate] at hlast
  simp only at hlast
  have hyearChars : instantYear year = '+' :: (toString year.toNat).toList := by
    rw [instantYear, if_neg]
    simp [fourDigitYear, hlast]
  simp only [hyearChars, String.toList_ofList]
  rfl

/-- An instant is printed in the form of the schema exactly up to the year
9999. -/
theorem DeviceInstant.fitsForm_text {i : DeviceInstant} :
    fitsForm "0000-00-00T00:00:00.000Z".toList i.text.toList = true ↔
      i.seconds ≤ lastFourDigitSecond := by
  constructor
  · intro hfits
    by_contra hlate
    rw [text_expanded (by omega)] at hfits
    exact Bool.false_ne_true hfits
  · intro h
    obtain ⟨t, _, htext⟩ := text_timestamp h
    rw [htext, Timestamp.text]
    exact (congrArg _ String.toList_ofList).trans (fitsForm_clockChars _ _ _ _ _ _ _)

/-- **The instants that are date-times.**  Those up to the end of the year
9999; later ones are printed with a sign and six digits. -/
theorem DeviceInstant.isDateTimeText_text {i : DeviceInstant} :
    isDateTimeText i.text.toList = true ↔ i.seconds ≤ lastFourDigitSecond := by
  constructor
  · intro htext
    rw [← fitsForm_text]
    simp only [isDateTimeText, Bool.and_eq_true] at htext
    exact htext.1.1.1.1.1
  · intro h
    obtain ⟨t, hcalendar, htext⟩ := text_timestamp h
    rw [htext]
    exact OpenMasu.isDateTimeText_text hcalendar

end Instants

section Members

/-- What the schema asks of the members of an install, one by one. -/
structure InstallTextsFit (p : InstallPayload) : Prop where
  sdkVersion : 1 ≤ p.sdkVersion.length ∧ p.sdkVersion.length ≤ 128
  clickId : ∀ id, p.play.clickId = some id → isClickIdText id.toList = true
  clickDevice : ∀ i, p.play.referrerClickAtDevice = some i → i.seconds ≤ lastFourDigitSecond
  clickServer : ∀ i, p.play.referrerClickAtServer = some i → i.seconds ≤ lastFourDigitSecond
  installDevice : ∀ i, p.play.installBeginAtDevice = some i → i.seconds ≤ lastFourDigitSecond
  installServer : ∀ i, p.play.installBeginAtServer = some i → i.seconds ≤ lastFourDigitSecond
  context : ∀ c, p.metaReferrerContext = some c → metaReferrerContextSchema.admits (.obj c) = true

/-- The members of Meta go together. -/
structure MetaConsistent (p : InstallPayload) : Prop where
  decrypted : p.metaReferrerStatus = .decrypted → p.metaReferrerContext.isSome
  others : p.metaReferrerStatus ≠ .decrypted →
    p.metaReferrerContext = none ∧ p.isCt = none ∧ p.actualTimestamp = none

/-- The extensions of an install meet the schema of extensions. -/
theorem extensions_admits (e : InstallExtensions) :
    extensionsSchema.admits (Json.object e.members) = true := by
  rw [extensionsSchema, Schema.admits, Bool.and_eq_true]
  refine ⟨rfl, ?_⟩
  have hnames : ∀ m ∈ e.members, (!isReservedExtension m.1.toList) = true := by
    simp only [InstallExtensions.members, List.forall_mem_cons, List.not_mem_nil, false_imp_iff,
      implies_true, and_true]
    decide +kernel
  simp only [Json.object, Schema.admits, List.all_eq_true, List.mem_filterMap,
    Option.map_eq_some_iff]
  rintro m ⟨member, hmember, v, _, hv⟩
  rw [← hv]
  exact hnames member hmember

/-- The schema of times admits the instants up to the year 9999, as the form
does. -/
theorem dateTimeSchema_admits {i : DeviceInstant} :
    dateTimeSchema.admits (.str i.text) = true ↔ i.seconds ≤ lastFourDigitSecond := by
  rw [dateTimeSchema, textSchema_admits, DeviceInstant.isDateTimeText_text]

/-- **The members of an install, one by one.**  Each fits its schema exactly
where its own text does. -/
theorem installMembers_fit_iff {p : InstallPayload} (horigin : p.installOrigin = "play_first_launch") :
    (∀ m ∈ p.members, MemberFits installProperties m) ↔ InstallTextsFit p := by
  have hnodup : (installProperties.map Prod.fst).Nodup := by decide
  constructor
  · intro h
    have hinstant : ∀ name (i : Option DeviceInstant), (name, dateTimeSchema) ∈ installProperties →
        (name, i.map fun i => Json.str i.text) ∈ p.members →
          ∀ j, i = some j → j.seconds ≤ lastFourDigitSecond := by
      intro name i hmem hmember j hj
      exact dateTimeSchema_admits.mp ((h _ hmember).admits hnodup hmem (by rw [hj]; rfl))
    refine ⟨?_, ?_, ?_, ?_, ?_, ?_, ?_⟩
    · exact boundedText_admits.mp ((h ("sdk_version", some (.str p.sdkVersion))
        (by simp [InstallPayload.members])).admits (s := boundedText 1 128) hnodup
        (by simp [installProperties]) rfl)
    · intro id hid
      exact clickIdSchema_admits.mp ((h ("click_id", p.play.clickId.map .str)
        (by simp [InstallPayload.members])).admits hnodup
        (by simp [installProperties]) (by rw [hid]; rfl))
    · exact hinstant "referrer_click_at_device" _ (by simp [installProperties])
        (by simp [InstallPayload.members])
    · exact hinstant "referrer_click_at_server" _ (by simp [installProperties])
        (by simp [InstallPayload.members])
    · exact hinstant "install_begin_at_device" _ (by simp [installProperties])
        (by simp [InstallPayload.members])
    · intro i hi
      exact DeviceInstant.fitsForm_text.mp (textSchema_admits.mp
        ((h ("install_begin_at_server", p.play.installBeginAtServer.map fun i => .str i.text)
        (by simp [InstallPayload.members])).admits hnodup
        (by simp [installProperties]) (by rw [hi]; rfl)))
    · intro c hc
      exact (h ("meta_referrer_context", p.metaReferrerContext.map .obj)
        (by simp [InstallPayload.members])).admits hnodup
        (by simp [installProperties]) (by rw [hc]; rfl)
  · intro h
    simp only [InstallPayload.members, List.forall_mem_cons, List.not_mem_nil, false_imp_iff,
      implies_true, and_true]
    refine ⟨.present (s := .enum ["install"]) (by simp [installProperties]) rfl,
      .present (s := idSchema) (by simp [installProperties])
        (textSchema_admits.mpr p.installationId.valid),
      .present (s := .enum ["first_install", "reinstall", "redownload"])
        (by simp [installProperties]) rfl,
      .present (s := .enum ["play_first_launch", "ios_first_launch", "identifier_reset"])
        (by simp [installProperties]) ?_,
      .present (s := .enum ["available", "third_party", "none", "unsupported", "unavailable",
        "not_applicable"]) (by simp [installProperties]) ?_,
      .present (s := .enum ["ok", "service_unavailable", "feature_not_supported",
        "developer_error", "service_disconnected", "permission_error"])
        (by simp [installProperties]) ?_,
      .present (s := .enum ["available", "missing", "invalid"]) (by simp [installProperties]) ?_,
      .present (s := boundedText 1 128) (by simp [installProperties])
        (boundedText_admits.mpr h.sdkVersion),
      .present (s := .enum ["not_applicable", "absent", "delivered", "expired", "rejected"])
        (by simp [installProperties]) ?_,
      .optional (s := clickIdSchema) (by simp [installProperties])
        fun id hid => clickIdSchema_admits.mpr (h.clickId id hid),
      .optional (s := dateTimeSchema) (by simp [installProperties])
        fun i hi => dateTimeSchema_admits.mpr (h.clickDevice i hi),
      .optional (s := dateTimeSchema) (by simp [installProperties])
        fun i hi => dateTimeSchema_admits.mpr (h.clickServer i hi),
      .optional (s := dateTimeSchema) (by simp [installProperties])
        fun i hi => dateTimeSchema_admits.mpr (h.installDevice i hi),
      .optional (s := textSchema (fitsForm "0000-00-00T00:00:00.000Z".toList))
        (by simp [installProperties])
        fun i hi => textSchema_admits.mpr (DeviceInstant.fitsForm_text.mpr (h.installServer i hi)),
      .present (s := .enum ["provider_unavailable", "app_version_unsupported", "no_campaign_data",
        "decrypt_failed", "auth_failed", "decrypted"]) (by simp [installProperties]) ?_,
      .optional (s := .type .string) (by simp [installProperties]) fun _ _ => rfl,
      .optional (s := metaReferrerContextSchema) (by simp [installProperties]) h.context,
      .optional (s := .all [.type .integer, .minimum 0, .maximum 1]) (by simp [installProperties]) ?_,
      .optional (s := .all [.type .integer, .minimum 0]) (by simp [installProperties]) ?_,
      .present (s := extensionsSchema) (by simp [installProperties]) (extensions_admits _)⟩
    · rw [horigin]
      rfl
    · cases p.play.status <;> rfl
    · cases p.play.clientResponse <;> rfl
    · cases p.play.installBeginAtServer <;> rfl
    · cases p.play.deferredDeepLinkStatus with
      | none => rfl
      | some outcome => cases outcome <;> rfl
    · cases p.metaReferrerStatus <;> rfl
    · intro flag _
      cases flag <;> decide
    · intro n _
      simp [Schema.admits, JsonSchema.JsonType.isOf]

/-- The names of the payload's members differ. -/
theorem installMembers_nodup (p : InstallPayload) :
    ((namedMembers "install" p.members).map Prod.fst).Nodup := by
  have hnames : (namedMembers "install" p.members).map Prod.fst
      = ["installation_id", "install_type", "install_origin", "referrer_status",
        "referrer_client_response", "install_begin_at_server_status", "sdk_version",
        "deferred_deep_link_status", "click_id", "referrer_click_at_device",
        "referrer_click_at_server", "install_begin_at_device", "install_begin_at_server",
        "meta_referrer_status", "protected_referrer_evidence_ref", "meta_referrer_context", "is_ct",
        "actual_timestamp", "extensions", "event_name"] := rfl
  rw [hnames]
  decide

/-- **What the schema asks of an install.**  Its texts fit, and its referrer is
of no third party, which would have to be classified. -/
theorem installPayload_admits_iff {p : InstallPayload}
    (horigin : p.installOrigin = "play_first_launch") (hmeta : MetaConsistent p) :
    validateEventPayload installSchema "install" (Json.object p.members) = true ↔
      p.play.status ≠ .thirdParty ∧ InstallTextsFit p := by
  have hnodup := installMembers_nodup p
  have hdeclared : (installProperties.map Prod.fst).Nodup := by decide
  have hmembers : (∀ m ∈ namedMembers "install" p.members, MemberFits installProperties m) ↔
      InstallTextsFit p := by
    rw [← installMembers_fit_iff horigin]
    exact namedMembers_fit_iff (by simp [installProperties]) (by simp [InstallPayload.members])
  have htype : memberOf (namedMembers "install" p.members) "install_type"
      = some (.str "first_install") := rfl
  have hprior : memberOf (namedMembers "install" p.members) "prior_installation_id" = none := rfl
  have hclick : memberOf (namedMembers "install" p.members) "referrer_click_at_server_status"
      = none := rfl
  have hbegin : memberOf (namedMembers "install" p.members) "install_begin_at_server_status"
      = some (.str (if p.play.installBeginAtServer.isNone then "missing" else "available")) := rfl
  have hserver : memberOf (namedMembers "install" p.members) "install_begin_at_server"
      = p.play.installBeginAtServer.map fun i => .str i.text := rfl
  have hstatus : memberOf (namedMembers "install" p.members) "meta_referrer_status"
      = some (.str p.metaReferrerStatus.text) := rfl
  have hcontext : memberOf (namedMembers "install" p.members) "meta_referrer_context"
      = p.metaReferrerContext.map .obj := rfl
  have hisCt : memberOf (namedMembers "install" p.members) "is_ct" = p.isCt.map flagNumber := rfl
  have hactual : memberOf (namedMembers "install" p.members) "actual_timestamp"
      = p.actualTimestamp.map fun n : Nat => .num (n : Rat) := rfl
  have hreferrer : memberOf (namedMembers "install" p.members) "referrer_status"
      = some (.str p.play.status.text) := rfl
  have hthird : memberOf (namedMembers "install" p.members) "third_party_referrer_classification"
      = none := rfl
  rw [validateEventPayload_object, installSchema, Schema.admits_all]
  simp only [List.forall_mem_cons, List.not_mem_nil, false_imp_iff, implies_true, and_true,
    admits_closedObject hnodup hdeclared, hmembers, Schema.admits_ifThen, Schema.admits_ifThenElse,
    memberIs_admits hnodup, memberAmong_admits hnodup, htype, hclick, hbegin, hstatus, hreferrer]
  constructor
  · rintro ⟨⟨hfit, _⟩, _, _, _, _, _, _, hclassified, _⟩
    refine ⟨fun hstatus => ?_, hfit⟩
    have hboth := hclassified (by rw [hstatus]; rfl)
    rw [Schema.admits, Bool.and_eq_true, admits_required hnodup, hthird] at hboth
    exact Bool.false_ne_true hboth.1
  · rintro ⟨hstatus, hfit⟩
    refine ⟨⟨hfit, rfl, rfl, rfl, rfl⟩, ?_, fun _ => ?_, ?_, ?_, ?_, ?_, ?_, fun _ => ?_⟩
    · simp
    · rw [Schema.admits, admits_required hnodup, hprior]
      rfl
    · exact fun h => by cases h
    · intro havailable
      rw [Schema.admits, Bool.and_eq_true, admits_property hnodup, admits_required hnodup, hserver]
      cases hbegun : p.play.installBeginAtServer with
      | none =>
          rw [hbegun] at havailable
          simp at havailable
      | some i => exact ⟨dateTimeSchema_admits.mpr (hfit.installServer i hbegun), rfl⟩
    · intro hdecrypted
      rw [admits_required hnodup, hcontext, Option.isSome_map]
      refine hmeta.decrypted ?_
      cases hs : p.metaReferrerStatus with
      | decrypted => rfl
      | _ => simp [hs, MetaReferrerStatus.text] at hdecrypted
    · rintro ⟨text, htext, hs⟩
      have hne : p.metaReferrerStatus ≠ .decrypted := by
        intro h
        rw [h] at hs
        simp [MetaReferrerStatus.text] at hs
        rw [← hs] at htext
        exact absurd htext (by decide)
      obtain ⟨hnoContext, hnoFlag, hnoTime⟩ := hmeta.others hne
      rw [Schema.admits, Bool.not_eq_true', ← Bool.not_eq_true, Schema.admits_anyOf]
      simp only [List.mem_cons, List.not_mem_nil, or_false, exists_eq_or_imp, exists_eq_left,
        admits_required hnodup, hcontext, hisCt, hactual, hnoContext, hnoFlag, hnoTime]
      simp
    · intro hthirdParty
      exfalso
      cases hs : p.play.status with
      | thirdParty => exact hstatus hs
      | _ => simp [hs, ReferrerStatus.text] at hthirdParty
    · rw [Schema.admits, admits_required hnodup, hthird]
      rfl

end Members

section Meta

def isFlag : Json → Bool
  | .bool _ => true
  | _ => false

/-- A text that is not empty and not too long. -/
def isTextWithin (most : Nat) : Json → Bool
  | .str s => 1 ≤ s.length && s.length ≤ most
  | _ => false

/-- A member of a context is the one flag, or a text within its bounds. -/
def contextMemberFits (m : String × Json) : Bool :=
  if m.1 = "is_instagram" then isFlag m.2
  else isTextWithin (if m.1 = "publisher_platform" then 64 else 128) m.2

/-- The context of the plaintext fits, or there is none. -/
def PlaintextKeepable (plaintext : ParsedObject) : Prop :=
  (∃ m ∈ contextMembers plaintext, isTextOrFlag m.2 = false) ∨
    ∀ m ∈ contextMembers plaintext, contextMemberFits m = true

/-- The schema of a bounded text is the check of the device. -/
theorem boundedText_eq (most : Nat) (v : Json) :
    (boundedText 1 most).admits v = isTextWithin most v := by
  cases v <;> simp [boundedText, Schema.all, Schema.admits, isTextWithin, JsonSchema.JsonType.isOf]

/-- The schema of a flag is the check of the device. -/
theorem flag_eq (v : Json) : (Schema.type .boolean).admits v = isFlag v := by
  cases v <;> rfl

/-- A member of a context fits its schema. -/
theorem memberFits_context {m : String × Json} (h : m.1 ∈ metaFields) :
    MemberFits metaContextProperties (m.1, some m.2) ↔ contextMemberFits m = true := by
  have hdeclared : (metaContextProperties.map Prod.fst).Nodup := by decide
  rw [contextMemberFits]
  by_cases hflag : m.1 = "is_instagram"
  · rw [if_pos hflag, hflag, memberFits_some_iff (s := .type .boolean) hdeclared
      (by simp [metaContextProperties]), flag_eq]
  · rw [if_neg hflag]
    by_cases hplatform : m.1 = "publisher_platform"
    · rw [if_pos hplatform, hplatform, memberFits_some_iff (s := boundedText 1 64) hdeclared
        (by simp [metaContextProperties]), boundedText_eq]
    · have hmem : (m.1, boundedText 1 128) ∈ metaContextProperties := by
        simp only [metaFields, List.mem_cons, List.not_mem_nil, or_false] at h
        rcases h with h | h | h | h | h | h | h | h | h
        all_goals first
          | exact absurd h hflag
          | exact absurd h hplatform
          | simp [h, metaContextProperties]
      rw [if_neg hplatform, memberFits_some_iff hdeclared hmem, boundedText_eq]

/-- The context with its model, as the schema sees it. -/
theorem metaContext_admits {model : String} (hmodel : model = "last_click" ∨ model = "view_through")
    (plaintext : ParsedObject) :
    metaReferrerContextSchema.admits
        (.obj (("attribution_model", .str model) :: contextMembers plaintext)) = true ↔
      ∀ m ∈ contextMembers plaintext, contextMemberFits m = true := by
  have hfields : ∀ m ∈ contextMembers plaintext, m.1 ∈ metaFields := by
    intro m hm
    simpa using (List.mem_filter.mp hm).2
  have hnames : ((("attribution_model", Json.str model) :: contextMembers plaintext).map
      Prod.fst).Nodup := by
    rw [List.map_cons, List.nodup_cons]
    refine ⟨?_, (List.filter_sublist.map Prod.fst).nodup plaintext.nodup⟩
    intro hmem
    obtain ⟨m, hm, hname⟩ := List.mem_map.mp hmem
    have hmodelField : "attribution_model" ∉ metaFields := by decide
    have hfield := hfields m hm
    rw [hname] at hfield
    exact hmodelField hfield
  have hdeclared : (metaContextProperties.map Prod.fst).Nodup := by decide
  rw [obj_eq_object, metaReferrerContextSchema,
    admits_closedObject (by rw [List.map_map]; exact hnames) hdeclared, List.forall_mem_map,
    List.forall_mem_cons]
  constructor
  · intro ⟨⟨_, hrest⟩, _⟩ m hm
    exact (memberFits_context (hfields m hm)).mp (hrest m hm)
  · intro hfit
    refine ⟨⟨?_, fun m hm => (memberFits_context (hfields m hm)).mpr (hfit m hm)⟩, ?_⟩
    · refine .present (s := .enum ["last_click", "view_through"]) (by simp [metaContextProperties]) ?_
      rcases hmodel with h | h
      · rw [h]
        rfl
      · rw [h]
        rfl
    · intro name hname
      rw [List.mem_singleton.mp hname]
      rfl

/-- A plaintext is kept when the context it parses to fits. -/
theorem plaintextKeepable_iff {model : String}
    (hmodel : model = "last_click" ∨ model = "view_through") {plaintext : ParsedObject} :
    PlaintextKeepable plaintext ↔ ∀ c, parsePlaintext plaintext = some c →
      metaReferrerContextSchema.admits (.obj (("attribution_model", .str model) :: c)) = true := by
  rw [PlaintextKeepable, parsePlaintext]
  by_cases htexts : (contextMembers plaintext).all (fun m => isTextOrFlag m.2) = true
  · have hnone : ¬∃ m ∈ contextMembers plaintext, isTextOrFlag m.2 = false := by
      intro ⟨m, hm, hbad⟩
      rw [List.all_eq_true.mp htexts m hm] at hbad
      exact Bool.true_eq_false.mp hbad
    by_cases hempty : contextMembers plaintext = []
    · simp [hempty]
    · rw [if_pos ⟨htexts, hempty⟩]
      simp only [Option.some.injEq, forall_eq', metaContext_admits hmodel]
      exact or_iff_right hnone
  · rw [if_neg (fun h => htexts h.1)]
    have hbad : ∃ m ∈ contextMembers plaintext, isTextOrFlag m.2 = false := by
      simpa [List.all_eq_true] using htexts
    simp [hbad]

variable {o : String → MetaUnsealed} {b : String} {p : InstallPayload}

/-- The preparation leaves the members of the device alone. -/
theorem prepareMetaRecord_keeps :
    (prepareMetaRecord o b p).play = p.play ∧
      (prepareMetaRecord o b p).sdkVersion = p.sdkVersion ∧
      (prepareMetaRecord o b p).installOrigin = p.installOrigin := by
  rw [prepareMetaRecord]
  split
  · exact ⟨rfl, rfl, rfl⟩
  · split
    · exact ⟨rfl, rfl, rfl⟩
    · exact ⟨rfl, rfl, rfl⟩
    · exact ⟨rfl, rfl, rfl⟩
    · split
      · exact ⟨rfl, rfl, rfl⟩
      · exact ⟨rfl, rfl, rfl⟩

/-- **The members of Meta go together**, when the device left them out: what
the server adds it adds with its status. -/
theorem prepareMetaRecord_consistent (hcontext : p.metaReferrerContext = none)
    (hflag : p.isCt = none) (htime : p.actualTimestamp = none)
    (hstatus : p.metaReferrerStatus ≠ .decrypted) :
    MetaConsistent (prepareMetaRecord o b p) := by
  rw [prepareMetaRecord]
  split
  · exact ⟨fun h => absurd h hstatus, fun _ => ⟨hcontext, hflag, htime⟩⟩
  · split
    · exact ⟨fun h => (by cases h), fun _ => ⟨hcontext, hflag, htime⟩⟩
    · exact ⟨fun h => (by cases h), fun _ => ⟨hcontext, hflag, htime⟩⟩
    · exact ⟨fun h => (by cases h), fun _ => ⟨hcontext, hflag, htime⟩⟩
    · split
      · exact ⟨fun h => (by cases h), fun _ => ⟨hcontext, hflag, htime⟩⟩
      · exact ⟨fun _ => rfl, fun h => absurd rfl h⟩

/-- The context of a prepared install fits when the plaintext does. -/
theorem prepareMetaRecord_context (hcontext : p.metaReferrerContext = none) :
    (∀ c, (prepareMetaRecord o b p).metaReferrerContext = some c →
        metaReferrerContextSchema.admits (.obj c) = true) ↔
      ∀ raw keyId plaintext, p.extensions.metaInstallReferrer = some raw →
        o raw = .opened keyId (some plaintext) → PlaintextKeepable plaintext := by
  rw [prepareMetaRecord]
  split
  next hraw =>
    simp [hcontext, hraw]
  next raw hraw =>
    have hmodel : (if p.extensions.metaIsCt = some true then "last_click" else "view_through")
        = "last_click" ∨ (if p.extensions.metaIsCt = some true then "last_click" else "view_through")
          = "view_through" := by
      split
      · exact .inl rfl
      · exact .inr rfl
    have hsame : (∀ raw' keyId plaintext, p.extensions.metaInstallReferrer = some raw' →
        o raw' = .opened keyId (some plaintext) → PlaintextKeepable plaintext) ↔
          ∀ keyId plaintext, o raw = .opened keyId (some plaintext) →
            PlaintextKeepable plaintext := by
      refine ⟨fun h keyId plaintext => h raw keyId plaintext hraw, fun h raw' keyId plaintext h' => ?_⟩
      rw [← Option.some.inj (hraw.symm.trans h')]
      exact h keyId plaintext
    rw [hsame]
    cases hopen : o raw with
    | absent => simp [hcontext]
    | malformed => simp [hcontext]
    | authFailed => simp [hcontext]
    | opened keyId plaintext =>
        cases plaintext with
        | none => simp [hcontext]
        | some plaintext =>
            have hopened : (∀ keyId' plaintext', MetaUnsealed.opened keyId (some plaintext)
                = .opened keyId' (some plaintext') → PlaintextKeepable plaintext') ↔
                  PlaintextKeepable plaintext := by
              refine ⟨fun h => h keyId plaintext rfl, fun h keyId' plaintext' h' => ?_⟩
              rw [← Option.some.inj (MetaUnsealed.opened.inj h').2]
              exact h
            rw [hopened, plaintextKeepable_iff hmodel]
            cases hparsed : parsePlaintext plaintext with
            | none => simp [hcontext, hparsed]
            | some context => simp [hparsed]

end Meta

section DeepLinks

/-- A parameter of a deep link: its name and its value. -/
def isDeepLinkParameter (p : String × String) : Bool :=
  isParameterName p.1.toList && ofClass isUrlChar 1 64 p.2.toList

/-- The deep link has the form that the reader gives it. -/
structure DeepLinkFits (link : OpenMasuDeepLink) : Prop where
  value : isDeepLinkValue link.value = true
  count : link.parameters.length ≤ 10
  parameters : ∀ p ∈ link.parameters, isDeepLinkParameter p = true

/-- A field that is a parameter is the mark and the name of one. -/
theorem isParameterField_iff {field : String × String} :
    isParameterField field = true ↔
      ∃ p, isDeepLinkParameter p = true ∧ field = ("dlp_" ++ p.1, p.2) := by
  obtain ⟨name, value⟩ := field
  rw [isParameterField, Bool.and_eq_true]
  constructor
  · intro ⟨hname, hvalue⟩
    rw [parameterName] at hname
    split at hname
    next rest htext =>
      have hrest : isParameterName rest = true := by
        by_contra hnot
        rw [if_neg hnot] at hname
        exact Bool.false_ne_true hname
      refine ⟨(String.ofList rest, value), ?_, Prod.ext ?_ rfl⟩
      · rw [isDeepLinkParameter, Bool.and_eq_true, String.toList_ofList]
        exact ⟨hrest, hvalue⟩
      · rw [← String.toList_inj, String.toList_append, htext]
        simp
    next => exact absurd hname Bool.false_ne_true
  · intro ⟨p, hp, hfield⟩
    obtain ⟨rfl, rfl⟩ := Prod.mk.inj hfield
    rw [isDeepLinkParameter, Bool.and_eq_true] at hp
    refine ⟨?_, hp.2⟩
    have htext : ("dlp_" ++ p.1).toList = 'd' :: 'l' :: 'p' :: '_' :: p.1.toList := by
      rw [String.toList_append]
      rfl
    rw [parameterName, htext]
    simp only [hp.1, if_true, Option.isSome_some]

/-- The text behind the mark of a field. -/
theorem unmarked_field (p : String × String) :
    (String.ofList (("dlp_" ++ p.1).toList.drop 4), p.2) = p := by
  have htext : ("dlp_" ++ p.1).toList = 'd' :: 'l' :: 'p' :: '_' :: p.1.toList := by
    rw [String.toList_append]
    rfl
  rw [htext]
  exact Prod.ext String.ofList_toList rfl

/-- The parameters that are read: ten at most, and all of them parameters. -/
theorem deepLinkParameters_fit (fields : List (String × String)) :
    (deepLinkParameters fields).length ≤ 10 ∧
      ∀ p ∈ deepLinkParameters fields, isDeepLinkParameter p = true := by
  rw [deepLinkParameters]
  constructor
  · rw [List.length_map, List.length_take]
    exact Nat.min_le_left _ _
  · intro p hp
    obtain ⟨field, hfield, rfl⟩ := List.mem_map.mp hp
    have hsorted := List.mem_of_mem_take hfield
    obtain ⟨q, hq, rfl⟩ := isParameterField_iff.mp
      (List.mem_filter.mp ((KeyedSort.mem_sortOn _).mp hsorted)).2
    rw [unmarked_field]
    exact hq

/-- A link that fits is refused for its click id alone. -/
theorem deepLinkMembers_fit_iff {installationId : ControlIdentifier} {link : OpenMasuDeepLink}
    (hfits : DeepLinkFits link) :
    (∀ m ∈ deepLinkPayload installationId link, MemberFits deepLinkOpenProperties m) ↔
      ∀ id, link.clickId = some id → isClickIdText id.toList = true := by
  have hdeclared : (deepLinkOpenProperties.map Prod.fst).Nodup := by decide
  constructor
  · intro h id hid
    exact clickIdSchema_admits.mp ((h ("click_id", link.clickId.map .str)
      (by simp [deepLinkPayload])).admits hdeclared (by simp [deepLinkOpenProperties])
      (by rw [hid]; rfl))
  · intro h
    simp only [deepLinkPayload, List.forall_mem_cons, List.not_mem_nil, false_imp_iff,
      implies_true, and_true]
    refine ⟨.present (s := .enum ["deep_link_open"]) (by simp [deepLinkOpenProperties]) rfl,
      .present (s := idSchema) (by simp [deepLinkOpenProperties])
        (textSchema_admits.mpr installationId.valid),
      .present (s := .enum ["android_app_link", "ios_universal_link", "custom_scheme",
        "android_deferred_referrer"]) (by simp [deepLinkOpenProperties]) rfl,
      .present (s := .enum ["delivered", "absent", "expired", "rejected"])
        (by simp [deepLinkOpenProperties]) rfl,
      .optional (s := clickIdSchema) (by simp [deepLinkOpenProperties])
        fun id hid => clickIdSchema_admits.mpr (h id hid),
      .present (s := deepLinkValueSchema) (by simp [deepLinkOpenProperties])
        (deepLinkValueSchema_admits.mpr ?_),
      .present (s := .all [.type .object, .maxProperties 10, .propertyNames isParameterName,
        .eachProperty (.anyOf [.both (.type .string) (.maxLength 256), .type .number,
          .type .boolean, .type .null])]) (by simp [deepLinkOpenProperties]) ?_⟩
    · have hvalue := hfits.value
      simp only [isDeepLinkValue, Bool.and_eq_true, decide_eq_true_eq] at hvalue
      exact hvalue.1
    · have hlength : ∀ p ∈ link.parameters, p.2.length ≤ 256 := by
        intro p hp
        have hparameter := hfits.parameters p hp
        rw [isDeepLinkParameter, Bool.and_eq_true] at hparameter
        have hbounds := length_of_ofClass hparameter.2
        omega
      have hname : ∀ p ∈ link.parameters, isParameterName p.1.toList = true := by
        intro p hp
        have hparameter := hfits.parameters p hp
        rw [isDeepLinkParameter, Bool.and_eq_true] at hparameter
        exact hparameter.1
      have hcount := hfits.count
      simp only [Schema.admits_all, List.forall_mem_cons, List.not_mem_nil, false_imp_iff,
        implies_true, and_true, Schema.admits, List.length_map, decide_eq_true_eq, List.all_map,
        List.all_eq_true, Function.comp]
      refine ⟨rfl, hcount, hname, fun p hp => ?_⟩
      simp [Schema.anyOf, Schema.admits, JsonSchema.JsonType.isOf, hlength p hp]

/-- **What the schema asks of a deferred opening**: the click id, which a link
may lack. -/
theorem deepLinkPayload_admits_iff {installationId : ControlIdentifier} {link : OpenMasuDeepLink}
    (hfits : DeepLinkFits link) :
    validateEventPayload deepLinkOpenSchema "deep_link_open"
        (Json.object (deepLinkPayload installationId link)) = true ↔
      ∃ id, link.clickId = some id ∧ isClickIdText id.toList = true := by
  have hnodup : ((namedMembers "deep_link_open" (deepLinkPayload installationId link)).map
      Prod.fst).Nodup := by
    have hnames : (namedMembers "deep_link_open" (deepLinkPayload installationId link)).map Prod.fst
        = ["installation_id", "open_source", "destination_status", "click_id", "deep_link_value",
          "deep_link_params", "event_name"] := rfl
    rw [hnames]
    decide
  have hdeclared : (deepLinkOpenProperties.map Prod.fst).Nodup := by decide
  have hmembers : (∀ m ∈ namedMembers "deep_link_open" (deepLinkPayload installationId link),
      MemberFits deepLinkOpenProperties m) ↔
        ∀ id, link.clickId = some id → isClickIdText id.toList = true := by
    rw [← deepLinkMembers_fit_iff hfits]
    exact namedMembers_fit_iff (by simp [deepLinkOpenProperties]) (by simp [deepLinkPayload])
  have hsource : memberOf (namedMembers "deep_link_open" (deepLinkPayload installationId link))
      "open_source" = some (.str "android_deferred_referrer") := rfl
  have hclick : memberOf (namedMembers "deep_link_open" (deepLinkPayload installationId link))
      "click_id" = link.clickId.map .str := rfl
  have hslug : memberOf (namedMembers "deep_link_open" (deepLinkPayload installationId link))
      "link_slug" = none := rfl
  rw [validateEventPayload_object, deepLinkOpenSchema, Schema.admits, Bool.and_eq_true,
    admits_closedObject hnodup hdeclared, hmembers, Schema.admits_ifThenElse, ← Bool.not_eq_true,
    memberIs_admits hnodup, hsource]
  simp only [List.forall_mem_cons, List.not_mem_nil, false_imp_iff, implies_true, and_true,
    not_true_eq_false, true_imp_iff, Schema.admits, Bool.and_eq_true, admits_required hnodup,
    hclick, hslug]
  cases link.clickId with
  | none => simp
  | some id =>
      simp only [Option.some.injEq, forall_eq', exists_eq_left', Option.map_some,
        Option.isSome_some, Option.isSome_none, Bool.not_false, and_true]
      exact ⟨fun h => h.1, fun h => ⟨h, rfl, rfl, rfl, rfl⟩⟩

end DeepLinks

section Starts

/-- The evidence of a referrer can be kept. -/
structure PlayKeepable (e : PlayReferrerEvidence) : Prop where
  status : e.status ≠ .thirdParty
  clickId : ∀ id, e.clickId = some id → isClickIdText id.toList = true
  clickDevice : ∀ i, e.referrerClickAtDevice = some i → i.seconds ≤ lastFourDigitSecond
  clickServer : ∀ i, e.referrerClickAtServer = some i → i.seconds ≤ lastFourDigitSecond
  installDevice : ∀ i, e.installBeginAtDevice = some i → i.seconds ≤ lastFourDigitSecond
  installServer : ∀ i, e.installBeginAtServer = some i → i.seconds ≤ lastFourDigitSecond

/-- A field of the referrer. -/
def referrerField (D : FormEncoding.Decoder) (d : ReferrerDetails) (name : String) : Option String :=
  (referrerFields D d.installReferrer).bind fun fields => fields.get name

/-- The details of a referrer can be kept: the referrer is blank or carries a
click id of the right form, and no instant lies behind the year 9999. -/
structure DetailsKeepable (D : FormEncoding.Decoder) (d : ReferrerDetails) : Prop where
  named : isBlank d.installReferrer = true ∨ (referrerField D d "cid").isSome
  clickId : ∀ id, referrerField D d "cid" = some id → isClickIdText id.toList = true
  clickDevice : d.referrerClickTimestampSeconds ≤ lastFourDigitSecond
  clickServer : d.referrerClickTimestampServerSeconds ≤ lastFourDigitSecond
  installDevice : d.installBeginTimestampSeconds ≤ lastFourDigitSecond
  installServer : d.installBeginTimestampServerSeconds ≤ lastFourDigitSecond

/-- The events of a first start can be kept. -/
structure StartKeepable (s : FirstStart) : Prop where
  sdkVersion : 1 ≤ s.sdkVersion.length ∧ s.sdkVersion.length ≤ 128
  details : ∀ d, s.response = .ok (some d) → (referrerDetails s.decoder d).isSome →
    DetailsKeepable s.decoder d
  plaintext : ∀ raw keyId plaintext, s.metaEvidence.installReferrer = some raw →
    s.openMeta raw = .opened keyId (some plaintext) → PlaintextKeepable plaintext

/-- The events of a first start pass their schemas. -/
structure StartIngestible (s : FirstStart) : Prop where
  install : validateEventPayload installSchema "install" (Json.object s.preparedInstall.members) = true
  deferred : ∀ link, s.deferredLink = some link →
    validateEventPayload deepLinkOpenSchema "deep_link_open"
      (Json.object (deepLinkPayload s.installationId link)) = true

/-- An instant read from seconds is printable exactly up to the same second. -/
theorem epochSeconds_le {value : Int} {instant : Option DeviceInstant}
    (h : epochSeconds value = some instant) :
    (∀ i, instant = some i → i.seconds ≤ lastFourDigitSecond) ↔ value ≤ lastFourDigitSecond := by
  rw [epochSeconds] at h
  split at h
  next hpositive =>
    rw [← Option.some.inj h]
    refine ⟨fun _ => ?_, fun _ i hi => nomatch hi⟩
    rw [lastFourDigitSecond]
    omega
  next =>
    split at h
    next =>
      rw [← Option.some.inj h]
      exact ⟨fun hall => hall _ rfl, fun hle i hi => by rw [← Option.some.inj hi]; exact hle⟩
    next => exact absurd h (by simp)

/-- Details that are read are those of their fields and instants. -/
theorem referrerDetails_eq_some {D : FormEncoding.Decoder} {d : ReferrerDetails}
    {e : PlayReferrerEvidence} (h : referrerDetails D d = some e) :
    ∃ fields clickDevice clickServer installDevice installServer,
      referrerFields D d.installReferrer = some fields ∧
      epochSeconds d.referrerClickTimestampSeconds = some clickDevice ∧
      epochSeconds d.referrerClickTimestampServerSeconds = some clickServer ∧
      epochSeconds d.installBeginTimestampSeconds = some installDevice ∧
      epochSeconds d.installBeginTimestampServerSeconds = some installServer ∧
      e = referrerEvidence d fields clickDevice clickServer installDevice installServer := by
  rw [referrerDetails] at h
  obtain ⟨fields, hfields, h⟩ := Option.bind_eq_some_iff.mp h
  obtain ⟨clickDevice, hclickDevice, h⟩ := Option.bind_eq_some_iff.mp h
  obtain ⟨clickServer, hclickServer, h⟩ := Option.bind_eq_some_iff.mp h
  obtain ⟨installDevice, hinstallDevice, h⟩ := Option.bind_eq_some_iff.mp h
  obtain ⟨installServer, hinstallServer, h⟩ := Option.bind_eq_some_iff.mp h
  exact ⟨fields, clickDevice, clickServer, installDevice, installServer, hfields, hclickDevice,
    hclickServer, hinstallDevice, hinstallServer, (Option.some.inj h).symm⟩

/-- The details can be kept when their evidence can. -/
theorem details_keepable_iff {D : FormEncoding.Decoder} {d : ReferrerDetails}
    {e : PlayReferrerEvidence} (h : referrerDetails D d = some e) :
    PlayKeepable e ↔ DetailsKeepable D d := by
  obtain ⟨fields, clickDevice, clickServer, installDevice, installServer, hfields, hclickDevice,
    hclickServer, hinstallDevice, hinstallServer, rfl⟩ := referrerDetails_eq_some h
  have hfield : referrerField D d "cid" = fields.get "cid" := by
    rw [referrerField, hfields, Option.bind_some]
  have hstatus : (referrerEvidence d fields clickDevice clickServer installDevice
      installServer).status ≠ .thirdParty ↔
        (isBlank d.installReferrer = true ∨ (referrerField D d "cid").isSome) := by
    rw [hfield, referrerEvidence]
    cases isBlank d.installReferrer <;> cases fields.get "cid" <;> simp
  constructor
  · intro hkeep
    refine ⟨hstatus.mp hkeep.status, ?_, (epochSeconds_le hclickDevice).mp hkeep.clickDevice,
      (epochSeconds_le hclickServer).mp hkeep.clickServer,
      (epochSeconds_le hinstallDevice).mp hkeep.installDevice,
      (epochSeconds_le hinstallServer).mp hkeep.installServer⟩
    rw [hfield]
    exact hkeep.clickId
  · intro hkeep
    refine ⟨hstatus.mpr hkeep.named, ?_, (epochSeconds_le hclickDevice).mpr hkeep.clickDevice,
      (epochSeconds_le hclickServer).mpr hkeep.clickServer,
      (epochSeconds_le hinstallDevice).mpr hkeep.installDevice,
      (epochSeconds_le hinstallServer).mpr hkeep.installServer⟩
    intro id hid
    exact hkeep.clickId id (hfield.trans hid)

/-- Evidence without details can be kept, unless its status asks for them. -/
theorem withoutDetails_keepable {status : ReferrerStatus} (h : status ≠ .thirdParty)
    (response : ClientResponse) (shouldRetry : Bool) :
    PlayKeepable (withoutDetails status response shouldRetry) where
  status := h
  clickId := fun _ h => nomatch h
  clickDevice := fun _ h => nomatch h
  clickServer := fun _ h => nomatch h
  installDevice := fun _ h => nomatch h
  installServer := fun _ h => nomatch h

/-- What is read can be kept unless details were read that cannot. -/
theorem readReferrer_keepable_iff {D : FormEncoding.Decoder} {r : SetupResponse} :
    PlayKeepable (readReferrer D r) ↔
      ∀ d, r = .ok (some d) → (referrerDetails D d).isSome → DetailsKeepable D d := by
  cases r with
  | ok details =>
      cases details with
      | none =>
          exact ⟨fun _ d hd => (nomatch hd), fun _ => withoutDetails_keepable (by decide) _ _⟩
      | some d =>
          rw [readReferrer, Option.bind_some]
          cases he : referrerDetails D d with
          | none =>
              refine ⟨fun _ d' hd' hread => ?_, fun _ => withoutDetails_keepable (by decide) _ _⟩
              rw [← Option.some.inj (SetupResponse.ok.inj hd'), he] at hread
              exact absurd hread Bool.false_ne_true
          | some e =>
              rw [Option.getD_some, details_keepable_iff he]
              refine ⟨fun hkeep d' hd' _ => ?_, fun hall => hall d rfl (by rw [he]; rfl)⟩
              rw [← Option.some.inj (SetupResponse.ok.inj hd')]
              exact hkeep
  | _ => exact ⟨fun _ d hd => (nomatch hd), fun _ => withoutDetails_keepable (by decide) _ _⟩

/-- The clock decides the outcome of the deferred deep link only. -/
theorem normalizeDeferred_eq (nowMs ttlSeconds : Int) (e : PlayReferrerEvidence) :
    ∃ outcome, normalizeDeferred nowMs ttlSeconds e = { e with deferredDeepLinkStatus := outcome } := by
  rw [normalizeDeferred]
  split
  · exact ⟨_, rfl⟩
  · split
    · exact ⟨_, rfl⟩
    · exact ⟨_, rfl⟩

/-- Normalising the deferred part changes nothing the schemas ask for. -/
theorem normalizeDeferred_keepable {nowMs ttlSeconds : Int} {e : PlayReferrerEvidence} :
    PlayKeepable (normalizeDeferred nowMs ttlSeconds e) ↔ PlayKeepable e := by
  obtain ⟨outcome, houtcome⟩ := normalizeDeferred_eq nowMs ttlSeconds e
  rw [houtcome]
  exact ⟨fun h => ⟨h.1, h.2, h.3, h.4, h.5, h.6⟩, fun h => ⟨h.1, h.2, h.3, h.4, h.5, h.6⟩⟩

/-- A prepared install fits when its evidence can be kept. -/
theorem preparedInstall_admits_iff (s : FirstStart) :
    validateEventPayload installSchema "install" (Json.object s.preparedInstall.members) = true ↔
      (1 ≤ s.sdkVersion.length ∧ s.sdkVersion.length ≤ 128) ∧ PlayKeepable s.play ∧
        ∀ raw keyId plaintext, s.metaEvidence.installReferrer = some raw →
          s.openMeta raw = .opened keyId (some plaintext) → PlaintextKeepable plaintext := by
  obtain ⟨p, hp⟩ : ∃ p, p = installPayload s.installationId s.sdkVersion s.play s.metaEvidence
    "play_first_launch" := ⟨_, rfl⟩
  have hcontext : p.metaReferrerContext = none := by rw [hp]; rfl
  have hstatus : p.metaReferrerStatus ≠ .decrypted := by
    rw [hp]
    cases hs : s.metaEvidence.status <;> simp [installPayload, hs]
  have hconsistent : MetaConsistent s.preparedInstall := by
    rw [FirstStart.preparedInstall, ← hp]
    exact prepareMetaRecord_consistent hcontext (by rw [hp]; rfl) (by rw [hp]; rfl) hstatus
  obtain ⟨hplay, hversion, horigin⟩ :=
    prepareMetaRecord_keeps (o := s.openMeta) (b := s.bodyRef) (p := p)
  have hcontextFits := prepareMetaRecord_context (o := s.openMeta) (b := s.bodyRef) hcontext
  have hraw : p.extensions.metaInstallReferrer = s.metaEvidence.installReferrer := by rw [hp]; rfl
  rw [FirstStart.preparedInstall, ← hp] at hconsistent ⊢
  rw [hraw] at hcontextFits
  rw [installPayload_admits_iff (by rw [horigin, hp]; rfl) hconsistent, ← hcontextFits]
  have hplay' : (prepareMetaRecord s.openMeta s.bodyRef p).play = s.play := by rw [hplay, hp]; rfl
  have hversion' : (prepareMetaRecord s.openMeta s.bodyRef p).sdkVersion = s.sdkVersion := by
    rw [hversion, hp]
    rfl
  rw [hplay']
  constructor
  · intro ⟨hs, hfit⟩
    rw [← hversion', ← hplay']
    exact ⟨hfit.sdkVersion, ⟨by rw [hplay']; exact hs, hfit.clickId, hfit.clickDevice,
      hfit.clickServer, hfit.installDevice, hfit.installServer⟩, hfit.context⟩
  · intro ⟨hsdk, hkeep, hfit⟩
    rw [← hversion'] at hsdk
    refine ⟨hkeep.status, ?_⟩
    rw [← hplay'] at hkeep
    exact ⟨hsdk, hkeep.clickId, hkeep.clickDevice, hkeep.clickServer, hkeep.installDevice,
      hkeep.installServer, hfit⟩

/-- A blank referrer has no fields. -/
theorem referrerFields_blank {D : FormEncoding.Decoder} {referrer : String}
    (h : isBlank referrer = true) {fields : InsertionMap String String}
    (hfields : referrerFields D referrer = some fields) (name : String) : fields.get name = none := by
  have hblank : ∀ c ∈ referrer.toList, isBlankChar c = true := List.all_eq_true.mp h
  rw [referrerFields, FormEncoding.fields_of_no_separator] at hfields
  · rw [← Option.some.inj hfields]
    rfl
  · intro hmem
    exact absurd (hblank _ hmem) (by decide)
  · intro hmem
    exact absurd (hblank _ hmem) (by decide)

/-- What the evidence of a referrer carries for a deep link. -/
structure LinkEvidence (e : PlayReferrerEvidence) : Prop where
  value : ∀ v, e.deepLinkValue = some v → isDeepLinkValue v = true
  count : e.deepLinkParameters.length ≤ 10
  parameters : ∀ p ∈ e.deepLinkParameters, isDeepLinkParameter p = true
  clickId : ∀ v, e.deepLinkValue = some v → e.status ≠ .thirdParty → e.clickId.isSome

/-- Evidence without details has no link. -/
theorem withoutDetails_link (status : ReferrerStatus) (response : ClientResponse)
    (shouldRetry : Bool) : LinkEvidence (withoutDetails status response shouldRetry) where
  value := fun _ h => nomatch h
  count := Nat.zero_le _
  parameters := fun _ h => nomatch h
  clickId := fun _ h => nomatch h

/-- Whatever is read from a referrer is evidence of a link that fits. -/
theorem readReferrer_link (D : FormEncoding.Decoder) (r : SetupResponse) :
    LinkEvidence (readReferrer D r) := by
  cases r with
  | ok details =>
      rw [readReferrer]
      cases he : details.bind (referrerDetails D) with
      | none => exact withoutDetails_link _ _ _
      | some e =>
          obtain ⟨d, _, hread⟩ := Option.bind_eq_some_iff.mp he
          obtain ⟨fields, _, _, _, _, hfields, _, _, _, _, rfl⟩ := referrerDetails_eq_some hread
          obtain ⟨hcount, hparameters⟩ := deepLinkParameters_fit fields.entries
          refine ⟨fun v hv => (Option.filter_eq_some_iff.mp hv).2, hcount, hparameters, ?_⟩
          intro v hv hstatus
          have hlink := (Option.filter_eq_some_iff.mp hv).1
          have hpresent : isBlank d.installReferrer = false := by
            rw [← Bool.not_eq_true]
            intro hblank
            rw [referrerFields_blank hblank hfields] at hlink
            exact absurd hlink (by simp)
          rw [Option.getD_some, referrerEvidence] at hstatus ⊢
          rw [hpresent] at hstatus
          cases hid : fields.get "cid" with
          | none => simp [hid] at hstatus
          | some id => rfl
  | _ => exact withoutDetails_link _ _ _

/-- The deep link of a start: what the referrer carries. -/
theorem deferredLink_eq_some {s : FirstStart} {link : OpenMasuDeepLink}
    (h : s.deferredLink = some link) :
    DeepLinkFits link ∧ link.clickId = s.play.clickId ∧
      (s.play.status ≠ .thirdParty → s.play.clickId.isSome) := by
  have hevidence := readReferrer_link s.decoder s.response
  obtain ⟨outcome, houtcome⟩ := normalizeDeferred_eq s.nowMs s.ttlSeconds
    (readReferrer s.decoder s.response)
  rw [FirstStart.deferredLink, FirstStart.play, houtcome, deepLinkFromReferrer] at h
  obtain ⟨_, h⟩ := Option.ite_none_right_eq_some.mp h
  obtain ⟨v, hv, rfl⟩ := Option.map_eq_some_iff.mp h
  rw [FirstStart.play, houtcome]
  exact ⟨⟨hevidence.value v hv, hevidence.count, hevidence.parameters⟩, rfl, hevidence.clickId v hv⟩

/-- **When the events of a first start are valid.**  The install and the
deferred opening of a first start pass their schemas exactly when the start can
be kept. -/
theorem firstStart_ingestible_iff (s : FirstStart) : StartIngestible s ↔ StartKeepable s := by
  have hplay : PlayKeepable s.play ↔ ∀ d, s.response = .ok (some d) →
      (referrerDetails s.decoder d).isSome → DetailsKeepable s.decoder d := by
    rw [FirstStart.play, normalizeDeferred_keepable, readReferrer_keepable_iff]
  constructor
  · intro h
    obtain ⟨hversion, hkeep, hplaintext⟩ := (preparedInstall_admits_iff s).mp h.install
    exact ⟨hversion, hplay.mp hkeep, hplaintext⟩
  · intro h
    have hkeep := hplay.mpr h.details
    refine ⟨(preparedInstall_admits_iff s).mpr ⟨h.sdkVersion, hkeep, h.plaintext⟩, ?_⟩
    intro link hlink
    obtain ⟨hfits, hclick, hpresent⟩ := deferredLink_eq_some hlink
    rw [deepLinkPayload_admits_iff hfits, hclick]
    obtain ⟨id, hid⟩ := Option.isSome_iff_exists.mp (hpresent hkeep.status)
    exact ⟨id, hid, hkeep.clickId id hid⟩

end Starts

end OpenMasu
