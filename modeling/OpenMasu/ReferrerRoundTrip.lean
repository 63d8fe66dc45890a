import OpenMasu.InstallIngestibility

/-!
# Referrers that are read back

The redirector writes a click id and a deferred deep link into a referrer, and
the device reads them back.  The click id always arrives.  The deep link
arrives with its parameters, if these are parameters and at most ten, until it
expires.

* `BuiltReferrer` — a referrer of the redirector;
* `BuiltReferrer.fields` — the fields of a referrer are what was written;
* `deepLinkParameters_marked` — the parameters are read back;
* `built_kept_iff` — when a referrer is kept;
* `androidInstall_iff` — when a first start is ingestible and keeps its
  referrer.
-/

namespace OpenMasu

section Built

/-- A referrer that the redirector builds. -/
structure BuiltReferrer where
  clickId : String
  deepLinkValue : Option String
  deepLinkParams : List (String × String)
  names : (deepLinkParams.map Prod.fst).Nodup
  maximum : Nat
  referrer : String
  status : DeferredStatus
  built : buildDeferredReferrer clickId deepLinkValue deepLinkParams maximum = .ok (referrer, status)

/-- The place of a parameter among those of a referrer. -/
def parameterOrder (p : String × String) : List Nat := p.1.toList.map collationWeight

/-- A parameter under its mark. -/
def marked (p : String × String) : String × String := ("dlp_" ++ p.1, p.2)

/-- The pairs of a referrer without a deep link. -/
def minimalPairs (clickId : String) : List (String × String) := [("omv", "1"), ("cid", clickId)]

/-- The pairs of a referrer that carries a deep link. -/
def carriedPairs (clickId value : String) (params : List (String × String)) :
    List (String × String) :=
  minimalPairs clickId ++ ("dl", value) :: (KeyedSort.sortOn parameterOrder params).map marked

/-- A value the redirector accepts is one the device takes. -/
theorem isDeepLinkValue_of_assert {value v : String} (h : assertDeepLinkValue value = .ok v) :
    v = value ∧ isDeepLinkValue value = true := by
  obtain ⟨_, hcheck, hvalue⟩ := PartialList.bind_eq_ok.mp h
  have hholds := demand_ok hcheck
  simp only [Bool.and_eq_true] at hholds
  refine ⟨(Except.ok.inj hvalue).symm, ?_⟩
  simp only [isDeepLinkValue, Bool.and_eq_true]
  exact ⟨⟨hholds.1.1, hholds.2⟩, hholds.1.2⟩

/-- The pairs that a referrer was written from. -/
theorem BuiltReferrer.pairs (b : BuiltReferrer) :
    (b.status ≠ .carried ∧ b.referrer = FormEncoding.text (minimalPairs b.clickId)) ∨
      (b.status = .carried ∧ ∃ value, b.deepLinkValue = some value ∧ isDeepLinkValue value = true ∧
        b.referrer = FormEncoding.text (carriedPairs b.clickId value b.deepLinkParams)) := by
  obtain ⟨minimal, hminimal, hrest⟩ := PartialList.bind_eq_ok.mp b.built
  obtain ⟨_, _, htext⟩ := PartialList.bind_eq_ok.mp hminimal
  have htext : FormEncoding.text (minimalPairs b.clickId) = minimal := Except.ok.inj htext
  cases hvalue : b.deepLinkValue.filter (fun value => value ≠ "") with
  | none =>
      rw [hvalue] at hrest
      obtain ⟨hreferrer, hstatus⟩ := Prod.mk.inj (Except.ok.inj hrest)
      refine .inl ⟨by rw [← hstatus]; decide, by rw [← hreferrer, htext]⟩
  | some value =>
      rw [hvalue] at hrest
      obtain ⟨hsome, _⟩ := Option.filter_eq_some_iff.mp hvalue
      obtain ⟨dl, hdl, hrest⟩ := PartialList.bind_eq_ok.mp hrest
      obtain ⟨expanded, hexpanded, hrest⟩ := PartialList.bind_eq_ok.mp hrest
      obtain ⟨_, _, hcarried⟩ := PartialList.bind_eq_ok.mp hexpanded
      obtain ⟨hsame, hvalid⟩ := isDeepLinkValue_of_assert hdl
      rw [hsame] at hcarried
      have hcarried : FormEncoding.text (carriedPairs b.clickId value b.deepLinkParams) = expanded :=
        Except.ok.inj hcarried
      split at hrest
      next =>
        obtain ⟨hreferrer, hstatus⟩ := Prod.mk.inj (Except.ok.inj hrest)
        exact .inr ⟨hstatus.symm, value, hsome, hvalid, by rw [← hreferrer, hcarried]⟩
      next =>
        obtain ⟨hreferrer, hstatus⟩ := Prod.mk.inj (Except.ok.inj hrest)
        exact .inl ⟨by rw [← hstatus]; decide, by rw [← hreferrer, htext]⟩

end Built

section Reading

variable {D : FormEncoding.Decoder}

/-- **The fields of a referrer are what was written**, where no name is given
twice. -/
theorem referrerFields_text {pairs : List (String × String)} (hpairs : pairs ≠ [])
    (hnames : (pairs.map Prod.fst).Nodup) :
    ∃ fields, referrerFields D (FormEncoding.text pairs) = some fields ∧ fields.entries = pairs := by
  refine ⟨InsertionMap.ofList pairs, ?_, InsertionMap.entries_ofList hnames⟩
  rw [referrerFields, FormEncoding.fields_text D hpairs, Option.map_some]

/-- Marked names differ from each other and from the names of the other pairs. -/
theorem carriedPairs_nodup {clickId value : String} {params : List (String × String)}
    (hnames : (params.map Prod.fst).Nodup) :
    ((carriedPairs clickId value params).map Prod.fst).Nodup := by
  have hsorted : ((KeyedSort.sortOn parameterOrder params).map Prod.fst).Nodup :=
    ((KeyedSort.perm_sortOn _ _).map Prod.fst).nodup_iff.mpr hnames
  have hmarked : (((KeyedSort.sortOn parameterOrder params).map marked).map Prod.fst).Nodup := by
    have hcompose : ((KeyedSort.sortOn parameterOrder params).map marked).map Prod.fst
        = ((KeyedSort.sortOn parameterOrder params).map Prod.fst).map ("dlp_" ++ ·) := by
      rw [List.map_map, List.map_map]
      rfl
    rw [hcompose]
    exact hsorted.map fun a b h => by simpa using h
  have hother : ∀ name ∈ ["omv", "cid", "dl"],
      name ∉ ((KeyedSort.sortOn parameterOrder params).map marked).map Prod.fst := by
    intro name hname hmem
    obtain ⟨field, hfield, rfl⟩ := List.mem_map.mp hmem
    obtain ⟨p, _, rfl⟩ := List.mem_map.mp hfield
    have hlength : ("dlp_" ++ p.1).length ≤ 3 := by
      have hshort : ∀ name ∈ ["omv", "cid", "dl"], name.length ≤ 3 := by decide
      exact hshort _ hname
    rw [String.length_append] at hlength
    have hmark : "dlp_".length = 4 := by decide
    omega
  rw [carriedPairs, minimalPairs, List.map_append, List.map_cons]
  simp only [List.map_cons, List.map_nil, List.cons_append, List.nil_append, List.nodup_cons,
    List.mem_cons, not_or]
  exact ⟨⟨by decide, by decide, hother "omv" (by simp)⟩, ⟨by decide, hother "cid" (by simp)⟩,
    hother "dl" (by simp), hmarked⟩

/-- Parameters the device takes: ten at most, with names and values of the
right form. -/
def Bindable (params : List (String × String)) : Prop :=
  params.length ≤ 10 ∧ ∀ p ∈ params, isDeepLinkParameter p = true

/-- **The parameters are read back**, in some order, where they can be bound.
-/
theorem deepLinkParameters_marked {clickId value : String} {params : List (String × String)}
    (h : Bindable params) :
    (deepLinkParameters (carriedPairs clickId value params)).Perm params := by
  have hmarked : ∀ field ∈ (KeyedSort.sortOn parameterOrder params).map marked,
      isParameterField field = true := by
    intro field hfield
    obtain ⟨p, hp, rfl⟩ := List.mem_map.mp hfield
    exact isParameterField_iff.mpr ⟨p, h.2 p ((KeyedSort.mem_sortOn _).mp hp), rfl⟩
  have hfilter : (carriedPairs clickId value params).filter isParameterField
      = (KeyedSort.sortOn parameterOrder params).map marked := by
    have hother : ∀ v, isParameterField ("omv", v) = false ∧ isParameterField ("cid", v) = false ∧
        isParameterField ("dl", v) = false := by
      intro v
      simp [isParameterField, parameterName]
    rw [carriedPairs, minimalPairs, List.filter_append, List.filter_cons, List.filter_cons,
      List.filter_cons, List.filter_eq_self.mpr hmarked, (hother _).1, (hother _).2.1, (hother _).2.2]
    rfl
  have hlength : (KeyedSort.sortOn fieldOrder ((KeyedSort.sortOn parameterOrder params).map
      marked)).length ≤ 10 := by
    rw [KeyedSort.length_sortOn, List.length_map, KeyedSort.length_sortOn]
    exact h.1
  rw [deepLinkParameters, hfilter, List.take_of_length_le hlength]
  have hunmark : (((KeyedSort.sortOn parameterOrder params).map marked).map fun field =>
      (String.ofList (field.1.toList.drop 4), field.2)) = KeyedSort.sortOn parameterOrder params := by
    rw [List.map_map]
    exact (List.map_congr_left fun p _ => unmarked_field p).trans (List.map_id _)
  have hperm := ((KeyedSort.perm_sortOn fieldOrder ((KeyedSort.sortOn parameterOrder params).map
    marked)).map fun field => (String.ofList (field.1.toList.drop 4), field.2))
  rw [hunmark] at hperm
  exact hperm.trans (KeyedSort.perm_sortOn _ _)

end Reading

section Starts

/-- The deep link of a start expires: its click lies too far back. -/
def isExpired (s : FirstStart) (d : ReferrerDetails) : Bool :=
  0 < d.referrerClickTimestampServerSeconds &&
    s.ttlSeconds < s.nowMs / 1000 - d.referrerClickTimestampServerSeconds

/-- The start keeps a referrer: the install carries its click id, a deep link
that it carries is opened unless it expires, and what is opened is that deep
link. -/
structure KeepsReferrer (s : FirstStart) (d : ReferrerDetails) (b : BuiltReferrer) : Prop where
  status : s.play.status = .available
  clickId : s.play.clickId = some b.clickId
  opened : b.status = .carried → isExpired s d = true ∨ s.deferredLink.isSome
  deepLink : ∀ link, s.deferredLink = some link → link.clickId = some b.clickId ∧
    b.deepLinkValue = some link.value ∧ link.parameters.Perm b.deepLinkParams

/-- The details of a start are those of a referrer of the redirector. -/
structure ReadsBuilt (s : FirstStart) (d : ReferrerDetails) (b : BuiltReferrer) : Prop where
  response : s.response = .ok (some d)
  referrer : d.installReferrer = b.referrer
  returned : (referrerDetails s.decoder d).isSome

theorem epochSeconds_any {value : Int} {instant : Option DeviceInstant}
    (h : epochSeconds value = some instant) (late : Int → Bool) :
    instant.any (fun i => late i.seconds) = (0 < value && late value) := by
  rw [epochSeconds] at h
  split at h
  next hpositive =>
    rw [← Option.some.inj h, decide_eq_false (by omega)]
    rfl
  next hpositive =>
    split at h
    next =>
      rw [← Option.some.inj h, decide_eq_true (by omega)]
      rfl
    next => cases h

/-- The fields of a referrer of the redirector. -/
theorem BuiltReferrer.fields (b : BuiltReferrer) (D : FormEncoding.Decoder) :
    ∃ fields, referrerFields D b.referrer = some fields ∧ fields.get "cid" = some b.clickId ∧
      (b.status ≠ .carried → fields.get "dl" = none) ∧
      (b.status = .carried → ∃ value, b.deepLinkValue = some value ∧ isDeepLinkValue value = true ∧
        fields.get "dl" = some value ∧
        fields.entries = carriedPairs b.clickId value b.deepLinkParams) := by
  rcases b.pairs with ⟨hstatus, hreferrer⟩ | ⟨hstatus, value, hvalue, hvalid, hreferrer⟩
  · have hnonempty : minimalPairs b.clickId ≠ [] := by simp [minimalPairs]
    obtain ⟨fields, hfields, hentries⟩ := referrerFields_text (D := D) hnonempty
      (show ["omv", "cid"].Nodup by decide)
    have hclick : ("cid", b.clickId) ∈ fields.entries := by
      rw [hentries]
      simp [minimalPairs]
    refine ⟨fields, by rw [hreferrer]; exact hfields, InsertionMap.get_of_mem hclick, fun _ => ?_,
      fun h => absurd h hstatus⟩
    rw [InsertionMap.get, hentries]
    simp [minimalPairs]
  · have hnonempty : carriedPairs b.clickId value b.deepLinkParams ≠ [] := by simp [carriedPairs]
    obtain ⟨fields, hfields, hentries⟩ := referrerFields_text (D := D) hnonempty
      (carriedPairs_nodup b.names)
    have hclick : ("cid", b.clickId) ∈ fields.entries := by
      rw [hentries]
      simp [carriedPairs, minimalPairs]
    have hlink : ("dl", value) ∈ fields.entries := by
      rw [hentries]
      simp [carriedPairs]
    exact ⟨fields, by rw [hreferrer]; exact hfields, InsertionMap.get_of_mem hclick,
      fun h => absurd hstatus h, fun _ => ⟨value, hvalue, hvalid, InsertionMap.get_of_mem hlink,
        hentries⟩⟩

/-- The evidence of a referrer of the redirector. -/
theorem ReadsBuilt.play {s : FirstStart} {d : ReferrerDetails} {b : BuiltReferrer}
    (h : ReadsBuilt s d b) :
    s.play.status = .available ∧ s.play.clickId = some b.clickId ∧
      (b.status ≠ .carried → s.deferredLink = none) ∧
      (b.status = .carried → ∃ value parameters, b.deepLinkValue = some value ∧
        (Bindable b.deepLinkParams → parameters.Perm b.deepLinkParams) ∧
        s.deferredLink = if isExpired s d then none
          else some ⟨value, parameters, some b.clickId⟩) := by
  obtain ⟨e, he⟩ := Option.isSome_iff_exists.mp h.returned
  obtain ⟨fields, clickDevice, clickServer, installDevice, installServer, hfields, _, hclickServer, _,
    _, rfl⟩ := referrerDetails_eq_some he
  obtain ⟨fields', hfields', hclick, habsent, hcarried⟩ := b.fields s.decoder
  have hsame : fields' = fields := by
    rw [h.referrer, hfields'] at hfields
    exact Option.some.inj hfields
  subst hsame
  have hblank : isBlank d.installReferrer = false := by
    rw [← Bool.not_eq_true]
    intro hblank
    rw [referrerFields_blank hblank hfields] at hclick
    exact nomatch hclick
  have hplay : s.play = normalizeDeferred s.nowMs s.ttlSeconds
      (referrerEvidence d fields' clickDevice clickServer installDevice installServer) := by
    rw [FirstStart.play, h.response, readReferrer, Option.bind_some, he, Option.getD_some]
  obtain ⟨outcome, houtcome⟩ := normalizeDeferred_eq s.nowMs s.ttlSeconds
    (referrerEvidence d fields' clickDevice clickServer installDevice installServer)
  refine ⟨?_, ?_, fun hstatus => ?_, fun hstatus => ?_⟩
  · rw [hplay, houtcome]
    simp only [referrerEvidence, hblank, hclick]
    rfl
  · rw [hplay, houtcome]
    exact hclick
  · rw [FirstStart.deferredLink, hplay, houtcome, deepLinkFromReferrer]
    simp only [referrerEvidence, habsent hstatus]
    simp
  · obtain ⟨value, hvalue, hvalid, hlink, hentries⟩ := hcarried hstatus
    refine ⟨value, deepLinkParameters fields'.entries, hvalue, fun hbind => ?_, ?_⟩
    · rw [hentries]
      exact deepLinkParameters_marked hbind
    · have hany : clickServer.any (fun clicked => s.ttlSeconds < s.nowMs / 1000 - clicked.seconds)
          = isExpired s d :=
        epochSeconds_any hclickServer (fun c => s.ttlSeconds < s.nowMs / 1000 - c)
      rw [FirstStart.deferredLink, hplay, normalizeDeferred]
      simp only [referrerEvidence, hlink, Option.filter_some, hvalid, if_true, Option.isNone_some,
        Bool.false_eq_true, if_false, hany, hclick]
      cases isExpired s d with
      | true => simp [deepLinkFromReferrer]
      | false => simp [deepLinkFromReferrer]

/-- **When a referrer is kept.**  A carried link that has not expired is kept
exactly where its parameters can be bound again. -/
theorem built_kept_iff {s : FirstStart} {d : ReferrerDetails} {b : BuiltReferrer}
    (h : ReadsBuilt s d b) :
    KeepsReferrer s d b ↔ (b.status = .carried → isExpired s d = true ∨ Bindable b.deepLinkParams) := by
  obtain ⟨hstatus, hclick, hnone, hsome⟩ := h.play
  constructor
  · intro hkeeps hcarried
    rcases hkeeps.opened hcarried with hexpired | hopened
    · exact .inl hexpired
    · obtain ⟨link, hlink⟩ := Option.isSome_iff_exists.mp hopened
      obtain ⟨hfits, _, _⟩ := deferredLink_eq_some hlink
      obtain ⟨_, _, hperm⟩ := hkeeps.deepLink link hlink
      refine .inr ⟨by rw [← hperm.length_eq]; exact hfits.count, fun p hp => ?_⟩
      exact hfits.parameters p (hperm.mem_iff.mpr hp)
  · intro hbind
    refine ⟨hstatus, hclick, fun hcarried => ?_, fun link hlink => ?_⟩
    · obtain ⟨value, parameters, _, _, hopened⟩ := hsome hcarried
      by_cases hexpired : isExpired s d = true
      · exact .inl hexpired
      · rw [if_neg hexpired] at hopened
        exact .inr (by rw [hopened]; rfl)
    · by_cases hcarried : b.status = .carried
      · obtain ⟨value, parameters, hvalue, hperm, hopened⟩ := hsome hcarried
        by_cases hexpired : isExpired s d = true
        · rw [if_pos hexpired, hlink] at hopened
          exact nomatch hopened
        · rw [if_neg hexpired, hlink] at hopened
          rw [Option.some.inj hopened]
          exact ⟨rfl, hvalue, hperm ((hbind hcarried).resolve_left hexpired)⟩
      · rw [hnone hcarried] at hlink
        exact nomatch hlink

/-- Every referrer of the redirector that the start reads is kept. -/
def KeepsBuilt (s : FirstStart) : Prop :=
  ∀ d b, ReadsBuilt s d b → KeepsReferrer s d b

/-- Every referrer of the redirector that the start reads carries parameters
the device takes, unless its deep link expires. -/
def BindsBuilt (s : FirstStart) : Prop :=
  ∀ d b, ReadsBuilt s d b → b.status = .carried → isExpired s d = true ∨ Bindable b.deepLinkParams

/-- **When an Android install is ingestible and keeps its referrer.** For every
first start: exactly when the evidence the device read meets the schemas, and
what the link carried is read back field by field. -/
theorem androidInstall_iff (s : FirstStart) :
    (StartIngestible s ∧ KeepsBuilt s) ↔ (StartKeepable s ∧ BindsBuilt s) := by
  refine and_congr (firstStart_ingestible_iff s) ?_
  exact forall₂_congr fun d b => forall_congr' fun h => built_kept_iff h

end Starts

section Runs

/-- The referrer of an organic install from Google Play. -/
def organicDetails : ReferrerDetails where
  installReferrer := "utm_source=google-play&utm_medium=organic"
  referrerClickTimestampSeconds := 0
  installBeginTimestampSeconds := 1777600000
  googlePlayInstantParam := false
  referrerClickTimestampServerSeconds := 0
  installBeginTimestampServerSeconds := 1777600000
  installVersion := some "1.0"

/-- A device that was installed from the store's own pages. -/
def organicStart : FirstStart where
  decoder := FormEncoding.utf8Decoder
  installationId := ⟨"installation:1", by decide⟩
  sdkVersion := "0.1.0"
  response := .ok (some organicDetails)
  metaEvidence := ⟨.providerUnavailable, none, none, none, none⟩
  nowMs := 1777600100000
  ttlSeconds := 604800
  openMeta := fun _ => .absent
  bodyRef := "payload:1"

/-- The fields of the organic referrer are read. -/
theorem organicDetails_fields : ∃ fields,
    referrerFields FormEncoding.utf8Decoder organicDetails.installReferrer = some fields ∧
      fields.entries = [("utm_source", "google-play"), ("utm_medium", "organic")] := by
  have htext : FormEncoding.text [("utm_source", "google-play"), ("utm_medium", "organic")]
      = organicDetails.installReferrer := by decide +kernel
  rw [← htext]
  exact referrerFields_text (by simp) (by decide)

/-- An organic install is refused: its referrer is of a third party, and the
install carries no classification. -/
theorem organicInstall_rejected :
    (referrerDetails organicStart.decoder organicDetails).isSome ∧
      organicStart.response = .ok (some organicDetails) ∧
      validateEventPayload installSchema "install"
        (Json.object organicStart.preparedInstall.members) = false := by
  obtain ⟨fields, hfields, hentries⟩ := organicDetails_fields
  have hread : (referrerDetails organicStart.decoder organicDetails).isSome := by
    rw [referrerDetails]
    change (referrerFields FormEncoding.utf8Decoder organicDetails.installReferrer >>= _).isSome = true
    rw [hfields]
    rfl
  refine ⟨hread, rfl, ?_⟩
  rw [← Bool.not_eq_true]
  intro hvalid
  have hkeep := ((preparedInstall_admits_iff organicStart).mp hvalid).2.1
  rw [FirstStart.play, normalizeDeferred_keepable, readReferrer_keepable_iff] at hkeep
  have hdetails := hkeep organicDetails rfl hread
  have hclick : referrerField organicStart.decoder organicDetails "cid" = none := by
    change (referrerFields FormEncoding.utf8Decoder organicDetails.installReferrer).bind _ = none
    rw [hfields, Option.bind_some, InsertionMap.get, hentries]
    rfl
  rcases hdetails.named with hblank | hnamed
  · exact absurd hblank (by decide)
  · rw [hclick] at hnamed
    exact absurd hnamed (by decide)

end Runs

end OpenMasu
