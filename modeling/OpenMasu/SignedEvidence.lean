import OpenMasu.PartialList
import OpenMasu.PostbackReceiver

/-!
# What the signature of a SKAdNetwork postback determines

Two verified postbacks with one signed text need not be authenticated as one
object: the text leaves out every field it does not know, and its separator
can stand inside a field.

* `SignedDetermines` — the law on two postbacks;
* `SameBesides` — the condition on them;
* `skanSignedFields_injective` — the text, taken apart;
* `signed_determines_iff` — the law holds exactly under the condition;
* `unknown_field_authenticated` — a field beside the signed ones.
-/

namespace OpenMasu

namespace ApplePostback

open PartialList (bind_eq_ok pure_eq_ok)
open PostbackReceiver

section Law

/-- A field of the payload is listed as an observation outside the
signature. -/
def IsObserved (result : VerificationResult) (name : String) : Prop :=
  String.ofList (name.toList.map (fun c => if c = '_' then '-' else c)) ∈ (unsignedOf result).names

/-- The authenticated objects of two postbacks are equal, and so are the fields
of their payloads that are not listed as observations, the signature and the
boundary itself aside. -/
structure SignedDetermines (body body' : JsonObject) (result result' : VerificationResult) :
    Prop where
  authenticated : ∀ o u e o' u' e', result = .verified o u e → result' = .verified o' u' e' →
    o.Agrees o'
  payload : ∀ p p', normalizedPayload .skadnetwork body result = .ok p →
    normalizedPayload .skadnetwork body' result' = .ok p' →
    ∀ name, name ≠ "attribution_signature" → name ≠ "extensions" →
    ¬ IsObserved result name → ¬ IsObserved result' name → memberOf p name = memberOf p' name

/-- The names of the fields that are signed. -/
def skanSignedNames (body : JsonObject) : List String :=
  let common := ["version", "ad-network-id", "app-id", "transaction-id", "redownload",
    "source-app-id", "fidelity-type", "did-win"]
  let source := if (body.get "source-app-id").isSome then [] else ["source-domain"]
  match body.get "version" with
  | some (.str version) =>
      match majorVersion version with
      | some .three => "campaign-id" :: common
      | some .four => "source-identifier" :: "postback-sequence-index" :: common ++ source
      | none => []
  | _ => []

/-- How often the separator occurs in a text field. -/
def separatorsIn : Option Json → Nat
  | some (.str s) => s.toList.count separator
  | _ => 0

/-- Two postbacks agree on what the signed text leaves open: which source they
name, where the separator occurs in their texts, and every field that is not
signed and yet counts as authenticated. -/
structure SameBesides (body body' : JsonObject) : Prop where
  source : (body.get "source-app-id").isSome = (body'.get "source-app-id").isSome
  separators : ∀ name ∈ ["version", "ad-network-id", "transaction-id", "source-identifier",
    "source-domain"], separatorsIn (body.get name) = separatorsIn (body'.get name)
  others : ∀ name, isAuthenticatedField name = true → name ∉ skanSignedNames body →
    body.get name = body'.get name

end Law

section Texts

/-- A text field has no other value with its text. -/
theorem requiredString_eq_ok {value : Option Json} {name s : String}
    (h : requiredString value name = .ok s) : value = some (.str s) := by
  unfold requiredString at h
  split at h
  · split at h
    · cases h
    · cases h
      rfl
  · cases h

theorem integerText_separator (n : Nat) : (NumberText.integerText n).count separator = 0 := by
  apply List.count_eq_zero_of_not_mem
  intro h
  unfold NumberText.integerText at h
  split at h
  · exact NumberText.notMem_toDigits n separator (by decide) h
  · unfold NumberText.exponentText at h
    rcases List.mem_append.mp h with h | h
    · rcases NumberText.mem_pointed h with h | h
      · exact NumberText.notMem_leadingDigits n separator (by decide) h
      · exact absurd h (by decide)
    · rcases List.mem_cons.mp h with h | h
      · exact absurd h (by decide)
      · rcases List.mem_cons.mp h with h | h
        · exact absurd h (by decide)
        · exact NumberText.notMem_toDigits _ separator (by decide) h

/-- A number has no other value with its text, and no separator in it. -/
theorem requiredInteger_eq_ok {value : Option Json} {name s : String}
    (h : requiredInteger value name = .ok s) :
    s.toList.count separator = 0 ∧
      ∀ value' name', requiredInteger value' name' = .ok s → value = value' := by
  have hspell : ∀ {value : Option Json} {name : String}, requiredInteger value name = .ok s →
      ∃ n : Nat, value = some (.num n) ∧ s = String.ofList (NumberText.integerText n) := by
    intro value name h
    unfold requiredInteger at h
    split at h
    · case h_1 q =>
        split at h
        · case isTrue hwhole =>
            refine ⟨q.num.toNat, ?_, (Except.ok.inj h).symm⟩
            have hq : q = (q.num.toNat : Rat) := by
              have hnum : (q.num.toNat : Int) = q.num := Int.toNat_of_nonneg hwhole.2
              apply Rat.ext
              · rw [Rat.num_natCast, hnum]
              · rw [Rat.den_natCast, hwhole.1]
            rw [← hq]
        · cases h
    · cases h
  obtain ⟨n, rfl, hs⟩ := hspell h
  refine ⟨?_, fun value' name' h' => ?_⟩
  · rw [hs, String.toList_ofList]
    exact integerText_separator n
  · obtain ⟨n', rfl, hs'⟩ := hspell h'
    have heq : NumberText.integerText n = NumberText.integerText n' :=
      String.ofList_injective (hs.symm.trans hs')
    rw [NumberText.integerText_injective heq]

/-- A flag has no other value with its text, and no separator in it. -/
theorem requiredBoolean_eq_ok {value : Option Json} {name s : String}
    (h : requiredBoolean value name = .ok s) :
    s.toList.count separator = 0 ∧
      ∀ value' name', requiredBoolean value' name' = .ok s → value = value' := by
  have hspell : ∀ {value : Option Json} {name : String}, requiredBoolean value name = .ok s →
      ∃ b : Bool, value = some (.bool b) ∧ s = if b then "true" else "false" := by
    intro value name h
    unfold requiredBoolean at h
    split at h
    · case h_1 b => exact ⟨b, rfl, (Except.ok.inj h).symm⟩
    · cases h
  obtain ⟨b, rfl, hs⟩ := hspell h
  refine ⟨?_, fun value' name' h' => ?_⟩
  · rw [hs]
    cases b <;> decide
  · obtain ⟨b', rfl, hs'⟩ := hspell h'
    have heq : (if b then "true" else "false") = if b' then "true" else "false" := hs.symm.trans hs'
    cases b <;> cases b' <;> first | rfl | exact absurd heq (by decide)

/-- An optional number is absent, or a number. -/
theorem optionalInteger_eq_ok {value : Option Json} {name : String} {s : Option String}
    (h : optionalInteger value name = .ok s) :
    (value.isSome = false ∧ s = none) ∨
      (value.isSome = true ∧ ∃ t, s = some t ∧ requiredInteger value name = .ok t) := by
  unfold optionalInteger at h
  split at h
  · exact .inl ⟨rfl, (Except.ok.inj h).symm⟩
  · case h_2 value =>
      refine .inr ⟨rfl, ?_⟩
      cases hvalue : requiredInteger (some value) name with
      | error e =>
          rw [hvalue] at h
          cases h
      | ok t =>
          rw [hvalue] at h
          exact ⟨t, (Except.ok.inj h).symm, rfl⟩

end Texts

section Message

variable {body body' : JsonObject} {texts texts' : List String}

/-- The fields that version 3 signs. -/
structure SignsThree (body : JsonObject) (version adNetworkId : String) (texts : List String) where
  campaignId : String
  appId : String
  transactionId : String
  redownload : String
  sourceAppId : Option String
  fidelityType : String
  didWin : String
  campaign : requiredInteger (body.get "campaign-id") "campaign-id" = .ok campaignId
  app : requiredInteger (body.get "app-id") "app-id" = .ok appId
  transaction : body.get "transaction-id" = some (.str transactionId)
  redownloaded : requiredBoolean (body.get "redownload") "redownload" = .ok redownload
  source : optionalInteger (body.get "source-app-id") "source-app-id" = .ok sourceAppId
  fidelity : requiredInteger (body.get "fidelity-type") "fidelity-type" = .ok fidelityType
  won : requiredBoolean (body.get "did-win") "did-win" = .ok didWin
  spelled : texts = [version, adNetworkId, campaignId, appId, transactionId, redownload] ++
    sourceAppId.toList ++ [fidelityType, didWin]

/-- The fields that version 4 signs. -/
structure SignsFour (body : JsonObject) (version adNetworkId : String) (texts : List String) where
  source : String
  sourceIdentifier : String
  appId : String
  transactionId : String
  redownload : String
  fidelityType : String
  didWin : String
  sequenceIndex : String
  app : requiredInteger (body.get "app-id") "app-id" = .ok appId
  transaction : body.get "transaction-id" = some (.str transactionId)
  identifier : body.get "source-identifier" = some (.str sourceIdentifier)
  redownloaded : requiredBoolean (body.get "redownload") "redownload" = .ok redownload
  named : ((body.get "source-app-id").isSome = true ∧
      requiredInteger (body.get "source-app-id") "source-app-id" = .ok source) ∨
    ((body.get "source-app-id").isSome = false ∧ body.get "source-domain" = some (.str source))
  fidelity : requiredInteger (body.get "fidelity-type") "fidelity-type" = .ok fidelityType
  won : requiredBoolean (body.get "did-win") "did-win" = .ok didWin
  sequence : requiredInteger (body.get "postback-sequence-index") "postback-sequence-index"
    = .ok sequenceIndex
  spelled : texts = [version, adNetworkId, sourceIdentifier, appId, transactionId, redownload,
    source, fidelityType, didWin, sequenceIndex]

/-- What a signed text is made of. -/
theorem skanSignedFields_eq_ok (h : skanSignedFields body = .ok texts) :
    ∃ version adNetworkId, body.get "version" = some (.str version) ∧
      body.get "ad-network-id" = some (.str adNetworkId) ∧
      ((majorVersion version = some .three ∧ Nonempty (SignsThree body version adNetworkId texts)) ∨
        (majorVersion version = some .four ∧
          Nonempty (SignsFour body version adNetworkId texts))) := by
  simp only [skanSignedFields, bind_eq_ok] at h
  obtain ⟨version, hversion, adNetworkId, hnetwork, h⟩ := h
  refine ⟨version, adNetworkId, requiredString_eq_ok hversion, requiredString_eq_ok hnetwork, ?_⟩
  split at h
  · case h_1 hmajor =>
      simp only [bind_eq_ok, pure_eq_ok] at h
      obtain ⟨campaignId, hcampaign, appId, happ, transactionId, htransaction, redownload,
        hredownload, sourceAppId, hsource, fidelityType, hfidelity, didWin, hwon, hspelled⟩ := h
      exact .inl ⟨hmajor, ⟨⟨campaignId, appId, transactionId, redownload, sourceAppId,
        fidelityType, didWin, hcampaign, happ, requiredString_eq_ok htransaction, hredownload,
        hsource, hfidelity, hwon, hspelled.symm⟩⟩⟩
  · case h_2 hmajor =>
      simp only [bind_eq_ok, pure_eq_ok] at h
      obtain ⟨source, hsource, sourceIdentifier, hidentifier, appId, happ, transactionId,
        htransaction, redownload, hredownload, fidelityType, hfidelity, didWin, hwon,
        sequenceIndex, hsequence, hspelled⟩ := h
      refine .inr ⟨hmajor, ⟨⟨source, sourceIdentifier, appId, transactionId, redownload,
        fidelityType, didWin, sequenceIndex, happ, requiredString_eq_ok htransaction,
        requiredString_eq_ok hidentifier, hredownload, ?_, hfidelity, hwon, hsequence,
        hspelled.symm⟩⟩⟩
      unfold skanSource at hsource
      split at hsource
      · case isTrue hnamed => exact .inl ⟨hnamed, hsource⟩
      · case isFalse hnamed =>
          exact .inr ⟨by simpa using hnamed, requiredString_eq_ok hsource⟩
  · cases h

/-- The counts of the separator in the fields that version 3 signs. -/
theorem SignsThree.counts {version adNetworkId : String}
    (h : SignsThree body version adNetworkId texts) :
    texts.map (fun t => t.toList.count separator) =
      [version.toList.count separator, adNetworkId.toList.count separator, 0, 0,
        h.transactionId.toList.count separator, 0] ++
      List.replicate (if (body.get "source-app-id").isSome then 1 else 0) 0 ++ [0, 0] := by
  have hcampaign := (requiredInteger_eq_ok h.campaign).1
  have happ := (requiredInteger_eq_ok h.app).1
  have hredownload := (requiredBoolean_eq_ok h.redownloaded).1
  have hfidelity := (requiredInteger_eq_ok h.fidelity).1
  have hwon := (requiredBoolean_eq_ok h.won).1
  conv_lhs => rw [h.spelled]
  rcases optionalInteger_eq_ok h.source with ⟨hnone, hsource⟩ | ⟨hsome, t, hsource, hvalue⟩
  · simp [hcampaign, happ, hredownload, hfidelity, hwon, hnone, hsource]
  · have hzero := (requiredInteger_eq_ok hvalue).1
    simp [hcampaign, happ, hredownload, hfidelity, hwon, hsome, hsource, hzero]

/-- The counts of the separator in the fields that version 4 signs. -/
theorem SignsFour.counts {version adNetworkId : String}
    (h : SignsFour body version adNetworkId texts) :
    texts.map (fun t => t.toList.count separator) =
      [version.toList.count separator, adNetworkId.toList.count separator,
        h.sourceIdentifier.toList.count separator, 0, h.transactionId.toList.count separator, 0,
        if (body.get "source-app-id").isSome then 0 else separatorsIn (body.get "source-domain"),
        0, 0, 0] := by
  have happ := (requiredInteger_eq_ok h.app).1
  have hredownload := (requiredBoolean_eq_ok h.redownloaded).1
  have hfidelity := (requiredInteger_eq_ok h.fidelity).1
  have hwon := (requiredBoolean_eq_ok h.won).1
  have hsequence := (requiredInteger_eq_ok h.sequence).1
  conv_lhs => rw [h.spelled]
  rcases h.named with ⟨hnamed, hsource⟩ | ⟨hnamed, hsource⟩
  · have hzero := (requiredInteger_eq_ok hsource).1
    simp [happ, hredownload, hfidelity, hwon, hsequence, hnamed, hzero]
  · simp [happ, hredownload, hfidelity, hwon, hsequence, hnamed, hsource, separatorsIn]

/-- Version 3: the texts determine the signed fields. -/
theorem SignsThree.get_eq {version adNetworkId : String}
    (h : SignsThree body version adNetworkId texts) (h' : SignsThree body' version adNetworkId texts)
    (hsource : (body.get "source-app-id").isSome = (body'.get "source-app-id").isSome) :
    ∀ name ∈ ["campaign-id", "app-id", "transaction-id", "redownload", "source-app-id",
      "fidelity-type", "did-win"], body.get name = body'.get name := by
  have hspelled := h.spelled.symm.trans h'.spelled
  have hfields : h.campaignId = h'.campaignId ∧ h.appId = h'.appId ∧
      h.transactionId = h'.transactionId ∧ h.redownload = h'.redownload ∧
      h.fidelityType = h'.fidelityType ∧ h.didWin = h'.didWin ∧
      body.get "source-app-id" = body'.get "source-app-id" := by
    rcases optionalInteger_eq_ok h.source with ⟨hnone, hs⟩ | ⟨hsome, t, hs, hvalue⟩
    · rcases optionalInteger_eq_ok h'.source with ⟨hnone', hs'⟩ | ⟨hsome', -⟩
      · rw [hs, hs'] at hspelled
        simp only [Option.toList_none, List.append_nil, List.cons_append, List.nil_append,
          List.cons.injEq, true_and, and_true] at hspelled
        obtain ⟨hcampaign, happ, htransaction, hredownload, hfidelity, hwon⟩ := hspelled
        refine ⟨hcampaign, happ, htransaction, hredownload, hfidelity, hwon, ?_⟩
        rw [Option.isSome_eq_false_iff, Option.isNone_iff_eq_none] at hnone hnone'
        rw [hnone, hnone']
      · rw [hnone, hsome'] at hsource
        cases hsource
    · rcases optionalInteger_eq_ok h'.source with ⟨hnone', -⟩ | ⟨hsome', t', hs', hvalue'⟩
      · rw [hsome, hnone'] at hsource
        cases hsource
      · rw [hs, hs'] at hspelled
        simp only [Option.toList_some, List.cons_append, List.nil_append, List.cons.injEq,
          true_and, and_true] at hspelled
        obtain ⟨hcampaign, happ, htransaction, hredownload, rfl, hfidelity, hwon⟩ := hspelled
        exact ⟨hcampaign, happ, htransaction, hredownload, hfidelity, hwon,
          (requiredInteger_eq_ok hvalue).2 _ _ hvalue'⟩
  obtain ⟨hcampaign, happ, htransaction, hredownload, hfidelity, hwon, hsourceApp⟩ := hfields
  intro name hname
  simp only [List.mem_cons, List.not_mem_nil, or_false] at hname
  rcases hname with rfl | rfl | rfl | rfl | rfl | rfl | rfl
  · exact (requiredInteger_eq_ok h.campaign).2 _ _ (hcampaign ▸ h'.campaign)
  · exact (requiredInteger_eq_ok h.app).2 _ _ (happ ▸ h'.app)
  · rw [h.transaction, h'.transaction, htransaction]
  · exact (requiredBoolean_eq_ok h.redownloaded).2 _ _ (hredownload ▸ h'.redownloaded)
  · exact hsourceApp
  · exact (requiredInteger_eq_ok h.fidelity).2 _ _ (hfidelity ▸ h'.fidelity)
  · exact (requiredBoolean_eq_ok h.won).2 _ _ (hwon ▸ h'.won)

/-- Version 4: the texts determine the signed fields. -/
theorem SignsFour.get_eq {version adNetworkId : String}
    (h : SignsFour body version adNetworkId texts) (h' : SignsFour body' version adNetworkId texts)
    (hsource : (body.get "source-app-id").isSome = (body'.get "source-app-id").isSome) :
    (∀ name ∈ ["source-identifier", "app-id", "transaction-id", "redownload", "source-app-id",
      "fidelity-type", "did-win", "postback-sequence-index"], body.get name = body'.get name) ∧
    ((body.get "source-app-id").isSome = false →
      body.get "source-domain" = body'.get "source-domain") := by
  have hspelled := h.spelled.symm.trans h'.spelled
  simp only [List.cons.injEq, true_and, and_true] at hspelled
  obtain ⟨hidentifier, happ, htransaction, hredownload, hnamed, hfidelity, hwon, hsequence⟩ :=
    hspelled
  have hsources : body.get "source-app-id" = body'.get "source-app-id" ∧
      ((body.get "source-app-id").isSome = false →
        body.get "source-domain" = body'.get "source-domain") := by
    rcases h.named with ⟨hsome, hvalue⟩ | ⟨hnone, hvalue⟩
    · rcases h'.named with ⟨hsome', hvalue'⟩ | ⟨hnone', -⟩
      · refine ⟨(requiredInteger_eq_ok hvalue).2 _ _ (hnamed ▸ hvalue'), fun hnone => ?_⟩
        rw [hsome] at hnone
        cases hnone
      · rw [hsome, hnone'] at hsource
        cases hsource
    · rcases h'.named with ⟨hsome', -⟩ | ⟨hnone', hvalue'⟩
      · rw [hnone, hsome'] at hsource
        cases hsource
      · refine ⟨?_, fun _ => ?_⟩
        · rw [Option.isSome_eq_false_iff, Option.isNone_iff_eq_none] at hnone hnone'
          rw [hnone, hnone']
        · rw [hvalue, hvalue', hnamed]
  refine ⟨fun name hname => ?_, hsources.2⟩
  simp only [List.mem_cons, List.not_mem_nil, or_false] at hname
  rcases hname with rfl | rfl | rfl | rfl | rfl | rfl | rfl | rfl
  · rw [h.identifier, h'.identifier, hidentifier]
  · exact (requiredInteger_eq_ok h.app).2 _ _ (happ ▸ h'.app)
  · rw [h.transaction, h'.transaction, htransaction]
  · exact (requiredBoolean_eq_ok h.redownloaded).2 _ _ (hredownload ▸ h'.redownloaded)
  · exact hsources.1
  · exact (requiredInteger_eq_ok h.fidelity).2 _ _ (hfidelity ▸ h'.fidelity)
  · exact (requiredBoolean_eq_ok h.won).2 _ _ (hwon ▸ h'.won)
  · exact (requiredInteger_eq_ok h.sequence).2 _ _ (hsequence ▸ h'.sequence)

/-- A signed text begins with the version and the network. -/
theorem spelled_front {version adNetworkId : String}
    (h : (majorVersion version = some .three ∧ Nonempty (SignsThree body version adNetworkId texts)) ∨
      (majorVersion version = some .four ∧
        Nonempty (SignsFour body version adNetworkId texts))) :
    ∃ rest, texts = version :: adNetworkId :: rest := by
  rcases h with ⟨-, ⟨h⟩⟩ | ⟨-, ⟨h⟩⟩
  · exact ⟨_, h.spelled⟩
  · exact ⟨_, h.spelled⟩

/-- **The signed text, taken apart.**  Postbacks that agree on what it leaves
open and have one text agree on every signed field. -/
theorem skanSignedFields_injective (hsame : SameBesides body body')
    (hbody : skanSignedFields body = .ok texts) (hbody' : skanSignedFields body' = .ok texts')
    (hjoin : JoinedText.join separator (texts.map String.toList) =
      JoinedText.join separator (texts'.map String.toList)) :
    ∀ name ∈ skanSignedNames body, body.get name = body'.get name := by
  obtain ⟨version, adNetworkId, hversion, hnetwork, hshape⟩ := skanSignedFields_eq_ok hbody
  obtain ⟨version', adNetworkId', hversion', hnetwork', hshape'⟩ := skanSignedFields_eq_ok hbody'
  obtain ⟨rest, hfront⟩ := spelled_front hshape
  obtain ⟨rest', hfront'⟩ := spelled_front hshape'
  have hcountOf : ∀ name ∈ ["version", "ad-network-id", "transaction-id", "source-identifier",
      "source-domain"], ∀ t t', body.get name = some (.str t) → body'.get name = some (.str t') →
      t.toList.count separator = t'.toList.count separator := by
    intro name hname t t' ht ht'
    have hcount := hsame.separators name hname
    rw [ht, ht'] at hcount
    exact hcount
  have hversions : version = version' := by
    have hcut := hjoin
    rw [hfront, hfront'] at hcut
    have hcount := hcountOf "version" (by decide) _ _ hversion hversion'
    exact String.toList_injective (JoinedText.append_cons_inj_of_count hcut hcount).1
  subst hversions
  have hnetworks := hcountOf "ad-network-id" (by decide) _ _ hnetwork hnetwork'
  -- the texts hold as many separators, field by field
  have hcounts : (texts.map String.toList).map (List.count separator) =
      (texts'.map String.toList).map (List.count separator) := by
    rw [List.map_map, List.map_map]
    rcases hshape with ⟨hmajor, ⟨h⟩⟩ | ⟨hmajor, ⟨h⟩⟩
    · rcases hshape' with ⟨-, ⟨h'⟩⟩ | ⟨hmajor', -⟩
      · have htransaction :=
          hcountOf "transaction-id" (by decide) _ _ h.transaction h'.transaction
        refine h.counts.trans (Eq.trans ?_ h'.counts.symm)
        rw [hnetworks, htransaction, hsame.source]
      · rw [hmajor] at hmajor'
        cases hmajor'
    · rcases hshape' with ⟨hmajor', -⟩ | ⟨-, ⟨h'⟩⟩
      · rw [hmajor] at hmajor'
        cases hmajor'
      · have htransaction :=
          hcountOf "transaction-id" (by decide) _ _ h.transaction h'.transaction
        have hidentifier :=
          hcountOf "source-identifier" (by decide) _ _ h.identifier h'.identifier
        refine h.counts.trans (Eq.trans ?_ h'.counts.symm)
        rw [hnetworks, htransaction, hidentifier, hsame.source,
          hsame.separators "source-domain" (by decide)]
  have htexts : texts = texts' := by
    have hinjective : Function.Injective String.toList := fun _ _ => String.toList_injective
    exact List.map_injective_iff.mpr hinjective (JoinedText.eq_of_join_eq hjoin hcounts)
  subst htexts
  have hnetworkEq : adNetworkId = adNetworkId' := by
    rw [hfront] at hfront'
    exact (List.cons.inj (List.cons.inj hfront').2).1
  subst hnetworkEq
  have hcommon : ∀ name ∈ ["version", "ad-network-id"], body.get name = body'.get name := by
    intro name hname
    simp only [List.mem_cons, List.not_mem_nil, or_false] at hname
    rcases hname with rfl | rfl
    · rw [hversion, hversion']
    · rw [hnetwork, hnetwork']
  intro name hname
  unfold skanSignedNames at hname
  simp only [hversion] at hname
  rcases hshape with ⟨hmajor, ⟨h⟩⟩ | ⟨hmajor, ⟨h⟩⟩
  · rcases hshape' with ⟨-, ⟨h'⟩⟩ | ⟨hmajor', -⟩
    · have hget := h.get_eq h' hsame.source
      rw [hmajor] at hname
      have hparts : (["campaign-id", "version", "ad-network-id", "app-id", "transaction-id",
          "redownload", "source-app-id", "fidelity-type", "did-win"] : List String) ⊆
          ["version", "ad-network-id"] ++ ["campaign-id", "app-id", "transaction-id", "redownload",
            "source-app-id", "fidelity-type", "did-win"] := by decide
      rcases List.mem_append.mp (hparts hname) with hname | hname
      · exact hcommon name hname
      · exact hget name hname
    · rw [hmajor] at hmajor'
      cases hmajor'
  · rcases hshape' with ⟨hmajor', -⟩ | ⟨-, ⟨h'⟩⟩
    · rw [hmajor] at hmajor'
      cases hmajor'
    · obtain ⟨hget, hdomain⟩ := h.get_eq h' hsame.source
      rw [hmajor] at hname
      rcases List.mem_append.mp hname with hname | hname
      · have hparts : (["source-identifier", "postback-sequence-index", "version",
            "ad-network-id", "app-id", "transaction-id", "redownload", "source-app-id",
            "fidelity-type", "did-win"] : List String) ⊆
            ["version", "ad-network-id"] ++ ["source-identifier", "app-id", "transaction-id",
              "redownload", "source-app-id", "fidelity-type", "did-win",
              "postback-sequence-index"] := by decide
        rcases List.mem_append.mp (hparts hname) with hname | hname
        · exact hcommon name hname
        · exact hget name hname
      · split at hname
        · cases hname
        · case isFalse hnone =>
            rw [List.mem_singleton.mp hname]
            exact hdomain (by simpa using hnone)

end Message

section Payload

variable {body body' : JsonObject} {name : String}

theorem memberOf_append (a b : List (String × Json)) (name : String) :
    memberOf (a ++ b) name = (memberOf a name).or (memberOf b name) := by
  simp only [memberOf, List.find?_append, Option.map_or]

/-- Members of the same names, equal where they have the name. -/
theorem memberOf_congr {a b : List (String × Json)}
    (h : List.Forall₂ (fun m m' => m.1 = m'.1 ∧ (m.1 = name → m.2 = m'.2)) a b) :
    memberOf a name = memberOf b name := by
  induction h with
  | nil => rfl
  | @cons m m' rest rest' hmembers _ ih =>
      obtain ⟨hname, hvalue⟩ := hmembers
      unfold memberOf at ih ⊢
      rw [List.find?_cons, List.find?_cons, ← hname]
      by_cases hm : m.1 = name
      · simp [hm, hvalue hm]
      · simpa [hm] using ih

/-- The field of a name, taken over from bodies that agree on it. -/
theorem memberOf_pickField {f : OptionalField} {a a' : List (String × Json)}
    (h : pickField body f = .ok a) (h' : pickField body' f = .ok a')
    (hsame : f.targetName = name → body.get f.sourceName = body'.get f.sourceName) :
    memberOf a name = memberOf a' name := by
  have hother : ∀ {b : JsonObject} {l : List (String × Json)}, pickField b f = .ok l →
      f.targetName ≠ name → memberOf l name = none := by
    intro b l hl hne
    unfold pickField at hl
    split at hl
    · cases hl
      rfl
    · case h_2 value _ =>
        cases hvalue : f.parser (some value) f.targetName with
        | error e =>
            rw [hvalue] at hl
            cases hl
        | ok v =>
            rw [hvalue] at hl
            cases hl
            simp [memberOf, hne]
  by_cases htarget : f.targetName = name
  · have hsource := hsame htarget
    unfold pickField at h h'
    rw [hsource, h'] at h
    rw [Except.ok.inj h]
  · rw [hother h htarget, hother h' htarget]

/-- The fields taken over from bodies that agree on those of a name. -/
theorem memberOf_pickOptional {fields : List OptionalField} {a a' : List (String × Json)}
    (h : pickOptional body fields = .ok a) (h' : pickOptional body' fields = .ok a')
    (hsame : ∀ f ∈ fields, f.targetName = name →
      body.get f.sourceName = body'.get f.sourceName) :
    memberOf a name = memberOf a' name := by
  induction fields generalizing a a' with
  | nil =>
      cases h
      cases h'
      rfl
  | cons f rest ih =>
      simp only [pickOptional, bind_eq_ok, pure_eq_ok] at h h'
      obtain ⟨first, hfirst, others, hothers, rfl⟩ := h
      obtain ⟨first', hfirst', others', hothers', rfl⟩ := h'
      rw [memberOf_append, memberOf_append,
        memberOf_pickField hfirst hfirst' (hsame f List.mem_cons_self),
        ih hothers hothers' (fun g hg => hsame g (List.mem_cons_of_mem _ hg))]

/-- **Payloads.**  Bodies that agree on what counts as authenticated are
normalized alike, the listed observations aside. -/
theorem memberOf_normalizedSkan {result result' : VerificationResult} {p p' : List (String × Json)}
    (hget : ∀ name, isAuthenticatedField name = true → body.get name = body'.get name)
    (hverified : isVerified result = isVerified result')
    (hp : normalizedSkan body result = .ok p) (hp' : normalizedSkan body' result' = .ok p')
    (hsignature : name ≠ "attribution_signature") (hextensions : name ≠ "extensions")
    (hpicked : ∀ f ∈ skanOptionalFields, f.targetName = name →
      body.get f.sourceName = body'.get f.sourceName) :
    memberOf p name = memberOf p' name := by
  simp only [normalizedSkan, bind_eq_ok, pure_eq_ok] at hp hp'
  obtain ⟨version, hversion, network, hnetwork, app, happ, transaction, htransaction, signature, -,
    won, hwon, optionals, hoptionals, -, -, rfl⟩ := hp
  obtain ⟨version', hversion', network', hnetwork', app', happ', transaction', htransaction',
    signature', -, won', hwon', optionals', hoptionals', -, -, rfl⟩ := hp'
  rw [hget "version" (by decide), hversion'] at hversion
  rw [hget "ad-network-id" (by decide), hnetwork'] at hnetwork
  rw [hget "app-id" (by decide), happ'] at happ
  rw [hget "transaction-id" (by decide), htransaction'] at htransaction
  rw [hget "did-win" (by decide), hwon'] at hwon
  cases hversion
  cases hnetwork
  cases happ
  cases htransaction
  cases hwon
  rw [memberOf_append, memberOf_append, memberOf_pickOptional hoptionals hoptionals' hpicked]
  congr 1
  apply memberOf_congr
  rw [hverified]
  refine .cons ⟨rfl, fun _ => rfl⟩ (.cons ⟨rfl, fun _ => rfl⟩ (.cons ⟨rfl, fun _ => rfl⟩
    (.cons ⟨rfl, fun _ => rfl⟩ (.cons ⟨rfl, fun _ => rfl⟩ (.cons ⟨rfl, fun h => ?_⟩
      (.cons ⟨rfl, fun _ => rfl⟩ (.cons ⟨rfl, fun _ => rfl⟩ (.cons ⟨rfl, fun h => ?_⟩ .nil))))))))
  · exact absurd h.symm hsignature
  · exact absurd h.symm hextensions

end Payload

section Determined

variable {body body' : JsonObject}

/-- An optional field keeps its name, and is authenticated or listed. -/
theorem skanOptionalField_name {f : OptionalField} (hf : f ∈ skanOptionalFields) :
    String.ofList (f.targetName.toList.map (fun c => if c = '_' then '-' else c)) = f.sourceName ∧
      (isAuthenticatedField f.sourceName = true ∨
        skanUnsignedFields.contains f.sourceName = true) := by
  simp only [skanOptionalFields, List.mem_cons, List.not_mem_nil, or_false] at hf
  rcases hf with rfl | rfl | rfl | rfl | rfl | rfl | rfl | rfl | rfl | rfl
  all_goals decide +kernel

theorem agrees_only_iff (keep : String → Bool) : (body.only keep).Agrees (body'.only keep) ↔
    ∀ name, keep name = true → body.get name = body'.get name := by
  constructor
  · intro h name hkeep
    have hname := h name
    rw [JsonObject.get_only, JsonObject.get_only, if_pos hkeep, if_pos hkeep] at hname
    exact hname
  · intro h name
    rw [JsonObject.get_only, JsonObject.get_only]
    split
    · case isTrue hkeep => exact h name hkeep
    · rfl

/-- What a verified postback is split into. -/
theorem verifySkAdNetworkPostback_verified {verify : String → String → Bool}
    (h : isVerified (verifySkAdNetworkPostback verify body) = true) :
    verifySkAdNetworkPostback verify body = .verified (body.only isAuthenticatedField)
        (body.only skanUnsignedFields.contains) .production ∧
      ∃ texts, skanSignedFields body = .ok texts := by
  unfold verifySkAdNetworkPostback at h ⊢
  dsimp only at h ⊢
  split at h
  · cases h
  · cases h
  · case h_3 hverified =>
      refine ⟨rfl, ?_⟩
      simp only [skanSignedMessage, bind_eq_ok, pure_eq_ok] at hverified
      obtain ⟨_, _, _, ⟨texts, htexts, _⟩, _⟩ := hverified
      exact ⟨texts, htexts⟩

/-- Postbacks authenticated as one object agree on what the text leaves
open. -/
theorem sameBesides_of_get
    (hget : ∀ name, isAuthenticatedField name = true → body.get name = body'.get name) :
    SameBesides body body' where
  source := by rw [hget "source-app-id" (by decide)]
  separators name hname := by
    have hfield : ∀ name ∈ ["version", "ad-network-id", "transaction-id", "source-identifier",
        "source-domain"], isAuthenticatedField name = true := by decide
    rw [hget name (hfield name hname)]
  others name hname _ := hget name hname

/-- **What the signature determines.**  Two verified postbacks with one signed
text are authenticated, and normalized, alike exactly when they agree on what
the text leaves open. -/
theorem signed_determines_iff (verify : String → String → Bool) (body body' : JsonObject)
    (hbody : isVerified (verifySkAdNetworkPostback verify body) = true)
    (hbody' : isVerified (verifySkAdNetworkPostback verify body') = true)
    (hmessage : skanSignedMessage body = skanSignedMessage body') :
    SignedDetermines body body' (verifySkAdNetworkPostback verify body)
      (verifySkAdNetworkPostback verify body') ↔ SameBesides body body' := by
  obtain ⟨hresult, texts, htexts⟩ := verifySkAdNetworkPostback_verified hbody
  obtain ⟨hresult', texts', htexts'⟩ := verifySkAdNetworkPostback_verified hbody'
  rw [hresult, hresult']
  constructor
  · intro h
    exact sameBesides_of_get ((agrees_only_iff _).mp (h.authenticated _ _ _ _ _ _ rfl rfl))
  · intro hsame
    have hjoin : JoinedText.join separator (texts.map String.toList) =
        JoinedText.join separator (texts'.map String.toList) := by
      simp only [skanSignedMessage, htexts, htexts'] at hmessage
      exact String.ofList_injective (Except.ok.inj hmessage)
    have hsigned := skanSignedFields_injective hsame htexts htexts' hjoin
    have hget : ∀ name, isAuthenticatedField name = true → body.get name = body'.get name := by
      intro name hname
      by_cases hmem : name ∈ skanSignedNames body
      · exact hsigned name hmem
      · exact hsame.others name hname hmem
    constructor
    · intro o u e o' u' e' h h'
      cases h
      cases h'
      exact (agrees_only_iff _).mpr hget
    · intro p p' hp hp' name hsignature hextensions hobserved hobserved'
      change normalizedSkan body _ = .ok p at hp
      change normalizedSkan body' _ = .ok p' at hp'
      have hverified : isVerified (.verified (body.only isAuthenticatedField)
          (body.only skanUnsignedFields.contains) .production) =
          isVerified (.verified (body'.only isAuthenticatedField)
            (body'.only skanUnsignedFields.contains) .production) := rfl
      refine memberOf_normalizedSkan hget hverified hp hp' hsignature hextensions ?_
      intro f hf htarget
      obtain ⟨hdashed, hkind⟩ := skanOptionalField_name hf
      rcases hkind with hfield | hlisted
      · exact hget _ hfield
      · -- an observation that neither postback lists is absent in both
        have habsent : ∀ b : JsonObject, f.sourceName ∉ (b.only skanUnsignedFields.contains).names →
            b.get f.sourceName = none := by
          intro b hb
          rw [JsonObject.mem_names, JsonObject.get_only, if_pos hlisted] at hb
          simpa using hb
        rw [← htarget] at hobserved hobserved'
        unfold IsObserved at hobserved hobserved'
        rw [hdashed] at hobserved hobserved'
        rw [habsent body hobserved, habsent body' hobserved']

end Determined

section Bodies

/-- A postback of version 4 that names its source app. -/
def winningMembers : List (String × Json) := [
  ("version", .str "4.0"),
  ("ad-network-id", .str "com.example"),
  ("source-identifier", .str "5239"),
  ("app-id", .num 525463029),
  ("transaction-id", .str "6aafb7a5-0170-41b5-bbe4-fe71dedf1e30"),
  ("redownload", .bool false),
  ("source-app-id", .num 1234567891),
  ("fidelity-type", .num 1),
  ("did-win", .bool true),
  ("postback-sequence-index", .num 0),
  ("attribution-signature", .str "MEUCIGRmSMrqedNu6uaHyhVc")]

/-- The postback as the network sends it. -/
def winningBody : JsonObject := ⟨winningMembers, by decide⟩

/-- The postback with its fine value. -/
def observedBody : JsonObject := ⟨("conversion-value", .num 20) :: winningMembers, by decide⟩

/-- The postback with a source domain beside its source app. -/
def domainBody : JsonObject :=
  ⟨winningMembers ++ [("source-domain", .str "attacker.example")], by decide⟩

/-- The key holder signed the text of the postback, and nothing else. -/
def signedOnce (message signature : String) : Bool :=
  match skanSignedMessage winningBody with
  | .ok signed => message = signed && signature = "MEUCIGRmSMrqedNu6uaHyhVc"
  | .error _ => false

/-- An observation beside the signed fields changes nothing. -/
theorem observation_determined :
    SignedDetermines winningBody observedBody (verifySkAdNetworkPostback signedOnce winningBody)
      (verifySkAdNetworkPostback signedOnce observedBody) := by
  have hverified : isVerified (verifySkAdNetworkPostback signedOnce winningBody) = true := by
    decide +kernel
  have hverified' : isVerified (verifySkAdNetworkPostback signedOnce observedBody) = true := by
    decide +kernel
  have hmessage : skanSignedMessage winningBody = skanSignedMessage observedBody := by
    decide +kernel
  refine (signed_determines_iff signedOnce winningBody observedBody hverified hverified'
    hmessage).mpr (sameBesides_of_get fun name hname => ?_)
  have hne : name ≠ "conversion-value" := by
    rintro rfl
    exact absurd hname (by decide)
  simp [JsonObject.get, winningBody, observedBody, hne.symm]

/-- **An unknown field is authenticated.**  A source domain beside the source
app is not signed, and becomes part of the authenticated object. -/
theorem unknown_field_authenticated :
    isVerified (verifySkAdNetworkPostback signedOnce winningBody) = true ∧
    isVerified (verifySkAdNetworkPostback signedOnce domainBody) = true ∧
    skanSignedMessage winningBody = skanSignedMessage domainBody ∧
    ¬ SignedDetermines winningBody domainBody (verifySkAdNetworkPostback signedOnce winningBody)
      (verifySkAdNetworkPostback signedOnce domainBody) := by
  have hverified : isVerified (verifySkAdNetworkPostback signedOnce winningBody) = true := by
    decide +kernel
  have hverified' : isVerified (verifySkAdNetworkPostback signedOnce domainBody) = true := by
    decide +kernel
  refine ⟨hverified, hverified', by decide +kernel, fun h => ?_⟩
  have hresult := (verifySkAdNetworkPostback_verified hverified).1
  have hresult' := (verifySkAdNetworkPostback_verified hverified').1
  have hget := (agrees_only_iff _).mp (h.authenticated _ _ _ _ _ _ hresult hresult') "source-domain"
    (by decide)
  have habsent : (winningBody.get "source-domain").isSome = false := by decide
  have hthere : (domainBody.get "source-domain").isSome = true := by decide
  rw [hget, hthere] at habsent
  cases habsent

end Bodies

end ApplePostback

end OpenMasu
