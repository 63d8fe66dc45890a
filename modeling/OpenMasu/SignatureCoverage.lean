import Std.Data.String.ToInt
import OpenMasu.JoinedText
import OpenMasu.NumberText
import OpenMasu.SdkRequestAuth

/-!
# What a signature covers

The signed text of a request joins eight fields by line ends.  Each field
keeps to characters of its own, none of them a line end, and the placeholder
of an absent installation key is read as absent by the verification too; so
the signed text determines the request.

* `isToken`, `isPathname` — methods and paths as they arrive;
* `Signable` — a request that passes the header checks;
* `signedText_determines` — the signed text determines the signed fields;
* `verifySdkRequest_respelled` — how an absent key is spelled does not matter;
* `signature_unambiguous` — both.
-/

namespace OpenMasu

section Characters

/-- The characters of an HTTP token. -/
def tokenCharacters : List Char :=
  ("!#$%&'*+-.^_`|~0123456789" ++
    "ABCDEFGHIJKLMNOPQRSTUVWXYZabcdefghijklmnopqrstuvwxyz").toList

/-- An HTTP token. -/
def isToken (s : String) : Bool := s ≠ "" && s.toList.all (· ∈ tokenCharacters)

/-- The path of a parsed URL: whatever is not printable ASCII is escaped. -/
def isPathname (s : String) : Bool :=
  s.toList.head? = some '/' && s.toList.all fun c => '!' ≤ c && c ≤ '~'

/-- What is relied on of the runtime: tokens are ASCII, and a digest is
written in hexadecimal. -/
structure RequestPrimitives.Documented (P : RequestPrimitives) : Prop where
  toUpperCase_token : ∀ s, isToken s → P.toUpperCase s = s.toUpper
  sha256_hex : ∀ body, isSignature (P.sha256 body)

/-- Only a line end is written as one in upper case. -/
theorem toUpper_ne_lineEnd {c : Char} (h : c ≠ '\n') : c.toUpper ≠ '\n' := by
  intro hupper
  unfold Char.toUpper at hupper
  split at hupper
  · case isTrue hlower =>
      have hlow : 97 ≤ c.val.toNat := hlower.1
      have hhigh : c.val.toNat ≤ 122 := hlower.2
      have hcode := congrArg Char.toNat hupper
      simp only [Char.toNat, UInt32.toNat_add, UInt32.toNat_sub] at hcode
      change (c.val.toNat + (2 ^ 32 - 97 + 65) % 2 ^ 32) % 2 ^ 32 = 10 at hcode
      omega
  · exact h hupper

/-- A method in capitals has no line end. -/
theorem lineEnd_notMem_upper {s : String} (h : isToken s) : '\n' ∉ s.toUpper.toList := by
  rw [isToken, Bool.and_eq_true, List.all_eq_true] at h
  have hplain : '\n' ∉ tokenCharacters := by decide
  rw [String.toUpper, String.toList_map, List.mem_map]
  intro hmem
  obtain ⟨c, hc, hupper⟩ := hmem
  refine toUpper_ne_lineEnd (fun hline => ?_) hupper
  exact hplain (hline ▸ of_decide_eq_true (h.2 c hc))

/-- Nor has a path. -/
theorem lineEnd_notMem_pathname {s : String} (h : isPathname s) : '\n' ∉ s.toList := by
  intro hmem
  rw [isPathname, Bool.and_eq_true, List.all_eq_true] at h
  exact absurd (h.2 '\n' hmem) (by decide)

/-- Nor has a natural number. -/
theorem lineEnd_notMem_repr (n : Nat) : '\n' ∉ n.repr.toList := by
  rw [Nat.repr, String.toList_ofList]
  exact NumberText.notMem_toDigits n '\n' (by decide)

/-- Nor has an integer. -/
theorem lineEnd_notMem_toString (n : Int) : '\n' ∉ (toString n).toList := by
  rw [Int.toString_eq_repr, Int.repr_eq_if]
  split
  · exact lineEnd_notMem_repr _
  · rw [String.toList_append, List.mem_append, not_or]
    exact ⟨by decide, lineEnd_notMem_repr _⟩

end Characters

section Coverage

variable (P : RequestPrimitives)

/-- A request that passes the header checks, as an HTTP server hands it over. -/
structure SdkRequest.Signable (r : SdkRequest) (timestampMs : Int) : Prop where
  headers : r.readHeaders P = some timestampMs
  method : isToken r.method
  path : isPathname r.path

/-- Two requests agree on everything that is signed. -/
structure SameSigned (r r' : SdkRequest) (timestampMs timestampMs' : Int) : Prop where
  method : P.toUpperCase r.method = P.toUpperCase r'.method
  path : r.path = r'.path
  sdkKeyId : r.sdkKeyId = r'.sdkKeyId
  installationKeyId : r.installationKeyId = r'.installationKeyId
  timestamp : timestampMs = timestampMs'
  nonce : r.nonce = r'.nonce
  body : r.body = r'.body

/-- Two requests differ only in how they spell an absent installation key. -/
structure SdkRequest.RespelledAs (r r' : SdkRequest) : Prop where
  absent : headerValue r.headers "x-openmasu-installation-key-id" ∈ ["", "-"]
  absent' : headerValue r'.headers "x-openmasu-installation-key-id" ∈ ["", "-"]
  headers : ∀ name ≠ "x-openmasu-installation-key-id", r.headers name = r'.headers name
  method : r.method = r'.method
  path : r.path = r'.path
  body : r.body = r'.body
  requireInstallation : r.requireInstallation = r'.requireInstallation

/-- The lines of the signed text. -/
def signedLines (r : SdkRequest) (timestampMs : Int) : List String :=
  ["openmasu-sdk-v1", P.toUpperCase r.method, r.path, r.sdkKeyId,
    r.installationKeyId.getD "-", toString timestampMs, r.nonce, P.sha256 r.body]

variable {P} {config : SdkAuthConfig} {r r' : SdkRequest} {t t' : Int}

/-- A present installation key is not the placeholder. -/
theorem installationKeyId_ne_placeholder {key : String} (h : r.installationKeyId = some key) :
    key ≠ "-" := by
  unfold SdkRequest.installationKeyId at h
  dsimp only at h
  split at h
  · case isTrue hpresent =>
      cases h
      exact hpresent.2
  · cases h

/-- The placeholder is no identifier, so a key and an absent one are told
apart. -/
theorem placeholder_injective (h : r.installationKeyId.getD "-" = r'.installationKeyId.getD "-") :
    r.installationKeyId = r'.installationKeyId := by
  cases hkey : r.installationKeyId with
  | none =>
      cases hkey' : r'.installationKeyId with
      | none => rfl
      | some key' =>
          rw [hkey, hkey'] at h
          exact absurd h.symm (installationKeyId_ne_placeholder hkey')
  | some key =>
      cases hkey' : r'.installationKeyId with
      | none =>
          rw [hkey, hkey'] at h
          exact absurd h (installationKeyId_ne_placeholder hkey)
      | some key' =>
          rw [hkey, hkey'] at h
          exact congrArg some h

/-- The checks that a request passed. -/
theorem readHeaders_checks (h : r.readHeaders P = some t) : isKeyId r.sdkKeyId = true ∧
    r.installationKeyId.all isKeyId = true ∧ isNonce r.nonce = true := by
  unfold SdkRequest.readHeaders at h
  split at h
  · cases h
  · split at h
    · case isTrue hchecks =>
        simp only [Bool.and_eq_true] at hchecks
        exact ⟨hchecks.1.1.1.1, hchecks.1.1.2, hchecks.1.2⟩
    · cases h

/-- No line of the signed text holds a line end. -/
theorem lineEnd_notMem_signedLines (hP : P.Documented) (h : r.Signable P t) :
    ∀ line ∈ (signedLines P r t).map String.toList, '\n' ∉ line := by
  obtain ⟨hkey, hinstallation, hnonce⟩ := readHeaders_checks h.headers
  have hplaceholder : '\n' ∉ (r.installationKeyId.getD "-").toList := by
    cases hid : r.installationKeyId with
    | none => decide
    | some key =>
        rw [hid] at hinstallation
        exact notMem_of_matchesClass hinstallation (by decide)
  intro line hline
  obtain ⟨s, hs, rfl⟩ := List.mem_map.mp hline
  simp only [signedLines, List.mem_cons, List.not_mem_nil, or_false] at hs
  rcases hs with rfl | rfl | rfl | rfl | rfl | rfl | rfl | rfl
  · decide
  · rw [hP.toUpperCase_token _ h.method]
    exact lineEnd_notMem_upper h.method
  · exact lineEnd_notMem_pathname h.path
  · exact notMem_of_matchesClass hkey (by decide)
  · exact hplaceholder
  · exact lineEnd_notMem_toString t
  · exact notMem_of_matchesClass hnonce (by decide)
  · exact notMem_of_matchesClass (hP.sha256_hex r.body) (by decide)

/-- The signed text determines the signed fields. -/
theorem signedText_determines (hP : P.Documented) (h : r.Signable P t) (h' : r'.Signable P t')
    (hdigest : P.sha256 r.body = P.sha256 r'.body → r.body = r'.body)
    (htext : sdkCanonicalString P r t = sdkCanonicalString P r' t') :
    SameSigned P r r' t t' := by
  have hjoin := congrArg String.toList htext
  simp only [sdkCanonicalString] at hjoin
  rw [JoinedText.toList_intercalate (c := '\n') rfl, JoinedText.toList_intercalate (c := '\n') rfl]
    at hjoin
  have hlines := JoinedText.eq_of_join_eq_of_notMem hjoin rfl
    (lineEnd_notMem_signedLines hP h) (lineEnd_notMem_signedLines hP h')
  simp only [List.map_cons, List.cons.injEq, String.toList_inj, List.map_nil, and_true, true_and]
    at hlines
  obtain ⟨hmethod, hpath, hkey, hinstallation, htimestamp, hnonce, hbody⟩ := hlines
  exact ⟨hmethod, hpath, hkey, placeholder_injective hinstallation,
    Int.repr_injective htimestamp, hnonce, hdigest hbody⟩

end Coverage

section Spelling

variable {P : RequestPrimitives} {config : SdkAuthConfig} {r r' : SdkRequest}

/-- The empty header and the placeholder are read as an absent key. -/
theorem installationKeyId_of_absent
    (h : headerValue r.headers "x-openmasu-installation-key-id" ∈ ["", "-"]) :
    r.installationKeyId = none := by
  simp only [List.mem_cons, List.not_mem_nil, or_false] at h
  unfold SdkRequest.installationKeyId
  dsimp only
  rw [if_neg]
  intro hpresent
  exact h.elim hpresent.1 hpresent.2

/-- Requests that read alike are verified alike. -/
theorem verifySdkRequest_congr {c : SdkCall} {nonces : List NonceRow}
    (hkey : c.request.sdkKeyId = r'.sdkKeyId)
    (hinstallation : c.request.installationKeyId = r'.installationKeyId)
    (htimestamp : c.request.timestampText = r'.timestampText)
    (hnonce : c.request.nonce = r'.nonce) (hsignature : c.request.signature = r'.signature)
    (hmethod : c.request.method = r'.method) (hpath : c.request.path = r'.path)
    (hbody : c.request.body = r'.body)
    (hrequire : c.request.requireInstallation = r'.requireInstallation) :
    verifySdkRequest P config { c with request := r' } nonces =
      verifySdkRequest P config c nonces := by
  have hactor : r'.actorRef = c.request.actorRef := by
    rw [SdkRequest.actorRef, SdkRequest.actorRef, hkey, hinstallation]
  have hheaders : r'.readHeaders P = c.request.readHeaders P := by
    rw [SdkRequest.readHeaders, SdkRequest.readHeaders, hkey, hinstallation, htimestamp, hnonce,
      hsignature, hrequire]
  have hsign : ∀ secret t, signSdkRequest P secret r' t = signSdkRequest P secret c.request t := by
    intro secret t
    rw [signSdkRequest, signSdkRequest, sdkCanonicalString, sdkCanonicalString, hmethod, hpath,
      hkey, hinstallation, hnonce, hbody]
  have hchecked : SdkCall.checked P config { c with request := r' } = c.checked P config := by
    simp only [SdkCall.checked, hheaders, hactor, hsign, ← hkey, ← hinstallation, ← hsignature,
      ← hbody, ← hnonce]
  have hclaim : ∀ i, SdkCall.claimNonce config { c with request := r' } i nonces =
      c.claimNonce config i nonces := by
    intro i
    unfold SdkCall.claimNonce
    dsimp only
    rw [hactor]
    rfl
  rw [verifySdkRequest, verifySdkRequest, hchecked]
  cases c.checked P config with
  | inr result => rfl
  | inl i => exact hclaim i

/-- How an absent installation key is spelled does not matter. -/
theorem verifySdkRequest_respelled {c : SdkCall} (h : c.request.RespelledAs r')
    (nonces : List NonceRow) : verifySdkRequest P config { c with request := r' } nonces =
      verifySdkRequest P config c nonces := by
  have hvalue : ∀ name, name ≠ "x-openmasu-installation-key-id" →
      headerValue c.request.headers name = headerValue r'.headers name := by
    intro name hname
    rw [headerValue, headerValue, h.headers name hname]
  exact verifySdkRequest_congr (hvalue _ (by decide))
    ((installationKeyId_of_absent h.absent).trans (installationKeyId_of_absent h.absent').symm)
    (hvalue _ (by decide)) (hvalue _ (by decide)) (hvalue _ (by decide))
    h.method h.path h.body h.requireInstallation

/-- A request without an installation key is accepted for its SDK key only. -/
theorem actorType_of_absent {c : SdkCall} {nonces : List NonceRow} {i : VerifiedSdkRequest}
    (hkey : c.request.installationKeyId = none)
    (hok : (verifySdkRequest P config c nonces).1 = .ok i) :
    i.principal.actorType = .sdkKey ∧ i.principal.installationKeyId = none := by
  have hchecked := (verifySdkRequest_ok hok).1
  unfold SdkCall.checked at hchecked
  dsimp only at hchecked
  split at hchecked
  · cases hchecked
  · rw [hkey] at hchecked
    split at hchecked
    · cases hchecked
    · cases hchecked
    · case h_3 principal secret hresolve =>
        split at hchecked
        · cases hchecked
        · split at hchecked
          · cases hchecked
          · cases hchecked
            unfold resolvePrincipal at hresolve
            dsimp only at hresolve
            split at hresolve
            · rw [withSecret_eq_active hresolve]
              exact ⟨rfl, rfl⟩
            · cases hresolve

end Spelling

section Law

variable {P : RequestPrimitives}

/-- The signed text determines every field of a request, and a request signed
for an SDK key is accepted as nothing else: not under another spelling of the
absent key, and not as any request with the same signed text. -/
theorem signature_unambiguous (hP : P.Documented) :
    (∀ (r r' : SdkRequest) (t t' : Int), r.Signable P t → r'.Signable P t' →
      (P.sha256 r.body = P.sha256 r'.body → r.body = r'.body) →
        sdkCanonicalString P r t = sdkCanonicalString P r' t' → SameSigned P r r' t t') ∧
    (∀ (config : SdkAuthConfig) (c : SdkCall) (respelled : SdkRequest) (nonces : List NonceRow),
      c.request.RespelledAs respelled →
        verifySdkRequest P config { c with request := respelled } nonces =
            verifySdkRequest P config c nonces ∧
          ∀ i, (verifySdkRequest P config { c with request := respelled } nonces).1 = .ok i →
            i.principal.actorType = .sdkKey ∧ i.principal.installationKeyId = none) ∧
    ∀ (config : SdkAuthConfig) (r : SdkRequest) (t t' : Int) (c : SdkCall)
      (nonces : List NonceRow) (i : VerifiedSdkRequest), r.Signable P t →
        r.installationKeyId = none → c.request.Signable P t' →
        sdkCanonicalString P r t = sdkCanonicalString P c.request t' →
        (P.sha256 r.body = P.sha256 c.request.body → r.body = c.request.body) →
        (verifySdkRequest P config c nonces).1 = .ok i → i.principal.actorType = .sdkKey := by
  refine ⟨fun r r' t t' h h' => signedText_determines hP h h', ?_, ?_⟩
  · intro config c respelled nonces h
    exact ⟨verifySdkRequest_respelled h nonces,
      fun i hok => actorType_of_absent (installationKeyId_of_absent h.absent') hok⟩
  · intro config r t t' c nonces i h hkey h' htext hdigest hok
    have hsame := signedText_determines hP h h' hdigest htext
    exact (actorType_of_absent (hsame.installationKeyId.symm.trans hkey) hok).1

/-- The functions of the runtime at an empty body and one timestamp. -/
def signingPrimitives : RequestPrimitives where
  toUpperCase := String.toUpper
  sha256 := fun body =>
    if body = [] then "e3b0c44298fc1c149afbf4c8996fb92427ae41e4649b934ca495991b7852b855"
    else String.ofList (List.replicate 64 'a')
  hmacSha256 := fun _ _ => String.ofList (List.replicate 64 'b')
  safeInteger := fun text => if text = "1000" then some 1000 else none

/-- A request without a body, with the installation key header as given. -/
def spelledRequest (installation : Option String) : SdkRequest where
  headers := fun name =>
    if name = "x-openmasu-sdk-key-id" then some "key"
    else if name = "x-openmasu-timestamp-ms" then some "1000"
    else if name = "x-openmasu-nonce" then some (String.ofList (List.replicate 22 'n'))
    else if name = "x-openmasu-signature" then some (String.ofList (List.replicate 64 'b'))
    else if name = "x-openmasu-installation-key-id" then installation
    else none
  method := "get"
  path := "/v1/config"
  body := []
  requireInstallation := false

/-- The functions of the example are as documented. -/
theorem signingPrimitives_documented : signingPrimitives.Documented where
  toUpperCase_token := fun _ _ => rfl
  sha256_hex := by
    intro body
    by_cases hbody : body = []
    · simp only [signingPrimitives, if_pos hbody]
      decide +kernel
    · simp only [signingPrimitives, if_neg hbody]
      decide +kernel

/-- A request as it arrives with a spelling of the absent key. -/
def spelledCall (installation : Option String) : SdkCall :=
  ⟨spelledRequest installation, replayControl, 1000⟩

set_option maxRecDepth 4000 in
/-- The spelled request is accepted. -/
theorem spelledCall_accepted : ∃ i,
    (verifySdkRequest signingPrimitives replayConfig (spelledCall (some "-")) []).1 = .ok i :=
  ⟨_, rfl⟩

/-- The absent key and the placeholder are signed as one text, and the request
with the placeholder is accepted as one of the SDK key. -/
theorem placeholder_unambiguous :
    SameSigned signingPrimitives (spelledRequest none) (spelledRequest (some "-")) 1000 1000 ∧
      ∃ i, (verifySdkRequest signingPrimitives replayConfig (spelledCall (some "-")) []).1 =
        .ok i ∧ i.principal.actorType = .sdkKey := by
  have hplain : (spelledRequest none).Signable signingPrimitives 1000 :=
    ⟨by decide +kernel, by decide +kernel, by decide +kernel⟩
  have hspelled : (spelledRequest (some "-")).Signable signingPrimitives 1000 :=
    ⟨by decide +kernel, by decide +kernel, by decide +kernel⟩
  have htext : sdkCanonicalString signingPrimitives (spelledRequest none) 1000 =
      sdkCanonicalString signingPrimitives (spelledRequest (some "-")) 1000 := by decide +kernel
  obtain ⟨hsigned, -, haccepted⟩ := signature_unambiguous signingPrimitives_documented
  obtain ⟨i, hok⟩ := spelledCall_accepted
  refine ⟨hsigned _ _ 1000 1000 hplain hspelled (fun _ => rfl) htext, i, hok, ?_⟩
  exact haccepted replayConfig _ 1000 1000 (spelledCall (some "-")) [] i hplain rfl hspelled htext
    (fun _ => rfl) hok

end Law

end OpenMasu
