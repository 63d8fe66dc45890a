import OpenMasu.Contract
import OpenMasu.ExpiringTable

/-!
# Signed SDK requests and their nonces

A signed request is verified in a fixed order: its headers, the key it names,
its signature, its timestamp against the clock, and last its nonce.  Only the
last step writes: in one transaction it deletes the nonces that have expired
and inserts the nonce of the request, which expires `nonceTtlMs` after the
clock.  A nonce that is there already refuses the request.

A request is accepted at two times at most `2 * timestampSkewMs` apart, so a
nonce that lives longer than that is there whenever its request is in the
window.

* `verifySdkRequest` — one call, its outcome and the nonces behind it;
* `SdkStep`, `noncesAfter`, `callResults` — calls and deletions, one after the
  other;
* `ReplayProtection` — no request is accepted twice, and a rejected one leaves
  no trace;
* `replay_protection` — the law.
-/

namespace OpenMasu

/-- The functions of the runtime that a verification calls: the two digests,
`toUpperCase`, and the safe integer that `Number` reads from a text. -/
structure RequestPrimitives where
  toUpperCase : String → String
  sha256 : List UInt8 → String
  hmacSha256 : String → String → String
  safeInteger : String → Option Int

structure SdkAuthConfig where
  scope : Scope
  timestampSkewMs : Int
  nonceTtlMs : Int

inductive SdkPlatform where
  | android
  | ios
  deriving DecidableEq

inductive SdkKeyStatus where
  | active
  | retired
  deriving DecidableEq

inductive CredentialStatus where
  | active
  | revoked
  | deleted
  deriving DecidableEq

/-- A row of `control.sdk_keys_current`. -/
structure SdkKeyRow where
  scope : Scope
  sdkKeyId : String
  secretRef : String
  platform : Option SdkPlatform
  status : SdkKeyStatus

/-- A row of `control.installation_credentials_current`. -/
structure InstallationCredentialRow where
  scope : Scope
  installationKeyId : String
  sdkKeyId : String
  installationIdDigest : String
  secretRef : String
  status : CredentialStatus

/-- What a call reads next to the nonces. -/
structure ControlPlane where
  apps : List Scope
  sdkKeys : List SdkKeyRow
  credentials : List InstallationCredentialRow
  /-- The payload store; a reference without a readable object throws. -/
  read : String → Option String

inductive SdkActorType where
  | sdkKey
  | sdkInstallation
  deriving DecidableEq

structure SdkPrincipal where
  scope : Scope
  sdkKeyId : String
  installationKeyId : Option String
  installationIdDigest : Option String
  secretRef : String
  actorType : SdkActorType
  platform : SdkPlatform
  deriving DecidableEq

/-- `principal_key_id` of a nonce. -/
def SdkPrincipal.keyId (p : SdkPrincipal) : String := p.installationKeyId.getD p.sdkKeyId

inductive Resolution where
  | inactive
  | unreadable
  | active (principal : SdkPrincipal) (secret : String)

/-- The principal with its secret, if that can be read. -/
def ControlPlane.withSecret (control : ControlPlane) (principal : SdkPrincipal) : Resolution :=
  match control.read principal.secretRef with
  | none => .unreadable
  | some secret => .active principal secret

/-- The active SDK key of an app. -/
def ControlPlane.activeKey (control : ControlPlane) (scope : Scope) (sdkKeyId : String) :
    Option SdkKeyRow :=
  control.sdkKeys.find? (fun k =>
    k.scope = scope && k.sdkKeyId = sdkKeyId && k.status = .active)

/-- The active credential of an installation. -/
def ControlPlane.activeCredential (control : ControlPlane) (scope : Scope)
    (installationKeyId sdkKeyId : String) : Option InstallationCredentialRow :=
  control.credentials.find? (fun c =>
    c.scope = scope && c.installationKeyId = installationKeyId && c.sdkKeyId = sdkKeyId &&
      c.status = .active)

def resolvePrincipal (control : ControlPlane) (config : SdkAuthConfig) (sdkKeyId : String) :
    Option String → Resolution
  | some installationKeyId =>
      match control.activeCredential config.scope installationKeyId sdkKeyId,
          control.activeKey config.scope sdkKeyId with
      | some credential, some sdk => control.withSecret {
          scope := config.scope
          sdkKeyId := credential.sdkKeyId
          installationKeyId := some credential.installationKeyId
          installationIdDigest := some credential.installationIdDigest
          secretRef := credential.secretRef
          actorType := .sdkInstallation
          platform := sdk.platform.getD .android }
      | _, _ => .inactive
  | none =>
      match control.activeKey config.scope sdkKeyId with
      | some sdk => control.withSecret {
          scope := config.scope
          sdkKeyId := sdk.sdkKeyId
          installationKeyId := none
          installationIdDigest := none
          secretRef := sdk.secretRef
          actorType := .sdkKey
          platform := sdk.platform.getD .android }
      | none => .inactive

structure SdkRequest where
  headers : String → Option String
  method : String
  path : String
  body : List UInt8
  requireInstallation : Bool

/-- A header that came once; a missing or repeated one reads as empty. -/
def headerValue (headers : String → Option String) (name : String) : String :=
  (headers name).getD ""

namespace SdkRequest

variable (r : SdkRequest)

def sdkKeyId : String := headerValue r.headers "x-openmasu-sdk-key-id"

def installationKeyId : Option String :=
  let header := headerValue r.headers "x-openmasu-installation-key-id"
  if header ≠ "" ∧ header ≠ "-" then some header else none

def timestampText : String := headerValue r.headers "x-openmasu-timestamp-ms"

def nonce : String := headerValue r.headers "x-openmasu-nonce"

def signature : String := headerValue r.headers "x-openmasu-signature"

def actorRef : String :=
  match r.installationKeyId with
  | some key => "sdk_installation:" ++ key
  | none => "sdk_key:" ++ if r.sdkKeyId = "" then "unknown" else r.sdkKeyId

end SdkRequest

section Patterns

def isWordChar (c : Char) : Bool :=
  ('A' ≤ c && c ≤ 'Z') || ('a' ≤ c && c ≤ 'z') || ('0' ≤ c && c ≤ '9')

/-- A text of so many characters of a class. -/
def matchesClass (allowed : Char → Bool) (least most : Nat) (text : String) : Bool :=
  let chars := text.toList
  least ≤ chars.length && chars.length ≤ most && chars.all allowed

def isKeyId : String → Bool :=
  matchesClass (fun c => isWordChar c || c = '.' || c = '_' || c = ':' || c = '-') 1 128

def isNonce : String → Bool := matchesClass (fun c => isWordChar c || c = '_' || c = '-') 22 128

def isSignature : String → Bool :=
  matchesClass (fun c => ('a' ≤ c && c ≤ 'f') || ('0' ≤ c && c ≤ '9')) 64 64

variable {allowed : Char → Bool} {least most : Nat} {s : String}

/-- A text is of a class where its length and all its characters are. -/
theorem matchesClass_eq_true : matchesClass allowed least most s = true ↔
    (least ≤ s.toList.length ∧ s.toList.length ≤ most) ∧ ∀ c ∈ s.toList, allowed c = true := by
  rw [matchesClass]
  simp only [Bool.and_eq_true, decide_eq_true_eq, List.all_eq_true]

/-- A character outside the class does not occur in the text. -/
theorem notMem_of_matchesClass {c : Char} (h : matchesClass allowed least most s = true)
    (hc : allowed c = false) : c ∉ s.toList := by
  intro hmem
  exact absurd ((matchesClass_eq_true.mp h).2 c hmem) (Bool.eq_false_iff.mp hc)

end Patterns

/-- The timestamp of a request whose headers are well formed. -/
def SdkRequest.readHeaders (P : RequestPrimitives) (r : SdkRequest) : Option Int :=
  match P.safeInteger r.timestampText with
  | none => none
  | some timestampMs =>
      if isKeyId r.sdkKeyId && (!r.requireInstallation || r.installationKeyId.isSome) &&
          r.installationKeyId.all isKeyId && isNonce r.nonce && isSignature r.signature then
        some timestampMs
      else none

def sdkCanonicalString (P : RequestPrimitives) (r : SdkRequest) (timestampMs : Int) : String :=
  "\n".intercalate ["openmasu-sdk-v1", P.toUpperCase r.method, r.path, r.sdkKeyId,
    r.installationKeyId.getD "-", toString timestampMs, r.nonce, P.sha256 r.body]

def signSdkRequest (P : RequestPrimitives) (secret : String) (r : SdkRequest)
    (timestampMs : Int) : String :=
  P.hmacSha256 secret (sdkCanonicalString P r timestampMs)

inductive SdkAuthReason where
  | headersInvalid
  | keyInactive
  | signatureInvalid
  | timestampOutOfWindow
  | nonceReused
  deriving DecidableEq

structure SdkAuthFailure where
  reason : SdkAuthReason
  requestDigest : String
  actorRef : String
  deriving DecidableEq

structure VerifiedSdkRequest where
  principal : SdkPrincipal
  timestampMs : Int
  nonce : String
  requestDigest : String
  deriving DecidableEq

/-- What a call comes to; a call throws where the payload store or the
database does. -/
inductive SdkAuthResult where
  | ok (identity : VerifiedSdkRequest)
  | failed (failure : SdkAuthFailure)
  | threw
  deriving DecidableEq

/-- The primary key of `ephemeral.request_nonces`. -/
structure NonceKey where
  scope : Scope
  principalType : SdkActorType
  principalKeyId : String
  nonce : String
  deriving DecidableEq

/-- A row of `ephemeral.request_nonces`. -/
structure NonceRow where
  key : NonceKey
  timestampMs : Int
  createdAt : Int
  expiresAt : Int
  deriving DecidableEq

def VerifiedSdkRequest.key (i : VerifiedSdkRequest) : NonceKey where
  scope := i.principal.scope
  principalType := i.principal.actorType
  principalKeyId := i.principal.keyId
  nonce := i.nonce

/-- The principal, timestamp and nonce of two accepted calls are the same. -/
def VerifiedSdkRequest.Replays (i j : VerifiedSdkRequest) : Prop :=
  i.principal.actorType = j.principal.actorType ∧ i.principal.keyId = j.principal.keyId ∧
    i.timestampMs = j.timestampMs ∧ i.nonce = j.nonce

/-- A call: the request, the control plane it finds and the clock. -/
structure SdkCall where
  request : SdkRequest
  control : ControlPlane
  nowMs : Int

section Verification

variable (P : RequestPrimitives) (config : SdkAuthConfig)

/-- The checks before the nonce: the identity they establish, or how the call
ends without it. -/
def SdkCall.checked (c : SdkCall) : VerifiedSdkRequest ⊕ SdkAuthResult :=
  let r := c.request
  let requestDigest := P.sha256 r.body
  let failed (reason : SdkAuthReason) : VerifiedSdkRequest ⊕ SdkAuthResult :=
    .inr (.failed ⟨reason, requestDigest, r.actorRef⟩)
  match r.readHeaders P with
  | none => failed .headersInvalid
  | some timestampMs =>
      match resolvePrincipal c.control config r.sdkKeyId r.installationKeyId with
      | .inactive => failed .keyInactive
      | .unreadable => .inr .threw
      | .active principal secret =>
          if r.signature ≠ signSdkRequest P secret r timestampMs then failed .signatureInvalid
          else if config.timestampSkewMs < |c.nowMs - timestampMs| then
            failed .timestampOutOfWindow
          else .inl ⟨principal, timestampMs, r.nonce, requestDigest⟩

/-- The row that a call inserts. -/
def SdkCall.row (c : SdkCall) (i : VerifiedSdkRequest) : NonceRow where
  key := i.key
  timestampMs := i.timestampMs
  createdAt := c.nowMs
  expiresAt := c.nowMs + config.nonceTtlMs

/-- The nonces that have not expired at the clock. -/
def SdkCall.unexpired (c : SdkCall) (nonces : List NonceRow) : List NonceRow :=
  ExpiringTable.dropExpired NonceRow.expiresAt c.nowMs (fun _ => true) nonces

/-- The transaction behind the checks.  A row that breaks a constraint throws,
and the deletion goes with it; the constraint on the two times comes before
the key, the one on the app behind it. -/
def SdkCall.claimNonce (c : SdkCall) (i : VerifiedSdkRequest) (nonces : List NonceRow) :
    SdkAuthResult × List NonceRow :=
  let row := c.row config i
  let kept := c.unexpired nonces
  if ¬ row.createdAt < row.expiresAt then (.threw, nonces)
  else if row.key ∈ kept.map NonceRow.key then
    (.failed ⟨.nonceReused, i.requestDigest, c.request.actorRef⟩, kept)
  else if i.principal.scope ∉ c.control.apps then (.threw, nonces)
  else (.ok i, ExpiringTable.insertNew NonceRow.key row kept)

/-- One call, with the nonces behind it. -/
def verifySdkRequest (c : SdkCall) (nonces : List NonceRow) : SdkAuthResult × List NonceRow :=
  match c.checked P config with
  | .inr result => (result, nonces)
  | .inl identity => c.claimNonce config identity nonces

end Verification

section VerificationFacts

variable {P : RequestPrimitives} {config : SdkAuthConfig}

/-- Reading the secret does not change the principal. -/
theorem withSecret_eq_active {control : ControlPlane} {p q : SdkPrincipal} {secret : String}
    (h : control.withSecret p = .active q secret) : q = p := by
  unfold ControlPlane.withSecret at h
  split at h
  · cases h
  · cases h
    rfl

/-- A principal is one of the configured app. -/
theorem resolvePrincipal_scope {control : ControlPlane} {sdkKeyId : String}
    {installationKeyId : Option String} {p : SdkPrincipal} {secret : String}
    (h : resolvePrincipal control config sdkKeyId installationKeyId = .active p secret) :
    p.scope = config.scope := by
  unfold resolvePrincipal at h
  split at h
  · split at h
    · rw [withSecret_eq_active h]
    · cases h
  · split at h
    · rw [withSecret_eq_active h]
    · cases h

variable (P config) in
/-- How the checks end: with an error of the store, with a refusal that is not
for the nonce, or with a principal of the app in the window. -/
theorem SdkCall.checked_cases (c : SdkCall) : c.checked P config = .inr .threw ∨
    (∃ failure, c.checked P config = .inr (.failed failure) ∧ failure.reason ≠ .nonceReused) ∨
    ∃ i, c.checked P config = .inl i ∧ i.principal.scope = config.scope ∧
      |c.nowMs - i.timestampMs| ≤ config.timestampSkewMs := by
  unfold SdkCall.checked
  dsimp only
  split
  · exact .inr (.inl ⟨_, rfl, nofun⟩)
  · split
    · exact .inr (.inl ⟨_, rfl, nofun⟩)
    · exact .inl rfl
    · rename_i hprincipal
      split
      · exact .inr (.inl ⟨_, rfl, nofun⟩)
      · split
        · exact .inr (.inl ⟨_, rfl, nofun⟩)
        · rename_i hwindow
          exact .inr (.inr ⟨_, rfl, resolvePrincipal_scope hprincipal, not_lt.mp hwindow⟩)

/-- The checks let only requests of the app pass, and only in the window. -/
theorem SdkCall.checked_eq_inl {c : SdkCall} {i : VerifiedSdkRequest}
    (h : c.checked P config = .inl i) :
    i.principal.scope = config.scope ∧ |c.nowMs - i.timestampMs| ≤ config.timestampSkewMs := by
  rcases c.checked_cases P config with hthrew | ⟨_, hfailed, -⟩ | ⟨j, hj, hfacts⟩
  · cases h.symm.trans hthrew
  · cases h.symm.trans hfailed
  · cases h.symm.trans hj
    exact hfacts

/-- The checks themselves refuse nothing for its nonce. -/
theorem SdkCall.checked_eq_inr {c : SdkCall} {failure : SdkAuthFailure}
    (h : c.checked P config = .inr (.failed failure)) : failure.reason ≠ .nonceReused := by
  rcases c.checked_cases P config with hthrew | ⟨_, hfailed, hreason⟩ | ⟨_, hj, -⟩
  · cases h.symm.trans hthrew
  · cases h.symm.trans hfailed
    exact hreason
  · cases h.symm.trans hj

/-- The checks alone accept nothing. -/
theorem SdkCall.checked_ne_ok {c : SdkCall} {i : VerifiedSdkRequest} :
    c.checked P config ≠ .inr (.ok i) := by
  intro h
  rcases c.checked_cases P config with hthrew | ⟨_, hfailed, -⟩ | ⟨_, hj, -⟩
  · cases h.symm.trans hthrew
  · cases h.symm.trans hfailed
  · cases h.symm.trans hj

/-- An accepted call passed the checks, found its nonce free and inserted it. -/
theorem SdkCall.claimNonce_ok {c : SdkCall} {i j : VerifiedSdkRequest} {nonces : List NonceRow}
    (h : (c.claimNonce config i nonces).1 = .ok j) :
    j = i ∧ i.key ∉ (c.unexpired nonces).map NonceRow.key ∧
      (c.claimNonce config i nonces).2 =
        ExpiringTable.insertNew NonceRow.key (c.row config i) (c.unexpired nonces) := by
  unfold SdkCall.claimNonce at h ⊢
  dsimp only at h ⊢
  split at h
  · cases h
  · rename_i htimes
    rw [if_neg htimes]
    split at h
    · cases h
    · rename_i hkey
      rw [if_neg hkey]
      split at h
      · cases h
      · rename_i happ
        rw [if_neg happ]
        cases h
        exact ⟨rfl, hkey, rfl⟩

/-- A nonce is refused only for having been used, while its row has not
expired. -/
theorem SdkCall.claimNonce_failed {c : SdkCall} {i : VerifiedSdkRequest} {nonces : List NonceRow}
    {failure : SdkAuthFailure} (h : (c.claimNonce config i nonces).1 = .failed failure) :
    failure.reason = .nonceReused ∧ i.key ∈ (c.unexpired nonces).map NonceRow.key := by
  unfold SdkCall.claimNonce at h
  dsimp only at h
  split at h
  · cases h
  · split at h
    · rename_i hkey
      cases h
      exact ⟨rfl, hkey⟩
    · split at h
      · cases h
      · cases h

variable (config) in
/-- The nonces behind the transaction are those before it, those that have not
expired, or these and the row of the accepted call. -/
theorem SdkCall.claimNonce_nonces (c : SdkCall) (i : VerifiedSdkRequest) (nonces : List NonceRow) :
    (c.claimNonce config i nonces).2 = nonces ∨
      (c.claimNonce config i nonces).2 = c.unexpired nonces ∨
      (c.claimNonce config i nonces).1 = .ok i ∧ (c.claimNonce config i nonces).2 =
        ExpiringTable.insertNew NonceRow.key (c.row config i) (c.unexpired nonces) := by
  unfold SdkCall.claimNonce
  dsimp only
  split
  · exact .inl rfl
  · split
    · exact .inr (.inl rfl)
    · split
      · exact .inl rfl
      · exact .inr (.inr ⟨rfl, rfl⟩)

/-- Behind the checks the nonce decides. -/
theorem verifySdkRequest_of_inl {c : SdkCall} {i : VerifiedSdkRequest} {nonces : List NonceRow}
    (h : c.checked P config = .inl i) :
    verifySdkRequest P config c nonces = c.claimNonce config i nonces := by
  rw [verifySdkRequest, h]

/-- A request that fails a check leaves the nonces alone. -/
theorem verifySdkRequest_of_inr {c : SdkCall} {result : SdkAuthResult} {nonces : List NonceRow}
    (h : c.checked P config = .inr result) :
    verifySdkRequest P config c nonces = (result, nonces) := by
  rw [verifySdkRequest, h]

/-- What an accepted call did. -/
theorem verifySdkRequest_ok {c : SdkCall} {i : VerifiedSdkRequest} {nonces : List NonceRow}
    (h : (verifySdkRequest P config c nonces).1 = .ok i) :
    c.checked P config = .inl i ∧ i.key ∉ (c.unexpired nonces).map NonceRow.key ∧
      (verifySdkRequest P config c nonces).2 =
        ExpiringTable.insertNew NonceRow.key (c.row config i) (c.unexpired nonces) := by
  cases hchecked : c.checked P config with
  | inr result =>
      rw [verifySdkRequest_of_inr hchecked] at h
      change result = .ok i at h
      rw [h] at hchecked
      exact absurd hchecked SdkCall.checked_ne_ok
  | inl j =>
      rw [verifySdkRequest_of_inl hchecked] at h ⊢
      obtain ⟨rfl, hfree, hnonces⟩ := SdkCall.claimNonce_ok h
      exact ⟨rfl, hfree, hnonces⟩

/-- A call that is refused for its nonce passed the checks. -/
theorem verifySdkRequest_reused {c : SdkCall} {failure : SdkAuthFailure} {nonces : List NonceRow}
    (h : (verifySdkRequest P config c nonces).1 = .failed failure)
    (hreason : failure.reason = .nonceReused) :
    ∃ i, c.checked P config = .inl i ∧ i.key ∈ (c.unexpired nonces).map NonceRow.key := by
  cases hchecked : c.checked P config with
  | inr result =>
      rw [verifySdkRequest_of_inr hchecked] at h
      change result = .failed failure at h
      rw [h] at hchecked
      exact absurd hreason (SdkCall.checked_eq_inr hchecked)
  | inl i =>
      rw [verifySdkRequest_of_inl hchecked] at h
      exact ⟨i, rfl, (SdkCall.claimNonce_failed h).2⟩

/-- A call that fails for another reason leaves the nonces as they were. -/
theorem verifySdkRequest_failed {c : SdkCall} {failure : SdkAuthFailure} {nonces : List NonceRow}
    (h : (verifySdkRequest P config c nonces).1 = .failed failure)
    (hreason : failure.reason ≠ .nonceReused) :
    (verifySdkRequest P config c nonces).2 = nonces := by
  cases hchecked : c.checked P config with
  | inr result => rw [verifySdkRequest_of_inr hchecked]
  | inl i =>
      rw [verifySdkRequest_of_inl hchecked] at h
      exact absurd (SdkCall.claimNonce_failed h).1 hreason

end VerificationFacts

section Runs

variable (P : RequestPrimitives) (config : SdkAuthConfig)

/-- A step of a run: a call, or a deletion of nonces that have expired. -/
inductive SdkStep where
  | verify (call : SdkCall)
  | collect (nowMs : Int) (chosen : NonceRow → Bool)

def SdkStep.nowMs : SdkStep → Int
  | verify call => call.nowMs
  | collect nowMs _ => nowMs

/-- The nonces behind a step. -/
def SdkStep.apply (nonces : List NonceRow) : SdkStep → List NonceRow
  | verify call => (verifySdkRequest P config call nonces).2
  | collect nowMs chosen => ExpiringTable.dropExpired NonceRow.expiresAt nowMs chosen nonces

/-- The result of a step, where it is a call. -/
def SdkStep.results (nonces : List NonceRow) : SdkStep → List SdkAuthResult
  | verify call => [(verifySdkRequest P config call nonces).1]
  | collect _ _ => []

/-- The nonces behind a run. -/
def noncesAfter (nonces : List NonceRow) : List SdkStep → List NonceRow
  | [] => nonces
  | s :: rest => noncesAfter (s.apply P config nonces) rest

/-- The results of the calls of a run, in order. -/
def callResults (nonces : List NonceRow) : List SdkStep → List SdkAuthResult
  | [] => []
  | s :: rest => s.results P config nonces ++ callResults (s.apply P config nonces) rest

/-- **Replay protection.**  No two calls of a run with the principal, timestamp
and nonce of each other are both accepted.  A call that is rejected for an
inactive key, its signature or its timestamp leaves the nonces as they were,
and every other call ends as it would without it.  A call is refused for its
nonce only where an accepted call bore it, or the run found it there. -/
structure ReplayProtection (nonces : List NonceRow) (steps : List SdkStep) : Prop where
  once : (callResults P config nonces steps).Pairwise (fun a b =>
    ∀ i j, a = .ok i → b = .ok j → ¬ i.Replays j)
  harmless : ∀ before call rest, steps = before ++ .verify call :: rest → ∀ failure,
    (verifySdkRequest P config call (noncesAfter P config nonces before)).1 = .failed failure →
    failure.reason ∈ [.keyInactive, .signatureInvalid, .timestampOutOfWindow] →
      noncesAfter P config nonces (before ++ [.verify call]) =
        noncesAfter P config nonces before ∧
      callResults P config nonces (before ++ rest) =
        (callResults P config nonces steps).eraseIdx (callResults P config nonces before).length
  refused : ∀ before call rest, steps = before ++ .verify call :: rest → ∀ failure,
    (verifySdkRequest P config call (noncesAfter P config nonces before)).1 = .failed failure →
    failure.reason = .nonceReused →
      ∃ i, call.checked P config = .inl i ∧ (i.key ∈ nonces.map NonceRow.key ∨
        ∃ j, .ok j ∈ callResults P config nonces before ∧ j.key = i.key)

end Runs

section RunFacts

open ExpiringTable

variable {P : RequestPrimitives} {config : SdkAuthConfig}

/-- The nonces of a run are those of its second part behind the first. -/
theorem noncesAfter_append (nonces : List NonceRow) (before rest : List SdkStep) :
    noncesAfter P config nonces (before ++ rest) =
      noncesAfter P config (noncesAfter P config nonces before) rest := by
  induction before generalizing nonces with
  | nil => rfl
  | cons s before ih => exact ih _

/-- So are its results. -/
theorem callResults_append (nonces : List NonceRow) (before rest : List SdkStep) :
    callResults P config nonces (before ++ rest) = callResults P config nonces before ++
      callResults P config (noncesAfter P config nonces before) rest := by
  induction before generalizing nonces with
  | nil => rfl
  | cons s before ih =>
      rw [List.cons_append, callResults, callResults, noncesAfter, ih, List.append_assoc]

/-- A step keeps what is held until its own time or later. -/
theorem SdkStep.holds_apply {s : SdkStep} {nonces : List NonceRow} {k : NonceKey} {time : Int}
    (hnow : s.nowMs ≤ time) (h : Holds NonceRow.key NonceRow.expiresAt nonces k time) :
    Holds NonceRow.key NonceRow.expiresAt (s.apply P config nonces) k time := by
  cases s with
  | collect nowMs chosen => exact h.dropExpired hnow
  | verify call =>
      have hkept : Holds NonceRow.key NonceRow.expiresAt (call.unexpired nonces) k time :=
        h.dropExpired hnow
      change Holds _ _ (verifySdkRequest P config call nonces).2 k time
      cases hchecked : call.checked P config with
      | inr result =>
          rw [verifySdkRequest_of_inr hchecked]
          exact h
      | inl i =>
          rw [verifySdkRequest_of_inl hchecked]
          rcases call.claimNonce_nonces config i nonces with hsame | hdrop | ⟨-, hnew⟩
          · rw [hsame]
            exact h
          · rw [hdrop]
            exact hkept
          · rw [hnew]
            exact hkept.insertNew

/-- Behind an accepted call its nonce is held for as long as its timestamp can
be in the window. -/
theorem holds_of_accepted {c : SdkCall} {i : VerifiedSdkRequest} {nonces : List NonceRow}
    (hwindow : 2 * config.timestampSkewMs < config.nonceTtlMs)
    (h : (verifySdkRequest P config c nonces).1 = .ok i) :
    Holds NonceRow.key NonceRow.expiresAt (verifySdkRequest P config c nonces).2 i.key
      (i.timestampMs + config.timestampSkewMs) := by
  obtain ⟨hchecked, hfree, hnonces⟩ := verifySdkRequest_ok h
  rw [hnonces]
  refine ⟨c.row config i, mem_insertNew_self hfree, rfl, ?_⟩
  have hclose := abs_le.mp (SdkCall.checked_eq_inl hchecked).2
  change i.timestampMs + config.timestampSkewMs < c.nowMs + config.nonceTtlMs
  omega

/-- A held nonce refuses the requests that bear it and are in the window. -/
theorem not_replays_of_holds {c : SdkCall} {i j : VerifiedSdkRequest} {nonces : List NonceRow}
    (hscope : i.principal.scope = config.scope)
    (hheld : Holds NonceRow.key NonceRow.expiresAt nonces i.key
      (i.timestampMs + config.timestampSkewMs))
    (hj : (verifySdkRequest P config c nonces).1 = .ok j) : ¬ i.Replays j := by
  rintro ⟨htype, hkeyId, htimestamp, hnonce⟩
  obtain ⟨hchecked, hfree, -⟩ := verifySdkRequest_ok hj
  obtain ⟨hscopej, hwindow⟩ := SdkCall.checked_eq_inl hchecked
  have hkey : i.key = j.key := by
    unfold VerifiedSdkRequest.key
    rw [hscope, hscopej, htype, hkeyId, hnonce]
  have hnow : c.nowMs ≤ i.timestampMs + config.timestampSkewMs := by
    have hclose := abs_le.mp hwindow
    omega
  have hkept : Holds NonceRow.key NonceRow.expiresAt (c.unexpired nonces) i.key
      (i.timestampMs + config.timestampSkewMs) := hheld.dropExpired hnow
  exact hfree (hkey ▸ hkept.key_mem)

/-- Behind the window of a request no call accepts it. -/
theorem not_replays_of_late {c : SdkCall} {i j : VerifiedSdkRequest} {nonces : List NonceRow}
    (hlate : i.timestampMs + config.timestampSkewMs < c.nowMs)
    (hj : (verifySdkRequest P config c nonces).1 = .ok j) : ¬ i.Replays j := by
  rintro ⟨-, -, htimestamp, -⟩
  have hclose := abs_le.mp (SdkCall.checked_eq_inl (verifySdkRequest_ok hj).1).2
  omega

/-- A result is one of a call. -/
theorem mem_results {s : SdkStep} {nonces : List NonceRow} {result : SdkAuthResult}
    (h : result ∈ s.results P config nonces) :
    ∃ call, s = .verify call ∧ (verifySdkRequest P config call nonces).1 = result := by
  cases s with
  | verify call => exact ⟨call, rfl, (List.mem_singleton.mp h).symm⟩
  | collect nowMs chosen => cases h

/-- From a state on in which the nonce of an accepted call is held until the
end of its window, no call of a run repeats it.  The invariant is that the
nonce is held, until the clock has left the window. -/
theorem not_replays_of_run {i : VerifiedSdkRequest} (hscope : i.principal.scope = config.scope)
    (steps : List SdkStep) (hclock : (steps.map SdkStep.nowMs).Pairwise (· ≤ ·))
    (nonces : List NonceRow)
    (hheld : Holds NonceRow.key NonceRow.expiresAt nonces i.key
        (i.timestampMs + config.timestampSkewMs) ∨
      ∀ s ∈ steps, i.timestampMs + config.timestampSkewMs < s.nowMs) :
    ∀ j, .ok j ∈ callResults P config nonces steps → ¬ i.Replays j := by
  induction steps generalizing nonces with
  | nil =>
      intro j hj
      cases hj
  | cons s rest ih =>
      intro j hj
      obtain ⟨hfirst, hrest⟩ := List.pairwise_cons.mp hclock
      rw [callResults] at hj
      rcases List.mem_append.mp hj with hj | hj
      · obtain ⟨call, rfl, hcall⟩ := mem_results hj
        rcases hheld with hheld | hlate
        · exact not_replays_of_holds hscope hheld hcall
        · exact not_replays_of_late (hlate _ List.mem_cons_self) hcall
      · refine ih hrest _ ?_ j hj
        rcases hheld with hheld | hlate
        · by_cases hnow : s.nowMs ≤ i.timestampMs + config.timestampSkewMs
          · exact .inl (SdkStep.holds_apply hnow hheld)
          · refine .inr fun t ht => ?_
            have hle := hfirst _ (List.mem_map_of_mem ht)
            omega
        · exact .inr fun t ht => hlate t (List.mem_cons_of_mem _ ht)

/-- In a run no accepted call replays another, since the nonce of the first is
still stored when the second comes. -/
theorem callResults_pairwise (hwindow : 2 * config.timestampSkewMs < config.nonceTtlMs)
    (steps : List SdkStep) (hclock : (steps.map SdkStep.nowMs).Pairwise (· ≤ ·))
    (nonces : List NonceRow) : (callResults P config nonces steps).Pairwise (fun a b =>
      ∀ i j, a = .ok i → b = .ok j → ¬ i.Replays j) := by
  induction steps generalizing nonces with
  | nil => exact List.Pairwise.nil
  | cons s rest ih =>
      have hrest := (List.pairwise_cons.mp hclock).2
      rw [callResults]
      cases s with
      | collect nowMs chosen => exact ih hrest _
      | verify call =>
          refine List.pairwise_cons.mpr ⟨?_, ih hrest _⟩
          rintro _ hb i j haccepted rfl
          have hscope := (SdkCall.checked_eq_inl (verifySdkRequest_ok haccepted).1).1
          exact not_replays_of_run hscope rest hrest _ (.inl (holds_of_accepted hwindow haccepted)) j hb

/-- A key in the table was there before the step, or its call was accepted. -/
theorem SdkStep.mem_apply {s : SdkStep} {nonces : List NonceRow} {row : NonceRow}
    (h : row ∈ s.apply P config nonces) :
    row ∈ nonces ∨ ∃ i, .ok i ∈ s.results P config nonces ∧ i.key = row.key := by
  cases s with
  | collect nowMs chosen => exact .inl (mem_of_mem_dropExpired h)
  | verify call =>
      change row ∈ (verifySdkRequest P config call nonces).2 at h
      change row ∈ nonces ∨ ∃ i, .ok i ∈ [(verifySdkRequest P config call nonces).1] ∧ i.key = row.key
      cases hchecked : call.checked P config with
      | inr result =>
          rw [verifySdkRequest_of_inr hchecked] at h
          exact .inl h
      | inl i =>
          rw [verifySdkRequest_of_inl hchecked] at h ⊢
          rcases call.claimNonce_nonces config i nonces with hsame | hdrop | ⟨hok, hnew⟩
          · rw [hsame] at h
            exact .inl h
          · rw [hdrop] at h
            exact .inl (mem_of_mem_dropExpired h)
          · rw [hnew] at h
            rcases mem_insertNew h with h | rfl
            · exact .inl (mem_of_mem_dropExpired h)
            · exact .inr ⟨i, List.mem_singleton.mpr hok.symm, rfl⟩

/-- Every key behind a run was there at its start or is that of an accepted
call. -/
theorem mem_noncesAfter {nonces : List NonceRow} {steps : List SdkStep} {row : NonceRow}
    (h : row ∈ noncesAfter P config nonces steps) :
    row.key ∈ nonces.map NonceRow.key ∨
      ∃ i, .ok i ∈ callResults P config nonces steps ∧ i.key = row.key := by
  induction steps generalizing nonces with
  | nil => exact .inl (List.mem_map_of_mem h)
  | cons s rest ih =>
      rcases ih h with hbefore | ⟨i, hi, hkey⟩
      · obtain ⟨row', hrow', hkey'⟩ := List.mem_map.mp hbefore
        rcases SdkStep.mem_apply hrow' with hold | ⟨i, hi, hkey⟩
        · exact .inl (List.mem_map.mpr ⟨row', hold, hkey'⟩)
        · exact .inr ⟨i, List.mem_append_left _ hi, hkey.trans hkey'⟩
      · exact .inr ⟨i, List.mem_append_right _ hi, hkey⟩

/-- A rejected call can be left out of a run. -/
theorem callResults_without {nonces : List NonceRow} {before rest : List SdkStep} {call : SdkCall}
    (hsame : (verifySdkRequest P config call (noncesAfter P config nonces before)).2 =
      noncesAfter P config nonces before) :
    callResults P config nonces (before ++ rest) =
      (callResults P config nonces (before ++ .verify call :: rest)).eraseIdx
        (callResults P config nonces before).length := by
  rw [callResults_append, callResults_append, List.eraseIdx_append_of_length_le le_rfl,
    Nat.sub_self, callResults, SdkStep.results, SdkStep.apply, hsame]
  rfl

/-- **The replay law.**  Where a nonce lives for more than two windows and the
clock does not go back, every run of calls and deletions is protected, from
whatever nonces it starts. -/
theorem replay_protection (hwindow : 2 * config.timestampSkewMs < config.nonceTtlMs)
    (nonces : List NonceRow) (steps : List SdkStep)
    (hclock : (steps.map SdkStep.nowMs).Pairwise (· ≤ ·)) :
    ReplayProtection P config nonces steps where
  once := callResults_pairwise hwindow steps hclock nonces
  harmless := by
    rintro before call rest rfl failure hfailed hreason
    have hsame : (verifySdkRequest P config call (noncesAfter P config nonces before)).2 =
        noncesAfter P config nonces before := by
      refine verifySdkRequest_failed hfailed ?_
      intro hreused
      rw [hreused] at hreason
      revert hreason
      decide
    refine ⟨?_, callResults_without hsame⟩
    rw [noncesAfter_append]
    exact hsame
  refused := by
    rintro before call rest rfl failure hfailed hreused
    obtain ⟨i, hchecked, hkey⟩ := verifySdkRequest_reused hfailed hreused
    obtain ⟨row, hrow, hrowKey⟩ := List.mem_map.mp hkey
    refine ⟨i, hchecked, ?_⟩
    rcases mem_noncesAfter (mem_of_mem_dropExpired hrow) with h | ⟨j, hj, hjKey⟩
    · exact .inl (hrowKey ▸ h)
    · exact .inr ⟨j, hj, hjKey.trans hrowKey⟩

end RunFacts

section Replay

def replayScope : Scope :=
  ⟨.named "tenant", .named "app"⟩

def replayConfig : SdkAuthConfig := ⟨replayScope, 300, 700⟩

/-- Digests of one text, for a run by hand. -/
def replayPrimitives : RequestPrimitives where
  toUpperCase := id
  sha256 := fun _ => "body"
  hmacSha256 := fun _ _ => String.ofList (List.replicate 64 'a')
  safeInteger := fun text => if text = "1000" then some 1000 else none

def replayControl : ControlPlane where
  apps := [replayScope]
  sdkKeys := [⟨replayScope, "key", "ref", none, .active⟩]
  credentials := []
  read := fun _ => some "secret"

def replayRequest : SdkRequest where
  headers := fun name =>
    if name = "x-openmasu-sdk-key-id" then some "key"
    else if name = "x-openmasu-timestamp-ms" then some "1000"
    else if name = "x-openmasu-nonce" then some (String.ofList (List.replicate 22 'n'))
    else if name = "x-openmasu-signature" then some (String.ofList (List.replicate 64 'a'))
    else none
  method := "POST"
  path := "/v1/events"
  body := []
  requireInstallation := false

/-- A request at the start of its window, a deletion, and the request again at
the end of the window. -/
def replayRun : List SdkStep :=
  [.verify ⟨replayRequest, replayControl, 700⟩, .collect 1300 (fun _ => true),
    .verify ⟨replayRequest, replayControl, 1300⟩]

set_option maxRecDepth 4000 in
/-- The law at the run: the request is accepted once and refused at the end of
its window, where its nonce is still stored. -/
theorem replayed_request_protection :
    (callResults replayPrimitives replayConfig [] replayRun).map
        (fun result => match result with
          | .ok _ => none
          | .failed failure => some failure.reason
          | .threw => none) = [none, some .nonceReused] ∧
      ReplayProtection replayPrimitives replayConfig [] replayRun :=
  ⟨by decide +kernel, replay_protection (by decide +kernel) [] replayRun (by decide +kernel)⟩

end Replay

end OpenMasu
