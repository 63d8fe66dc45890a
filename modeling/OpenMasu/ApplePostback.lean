import OpenMasu.Instant
import OpenMasu.Canonical
import OpenMasu.NumberText

/-!
# The verification of Apple postbacks

SKAdNetwork signs a text made of some fields of a postback, AdAttributionKit
signs a text that carries its claims.  A verified postback is split into what
counts as authenticated and what stays an unsigned observation.

* `JsonObject` — the object of a JSON body;
* `skanSignedMessage` — the text SKAdNetwork signs;
* `verifySkAdNetworkPostback`, `verifyAdAttributionKitPostback` — the two
  verifications; what the platform's cryptography answers is a parameter.
-/

namespace OpenMasu

open NumberText (integerText numberOf)

/-- The object of a JSON body: its members have different names. -/
structure JsonObject where
  members : List (String × Json)
  distinct : (members.map Prod.fst).Nodup

/-- The member of a name. -/
def JsonObject.get (o : JsonObject) (name : String) : Option Json :=
  (o.members.find? (fun m => m.1 = name)).map Prod.snd

/-- The members whose names pass. -/
def JsonObject.only (o : JsonObject) (keep : String → Bool) : JsonObject where
  members := o.members.filter (fun m => keep m.1)
  distinct := o.distinct.sublist (List.filter_sublist.map _)

/-- The names of the members. -/
def JsonObject.names (o : JsonObject) : List String := o.members.map Prod.fst

/-- Two objects have the same members. -/
def JsonObject.Agrees (o o' : JsonObject) : Prop := ∀ name, o.get name = o'.get name

section Objects

variable {o : JsonObject}

theorem JsonObject.get_only (keep : String → Bool) (name : String) :
    (o.only keep).get name = if keep name then o.get name else none := by
  simp only [get, only, List.find?_filter]
  split
  · case isTrue hkeep =>
      congr 2
      funext m
      by_cases hm : m.1 = name
      · simp [hm, hkeep]
      · simp [hm]
  · case isFalse hkeep =>
      rw [Option.map_eq_none_iff, List.find?_eq_none]
      intro m _
      by_cases hm : m.1 = name
      · simpa [hm] using hkeep
      · simp [hm]

/-- A name is there when it has a member. -/
theorem JsonObject.mem_names {name : String} : name ∈ o.names ↔ (o.get name).isSome = true := by
  simp only [names, get, Option.isSome_map, List.find?_isSome, List.mem_map, decide_eq_true_eq]

end Objects

namespace ApplePostback

inductive SigningKeyEnvironment where
  | production
  | development
  deriving DecidableEq

inductive VerificationFailureReason where
  | malformed
  | signatureInvalid
  | unknownKey
  | developmentPostbackRejected
  deriving DecidableEq

inductive VerificationResult where
  | verified (authenticated unsigned : JsonObject) (environment : SigningKeyEnvironment)
  | unverified (reason : VerificationFailureReason) (unsigned : JsonObject)
      (environment : Option SigningKeyEnvironment) (unverifiedClaims : Option JsonObject)

section Fields

def requiredString (value : Option Json) (name : String) : Except Failure String :=
  match value with
  | some (.str s) => if s = "" then .error (.error ("missing_" ++ name)) else .ok s
  | _ => .error (.error ("missing_" ++ name))

def requiredInteger (value : Option Json) (name : String) : Except Failure String :=
  match value with
  | some (.num q) =>
      if q.den = 1 ∧ 0 ≤ q.num then .ok (String.ofList (integerText q.num.toNat))
      else .error (.error ("invalid_" ++ name))
  | _ => .error (.error ("invalid_" ++ name))

def requiredBoolean (value : Option Json) (name : String) : Except Failure String :=
  match value with
  | some (.bool b) => .ok (if b then "true" else "false")
  | _ => .error (.error ("invalid_" ++ name))

def optionalInteger (value : Option Json) (name : String) : Except Failure (Option String) :=
  match value with
  | none => .ok none
  | some value => (requiredInteger (some value) name).map some

end Fields

section SkAdNetwork

/-- The invisible separator. -/
def separator : Char := Char.ofNat 0x2063

inductive MajorVersion where
  | three
  | four
  deriving DecidableEq

/-- The decimals that are read as the number three. -/
def isThree (q : Rat) : Bool := 3 - 1 / 2 ^ 52 ≤ q && q ≤ 3 + 1 / 2 ^ 52

/-- The decimals that are read as the number four; the numbers above it lie
twice as far apart as those below. -/
def isFour (q : Rat) : Bool := 4 - 1 / 2 ^ 52 ≤ q && q ≤ 4 + 1 / 2 ^ 51

/-- The number in front of a version's first point, where it is three or
four. -/
def majorVersion (version : String) : Option MajorVersion :=
  match numberOf (version.toList.takeWhile (fun c => c ≠ '.')) with
  | none => none
  | some q => if isThree q then some .three else if isFour q then some .four else none

/-- The source that version 4 signs. -/
def skanSource (body : JsonObject) : Except Failure String :=
  if (body.get "source-app-id").isSome then
    requiredInteger (body.get "source-app-id") "source-app-id"
  else requiredString (body.get "source-domain") "source-domain"

/-- What SKAdNetwork signs, field by field. -/
def skanSignedFields (body : JsonObject) : Except Failure (List String) := do
  let version ← requiredString (body.get "version") "version"
  let adNetworkId ← requiredString (body.get "ad-network-id") "ad-network-id"
  match majorVersion version with
  | some .three => do
      let campaignId ← requiredInteger (body.get "campaign-id") "campaign-id"
      let appId ← requiredInteger (body.get "app-id") "app-id"
      let transactionId ← requiredString (body.get "transaction-id") "transaction-id"
      let redownload ← requiredBoolean (body.get "redownload") "redownload"
      let sourceAppId ← optionalInteger (body.get "source-app-id") "source-app-id"
      let fidelityType ← requiredInteger (body.get "fidelity-type") "fidelity-type"
      let didWin ← requiredBoolean (body.get "did-win") "did-win"
      return [version, adNetworkId, campaignId, appId, transactionId, redownload] ++
        sourceAppId.toList ++ [fidelityType, didWin]
  | some .four => do
      let source ← skanSource body
      let sourceIdentifier ← requiredString (body.get "source-identifier") "source-identifier"
      let appId ← requiredInteger (body.get "app-id") "app-id"
      let transactionId ← requiredString (body.get "transaction-id") "transaction-id"
      let redownload ← requiredBoolean (body.get "redownload") "redownload"
      let fidelityType ← requiredInteger (body.get "fidelity-type") "fidelity-type"
      let didWin ← requiredBoolean (body.get "did-win") "did-win"
      let sequenceIndex ← requiredInteger (body.get "postback-sequence-index")
        "postback-sequence-index"
      return [version, adNetworkId, sourceIdentifier, appId, transactionId, redownload, source,
        fidelityType, didWin, sequenceIndex]
  | none => throw (.error "unsupported_version")

/-- `skanSignedMessage`. -/
def skanSignedMessage (body : JsonObject) : Except Failure String := do
  let fields ← skanSignedFields body
  return String.ofList (JoinedText.join separator (fields.map String.toList))

/-- `skanUnsignedFields`. -/
def skanUnsignedFields : List String :=
  ["conversion-value", "coarse-conversion-value", "country-code"]

/-- A field counts as authenticated: every field that is not listed. -/
def isAuthenticatedField (name : String) : Bool :=
  name ≠ "attribution-signature" && !skanUnsignedFields.contains name

/-- `verifySkAdNetworkPostback`.  `verify` is what the cryptography answers for
a message and a signature under the configured key. -/
def verifySkAdNetworkPostback (verify : String → String → Bool) (body : JsonObject) :
    VerificationResult :=
  let unsigned := body.only skanUnsignedFields.contains
  let verified : Except Failure Bool := do
    let signature ← requiredString (body.get "attribution-signature") "attribution-signature"
    let message ← skanSignedMessage body
    return verify message signature
  match verified with
  | .error _ => .unverified .malformed unsigned none none
  | .ok false => .unverified .signatureInvalid unsigned (some .production) none
  | .ok true => .verified (body.only isAuthenticatedField) unsigned .production

end SkAdNetwork

section AdAttributionKit

/-- What the platform and the key set answer about a signed text. -/
structure JwsPlatform where
  /-- `decodeBase64UrlJson`: the object a part of the text encodes. -/
  decode : String → Option JsonObject
  /-- Whether the key set has the key. -/
  hasKey : String → Bool
  /-- Whether the key signed the text with the signature. -/
  verify : String → String → String → Bool

/-- `keyEnvironment`. -/
def keyEnvironment (kid : String) : Option SigningKeyEnvironment :=
  if kid = "apple-cas-identifier/0" then some .production
  else if kid = "apple-development-identifier/0" ∨ kid = "apple-development-identifier/1" then
    some .development
  else none

/-- `aakUnsignedFields`. -/
def aakUnsignedFields : List String :=
  ["conversion-value", "coarse-conversion-value", "ad-interaction-type", "country-code"]

/-- The parts of a text between its points. -/
def pointParts (text : String) : List String := (text.toList.splitOn '.').map String.ofList

/-- `verifyAdAttributionKitPostback`. -/
def verifyAdAttributionKitPostback (platform : JwsPlatform) (acceptDevelopmentPostbacks : Bool)
    (body : JsonObject) : VerificationResult :=
  let unsigned := body.only aakUnsignedFields.contains
  match requiredString (body.get "jws-string") "jws-string" with
  | .error _ => .unverified .malformed unsigned none none
  | .ok jws =>
      match pointParts jws with
      | [head, claims, signature] =>
          if head = "" ∨ claims = "" ∨ signature = "" then
            .unverified .malformed unsigned none none
          else match platform.decode head, platform.decode claims with
            | some header, some unverifiedClaims =>
                match header.get "alg", header.get "kid" with
                | some (.str "ES256"), some (.str kid) =>
                    match keyEnvironment kid with
                    | none => .unverified .unknownKey unsigned none (some unverifiedClaims)
                    | some environment =>
                        if environment = .development ∧ acceptDevelopmentPostbacks = false then
                          .unverified .developmentPostbackRejected unsigned (some environment)
                            (some unverifiedClaims)
                        else if platform.hasKey kid = false then
                          .unverified .unknownKey unsigned (some environment)
                            (some unverifiedClaims)
                        else if platform.verify kid (head ++ "." ++ claims) signature = false then
                          .unverified .signatureInvalid unsigned (some environment)
                            (some unverifiedClaims)
                        else .verified unverifiedClaims unsigned environment
                | _, _ => .unverified .malformed unsigned none none
            | _, _ => .unverified .malformed unsigned none none
      | _ => .unverified .malformed unsigned none none

end AdAttributionKit

end ApplePostback

end OpenMasu
