import OpenMasu.EventSchemas

/-!
# What the SDKs share

Ids are drawn one after another, so that an id is never drawn twice; the ids
of events can also be given by the caller.

* `InstallationId`, `EventId`, `InstallationCredential` — identities;
* `DirectDeepLink` — what a link that opens the app brings;
* `matchesLine` — how Foundation matches a pattern between `^` and `$`.
-/

namespace OpenMasu

/-- `installation:` and a uuid. -/
structure InstallationId where
  uuid : Nat
  deriving DecidableEq

/-- `event:` and a uuid, or an id that the caller gives. -/
inductive EventId where
  | drawn (uuid : Nat)
  | supplied (text : String)
  deriving DecidableEq

structure InstallationCredential where
  keyId : String
  secret : String
  deriving DecidableEq

/-- `OpenMasuDeepLink`, of a link that opens the app. -/
structure DirectDeepLink where
  value : Option String
  parameters : List (String × String)
  openSource : String
  destinationStatus : String
  linkSlug : String
  deriving DecidableEq

/-- The characters that end a line. -/
def isLineEnd (c : Char) : Bool :=
  (10 ≤ c.toNat && c.toNat ≤ 13) || c.toNat = 0x85 || c.toNat = 0x2028 || c.toNat = 0x2029

/-- The text before an end of line at its end. -/
def beforeLineEnd (s : List Char) : Option (List Char) :=
  match s.reverse with
  | '\n' :: '\r' :: rest => some rest.reverse
  | c :: rest => if isLineEnd c then some rest.reverse else none
  | [] => none

/-- The pattern between `^` and `$`: `$` also matches before an end of line at
the end of the text. -/
def matchesLine (pattern : List Char → Bool) (s : List Char) : Bool :=
  pattern s || (beforeLineEnd s).any pattern

end OpenMasu
