import OpenMasu.Attribution
import OpenMasu.BinaryFloat

/-!
# The fraud rules

The rule package: rule bundles with their parameters and actions, the rules
that compare the times of an install with those of its click, and the rule
over a source's day.

* `fraudNumberParameter`, `fraudRuleAction` — reading a bundle;
* `boundFraudBundle` — the bundle a server context binds, with its checks;
* `evaluateInstallRules` — the rules on one install;
* `evaluateSourceDay` — the rule on one source day.
-/

namespace OpenMasu

variable [Digest]

inductive FraudDecisionKind where
  | clear
  | suspected
  | confirmed
  deriving DecidableEq

def FraudDecisionKind.text : FraudDecisionKind → String
  | clear => "clear"
  | suspected => "suspected"
  | confirmed => "confirmed"

instance : Encode FraudDecisionKind := ⟨fun k => .str k.text⟩

inductive FraudReason where
  | botPrefetch
  | replaySuspected
  | clickInjectionSuspected
  | ctitClockAnomaly
  | clickFloodingSuspected
  | referrerTimeInconsistent
  deriving DecidableEq

def FraudReason.text : FraudReason → String
  | botPrefetch => "bot_prefetch"
  | replaySuspected => "replay_suspected"
  | clickInjectionSuspected => "click_injection_suspected"
  | ctitClockAnomaly => "ctit_clock_anomaly"
  | clickFloodingSuspected => "click_flooding_suspected"
  | referrerTimeInconsistent => "referrer_time_inconsistent"

instance : Encode FraudReason := ⟨fun r => .str r.text⟩

/-- `FraudRuleHit`. -/
structure FraudRuleHit where
  ruleId : String
  decision : FraudDecisionKind
  action : FraudAction
  reasonCode : FraudReason
  evidenceType : String
  deriving DecidableEq

/-- `DEFAULT_FRAUD_BUNDLE`. -/
def defaultFraudBundle : FraudBundle where
  id := ⟨"fraud-conservative", by decide⟩
  version := ⟨"1.0.0", by decide⟩
  layers := { base := [
    ("ctit_lower_bound_seconds", .number 10),
    ("ctit_negative_rate_threshold", .number (5 / 100)),
    ("referrer_redirector_divergence_seconds", .number 300),
    ("source_day_min_clicks", .number 1000),
    ("source_day_cvr_median_multiplier", .number (2 / 10)),
    ("source_day_ctit_p50_min_seconds", .number 86400),
    ("source_day_ctit_p95_p50_max_ratio", .number 3),
    ("quarantine_hours", .number 72)] }
  rules := [
    ⟨"transport-bot-prefetch-v1", ["prefetch_signal"], .exclude⟩,
    ⟨"transport-replay-v1", ["replay_signal"], .exclude⟩,
    ⟨"referrer-server-order-v1", ["referrer_click_at_server", "install_begin_at_server"], .flag⟩,
    ⟨"ctit-lower-bound-v1", ["redirector_click_at", "install_begin_at_server"], .flag⟩,
    ⟨"ctit-clock-anomaly-v1", ["redirector_click_at", "install_begin_at_server"], .allow⟩,
    ⟨"referrer-redirector-divergence-v1", ["referrer_click_at_server", "redirector_click_at"],
      .flag⟩,
    ⟨"source-day-click-flooding-v1", ["source_day_aggregate"], .flag⟩,
    ⟨"device-integrity-combination-v1", ["integrity_verdict", "ctit"], .flag⟩]

/-- The value of a number the program reads or has in its text; one beyond the
range of numbers has none. -/
def numberValue (q : Rat) : Option Rat := (BinaryFloat.round q).value?

/-- `fraudNumberParameter`: a numeric parameter of the base layer. -/
def fraudNumberParameter (bundle : FraudBundle) (name : String) (fallback : Rat) : Rat :=
  let read := match bundle.layers.base.find? (fun p => p.1 = name) with
    | some (_, .number q) => numberValue q
    | _ => none
  read.getD ((numberValue fallback).getD fallback)

/-- A parameter times a number of the program. -/
def scaledParameter (bundle : FraudBundle) (name : String) (fallback factor : Rat) :
    BinaryFloat.Number :=
  (BinaryFloat.Number.finite (fraudNumberParameter bundle name fallback)).mul (.finite factor)

/-- `fraudRuleAction`: the action a bundle gives a rule. -/
def fraudRuleAction (bundle : FraudBundle) (ruleId : String) (fallback : FraudAction) :
    FraudAction :=
  (bundle.rules.find? (fun r => r.id = ruleId)).elim fallback (·.action)

def isLowerAlpha (c : Char) : Bool := 'a' ≤ c && c ≤ 'z'

def isDigit (c : Char) : Bool := '0' ≤ c && c ≤ '9'

def isHex (c : Char) : Bool := isDigit c || ('a' ≤ c && c ≤ 'f')

/-- `[A-Za-z0-9._:-]`. -/
def isIdChar (c : Char) : Bool :=
  isLowerAlpha c || ('A' ≤ c && c ≤ 'Z') || isDigit c || ['.', '_', ':', '-'].contains c

/-- `^[A-Za-z0-9._:-]{1,128}$`. -/
def isBundleId (s : String) : Bool :=
  1 ≤ s.toList.length && s.toList.length ≤ 128 && s.toList.all isIdChar

/-- `^[a-z][a-z0-9-]{2,127}$`. -/
def isRuleId (s : String) : Bool :=
  match s.toList with
  | [] => false
  | c :: rest => isLowerAlpha c && 2 ≤ rest.length && rest.length ≤ 127 &&
      rest.all (fun c => isLowerAlpha c || isDigit c || c = '-')

/-- `^[a-f0-9]{64}$`. -/
def isDigest (s : String) : Bool := s.toList.length = 64 && s.toList.all isHex

/-- A rule that reads the integrity verdict and nothing else. -/
def isIntegrityOnly (r : FraudRule) : Bool :=
  !r.inputs.isEmpty && r.inputs.all (fun i => i = "integrity_verdict")

def assertFraudRule (r : FraudRule) : Except Failure Unit :=
  if !isRuleId r.id then .error (.error ("fraud_bundle_rule_invalid:" ++ r.id))
  else if isIntegrityOnly r then .error (.error ("integrity_only_rule_forbidden:" ++ r.id))
  else .ok ()

/-- `assertFraudBundle`: the bundle is well formed and no rule rests on the
integrity verdict alone. -/
def assertFraudBundle (b : FraudBundle) : Except Failure Unit := do
  if !isBundleId b.id.text then throw (.error "fraud_bundle_id_invalid")
  if (codeUnits b.version.text).length < 1 || (codeUnits b.version.text).length > 128 then
    throw (.error "fraud_bundle_version_invalid")
  if b.rules.isEmpty then throw (.error "fraud_bundle_rules_invalid")
  if !b.layers.privateDigest.elim true isDigest then
    throw (.error "fraud_bundle_private_layer_must_be_digest_only")
  PartialList.forEach assertFraudRule b.rules

/-- `fraudBundleHash`. -/
def fraudBundleHash (b : FraudBundle) : Except Failure String := do
  assertFraudBundle b
  return sha256 (toJson b)

/-- A bundle with its hash. -/
structure BoundFraudBundle where
  definition : FraudBundle
  hash : String

/-- The built-in bundle with its hash. -/
def defaultBound : BoundFraudBundle := ⟨defaultFraudBundle, sha256 (toJson defaultFraudBundle)⟩

/-- `boundFraudBundle`: the bundle of a server context; none when fraud rules
are switched off. -/
def boundFraudBundle (server : ServerContext) : Except Failure (Option BoundFraudBundle) :=
  if server.fraudEnabled = some false then .ok none
  else match server.fraudRuleBundle with
    | none => .ok (some defaultBound)
    | some bound => do
        let hash ← fraudBundleHash bound.definition
        if bound.ruleBundleId ≠ bound.definition.id ∨
            bound.ruleBundleVersion ≠ bound.definition.version then
          throw (.error "fraud_rule_bundle_identity_mismatch")
        if bound.definitionDigest ≠ sha256 (toJson bound.definition) then
          throw (.error "fraud_rule_bundle_definition_digest_mismatch")
        if bound.ruleBundleHash ≠ hash then throw (.error "fraud_rule_bundle_hash_mismatch")
        return some ⟨bound.definition, hash⟩

/-- The text of a `Date` built from a number: fractions are cut off, and past
the range of dates there is no text. -/
def dateText : BinaryFloat.Number → Except Failure String
  | .finite ms =>
      if |ms| ≤ 8640000000000000 then isoText (if 0 ≤ ms then ⌊ms⌋ else ⌈ms⌉)
      else .error .rangeError
  | _ => .error .rangeError

/-- `quarantineDeadline`: when a quarantine is to be resolved. -/
def quarantineDeadline (action : FraudAction) (evaluatedAt : Timestamp) (b : FraudBundle) :
    Except Failure (Option String) :=
  if action = .quarantine then do
    let evaluated ← time evaluatedAt "evaluated_at"
    let deadline ← dateText ((BinaryFloat.Number.finite evaluated).add
      (scaledParameter b "quarantine_hours" 72 3600000))
    return some deadline
  else .ok none

structure InstallRuleInput where
  installBeginAtServer : Option Timestamp
  referrerClickAtServer : Option Timestamp
  referrerClickAtServerStatus : Option TimeStatus
  redirectorClickAt : Option Timestamp
  policy : ClickInjectionPolicy
  bundle : FraudBundle

/-- `instant`: the instant of a timestamp, or not a number. -/
def instant (t : Timestamp) : Option Int := if t.isCalendar then some t.ms else none

/-- A comparison of two instants; one that is not a number compares
false. -/
def compareInstants (r : Int → Int → Bool) (a b : Timestamp) : Bool :=
  match instant a, instant b with
  | some x, some y => r x y
  | _, _ => false

/-- `assertClickInjectionPolicy`. -/
def assertClickInjectionPolicy (p : ClickInjectionPolicy) : Except Failure Unit :=
  if p.policyDigest = clickInjectionPolicyDigest p.thresholdSeconds p.authority p.policyVersion
  then .ok ()
  else .error (.error
    "click_injection_policy.policy_digest does not match its canonical policy fields")

/-- The referrer's click lies a second or more behind the install. -/
def serverOrderHit (i : InstallRuleInput) : List FraudRuleHit :=
  match i.referrerClickAtServer, i.installBeginAtServer with
  | some click, some install =>
      if i.referrerClickAtServerStatus = some .available ∧
          compareInstants (fun c b => c ≥ b + 1000) click install then
        [⟨"referrer-server-order-v1", .confirmed,
          fraudRuleAction i.bundle "referrer-server-order-v1" .flag,
          .referrerTimeInconsistent, "server_clock_order"⟩]
      else []
  | _, _ => []

/-- The diagnostic for an install before its click. -/
def clockAnomalyHit : FraudRuleHit :=
  ⟨"ctit-clock-anomaly-v1", .clear, .allow, .ctitClockAnomaly, "ctit_clock_diagnostic"⟩

/-- The install follows its click too soon. -/
def lowerBoundHit (i : InstallRuleInput) (install click : Timestamp) : List FraudRuleHit :=
  if compareInstants (fun b c => (BinaryFloat.Number.finite (b - c : Int)).lt
      ((BinaryFloat.round i.policy.thresholdSeconds).mul (.finite 1000))) install click then
    [⟨"ctit-lower-bound-v1", .suspected, fraudRuleAction i.bundle "ctit-lower-bound-v1" .flag,
      .clickInjectionSuspected, "ctit_category"⟩]
  else []

/-- The milliseconds referrer and redirector may differ. -/
def divergenceMilliseconds (b : FraudBundle) : BinaryFloat.Number :=
  scaledParameter b "referrer_redirector_divergence_seconds" 300 1000

/-- The referrer and the redirector disagree about the click. -/
def divergenceHit (i : InstallRuleInput) (click : Timestamp) : List FraudRuleHit :=
  match i.referrerClickAtServer with
  | some referrer =>
      if compareInstants (fun r c =>
          (divergenceMilliseconds i.bundle).lt (.finite (|r - c| : Int))) referrer click then
        [⟨"referrer-redirector-divergence-v1", .suspected,
          fraudRuleAction i.bundle "referrer-redirector-divergence-v1" .flag,
          .referrerTimeInconsistent, "server_clock_order"⟩]
      else []
  | none => []

/-- `evaluateInstallRules`: the rules an install hits.  An install before its
click ends the evaluation with the diagnostic. -/
def evaluateInstallRules (i : InstallRuleInput) : Except Failure (List FraudRuleHit) := do
  assertClickInjectionPolicy i.policy
  match i.redirectorClickAt, i.installBeginAtServer with
  | some click, some install =>
      if compareInstants (fun b c => b - c < 0) install click then
        return serverOrderHit i ++ [clockAnomalyHit]
      else
        return serverOrderHit i ++ lowerBoundHit i install click ++ divergenceHit i click
  | _, _ => return serverOrderHit i

/-- `numerator / denominator > bound`, of two counts. -/
def quotientExceeds (numerator denominator : Nat) (bound : BinaryFloat.Number) : Bool :=
  bound.lt ((BinaryFloat.round numerator).div (BinaryFloat.round denominator))

/-- `negativeRate <= threshold` fails: too many installs of a day precede their
clicks. -/
def exceedsNegativeRate (negativeCount installCount : BinaryFloat.Number) (b : FraudBundle) :
    Bool :=
  !(negativeCount.div installCount).le
    (.finite (fraudNumberParameter b "ctit_negative_rate_threshold" (5 / 100)))

/-- `evaluateSourceDayWithBundle`: click flooding over a source's day. -/
def evaluateSourceDay (a : SourceDayAggregate) (b : FraudBundle) : Option FraudRuleHit :=
  let minimumClicks := fraudNumberParameter b "source_day_min_clicks" 1000
  let cvrMultiplier := fraudNumberParameter b "source_day_cvr_median_multiplier" (2 / 10)
  let p50MinimumMs := scaledParameter b "source_day_ctit_p50_min_seconds" 86400 1000
  let p95P50MaximumRatio := fraudNumberParameter b "source_day_ctit_p95_p50_max_ratio" 3
  if (BinaryFloat.round a.clicks).lt (.finite minimumClicks) ∨
      quotientExceeds a.installs a.clicks
        ((BinaryFloat.round a.medianCvr).mul (.finite cvrMultiplier)) ∨
      (BinaryFloat.round a.ctitP50Ms).lt p50MinimumMs ∨
      quotientExceeds a.ctitP95Ms a.ctitP50Ms (.finite p95P50MaximumRatio) then none
  else some ⟨"source-day-click-flooding-v1", .suspected,
    fraudRuleAction b "source-day-click-flooding-v1" .flag, .clickFloodingSuspected,
    "source_day_distribution"⟩

end OpenMasu
