import OpenMasu.EventSchemas
import OpenMasu.RuntimeFacts

/-!
# The fraud stage of a call

A call binds its attempts to the active fraud bundle.  The rules then judge
what is accepted, and a rule that quarantines gives its decision a deadline.
The stage throws exactly where such a deadline is no date, and the table
refuses a decision whose deadline is no canonical timestamp.

* `FraudRuleBundleContext.IsSound`, `IsBound` — a bundle with its own digests,
  and an attempt bound to it;
* `IsQuarantined`, `DeadlineInRange`, `DeadlineInYears` — what is quarantined,
  and the deadlines that can be written;
* `fraudDecisions_ok` — the stage returns;
* `evaluate_ok` — an evaluation returns where its other stages do;
* `commit_of_filter` — a transaction goes through where it does without its
  fraud decisions;
* `DeadlinesFit`, `ingestScope_completes` — the condition on a call, and that it
  completes.
-/

namespace OpenMasu

open PartialList (bind_eq_ok pure_eq_ok)

section Bound

variable [Digest]

/-- The context of a bundle names it, and has its digests. -/
structure FraudRuleBundleContext.IsSound (c : FraudRuleBundleContext) : Prop where
  id : c.ruleBundleId = c.definition.id
  version : c.ruleBundleVersion = c.definition.version
  hash : c.ruleBundleHash = sha256 (toJson c.definition)
  digest : c.definitionDigest = sha256 (toJson c.definition)
  asserted : assertFraudBundle c.definition = .ok ()

/-- The attempt is bound to the active bundle, under a policy with its own
digest, or to none. -/
def IsBound (active : Option FraudRuleBundleContext) (a : Attempt) : Prop :=
  boundFraudBundle a.server = .ok none ∨ ∃ c, active = some c ∧
    boundFraudBundle a.server = .ok (some ⟨c.definition, c.ruleBundleHash⟩) ∧
    ∃ p, a.server.clickInjectionPolicy = some p ∧ assertClickInjectionPolicy p = .ok ()

/-- A server context bound to a sound bundle. -/
theorem boundFraudBundle_of_sound {c : FraudRuleBundleContext} (hc : c.IsSound)
    {server : ServerContext} (henabled : server.fraudEnabled = some true)
    (hbundle : server.fraudRuleBundle = some c) :
    boundFraudBundle server = .ok (some ⟨c.definition, c.ruleBundleHash⟩) := by
  have hhash : fraudBundleHash c.definition = .ok c.ruleBundleHash := by
    rw [fraudBundleHash, hc.asserted, hc.hash]
    rfl
  rw [boundFraudBundle, if_neg (by simp [henabled]), hbundle]
  simp only [hhash, hc.id, hc.version, hc.digest]
  simp [bind, Except.bind, pure, Except.pure]

/-- **Binding.**  A prepared attempt is bound to the active bundle, whose
digests are those of its definition. -/
theorem isBound_prepareAttempt {l : Ledger} {context : CallContext}
    (hsound : ∀ c, context.activeRevision = some c → c.IsSound) (a : Attempt) :
    IsBound context.activeRevision (prepareAttempt l context a) := by
  have hserver : ∀ b : Attempt, (resolveDeepLinkAttempt l context.trackingLink b).server.fraudEnabled
      = b.server.fraudEnabled ∧ (resolveDeepLinkAttempt l context.trackingLink b).server.fraudRuleBundle
      = b.server.fraudRuleBundle ∧
      (resolveDeepLinkAttempt l context.trackingLink b).server.clickInjectionPolicy
      = b.server.clickInjectionPolicy := by
    intro b
    unfold resolveDeepLinkAttempt
    split
    · exact ⟨rfl, rfl, rfl⟩
    · exact ⟨rfl, rfl, rfl⟩
  obtain ⟨henabled, hbundle, hpolicy⟩ := hserver (bindFraudBundle context.activeRevision a)
  rw [← prepareAttempt] at henabled hbundle hpolicy
  cases hactive : context.activeRevision with
  | none =>
      rw [hactive, bindFraudBundle] at henabled
      left
      rw [boundFraudBundle, if_pos henabled]
  | some c =>
      rw [hactive] at henabled hbundle hpolicy
      by_cases hoff : a.server.fraudEnabled = some false
      · rw [bindFraudBundle, if_pos hoff] at henabled
        left
        rw [boundFraudBundle, if_pos henabled]
      · rw [bindFraudBundle, if_neg hoff] at henabled hbundle hpolicy
        refine .inr ⟨c, rfl, boundFraudBundle_of_sound (hsound c hactive) henabled hbundle, _,
          hpolicy, ?_⟩
        exact if_pos rfl

end Bound

section Deadlines

variable [Digest]

/-- What the install rules read of an accepted install. -/
def installRuleInput (accepted : List Attempt) (a : Attempt) (b : BoundFraudBundle) :
    InstallRuleInput where
  installBeginAtServer := a.record.payload.installBeginAtServer
  referrerClickAtServer := a.record.payload.referrerClickAtServer
  referrerClickAtServerStatus := a.record.payload.referrerClickAtServerStatus
  redirectorClickAt := (ruleClick accepted a).bind (·.record.payload.redirectorClickAt)
  policy := injectionPolicy a b
  bundle := b.definition

/-- A rule of the bundle hits the record. -/
def IsJudged (accepted : List Attempt) (a : Attempt) (b : BoundFraudBundle) : Prop :=
  (a.record.eventName = .click ∧
    (truthy a.record.payload.replaySuspected = true ∨ truthy a.record.payload.botPrefetch = true)) ∨
  (a.record.eventName = .install ∧
    ∃ hits, evaluateInstallRules (installRuleInput accepted a b) = .ok hits ∧ hits ≠ [])

/-- A rule of the bundle quarantines the record. -/
def IsQuarantined (accepted : List Attempt) (a : Attempt) (b : BoundFraudBundle) : Prop :=
  (a.record.eventName = .click ∧ (if truthy a.record.payload.replaySuspected then
      fraudRuleAction b.definition "transport-replay-v1" .exclude = .quarantine
    else truthy a.record.payload.botPrefetch = true ∧
      fraudRuleAction b.definition "transport-bot-prefetch-v1" .exclude = .quarantine)) ∨
  (a.record.eventName = .install ∧ ∃ hits, evaluateInstallRules (installRuleInput accepted a b) =
    .ok hits ∧ ∃ hit ∈ hits, hit.action = .quarantine)

/-- The deadline of a quarantine: the hours of the bundle behind the receipt of
the record, in doubles. -/
def deadlineMs (receivedAt : Timestamp) (b : FraudBundle) : BinaryFloat.Number :=
  (BinaryFloat.Number.finite receivedAt.ms).add (scaledParameter b "quarantine_hours" 72 3600000)

/-- The date that a number is converted to. -/
def dateMs (ms : Rat) : Int := if 0 ≤ ms then ⌊ms⌋ else ⌈ms⌉

/-- The receipt of the record is a date, and so is the deadline. -/
def DeadlineInRange (receivedAt : Timestamp) (b : FraudBundle) : Prop :=
  receivedAt.isCalendar = true ∧
    ∃ ms, deadlineMs receivedAt b = .finite ms ∧ |ms| ≤ 8640000000000000

/-- The year of the deadline has four digits. -/
def DeadlineInYears (receivedAt : Timestamp) (b : FraudBundle) : Prop :=
  ∀ ms, deadlineMs receivedAt b = .finite ms →
    fourDigitYear (civilFromDays (dateMs ms / dayMs)).1 = true

omit [Digest] in
/-- A number in the range of dates is converted to one. -/
theorem natAbs_dateMs {ms : Rat} (h : |ms| ≤ 8640000000000000) :
    (dateMs ms).natAbs ≤ 8640000000000000 := by
  obtain ⟨hlow, hhigh⟩ := abs_le.mp h
  have hbound : -8640000000000000 ≤ dateMs ms ∧ dateMs ms ≤ 8640000000000000 := by
    unfold dateMs
    split
    · rename_i hpos
      refine ⟨?_, ?_⟩
      · exact Int.le_floor.mpr (by push_cast; linarith)
      · exact Int.floor_le_iff.mpr (by push_cast; linarith)
    · rename_i hneg
      refine ⟨?_, ?_⟩
      · exact Int.le_ceil_iff.mpr (by push_cast; linarith)
      · exact Int.ceil_le.mpr (by push_cast; linarith)
  omega

omit [Digest] in
/-- An instant of a year of four digits is written in the canonical form. -/
theorem isoText_canonical {ms : Int} (hrange : ms.natAbs ≤ 8640000000000000)
    (hyear : fourDigitYear (civilFromDays (ms / dayMs)).1 = true) :
    ∃ text, isoText ms = .ok text ∧ isCanonicalTimestamp text = true := by
  rcases hdate : civilFromDays (ms / dayMs) with ⟨year, month, day⟩
  rw [hdate] at hyear
  refine ⟨_, by rw [isoText, if_pos hrange, hdate], ?_⟩
  rw [isCanonicalTimestamp, yearChars, if_pos hyear]
  exact (congrArg _ String.toList_ofList).trans (fitsForm_clockChars _ _ _ _ _ _ _)

omit [Digest] in
/-- **Deadlines.**  A quarantine in range has one, which is canonical in a year
of four digits. -/
theorem quarantineDeadline_ok {receivedAt : Timestamp} {b : FraudBundle}
    (h : DeadlineInRange receivedAt b) :
    ∃ text, quarantineDeadline .quarantine receivedAt b = .ok (some text) ∧
      (DeadlineInYears receivedAt b → isCanonicalTimestamp text = true) := by
  obtain ⟨hcalendar, ms, hms, hrange⟩ := h
  have hdate : dateText (.finite ms) = isoText (dateMs ms) := if_pos hrange
  obtain ⟨text, htext⟩ : ∃ text, isoText (dateMs ms) = .ok text :=
    ⟨_, by rw [isoText, if_pos (natAbs_dateMs hrange)]⟩
  refine ⟨text, ?_, fun hyears => ?_⟩
  · rw [quarantineDeadline, if_pos rfl, time, if_pos hcalendar]
    change dateText (deadlineMs receivedAt b) >>= _ = _
    rw [hms, hdate, htext]
    rfl
  · obtain ⟨text', htext', hcanonical⟩ := isoText_canonical (natAbs_dateMs hrange) (hyears ms hms)
    rw [Except.ok.inj (htext.symm.trans htext')]
    exact hcanonical

omit [Digest] in
/-- A decision has a deadline where it quarantines. -/
theorem exists_deadline {action : FraudAction} {receivedAt : Timestamp} {b : FraudBundle}
    (h : action = .quarantine → DeadlineInRange receivedAt b) :
    ∃ deadline, quarantineDeadline action receivedAt b = .ok deadline ∧
      (action = .quarantine → deadline.isSome = true) ∧
      ∀ text, deadline = some text → action = .quarantine ∧
        (DeadlineInYears receivedAt b → isCanonicalTimestamp text = true) := by
  by_cases haction : action = .quarantine
  · obtain ⟨text, htext, hcanonical⟩ := quarantineDeadline_ok (h haction)
    refine ⟨some text, haction ▸ htext, fun _ => rfl, fun text' hsame => ?_⟩
    rw [← Option.some.inj hsame]
    exact ⟨haction, hcanonical⟩
  · refine ⟨none, if_neg haction, fun hquarantine => absurd hquarantine haction, fun text hsame => ?_⟩
    cases hsame

end Deadlines

section Stage

variable [Digest] {active : Option FraudRuleBundleContext} {accepted : List Attempt} {a : Attempt}

/-- Where the bundle quarantines the record, the deadline is in range. -/
def QuarantineFits (accepted : List Attempt) (a : Attempt) : Prop :=
  ∀ b, boundFraudBundle a.server = .ok (some b) → IsQuarantined accepted a b →
    DeadlineInRange a.record.receivedAt b.definition

/-- The decision is about the record, under the active bundle; a rule hits the
record, and quarantines it where the decision has a deadline. -/
structure IsDecisionOn (active : Option FraudRuleBundleContext) (accepted : List Attempt)
    (a : Attempt) (d : FraudDecision) : Prop where
  subject : d.subjectRef = a.record.recordId.text
  record : d.subjectScope = .record
  bound : d.isBoundTo active = true
  judged : ∃ b, boundFraudBundle a.server = .ok (some b) ∧ IsJudged accepted a b
  quarantine : d.action = .quarantine → d.resolutionDeadlineAt.isSome = true
  deadline : ∀ text, d.resolutionDeadlineAt = some text → ∃ b,
    boundFraudBundle a.server = .ok (some b) ∧ IsQuarantined accepted a b ∧
      (DeadlineInYears a.record.receivedAt b.definition → isCanonicalTimestamp text = true)

/-- A decision that names a bundle is bound to it. -/
theorem isBoundTo_of_sound {c : FraudRuleBundleContext} (hc : c.IsSound) {d : FraudDecision}
    (hid : d.ruleBundleId = c.definition.id) (hversion : d.ruleBundleVersion = c.definition.version)
    (hhash : d.ruleBundleHash = c.ruleBundleHash) : d.isBoundTo (some c) = true := by
  simp [FraudDecision.isBoundTo, hid, hversion, hhash, hc.id, hc.version]

variable (hsound : ∀ c, active = some c → c.IsSound) (hbound : IsBound active a)
  (hfits : QuarantineFits accepted a)

include hsound hbound hfits

/-- **Transport rules.**  They judge an accepted delivery without throwing. -/
theorem transportFraud_ok : ∃ ds, transportFraud a = .ok ds ∧
    ∀ d ∈ ds, IsDecisionOn active accepted a d := by
  unfold transportFraud
  dsimp only
  split
  · exact ⟨[], rfl, fun d hd => absurd hd List.not_mem_nil⟩
  · rename_i hjudged
    rw [not_or, not_not] at hjudged
    obtain ⟨hclick, hsignal⟩ := hjudged
    rcases hbound with hnone | ⟨c, hactive, hb, -⟩
    · refine ⟨[], ?_, fun d hd => absurd hd List.not_mem_nil⟩
      rw [hnone]
      rfl
    · have hmade : ∀ reason ruleId evidenceType,
          IsJudged accepted a ⟨c.definition, c.ruleBundleHash⟩ →
          (fraudRuleAction c.definition ruleId .exclude = .quarantine →
            IsQuarantined accepted a ⟨c.definition, c.ruleBundleHash⟩) →
          ∃ d, transportDecision a ⟨c.definition, c.ruleBundleHash⟩ reason ruleId evidenceType =
            .ok d ∧ IsDecisionOn active accepted a d := by
        intro reason ruleId evidenceType hjudged hquarantined
        obtain ⟨deadline, hdeadline, hsome, hcanonical⟩ := exists_deadline
          fun haction => hfits _ hb (hquarantined haction)
        refine ⟨_, by rw [transportDecision, hdeadline]; rfl, rfl, rfl, ?_, ⟨_, hb, hjudged⟩, hsome,
          fun text htext => ?_⟩
        · rw [hactive]
          exact isBoundTo_of_sound (hsound c hactive) rfl rfl rfl
        · obtain ⟨haction, hyears⟩ := hcanonical text htext
          exact ⟨_, hb, hquarantined haction, hyears⟩
      rw [hb]
      by_cases hreplayed : truthy a.record.payload.replaySuspected = true
      · obtain ⟨d, hd, hon⟩ := hmade .replaySuspected "transport-replay-v1" "replay_category"
          (.inl ⟨hclick, .inl hreplayed⟩) fun haction => .inl ⟨hclick, by rw [if_pos hreplayed]; exact haction⟩
        refine ⟨[d], ?_, fun d' hd' => by rw [List.mem_singleton.mp hd']; exact hon⟩
        change (if truthy a.record.payload.replaySuspected = true then _ else _) = _
        rw [if_pos hreplayed, hd]
        rfl
      · have hprefetch : truthy a.record.payload.botPrefetch = true := by
          simpa [hreplayed] using hsignal
        obtain ⟨d, hd, hon⟩ := hmade .botPrefetch "transport-bot-prefetch-v1"
          "link_prefetch_category" (.inl ⟨hclick, .inr hprefetch⟩)
          fun haction => .inl ⟨hclick, by rw [if_neg hreplayed]; exact ⟨hprefetch, haction⟩⟩
        refine ⟨[d], ?_, fun d' hd' => by rw [List.mem_singleton.mp hd']; exact hon⟩
        change (if truthy a.record.payload.replaySuspected = true then _ else _) = _
        rw [if_neg hreplayed, hd]
        rfl

/-- **Install rules.**  They judge an accepted delivery without throwing. -/
theorem installFraud_ok : ∃ ds, installFraud accepted a = .ok ds ∧
    ∀ d ∈ ds, IsDecisionOn active accepted a d := by
  unfold installFraud
  split
  · exact ⟨[], rfl, fun d hd => absurd hd List.not_mem_nil⟩
  · rename_i hinstall
    rw [not_not] at hinstall
    rcases hbound with hnone | ⟨c, hactive, hb, p, hpolicy, hasserted⟩
    · refine ⟨[], ?_, fun d hd => absurd hd List.not_mem_nil⟩
      rw [hnone]
      rfl
    · -- the policy of the context is the one the rules assert
      have hinput : assertClickInjectionPolicy (injectionPolicy a ⟨c.definition, c.ruleBundleHash⟩) =
          .ok () := by
        rw [injectionPolicy, hpolicy]
        exact hasserted
      obtain ⟨hits, hhits⟩ : ∃ hits, evaluateInstallRules
          (installRuleInput accepted a ⟨c.definition, c.ruleBundleHash⟩) = .ok hits := by
        rw [evaluateInstallRules]
        simp only [installRuleInput, hinput]
        split
        · split
          · exact ⟨_, rfl⟩
          · exact ⟨_, rfl⟩
        · exact ⟨_, rfl⟩
      obtain ⟨ds, hds, hon⟩ := PartialList.exists_traverse (f := installDecision a
          ⟨c.definition, c.ruleBundleHash⟩ (ruleClick accepted a))
        (p := fun _ d => IsDecisionOn active accepted a d) (l := hits) fun hit hhit => by
        have hquarantined : hit.action = .quarantine →
            IsQuarantined accepted a ⟨c.definition, c.ruleBundleHash⟩ := fun haction =>
          .inr ⟨hinstall, hits, hhits, hit, hhit, haction⟩
        have hjudged : IsJudged accepted a ⟨c.definition, c.ruleBundleHash⟩ :=
          .inr ⟨hinstall, hits, hhits, List.ne_nil_of_mem hhit⟩
        obtain ⟨deadline, hdeadline, hsome, hcanonical⟩ := exists_deadline
          fun haction => hfits _ hb (hquarantined haction)
        refine ⟨_, by rw [installDecision, hdeadline]; rfl, rfl, rfl, ?_, ⟨_, hb, hjudged⟩, hsome,
          fun text htext => ?_⟩
        · rw [hactive]
          exact isBoundTo_of_sound (hsound c hactive) rfl rfl rfl
        · obtain ⟨haction, hyears⟩ := hcanonical text htext
          exact ⟨_, hb, hquarantined haction, hyears⟩
      refine ⟨ds, ?_, fun d hd => ?_⟩
      · rw [hb]
        change (evaluateInstallRules (installRuleInput accepted a
          ⟨c.definition, c.ruleBundleHash⟩) >>= _) = _
        rw [hhits]
        exact hds
      · obtain ⟨-, -, hd⟩ := hon d hd
        exact hd

omit hbound hfits in
/-- **The fraud stage.**  Where the attempts are bound and every quarantine
fits, the stage of a call returns, and its decisions are about accepted
records. -/
theorem fraudDecisions_ok (all : List Attempt) (hbound : ∀ a ∈ accepted, IsBound active a)
    (hfits : ∀ a ∈ accepted, QuarantineFits accepted a) :
    ∃ ds, fraudDecisions (runtimeInput all) accepted = .ok ds ∧
      ∀ d ∈ ds, ∃ a ∈ accepted, IsDecisionOn active accepted a d := by
  obtain ⟨transport, htransport, hon⟩ := PartialList.exists_traverse fun a ha =>
    transportFraud_ok hsound (hbound a ha) (hfits a ha)
  obtain ⟨install, hinstall, hon'⟩ := PartialList.exists_traverse fun a ha =>
    installFraud_ok hsound (hbound a ha) (hfits a ha)
  refine ⟨_, by rw [fraudDecisions, htransport, hinstall]; rfl, fun d hd => ?_⟩
  rw [sortFraudDecisions, mem_sortByKey, List.flatten_nil, List.append_nil, List.mem_append, List.mem_flatten,
    List.mem_flatten] at hd
  rcases hd with ⟨ds, hds, hd⟩ | ⟨ds, hds, hd⟩
  · obtain ⟨a, ha, hall⟩ := hon ds hds
    exact ⟨a, ha, hall d hd⟩
  · obtain ⟨a, ha, hall⟩ := hon' ds hds
    exact ⟨a, ha, hall d hd⟩

end Stage

section Evaluation

variable [Digest]

/-- The stages of an evaluation that read no bundle: all but the fraud
stage. -/
def otherStages (input : EvaluatorInput) (factory : List Attempt → CandidateProvider) :
    Except Failure Unit := do
  let i ← ingest input factory
  let _ ← rawRecords i.decisions i.lifecycle i.all
  let _ ← deliveries input i.decisions i.all
  let _ ← initialAttributions i.candidates i.decisions i.lifecycle i.accepted
  let _ ← costRecords input
  let _ ← metricDefinitions input
  let _ ← reconciliationResults input i.accepted
  return ()

variable [PayloadSchemas] {l : Ledger} {context : CallContext} {attempts history : List Attempt}

/-- **The evaluation of a call.**  It returns where its other stages do and
every quarantine fits. -/
theorem evaluate_ok (hsound : ∀ c, context.activeRevision = some c → c.IsSound)
    {all : List Attempt} (hall : all = evaluatedAttempts l context attempts history)
    (hfits : ∀ a ∈ all.filter (isWinner all), QuarantineFits (all.filter (isWinner all)) a)
    (hother : otherStages (runtimeInput all) indexedCandidateProvider = .ok ()) :
    ∃ out, evaluate (runtimeInput all) indexedCandidateProvider = .ok out ∧
      ∀ d ∈ out.fraudDecisions, ∃ a ∈ all.filter (isWinner all),
        IsDecisionOn context.activeRevision (all.filter (isWinner all)) a d := by
  have hsorted : sortCandidateAttempts all = all := by
    rw [hall]
    exact evaluatedAttempts_sorted l context attempts history
  have hprovider : indexedCandidateProvider = fixtureCandidateProvider :=
    funext indexedCandidateProvider_eq
  rw [hprovider] at hother ⊢
  simp only [otherStages, bind_eq_ok] at hother
  obtain ⟨i, hi, raws, hraws, rows, hrows, initial, hinitial, costs, hcosts, definitions,
    hdefinitions, reconciliation, hreconciliation, -⟩ := hother
  have haccepted : i.accepted = all.filter (isWinner all) := by
    obtain ⟨hiall, hcandidates, -, hlist, hdecisions, -, -, haccepted⟩ := ingest_eq_ok hi
    rw [attempts_runtimeInput, hsorted] at hiall
    rw [hcandidates, hiall] at hlist
    rw [haccepted, hdecisions, hiall]
    exact acceptedUnique_eq hlist
  have hbound : ∀ a ∈ i.accepted, IsBound context.activeRevision a := by
    intro a ha
    rw [haccepted] at ha
    have hmem := (List.mem_filter.mp ha).1
    rw [hall] at hmem
    obtain ⟨x, -, rfl⟩ := exists_prepared hmem
    exact isBound_prepareAttempt hsound x
  rw [← haccepted] at hfits ⊢
  obtain ⟨ds, hds, hon⟩ := fraudDecisions_ok hsound all hbound hfits
  have hfraud : fraudStage (runtimeInput all) i.accepted initial = .ok
      ⟨ds, [], fraudAttributions i.accepted initial (excludedClickIds i.accepted ds),
        excludedInstallationIds i.accepted (excludedClickIds i.accepted ds)⟩ := by
    rw [fraudStage, hds]
    rfl
  simp only [evaluate, bind_eq_ok, pure_eq_ok]
  exact ⟨_, ⟨i, hi, raws, hraws, rows, hrows, initial, hinitial, _, hfraud, costs, hcosts,
    definitions, hdefinitions, [], rfl, reconciliation, hreconciliation, rfl⟩, hon⟩

end Evaluation

section Rows

/-- The insertion of a fraud decision. -/
def Write.isFraud : Write → Bool
  | .fraud _ _ _ => true
  | _ => false

/-- The ledgers agree but for their fraud tables. -/
def Ledger.AgreesWith (l l' : Ledger) : Prop :=
  ∃ decisions quarantines,
    l' = { l with fraudDecisions := decisions, fraudQuarantines := quarantines }

theorem Ledger.AgreesWith.refl (l : Ledger) : l.AgreesWith l := ⟨_, _, rfl⟩

variable {l l' m : Ledger}

theorem Ledger.AgreesWith.trans {l'' : Ledger} (h : l.AgreesWith l') (h' : l'.AgreesWith l'') :
    l.AgreesWith l'' := by
  obtain ⟨decisions, quarantines, rfl⟩ := h
  obtain ⟨decisions', quarantines', rfl⟩ := h'
  exact ⟨decisions', quarantines', rfl⟩

/-- No other insertion reads the fraud tables. -/
theorem write_of_agrees {w : Write} (hw : w.isFraud = false) (h : l.AgreesWith l')
    (hm : l.write w = some m) : ∃ m', l'.write w = some m' ∧ m.AgreesWith m' := by
  obtain ⟨decisions, quarantines, rfl⟩ := h
  cases w with
  | logical e =>
      obtain ⟨href, facts, rfl, hfacts⟩ := Ledger.write_logical_eq_some hm
      refine ⟨{ l with
        logicalEvents := AppendOnly.insertOnce (·.event.logicalEventId) e l.logicalEvents
        installFacts := facts
        fraudDecisions := decisions
        fraudQuarantines := quarantines }, ?_, _, _, rfl⟩
      simp only [Ledger.write, if_pos href]
      split at hfacts
      · rename_i hinstall
        rw [if_pos hinstall]
        change (l.projectInstall e >>= _) = _
        rw [hfacts]
        rfl
      · rename_i hother
        rw [if_neg hother, hfacts]
        rfl
  | fraud revision scopes d => cases hw
  | raw | payloadState | delivery | fact | rejection | attribution | reconciliation =>
      cases hm
      exact ⟨_, rfl, _, _, rfl⟩

/-- A decision under the active bundle, of one scope, that meets the checks of
its table is inserted. -/
theorem write_fraud_ok {active : Option FraudRuleBundleContext} {d : FraudDecision} {s : Scope}
    (hbound : d.isBoundTo active = true) (hchecks : d.meetsChecks = true) (l : Ledger) :
    ∃ l', l.write (.fraud active [s] d) = some l' ∧ l.AgreesWith l' := by
  refine ⟨_, if_pos ?_, _, _, rfl⟩
  rw [hbound, hchecks]
  rfl

/-- A transaction whose fraud decisions can be inserted goes through where it
does without them. -/
theorem commit_of_filter {t : Transaction}
    (hfraud : ∀ w ∈ t, w.isFraud = true → ∀ l : Ledger, ∃ l', l.write w = some l' ∧ l.AgreesWith l')
    (h : l.commit (t.filter (fun w => !w.isFraud)) = some m) (hl : l.AgreesWith l') :
    ∃ m', l'.commit t = some m' ∧ m.AgreesWith m' := by
  induction t generalizing l l' with
  | nil =>
      cases h
      exact ⟨l', rfl, hl⟩
  | cons w rest ih =>
      have hrest : ∀ w' ∈ rest, w'.isFraud = true → ∀ l : Ledger, ∃ l', l.write w' = some l' ∧
          l.AgreesWith l' := fun w' hw' => hfraud w' (List.mem_cons_of_mem _ hw')
      cases hw : w.isFraud with
      | true =>
          rw [List.filter_cons_of_neg (by simp [hw])] at h
          obtain ⟨next, hnext, hagrees⟩ := hfraud w List.mem_cons_self hw l'
          obtain ⟨m', hm', hm⟩ := ih hrest h (hl.trans hagrees)
          exact ⟨m', by rw [Ledger.commit, hnext]; exact hm', hm⟩
      | false =>
          rw [List.filter_cons_of_pos (by simp [hw]), Ledger.commit] at h
          obtain ⟨next, hnext, hcommit⟩ := Option.bind_eq_some_iff.mp h
          obtain ⟨next', hnext', hagrees⟩ := write_of_agrees hw hl hnext
          obtain ⟨m', hm', hm⟩ := ih hrest hcommit hagrees
          exact ⟨m', by rw [Ledger.commit, hnext']; exact hm', hm⟩

/-- Several transactions. -/
theorem persistAll_of_filter {ts : List Transaction}
    (hfraud : ∀ t ∈ ts, ∀ w ∈ t, w.isFraud = true → ∀ l : Ledger, ∃ l', l.write w = some l' ∧
      l.AgreesWith l')
    (h : (l.persistAll (ts.map (·.filter (fun w => !w.isFraud)))).2 = true)
    (hl : l.AgreesWith l') : (l'.persistAll ts).2 = true := by
  induction ts generalizing l l' with
  | nil => rfl
  | cons t rest ih =>
      rw [List.map_cons, Ledger.persistAll] at h
      cases hcommit : l.commit (t.filter (fun w => !w.isFraud)) with
      | none =>
          rw [hcommit] at h
          cases h
      | some m =>
          rw [hcommit] at h
          obtain ⟨m', hm', hagrees⟩ := commit_of_filter (hfraud t List.mem_cons_self) hcommit hl
          rw [Ledger.persistAll, hm']
          exact ih (fun t' ht' => hfraud t' (List.mem_cons_of_mem _ ht')) h hagrees

end Rows

section Call

variable [Digest] [PayloadSchemas] {l : Ledger} {context : CallContext}
  {attempts history : List Attempt} {bulk : Bool}

omit [Digest] [PayloadSchemas] in
/-- An attempt's transaction inserts no fraud decision. -/
theorem isFraud_of_attemptTransaction {all : List Attempt} {selected : Selected} {a : Attempt}
    {w : Write} (hw : w ∈ attemptTransaction context all selected a) : w.isFraud = false := by
  cases w with
  | fraud revision scopes d =>
      simp [attemptTransaction, Option.bind_eq_some_iff (f := logicalWrite all), logicalWrite,
        factWrite_ne] at hw
  | raw | payloadState | delivery | logical | fact | rejection | attribution | reconciliation => rfl

omit [Digest] [PayloadSchemas] in
/-- The fraud decisions a call inserts are those it selected, each under the
scopes of the records it is about or of the batch. -/
theorem fraud_of_callTransactions {all : List Attempt} {selected : Selected} {t : Transaction}
    (ht : t ∈ callTransactions context bulk all selected attempts) {w : Write} (hw : w ∈ t)
    (hfraud : w.isFraud = true) : ∃ d ∈ selected.fraudDecisions,
      w = .fraud context.activeRevision (fraudScopes attempts d) d ∨
        w = .fraud context.activeRevision ((attempts.map (·.scope)).take 1) d := by
  unfold callTransactions at ht
  split at ht
  · rw [List.mem_singleton.mp ht] at hw
    cases w with
    | fraud revision scopes d =>
        simp only [bulkTransaction, List.mem_append, List.mem_map, List.mem_flatMap,
          Option.mem_toList, reduceCtorEq, and_false, exists_false, false_or, or_false, logicalWrite,
          Option.map_eq_some_iff, Write.fraud.injEq,
          notMem_bulkFacts (w := .fraud revision scopes d) (fun _ h => by cases h)] at hw
        obtain ⟨d', hd', rfl, rfl, rfl⟩ := hw
        exact ⟨d', hd', .inr rfl⟩
    | raw | payloadState | delivery | logical | fact | rejection | attribution | reconciliation =>
        cases hfraud
  · rcases mem_rowTransactions ht with ⟨x, -, rfl⟩ | ⟨a, -, rfl⟩ | ⟨d, hd, rfl⟩ | ⟨r, -, rfl⟩
    · rw [isFraud_of_attemptTransaction hw] at hfraud
      cases hfraud
    · rw [List.mem_singleton.mp hw] at hfraud
      cases hfraud
    · exact ⟨d, hd, .inl (List.mem_singleton.mp hw)⟩
    · rw [List.mem_singleton.mp hw] at hfraud
      cases hfraud

omit [Digest] [PayloadSchemas] in
/-- The scopes that one scope's attempts have. -/
theorem dedup_of_all_eq {s : Scope} {scopes : List Scope} (hne : scopes ≠ [])
    (h : ∀ x ∈ scopes, x = s) : scopes.dedup = [s] := by
  rw [List.eq_replicate_of_mem h]
  exact List.replicate_dedup fun hlength => hne (List.length_eq_zero_iff.mp hlength)

/-- The attempts that a call accepts as the only one of their key. -/
def callAccepts (l : Ledger) (context : CallContext) (attempts history : List Attempt) :
    List Attempt :=
  (evaluatedAttempts l context attempts history).filter
    (isWinner (evaluatedAttempts l context attempts history))

/-- The condition on a call: where the bundle quarantines an accepted record,
the deadline is a date; where a rule hits one of the batch, the record is not
named as a source is, and the year of a deadline has four digits. -/
structure DeadlinesFit (l : Ledger) (context : CallContext) (attempts history : List Attempt) :
    Prop where
  dates : ∀ a ∈ callAccepts l context attempts history,
    QuarantineFits (callAccepts l context attempts history) a
  named : ∀ a ∈ callAccepts l context attempts history,
    a.record.recordId ∈ (validAttempts attempts).map (·.record.recordId) →
      ∀ b, boundFraudBundle a.server = .ok (some b) →
        IsJudged (callAccepts l context attempts history) a b →
          "source:".toList.isPrefixOf a.record.recordId.text.toList = false
  years : ∀ a ∈ callAccepts l context attempts history,
    a.record.recordId ∈ (validAttempts attempts).map (·.record.recordId) →
      ∀ b, boundFraudBundle a.server = .ok (some b) →
        IsQuarantined (callAccepts l context attempts history) a b →
          DeadlineInYears a.record.receivedAt b.definition

/-- The call completes but for its fraud decisions: it is not interrupted, the
stages of its evaluation that read no bundle return, and its other rows can be
inserted. -/
structure CompletesApart (l : Ledger) (context : CallContext) (attempts history : List Attempt)
    (bulk : Bool) : Prop where
  connected : context.fault = none
  stages : otherStages (runtimeInput (evaluatedAttempts l context attempts history))
    indexedCandidateProvider = .ok ()
  rows : ∀ out, evaluate (runtimeInput (evaluatedAttempts l context attempts history))
    indexedCandidateProvider = .ok out →
      (l.persistAll ((callTransactions context bulk (evaluatedAttempts l context attempts history)
        (select context attempts out) attempts).map (·.filter (fun w => !w.isFraud)))).2 = true

/-- **A call.**  Under a bundle with its own digests it completes where it does
but for its fraud decisions, and the condition holds. -/
theorem ingestScope_completes (hsound : ∀ c, context.activeRevision = some c → c.IsSound)
    {s : Scope} (hscope : ∀ a ∈ attempts, a.scope = s)
    (hfits : DeadlinesFit l context attempts history)
    (hapart : CompletesApart l context attempts history bulk) :
    (ingestScope l context attempts history bulk).completed = true := by
  obtain ⟨hdates, hnamed, hyears⟩ := hfits
  obtain ⟨out, hout, hon⟩ := evaluate_ok hsound rfl hdates hapart.stages
  have hrows := hapart.rows out hout
  unfold ingestScope
  dsimp only
  rw [hout]
  dsimp only
  rw [hapart.connected, Ledger.persist]
  refine persistAll_of_filter (fun t ht w hw hfraud l => ?_) hrows (Ledger.AgreesWith.refl l)
  obtain ⟨d, hd, hwrite⟩ := fraud_of_callTransactions ht hw hfraud
  obtain ⟨hd, habout⟩ := List.mem_filter.mp hd
  obtain ⟨id, hid, hsubject⟩ := List.any_eq_true.mp habout
  rw [decide_eq_true_iff] at hsubject
  obtain ⟨a, ha, hdecision⟩ := hon d hd
  -- the record the decision is about is one of the batch
  have hbatch : a.record.recordId ∈ (validAttempts attempts).map (·.record.recordId) := by
    rw [← Identifier.text_injective (hsubject.trans hdecision.subject)]
    exact hid
  obtain ⟨x, hx, hxid⟩ := List.mem_map.mp hid
  have hxmem : x ∈ attempts := (List.mem_filter.mp hx).1
  have hchecks : d.meetsChecks = true := by
    obtain ⟨b, hb, hjudged⟩ := hdecision.judged
    have hprefix := hnamed a ha hbatch b hb hjudged
    rw [← hdecision.subject] at hprefix
    have hcanonical : d.resolutionDeadlineAt.all isCanonicalTimestamp = true := by
      rw [Option.all_eq_true]
      intro text htext
      obtain ⟨b', hb', hquarantined, hyear⟩ := hdecision.deadline text htext
      exact hyear (hyears a ha hbatch b' hb' hquarantined)
    have hquarantine : (d.action ≠ .quarantine || d.resolutionDeadlineAt.isSome) = true := by
      by_cases haction : d.action = .quarantine
      · rw [hdecision.quarantine haction, Bool.or_true]
      · simp [haction]
    rw [FraudDecision.meetsChecks, hcanonical, hquarantine, hdecision.record, hprefix]
    rfl
  have hscopes : fraudScopes attempts d = [s] := by
    refine dedup_of_all_eq (List.ne_nil_of_mem (a := x.scope) ?_) fun y hy => ?_
    · refine List.mem_map_of_mem (List.mem_filter.mpr ⟨hxmem, ?_⟩)
      simp [isFraudSubject, hxid, hsubject]
    · obtain ⟨z, hz, rfl⟩ := List.mem_map.mp hy
      exact hscope z (List.mem_filter.mp hz).1
  have hfirst : (attempts.map (·.scope)).take 1 = [s] := by
    cases attempts with
    | nil => cases hxmem
    | cons first rest =>
        exact congrArg (fun scope => [scope]) (hscope first List.mem_cons_self)
  rcases hwrite with rfl | rfl
  · rw [hscopes]
    exact write_fraud_ok hdecision.bound hchecks l
  · rw [hfirst]
    exact write_fraud_ok hdecision.bound hchecks l

end Call

end OpenMasu
