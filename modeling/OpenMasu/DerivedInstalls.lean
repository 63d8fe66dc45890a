import OpenMasu.AcquisitionIndependence
import OpenMasu.AttributionChains

/-!
# The installs that attributions are derived for

The attributions of an evaluation form one chain a subject exactly when no
installation id is derived for twice, and the first attribution that bears an
id is the one meant.  Both are questions about the accepted records: which days
are anomalous, which clicks are excluded, and whose record comes first.

* `referredVerdict`, `citedRecords` — the click an install is credited to, and
  the records its attribution cites;
* `firstId`, `firstSubject`, `leader` — the attribution a record starts with,
  and the first record under a subject;
* `derivedInstalls`, `idsOf` — the installs derived for, and the ids a record
  gives rise to;
* `DerivesOnce` — the condition, on an input;
* `readsVerdict_verdictOf`, `initial_eq_sort`, `map_derivations` — verdicts and
  rows, read off the records;
* `attributionChains_iff` — the law;
* `excluded_on_anomalous_day` — an install of both kinds.
-/

namespace OpenMasu

open PartialList (bind_eq_ok pure_eq_ok)
open Supersession (IsHead IsForm)

section Records

variable [Digest] (input : EvaluatorInput)

omit [Digest] in
/-- The accepted clicks that an install names. -/
def namedClicks (a : Attempt) : List Attempt :=
  (winners (orderedAttempts input)).filter (isClickOf a.scope a.record.payload.clickId)

/-- The accepted redirector clicks that an import refers to. -/
def importedClicks (a : Attempt) (clickRef : Identifier) : List Attempt :=
  (winners (orderedAttempts input)).filter (fun c =>
    c.scope = a.scope && c.record.eventName = .click && c.record.producer = .redirector &&
      c.record.payload.remoteClickRef = some clickRef)

/-- No import, Meta referrer, AdServices lookup or referrer status settles the
attribution of the install. -/
def needsClick (a : Attempt) : Bool :=
  !a.record.producer.isImport &&
    a.record.payload.metaReferrerStatus ∉
      [some .decrypted, some .decryptFailed, some .authFailed] &&
    a.record.payload.adservicesContext.isNone && (referrerVerdict a.record.payload).isNone

/-- What the only click an install names says of it, where it needs one. -/
def referredVerdict (a : Attempt) : Option Verdict :=
  if needsClick a then
    match namedClicks input a with
    | [click] => (clickVerdict a click).toOption
    | _ => none
  else none

/-- The only click that an import attributed by its provider refers to. -/
def importedEvidence (a : Attempt) : Option (List Identifier) :=
  a.record.payload.importContext.bind (fun imported =>
    if imported.providerAttributed then
      match imported.providerClickRef.elim [] (importedClicks input a) with
      | [click] => some [click.record.recordId, a.record.recordId]
      | _ => none
    else none)

/-- The records that the attribution of an install cites. -/
def citedRecords (a : Attempt) : List Identifier :=
  (if a.record.producer.isImport then importedEvidence input a
    else (referredVerdict input a).bind (·.evidence)).getD [a.record.recordId]

/-- Some record that the attribution of the install cites is redacted or
purged. -/
def isRecalculated (a : Attempt) : Bool :=
  a.record.eventName = .install &&
    (citedRecords input a).any (fun ref =>
      lifecycleStatus (privacyIndex input) ⟨a.scope, ref⟩ ≠ .available)

/-- The id of the attribution of an install, a postback or an open before
anything is derived from it. -/
def firstId (a : Attempt) : String :=
  if a.record.eventName = .deepLinkOpen then "attr:engagement:" ++ a.record.recordId.text
  else if isRecalculated input a then "attr:" ++ a.record.recordId.text ++ ":recalculated"
  else "attr:" ++ a.record.recordId.text

omit [Digest] in
/-- The subject of that attribution. -/
def firstSubject (a : Attempt) : Option String :=
  if a.record.eventName = .deepLinkOpen then some ("engagement:" ++ a.record.recordId.text)
  else if a.record.eventName = .install then a.record.payload.installationId.map (·.text)
  else some ("aggregate:" ++ (if a.record.eventName = .skanPostback then AttributionMethod.skadnetwork
    else AttributionMethod.adattributionkit).text ++ ":" ++ a.record.recordId.text)

/-- The accepted installs, postbacks and opens. -/
def attributed : List Attempt :=
  let accepted := winners (orderedAttempts input)
  accepted.filter (fun a => a.record.eventName = .install) ++
    (accepted.filter (fun a => isApplePostback a.record.eventName) ++
      accepted.filter (fun a => a.record.eventName = .deepLinkOpen))

/-- They in the order of the ids of their attributions. -/
def attributedRecords : List Attempt :=
  KeyedSort.sortOn (fun a => codeUnits (firstId input a)) (attributed input)

/-- The first of them with the subject that an install's id spells. -/
def leader (a : Attempt) : Option Attempt :=
  (attributedRecords input).find? (fun b =>
    firstSubject b = a.record.payload.installationId.map (·.text))

/-- The record is an install that the click it names credits. -/
def isReferred (b : Attempt) : Bool :=
  b.record.eventName = .install &&
    (referredVerdict input b).any (·.reasonCode = .validInstallReferrer)

/-- The install names a click that some scope excludes. -/
def namesExcluded (a : Attempt) : Bool :=
  (winners (orderedAttempts input)).any (fun c => excludesClick c &&
    c.record.payload.clickId.isSome && c.record.payload.clickId = a.record.payload.clickId)

/-- The installs that an anomalous day makes provisional, with what is appended
to the attribution id. -/
def clockInstalls (day : List SourceDayAggregate) : List (Attempt × String) :=
  let accepted := winners (orderedAttempts input)
  match day with
  | first :: _ =>
      if isAnomalousDay accepted day then
        let installs := accepted.filter (fun a => a.scope = first.scope &&
          a.record.eventName = .install && a.record.payload.clickId.isSome)
        (installs.filter (fun a => (sourceDayClick accepted first.scope first.metricDate a).isSome &&
          (leader input a).any (isReferred input))).map (fun a =>
            (a, ":ctit-clock-provisional:" ++ String.ofList ((dailySnapshotId day).toList.take 12)))
      else []
  | [] => []

/-- The installs that something is derived for, once for each anomalous day and
once for their excluded click. -/
def derivedInstalls : List (Attempt × String) :=
  (sourceDays input.sourceDayAggregates).flatMap (clockInstalls input) ++
    ((winners (orderedAttempts input)).filter (fun a =>
      a.record.eventName = .install && namesExcluded input a)).map (fun a => (a, ":fraud"))

/-- The ids that an attributed record gives rise to. -/
def idsOf (b : Attempt) : List String :=
  firstId input b ::
    ((derivedInstalls input).filter (fun d =>
      (leader input d.1).any (fun c => c.record.recordId = b.record.recordId))).map (fun d =>
        firstId input b ++ d.2)

/-- **The condition.**  The ids of the first attributions are distinct.  No
installation id is derived for twice.  Where a click of an install's own scope
is excluded, the first attribution that bears its installation id is of that
scope.  The ids that two records give rise to differ.  What a recalculated
attribution supersedes is not an id of a kept install, nor of a record that
something is derived from. -/
structure DerivesOnce : Prop where
  firstIds : ((attributed input).map (firstId input)).Nodup
  once : ((derivedInstalls input).map (·.1.record.payload.installationId)).Nodup
  own : ∀ a ∈ winners (orderedAttempts input), a.record.eventName = .install →
    ¬ IsPrivacyAffected input a → (∃ c ∈ winners (orderedAttempts input), excludesClick c = true ∧
      isClickOf a.scope a.record.payload.clickId c = true ∧ a.record.payload.clickId.isSome) →
    ∃ b, leader input a = some b ∧ b.record.eventName = .install ∧ b.scope = a.scope
  ids : ∀ p ∈ attributed input, ∀ q ∈ attributed input, p.record.recordId ≠ q.record.recordId →
    ∀ x ∈ idsOf input p, x ∉ idsOf input q
  bases : ∀ s ∈ attributed input, isRecalculated input s = true → ∀ p ∈ attributed input,
    "attr:" ++ s.record.recordId.text ∈ idsOf input p →
      (p.record.eventName = .install → IsPrivacyAffected input p) ∧
        ("attr:" ++ s.record.recordId.text = firstId input p → ∀ d ∈ derivedInstalls input,
          ∀ c, leader input d.1 = some c → c.record.recordId ≠ p.record.recordId)

end Records

section Verdicts

variable [Digest] {input : EvaluatorInput} {list : List Decision}

/-- An import is credited by no referrer. -/
theorem importedVerdict_spec (candidates : CandidateProvider) (decisions : Decisions) (a : Attempt)
    (imported : ImportContext) :
    (importedVerdict candidates decisions a (some imported)).reasonCode ≠ .validInstallReferrer ∧
      (importedVerdict candidates decisions a (some imported)).evidence =
        if imported.providerAttributed then
          match imported.providerClickRef.elim [] (referencedClicks candidates decisions a) with
          | [click] => some [click.record.recordId, a.record.recordId]
          | _ => none
        else none := by
  unfold importedVerdict
  dsimp only
  by_cases hattributed : imported.providerAttributed = true
  · rw [if_pos hattributed, if_pos hattributed]
    split
    · exact ⟨by simp, rfl⟩
    · split
      · exact ⟨by simp, rfl⟩
      · exact ⟨by simp, rfl⟩
  · rw [if_neg hattributed, if_neg hattributed]
    split
    · exact ⟨by simp, rfl⟩
    · exact ⟨by simp, rfl⟩

/-- The verdict that a list of decisions leads to. -/
def verdictOf (input : EvaluatorInput) (list : List Decision) (a : Attempt) : Verdict :=
  ((installVerdict (fixtureCandidateProvider (orderedAttempts input))
    (decisionMap (orderedAttempts input) list) a).toOption).getD
      ⟨.unattributed, .none, .none, .ambiguousClickId, none⟩

/-- The verdict credits a click, and cites records, as read off the records. -/
structure ReadsVerdict (input : EvaluatorInput) (a : Attempt) (v : Verdict) : Prop where
  reason : v.reasonCode = .validInstallReferrer ↔
    (referredVerdict input a).any (·.reasonCode = .validInstallReferrer) = true
  evidence : v.evidence.getD [a.record.recordId] = citedRecords input a

/-- A verdict that no click leads to. -/
theorem readsVerdict_settled {a : Attempt} {v : Verdict} (hdirect : a.record.producer.isImport = false)
    (hnone : referredVerdict input a = none) (hreason : v.reasonCode ≠ .validInstallReferrer)
    (hevidence : v.evidence = none) : ReadsVerdict input a v :=
  ⟨by simp [hnone, hreason], by simp [citedRecords, hdirect, hnone, hevidence]⟩

/-- A verdict that a click leads to. -/
theorem readsVerdict_referred {a : Attempt} {w : Except Failure Verdict}
    (hdirect : a.record.producer.isImport = false)
    (hreferred : referredVerdict input a = w.toOption) :
    ReadsVerdict input a (w.toOption.getD ⟨.unattributed, .none, .none, .ambiguousClickId, none⟩) := by
  cases w with
  | ok v => exact ⟨by simp [Except.toOption, hreferred],
      by simp [Except.toOption, citedRecords, hdirect, hreferred]⟩
  | error e => exact ⟨by simp [Except.toOption, hreferred],
      by simp [Except.toOption, citedRecords, hdirect, hreferred]⟩

/-- Without a click there is no verdict about one. -/
theorem referredVerdict_eq_none {a : Attempt} (h : needsClick a = false) :
    referredVerdict input a = none := by
  rw [referredVerdict, if_neg (by simp [h])]

/-- The clicks that an install names are read from the accepted records of its
scope. -/
theorem referencedClicks_winners
    (hlist : decisionsOf (orderedAttempts input)
      (fixtureCandidateProvider (orderedAttempts input)) = .ok list) (a : Attempt) :
    referencedClicks (fixtureCandidateProvider (orderedAttempts input))
      (decisionMap (orderedAttempts input) list) a = importedClicks input a := by
  funext clickRef
  exact referencedClicks_eq hlist a clickRef

omit [Digest] in
/-- A lookup credits no click. -/
theorem adservicesVerdict_spec (status : AdservicesStatus) :
    (adservicesVerdict status).reasonCode ≠ .validInstallReferrer ∧
      (adservicesVerdict status).evidence = none := by
  cases status <;> exact ⟨by simp [adservicesVerdict], rfl⟩

omit [Digest] in
/-- A referrer status credits no click. -/
theorem referrerVerdict_spec {p : Payload} {v : Verdict} (h : referrerVerdict p = some v) :
    v.reasonCode ≠ .validInstallReferrer ∧ v.evidence = none := by
  unfold referrerVerdict at h
  split at h
  · cases h
    exact ⟨by simp, rfl⟩
  · split at h
    · cases h
      exact ⟨by simp, rfl⟩
    · cases h
      exact ⟨by simp, rfl⟩
  · cases h
    exact ⟨by simp, rfl⟩
  · cases h
    exact ⟨by simp, rfl⟩
  · cases h
    exact ⟨by simp, rfl⟩
  · cases h

/-- A verdict that the named clicks lead to. -/
theorem readsVerdict_clicks
    (hlist : decisionsOf (orderedAttempts input)
      (fixtureCandidateProvider (orderedAttempts input)) = .ok list) {a : Attempt}
    (hdirect : a.record.producer.isImport = false) (hneeds : needsClick a = true) :
    ReadsVerdict input a ((referrerClickVerdict (fixtureCandidateProvider (orderedAttempts input))
      (decisionMap (orderedAttempts input) list) a).toOption.getD
        ⟨.unattributed, .none, .none, .ambiguousClickId, none⟩) := by
  have hclicks : acceptedClicks (fixtureCandidateProvider (orderedAttempts input))
      (decisionMap (orderedAttempts input) list) a = namedClicks input a :=
    acceptedClicks_eq hlist a
  unfold referrerClickVerdict
  rw [hclicks]
  have hreferred : referredVerdict input a = match namedClicks input a with
      | [click] => (clickVerdict a click).toOption
      | _ => none := if_pos hneeds
  cases hnamed : namedClicks input a with
  | nil =>
      rw [hnamed] at hreferred
      exact readsVerdict_settled hdirect hreferred (by simp [Except.toOption]) rfl
  | cons click rest =>
      rw [hnamed] at hreferred
      cases rest with
      | nil => exact readsVerdict_referred hdirect hreferred
      | cons second more =>
          exact readsVerdict_settled hdirect hreferred (by simp [Except.toOption]) rfl

/-- **The verdict, read off the records.**  Whether a click credits an install,
and which records its attribution cites, in terms of the accepted records
alone. -/
theorem readsVerdict_verdictOf
    (hlist : decisionsOf (orderedAttempts input)
      (fixtureCandidateProvider (orderedAttempts input)) = .ok list) (a : Attempt) :
    ReadsVerdict input a (verdictOf input list a) := by
  unfold verdictOf installVerdict
  dsimp only
  by_cases hproducer : a.record.producer.isImport = true
  · rw [if_pos hproducer]
    have hreferred : referredVerdict input a = none :=
      referredVerdict_eq_none (by simp [needsClick, hproducer])
    cases hcontext : a.record.payload.importContext with
    | none =>
        refine ⟨by simp [importedVerdict, Except.toOption, hreferred], ?_⟩
        simp [importedVerdict, Except.toOption, citedRecords, importedEvidence, hproducer, hcontext]
    | some imported =>
        obtain ⟨hreason, hevidence⟩ := importedVerdict_spec
          (fixtureCandidateProvider (orderedAttempts input))
          (decisionMap (orderedAttempts input) list) a imported
        refine ⟨by simpa [Except.toOption, hreferred] using hreason, ?_⟩
        rw [referencedClicks_winners hlist] at hevidence
        simp only [Except.toOption, Option.getD_some, hevidence, citedRecords, importedEvidence,
          hproducer, hcontext, if_true, Option.bind_some]
  · rw [if_neg hproducer]
    rw [Bool.not_eq_true] at hproducer
    have hmeta : a.record.payload.metaReferrerStatus ∈
        [some MetaReferrerStatus.decrypted, some .decryptFailed, some .authFailed] →
        referredVerdict input a = none := fun h =>
      referredVerdict_eq_none (by simp [needsClick, h])
    split
    · rename_i hstatus
      have hneeds := hmeta (by simp [hstatus])
      split
      · exact readsVerdict_settled hproducer hneeds (by simp [Except.toOption]) rfl
      · exact readsVerdict_settled hproducer hneeds (by simp [Except.toOption]) rfl
    · rename_i hstatus
      exact readsVerdict_settled hproducer (hmeta (by simp [hstatus])) (by simp [Except.toOption]) rfl
    · rename_i hstatus
      exact readsVerdict_settled hproducer (hmeta (by simp [hstatus])) (by simp [Except.toOption]) rfl
    · rename_i hdecrypted hdecryptFailed hauthFailed
      have hother : a.record.payload.metaReferrerStatus ∉
          [some MetaReferrerStatus.decrypted, some .decryptFailed, some .authFailed] := by
        simp only [List.mem_cons, List.not_mem_nil, or_false, not_or]
        exact ⟨hdecrypted, hdecryptFailed, hauthFailed⟩
      cases hadservices : a.record.payload.adservicesContext with
      | some context =>
          have hneeds : referredVerdict input a = none :=
            referredVerdict_eq_none (by simp [needsClick, hadservices])
          obtain ⟨hreason, hevidence⟩ := adservicesVerdict_spec context.status
          exact readsVerdict_settled hproducer hneeds hreason hevidence
      | none =>
          cases hreferrer : referrerVerdict a.record.payload with
          | some v =>
              have hneeds : referredVerdict input a = none :=
                referredVerdict_eq_none (by simp [needsClick, hreferrer])
              obtain ⟨hreason, hevidence⟩ := referrerVerdict_spec hreferrer
              exact readsVerdict_settled hproducer hneeds hreason hevidence
          | none =>
              have hneeds : needsClick a = true := by
                simp [needsClick, hproducer, hother, hadservices, hreferrer]
              exact readsVerdict_clicks hlist hproducer hneeds

end Verdicts

section FirstRows

variable [Digest] {input : EvaluatorInput} {list : List Decision}

/-- The first attribution of a record. -/
def firstRow (input : EvaluatorInput) (list : List Decision) (a : Attempt) : Attribution :=
  if a.record.eventName = .deepLinkOpen then makeDeepLinkAttribution (privacyIndex input) a
  else if a.record.eventName = .install then
    installAttribution (privacyIndex input) a (verdictOf input list a)
  else makeAggregatePostbackAttribution (privacyIndex input) a

/-- The first row of a record bears the id that the conditions read from the
record. -/
theorem firstRow_id (hlist : decisionsOf (orderedAttempts input)
    (fixtureCandidateProvider (orderedAttempts input)) = .ok list) (a : Attempt) :
    (firstRow input list a).attributionId = firstId input a := by
  unfold firstRow firstId isRecalculated
  by_cases hopen : a.record.eventName = .deepLinkOpen
  · rw [if_pos hopen, if_pos hopen]
    rfl
  · rw [if_neg hopen, if_neg hopen]
    by_cases hinstall : a.record.eventName = .install
    · rw [if_pos hinstall]
      simp only [installAttribution, hinstall, decide_true, Bool.true_and, List.any_map,
        (readsVerdict_verdictOf hlist a).evidence]
      rfl
    · rw [if_neg hinstall]
      simp [makeAggregatePostbackAttribution, hinstall]

/-- It is about the subject that they read. -/
@[simp] theorem firstRow_subject (a : Attempt) : (firstRow input list a).subjectRef = firstSubject a := by
  unfold firstRow firstSubject
  split
  · rfl
  · split
    · rfl
    · simp only [makeAggregatePostbackAttribution]

/-- It supersedes the plain row of its record where a record it cites is
redacted or purged. -/
theorem firstRow_target (hlist : decisionsOf (orderedAttempts input)
    (fixtureCandidateProvider (orderedAttempts input)) = .ok list) (a : Attempt) :
    (firstRow input list a).supersedesAttributionId =
    if isRecalculated input a then some ("attr:" ++ a.record.recordId.text) else none := by
  unfold firstRow isRecalculated
  by_cases hopen : a.record.eventName = .deepLinkOpen
  · rw [if_pos hopen]
    simp [hopen, makeDeepLinkAttribution]
  · rw [if_neg hopen]
    by_cases hinstall : a.record.eventName = .install
    · rw [if_pos hinstall]
      simp only [installAttribution, hinstall, decide_true, Bool.true_and, List.any_map,
        (readsVerdict_verdictOf hlist a).evidence]
      rfl
    · rw [if_neg hinstall]
      simp [makeAggregatePostbackAttribution, hinstall]

/-- It tells an installation for installs only. -/
theorem firstRow_installation (a : Attempt) : (firstRow input list a).installation =
    if a.record.eventName = .install then some a.installation else none := by
  unfold firstRow
  by_cases hopen : a.record.eventName = .deepLinkOpen
  · rw [if_pos hopen, if_neg (by simp [hopen])]
    rfl
  · rw [if_neg hopen]
    by_cases hinstall : a.record.eventName = .install
    · rw [if_pos hinstall, if_pos hinstall]
      rfl
    · rw [if_neg hinstall, if_neg hinstall]
      rfl

/-- Its reason is the valid referrer where the record is referred. -/
theorem firstRow_reason (hlist : decisionsOf (orderedAttempts input)
    (fixtureCandidateProvider (orderedAttempts input)) = .ok list) (a : Attempt) :
    (firstRow input list a).reasonCode = .validInstallReferrer ↔ isReferred input a = true := by
  unfold firstRow isReferred
  by_cases hopen : a.record.eventName = .deepLinkOpen
  · rw [if_pos hopen]
    have hreason : deepLinkReason a ≠ .validInstallReferrer := by
      unfold deepLinkReason
      split
      · simp
      · split <;> simp
    simpa [hopen, makeDeepLinkAttribution] using hreason
  · rw [if_neg hopen]
    by_cases hinstall : a.record.eventName = .install
    · rw [if_pos hinstall]
      simp only [installAttribution, hinstall, decide_true, Bool.true_and]
      exact (readsVerdict_verdictOf hlist a).reason
    · rw [if_neg hinstall]
      have hreason : (postbackVerdict a.record.payload).2 ≠ .validInstallReferrer := by
        unfold postbackVerdict
        split
        · simp
        · split
          · simp
          · split
            · simp
            · split <;> simp
      simpa [hinstall, makeAggregatePostbackAttribution] using hreason

end FirstRows

section Reading

variable [Digest] {input : EvaluatorInput} {list : List Decision} {initial : List Attribution}

omit [Digest] in
/-- The selection of what a partial function maps. -/
theorem map_filterMap_eq {α β γ : Type} {f : α → Option β} {g : β → γ} {p : α → Bool} {h : α → γ}
    {l : List α} (hf : ∀ a ∈ l, (f a).map g = if p a then some (h a) else none) :
    (l.filterMap f).map g = (l.filter p).map h := by
  induction l with
  | nil => rfl
  | cons a rest ih =>
      have ha := hf a List.mem_cons_self
      have hrest := ih fun b hb => hf b (List.mem_cons_of_mem _ hb)
      by_cases hp : p a = true
      · rw [if_pos hp] at ha
        obtain ⟨b, hb, hg⟩ := Option.map_eq_some_iff.mp ha
        rw [List.filterMap_cons_some hb, List.filter_cons_of_pos hp, List.map_cons, List.map_cons,
          hrest, hg]
      · rw [if_neg hp, Option.map_eq_none_iff] at ha
        rw [List.filterMap_cons_none ha, List.filter_cons_of_neg hp, hrest]

variable (hlist : decisionsOf (orderedAttempts input)
    (fixtureCandidateProvider (orderedAttempts input)) = .ok list)
  (hinitial : initialAttributions (fixtureCandidateProvider (orderedAttempts input))
    (decisionMap (orderedAttempts input) list) (privacyIndex input)
    (winners (orderedAttempts input)) = .ok initial)

include hlist hinitial

omit hlist in
/-- The initial attributions are the first rows of the attributed records. -/
theorem initial_eq_sort :
    initial = sortAttributions ((attributed input).map (firstRow input list)) := by
  simp only [initialAttributions, bind_eq_ok, pure_eq_ok] at hinitial
  obtain ⟨installs, hinstalls, rfl⟩ := hinitial
  have hrows : installs = ((winners (orderedAttempts input)).filter
      (fun a => a.record.eventName = .install)).map (firstRow input list) := by
    have hmap : installs.map id = ((winners (orderedAttempts input)).filter
        (fun a => a.record.eventName = .install)).map (firstRow input list) :=
      PartialList.map_of_traverse hinstalls fun a ha t hmade => by
        have hinstall := of_decide_eq_true (List.mem_filter.mp ha).2
        simp only [makeAttribution, bind_eq_ok, pure_eq_ok] at hmade
        obtain ⟨v, hv, rfl⟩ := hmade
        have hverdict : verdictOf input list a = v := by
          rw [verdictOf, hv]
          rfl
        rw [firstRow, if_neg (by simp [hinstall]), if_pos hinstall, hverdict]
        rfl
    rw [List.map_id] at hmap
    exact hmap
  rw [attributed, List.map_append, List.map_append, hrows, List.append_assoc]
  congr 2
  refine congrArg₂ _ (List.map_congr_left fun a ha => ?_) (List.map_congr_left fun a ha => ?_)
  · have hpostback := (List.mem_filter.mp ha).2
    rw [firstRow, if_neg, if_neg]
    · intro h
      simp [isApplePostback, h] at hpostback
    · intro h
      simp [isApplePostback, h] at hpostback
  · have hopen := of_decide_eq_true (List.mem_filter.mp ha).2
    rw [firstRow, if_pos hopen]

/-- With distinct ids the initial attributions come in the order of the
attributed records. -/
theorem initial_eq (hids : ((attributed input).map (firstId input)).Nodup) :
    initial = (attributedRecords input).map (firstRow input list) := by
  rw [initial_eq_sort hinitial, sortAttributions, sortByKey]
  have hperm : ((attributedRecords input).map (firstRow input list)).Perm
      ((attributed input).map (firstRow input list)) := (KeyedSort.perm_sortOn _ _).map _
  have hsortedIds : ((attributedRecords input).map (firstId input)).Nodup :=
    ((KeyedSort.perm_sortOn _ _).map _).nodup_iff.mpr hids
  have hordered : ((attributedRecords input).map (firstRow input list)).Pairwise (fun t t' =>
      textKey (fun t : Attribution => [t.attributionId, t.tenantId.text, t.appId.text]) t ≤
        textKey (fun t : Attribution => [t.attributionId, t.tenantId.text, t.appId.text]) t') := by
    refine List.pairwise_map.mpr (List.Pairwise.imp₂ (fun a b hle hne => ?_)
      (KeyedSort.pairwise_sortOn _ _) (List.pairwise_map.mp hsortedIds))
    have hlt : codeUnits (firstId input a) < codeUnits (firstId input b) :=
      lt_of_le_of_ne hle fun heq => hne (codeUnits_injective heq)
    refine le_of_lt ?_
    simp only [textKey, List.cons_append, List.map_cons, firstRow_id hlist]
    exact List.Lex.rel hlt
  rw [← KeyedSort.sortOn_of_pairwise _ hordered]
  refine (KeyedSort.sortOn_eq_of_perm _ hperm fun t ht t' ht' hkey => ?_).symm
  obtain ⟨a, ha, rfl⟩ := List.mem_map.mp ht
  obtain ⟨b, hb, rfl⟩ := List.mem_map.mp ht'
  simp only [textKey, List.cons_append, List.map_cons, firstRow_id hlist, List.cons.injEq] at hkey
  rw [List.inj_on_of_nodup_map hsortedIds ha hb (codeUnits_injective hkey.1)]

/-- What an install's id leads to is the first row of its leader. -/
theorem prior_eq (hids : ((attributed input).map (firstId input)).Nodup) (a : Attempt) :
    priorAttribution initial a.record.payload.installationId =
      (leader input a).map (firstRow input list) := by
  rw [priorAttribution, initial_eq hlist hinitial hids, List.find?_map, leader]
  congr 1
  refine congrArg₂ _ (funext fun b => ?_) rfl
  rw [Function.comp_apply, firstRow_subject]

omit hlist hinitial in
/-- The records are those that are attributed, in the order of the stage. -/
theorem mem_attributedRecords {a : Attempt} :
    a ∈ attributedRecords input ↔ a ∈ attributed input := KeyedSort.mem_sortOn _

omit hlist hinitial in
/-- Every accepted install is attributed. -/
theorem mem_attributed_of_install {a : Attempt} (ha : a ∈ winners (orderedAttempts input))
    (hinstall : a.record.eventName = .install) : a ∈ attributed input :=
  List.mem_append_left _ (List.mem_filter.mpr ⟨ha, decide_eq_true hinstall⟩)

omit hlist hinitial in
/-- What is attributed was accepted. -/
theorem mem_winners_of_attributed {a : Attempt} (ha : a ∈ attributed input) :
    a ∈ winners (orderedAttempts input) := by
  rcases List.mem_append.mp ha with ha | ha
  · exact (List.mem_filter.mp ha).1
  · rcases List.mem_append.mp ha with ha | ha <;> exact (List.mem_filter.mp ha).1

omit hlist hinitial in
/-- The leader of an install is about its installation. -/
theorem firstSubject_of_leader {a b : Attempt} (hb : leader input a = some b) :
    firstSubject b = a.record.payload.installationId.map (·.text) := by
  unfold leader at hb
  have hfound := List.find?_some hb
  exact of_decide_eq_true hfound

omit hlist hinitial in
/-- An accepted install has a leader: it bears its own id. -/
theorem exists_leader {a : Attempt} (ha : a ∈ winners (orderedAttempts input))
    (hinstall : a.record.eventName = .install) : ∃ b, leader input a = some b := by
  rw [← Option.isSome_iff_exists, leader, List.find?_isSome]
  refine ⟨a, mem_attributedRecords.mpr (mem_attributed_of_install ha hinstall), ?_⟩
  simp [firstSubject, hinstall]

end Reading

section Exclusions

variable [Digest] {input : EvaluatorInput} {decisions : List FraudDecision}

/-- The record names an excluded click exactly in the sense of the fraud stage.
-/
theorem namesExcluded_iff {a : Attempt} :
    namesExcluded input a = true ↔ NamesExcludedClick (winners (orderedAttempts input)) a := by
  simp [namesExcluded, NamesExcludedClick, and_assoc]

/-- An excluded click has a decision of its own. -/
theorem exists_exclusion_of_click {all : List Attempt}
    (h : fraudDecisions input (winners all) = .ok decisions) {c : Attempt} (hc : c ∈ winners all)
    (hexcludes : excludesClick c = true) : ∃ d ∈ decisions, d.action = .exclude ∧
      d.subjectScope = .record ∧ d.subjectRef = c.record.recordId.text ∧
      c.record.eventName = .click ∧ truthy c.server.fraudActionsEnabled = true := by
  rw [excludesClick, Bool.and_eq_true] at hexcludes
  obtain ⟨henabled, hexcludes⟩ := hexcludes
  simp only [fraudDecisions, bind_eq_ok, pure_eq_ok] at h
  obtain ⟨transport, htransport, install, -, sourceDay, -, rfl⟩ := h
  obtain ⟨ds, hds, hc⟩ := PartialList.ok_of_mem_traverse htransport hc
  rw [hc] at hexcludes
  obtain ⟨d, hd, haction⟩ := List.any_eq_true.mp hexcludes
  obtain ⟨hscope, href, hclick⟩ := subject_of_transport hc hd
  refine ⟨d, ?_, of_decide_eq_true haction, hscope, href, hclick, henabled⟩
  rw [sortFraudDecisions, mem_sortByKey, List.mem_append, List.mem_append]
  exact .inl (.inl (List.mem_flatten.mpr ⟨ds, hds, hd⟩))

omit [Digest] in
/-- The decision excludes the click it is about. -/
theorem excludedClick_of_click {all : List Attempt} {c : Attempt} (hc : c ∈ winners all)
    {d : FraudDecision} (haction : d.action = .exclude) (hscope : d.subjectScope = .record)
    (href : d.subjectRef = c.record.recordId.text) (hclick : c.record.eventName = .click)
    (henabled : truthy c.server.fraudActionsEnabled = true) {id : Identifier}
    (hid : c.record.payload.clickId = some id) :
    excludedClick (winners all) d = some (id, d) := by
  have hsome : ((winners all).find? (fun a => a.record.recordId.text = d.subjectRef &&
      a.record.eventName = .click)).isSome :=
    List.find?_isSome.mpr ⟨c, hc, by simp [href, hclick]⟩
  obtain ⟨c', hc'⟩ := Option.isSome_iff_exists.mp hsome
  have hkept := List.find?_some hc'
  rw [Bool.and_eq_true, decide_eq_true_iff] at hkept
  have hsame : c' = c := eq_of_winners (List.mem_of_find?_eq_some hc') hc (hkept.1.trans href)
  rw [excludedClick, if_pos ⟨haction, by simp [hscope]⟩, hc', hsame]
  dsimp only
  rw [if_pos henabled, hid]
  rfl

/-- The decisions exclude the click of an install exactly where it names an
excluded one. -/
theorem excluding_isSome (h : fraudDecisions input (winners (orderedAttempts input)) = .ok decisions)
    (a : Attempt) : (excludingDecision
      (excludedClickIds (winners (orderedAttempts input)) decisions) a).isSome =
        namesExcluded input a := by
  rw [Bool.eq_iff_iff, namesExcluded_iff]
  refine ⟨namesExcludedClick_of_excluding h, ?_⟩
  rintro ⟨c, hc, hexcludes, hnamed, hsame⟩
  obtain ⟨d, hd, haction, hscope, href, hclick, henabled⟩ := exists_exclusion_of_click h hc hexcludes
  obtain ⟨id, hid⟩ := Option.isSome_iff_exists.mp hnamed
  rw [excludingDecision, ← hsame, hid, Option.bind_some, excludedClickIds,
    InsertionMap.get_ofList_isSome]
  refine List.mem_map.mpr ⟨(id, d), List.mem_filterMap.mpr ⟨d, hd, ?_⟩, rfl⟩
  exact excludedClick_of_click hc haction hscope href hclick henabled hid

/-- The click of an install is excluded in its own scope. -/
theorem isClickExcluded_iff
    (h : fraudDecisions input (winners (orderedAttempts input)) = .ok decisions) {a : Attempt} :
    IsClickExcluded (winners (orderedAttempts input)) decisions a ↔
      ∃ c ∈ winners (orderedAttempts input), excludesClick c = true ∧
        isClickOf a.scope a.record.payload.clickId c = true ∧ a.record.payload.clickId.isSome := by
  constructor
  · rintro ⟨c, hc, hof, hnamed, henabled, d, hd, haction, hscope, href⟩
    refine ⟨c, hc, ?_, hof, hnamed⟩
    simp only [isClickOf, Bool.and_eq_true, decide_eq_true_eq] at hof
    obtain ⟨id, hid⟩ := Option.isSome_iff_exists.mp hnamed
    have hpair : excludedClick (winners (orderedAttempts input)) d = some (id, d) := by
      have hrecord : d.subjectScope = .record := by
        cases hs : d.subjectScope with
        | record => rfl
        | source => exact absurd hs hscope
      exact excludedClick_of_click hc haction hrecord href hof.1.2 henabled (hof.2.trans hid)
    obtain ⟨c', hc', hexcludes, -, href', -⟩ := excludes_of_excludedClick h hd hpair
    rw [← eq_of_winners hc' hc (href'.trans href)]
    exact hexcludes
  · rintro ⟨c, hc, hexcludes, hof, hnamed⟩
    obtain ⟨d, hd, haction, hscope, href, -, henabled⟩ := exists_exclusion_of_click h hc hexcludes
    exact ⟨c, hc, hof, hnamed, henabled, d, hd, haction, by simp [hscope], href⟩

end Exclusions

section Conditions

variable [Digest] {input : EvaluatorInput} {list : List Decision} {initial : List Attribution}
  {decisions : List FraudDecision}

omit [Digest] in
/-- A day with aggregates has a latest one. -/
theorem latestComputedAt_ne_none (first : SourceDayAggregate) (rest : List SourceDayAggregate) :
    latestComputedAt (first :: rest) ≠ none := by
  unfold latestComputedAt
  rw [ne_eq, List.getLast?_eq_none_iff]
  intro hnil
  have hlength := congrArg List.length hnil
  simp at hlength

/-- The id derived for an install. -/
def derivedId (input : EvaluatorInput) (s : Attempt × String) : String :=
  ((leader input s.1).map (firstId input)).getD "" ++ s.2

variable (hlist : decisionsOf (orderedAttempts input)
    (fixtureCandidateProvider (orderedAttempts input)) = .ok list)
  (hinitial : initialAttributions (fixtureCandidateProvider (orderedAttempts input))
    (decisionMap (orderedAttempts input) list) (privacyIndex input)
    (winners (orderedAttempts input)) = .ok initial)
  (hids : ((attributed input).map (firstId input)).Nodup)

include hlist hinitial hids

/-- The installs of a day, with the ids derived for them. -/
theorem map_clockDerivations (day : List SourceDayAggregate) :
    (clockDerivations (winners (orderedAttempts input)) initial day).map
        (fun d => (d.1, d.2.attributionId)) =
      (clockInstalls input day).map (fun s => (s.1, derivedId input s)) := by
  unfold clockDerivations clockInstalls
  cases day with
  | nil => rfl
  | cons first rest =>
      obtain ⟨computedAt, hcomputed⟩ :=
        Option.ne_none_iff_exists'.mp (latestComputedAt_ne_none first rest)
      rw [hcomputed]
      dsimp only
      split
      · rw [List.map_map]
        refine map_filterMap_eq fun a _ => ?_
        rw [provisionalAttribution, prior_eq hlist hinitial hids]
        cases hclick : sourceDayClick (winners (orderedAttempts input)) first.scope
            first.metricDate a with
        | none => simp
        | some click =>
            cases hleader : leader input a with
            | none => simp
            | some b =>
                by_cases hreferred : isReferred input b = true
                · have hreason := (firstRow_reason hlist b).mpr hreferred
                  simp [hreason, hreferred, derivedId, hleader, firstRow_id hlist, String.append_assoc]
                · have hreason := mt (firstRow_reason hlist b).mp hreferred
                  simp [hreason, hreferred]
      · rfl

/-- **The rows, read off the records.**  The installs derived for and the ids
of what is derived. -/
theorem map_derivations
    (h : fraudDecisions input (winners (orderedAttempts input)) = .ok decisions) :
    (derivations (winners (orderedAttempts input)) initial input decisions).map
        (fun d => (d.1, d.2.attributionId)) =
      (derivedInstalls input).map (fun s => (s.1, derivedId input s)) := by
  rw [derivations, derivedInstalls, List.map_append, List.map_append, List.map_flatMap,
    List.map_flatMap]
  congr 1
  · exact List.flatMap_congr fun day _ => map_clockDerivations hlist hinitial hids day
  · have hinstalls : excludedInstalls (winners (orderedAttempts input))
        (excludedClickIds (winners (orderedAttempts input)) decisions) =
        (winners (orderedAttempts input)).filter (fun a =>
          a.record.eventName = .install && namesExcluded input a) :=
      List.filter_congr fun a _ => by rw [excluding_isSome h]
    rw [fraudDerivations, hinstalls, List.map_map]
    refine (map_filterMap_eq fun a ha => ?_).trans (congrArg (List.map _) (List.filter_true _))
    obtain ⟨ha, hkept⟩ := List.mem_filter.mp ha
    rw [Bool.and_eq_true, decide_eq_true_iff] at hkept
    obtain ⟨b, hb⟩ := exists_leader ha hkept.1
    have hsome : (excludingDecision (excludedClickIds (winners (orderedAttempts input)) decisions)
        a).isSome = true := (excluding_isSome h a).trans hkept.2
    obtain ⟨d, hd⟩ := Option.isSome_iff_exists.mp hsome
    rw [fraudAttribution, hd, prior_eq hlist hinitial hids, hb]
    simp [derivedId, hb, firstRow_id hlist]

/-- The installation ids derived for. -/
theorem map_derivedInstalls
    (h : fraudDecisions input (winners (orderedAttempts input)) = .ok decisions) :
    (derivations (winners (orderedAttempts input)) initial input decisions).map
        (·.1.record.payload.installationId) =
      (derivedInstalls input).map (·.1.record.payload.installationId) := by
  have hmap := congrArg (List.map fun s : Attempt × String => s.1.record.payload.installationId)
    (map_derivations hlist hinitial hids h)
  rw [List.map_map, List.map_map] at hmap
  exact hmap

/-- A derivation is for an install, from the first row of its leader. -/
structure ReadsAs (input : EvaluatorInput) (list : List Decision) (initial : List Attribution)
    (d : Attempt × Attribution) (s : Attempt × String) (b : Attempt) : Prop where
  mem : b ∈ attributed input
  leads : leader input s.1 = some b
  prior : derivationPrior initial d = firstRow input list b
  id : d.2.attributionId = firstId input b ++ s.2

/-- A derivation reads as the install it has the id of. -/
theorem readsAs_of_id {d : Attempt × Attribution} {s : Attempt × String}
    (hd : d ∈ derivations (winners (orderedAttempts input)) initial input decisions)
    (hsame : (d.1, d.2.attributionId) = (s.1, derivedId input s)) :
    ∃ b, ReadsAs input list initial d s b := by
  obtain ⟨hinstall, hid⟩ := Prod.mk.inj hsame
  obtain ⟨prior, hprior, -⟩ := derivation_cases hd
  have hleader := hprior
  rw [prior_eq hlist hinitial hids] at hleader
  obtain ⟨b, hb, rfl⟩ := Option.map_eq_some_iff.mp hleader
  refine ⟨b, mem_attributedRecords.mp (List.mem_of_find?_eq_some hb), hinstall ▸ hb, ?_, ?_⟩
  · rw [derivationPrior, hprior]
    rfl
  · rw [hid, derivedId, ← hinstall, hb]
    rfl

/-- Every derived row comes from an install that the conditions count. -/
theorem readsAs_of_derivation
    (h : fraudDecisions input (winners (orderedAttempts input)) = .ok decisions)
    {d : Attempt × Attribution}
    (hd : d ∈ derivations (winners (orderedAttempts input)) initial input decisions) :
    ∃ s ∈ derivedInstalls input, ∃ b, ReadsAs input list initial d s b := by
  have hmem := List.mem_map_of_mem (f := fun d => (d.1, d.2.attributionId)) hd
  rw [map_derivations hlist hinitial hids h] at hmem
  obtain ⟨s, hs, hsame⟩ := List.mem_map.mp hmem
  exact ⟨s, hs, readsAs_of_id hlist hinitial hids hd hsame.symm⟩

/-- And every install they count has its derived row. -/
theorem readsAs_of_install
    (h : fraudDecisions input (winners (orderedAttempts input)) = .ok decisions)
    {s : Attempt × String} (hs : s ∈ derivedInstalls input) :
    ∃ d ∈ derivations (winners (orderedAttempts input)) initial input decisions,
      ∃ b, ReadsAs input list initial d s b := by
  have hmem := List.mem_map_of_mem (f := fun s => (s.1, derivedId input s)) hs
  rw [← map_derivations hlist hinitial hids h] at hmem
  obtain ⟨d, hd, hsame⟩ := List.mem_map.mp hmem
  exact ⟨d, hd, readsAs_of_id hlist hinitial hids hd hsame⟩

variable (hinitialRows : initial.Nodup)

include hinitialRows

omit hlist hids in
/-- Different records have different first rows. -/
theorem firstRow_inj {a b : Attempt} (ha : a ∈ attributed input) (hb : b ∈ attributed input)
    (hrow : firstRow input list a = firstRow input list b) : a = b := by
  have hnodup : ((attributed input).map (firstRow input list)).Nodup := by
    refine (List.Perm.nodup_iff ?_).mp hinitialRows
    rw [initial_eq_sort hinitial]
    exact perm_sortByKey _ _
  exact List.inj_on_of_nodup_map hnodup ha hb hrow

/-- The ids of an initial attribution and what is derived from it are those
its record gives rise to. -/
theorem isForm_iff (h : fraudDecisions input (winners (orderedAttempts input)) = .ok decisions)
    {p : Attempt} (hp : p ∈ attributed input) {x : String} :
    IsForm attributionTable (derivationPrior initial) Prod.snd
      (derivations (winners (orderedAttempts input)) initial input decisions) (firstRow input list p) x ↔
      x ∈ idsOf input p := by
  have hfirst : attributionTable.id (firstRow input list p) = firstId input p := firstRow_id hlist p
  rw [IsForm, idsOf, List.mem_cons, hfirst]
  refine or_congr Iff.rfl ?_
  simp only [List.mem_map, List.mem_filter]
  constructor
  · rintro ⟨d, hd, hparent, rfl⟩
    obtain ⟨s, hs, b, hreads⟩ := readsAs_of_derivation hlist hinitial hids h hd
    obtain rfl : b = p := firstRow_inj hinitial hinitialRows hreads.mem hp
      (hreads.prior.symm.trans hparent)
    exact ⟨s, ⟨hs, by simp [hreads.leads]⟩, hreads.id.symm⟩
  · rintro ⟨s, ⟨hs, hleads⟩, rfl⟩
    obtain ⟨d, hd, b, hreads⟩ := readsAs_of_install hlist hinitial hids h hs
    rw [hreads.leads, Option.any_some, decide_eq_true_eq] at hleads
    obtain rfl : b = p := eq_of_winners (mem_winners_of_attributed hreads.mem)
      (mem_winners_of_attributed hp) (congrArg Identifier.text hleads)
    exact ⟨d, hd, hreads.prior, hreads.id.symm⟩

/-- Nothing is derived from the first row of a record exactly where no install
derived for has it as its leader. -/
theorem not_parent_iff (h : fraudDecisions input (winners (orderedAttempts input)) = .ok decisions)
    {p : Attempt} (hp : p ∈ attributed input) :
    (∀ d ∈ derivations (winners (orderedAttempts input)) initial input decisions,
      derivationPrior initial d ≠ firstRow input list p) ↔
      ∀ s ∈ derivedInstalls input, ∀ c, leader input s.1 = some c →
        c.record.recordId ≠ p.record.recordId := by
  constructor
  · intro hnone s hs c hc hsame
    obtain ⟨d, hd, b, hreads⟩ := readsAs_of_install hlist hinitial hids h hs
    obtain rfl : b = c := Option.some.inj (hreads.leads.symm.trans hc)
    obtain rfl : b = p := eq_of_winners (mem_winners_of_attributed hreads.mem)
      (mem_winners_of_attributed hp) (congrArg Identifier.text hsame)
    exact hnone d hd hreads.prior
  · intro hnone d hd hparent
    obtain ⟨s, hs, b, hreads⟩ := readsAs_of_derivation hlist hinitial hids h hd
    obtain rfl : b = p := firstRow_inj hinitial hinitialRows hreads.mem hp
      (hreads.prior.symm.trans hparent)
    exact hnone s hs b hreads.leads rfl

variable (hkeys : ((winners (orderedAttempts input)).map (·.record.recordId)).Nodup)
  (hanchors : (((winners (orderedAttempts input)).filter
    (fun a => a.record.eventName = .install)).map anchorKey).Nodup)

omit hids hinitialRows in
include hkeys in
/-- With distinct forms the first ids are distinct. -/
theorem nodup_firstIds
    (hrows : RowsDeriveOnce input (winners (orderedAttempts input)) initial decisions) :
    ((attributed input).map (firstId input)).Nodup := by
  obtain ⟨parts⟩ := initialParts hinitial
  have hnodup := parts.nodup_initial hkeys
  have hmem : ∀ a ∈ attributed input, firstRow input list a ∈ initial := fun a ha => by
    rw [initial_eq_sort hinitial, sortAttributions, mem_sortByKey]
    exact List.mem_map_of_mem ha
  have hattributed : (attributed input).Nodup := by
    refine List.Nodup.of_map (firstRow input list) ((List.Perm.nodup_iff ?_).mp hnodup)
    rw [initial_eq_sort hinitial]
    exact perm_sortByKey _ _
  refine List.Nodup.map_on (fun a ha b hb hid => ?_) hattributed
  refine firstRow_inj hinitial hnodup ha hb
    (hrows.forms _ (hmem a ha) _ (hmem b hb) (firstId input a) (.inl ?_) (.inl ?_))
  · exact (firstRow_id hlist a).symm
  · exact hid.trans (firstRow_id hlist b).symm

include hanchors in
omit hids hlist hinitial hinitialRows in
/-- The first attribution of a record is about no kept installation exactly
where the record is no install that is kept. -/
theorem firstRow_kept_iff {p : Attempt} (hp : p ∈ attributed input) :
    (∀ k, KeptInstallation input (winners (orderedAttempts input)) k →
      (firstRow input list p).installation ≠ some k) ↔
      (p.record.eventName = .install → IsPrivacyAffected input p) := by
  rw [firstRow_installation]
  constructor
  · intro hnone hinstall
    by_contra hkept
    refine hnone p.installation ⟨p, mem_winners_of_attributed hp, hinstall, hkept, rfl⟩ ?_
    rw [if_pos hinstall]
  · intro haffected k hk hsome
    by_cases hinstall : p.record.eventName = .install
    · rw [if_pos hinstall] at hsome
      obtain ⟨a, ha, hinstall', hkept, hkey⟩ := hk
      have hsame : a = p := List.inj_on_of_nodup_map hanchors
        (List.mem_filter.mpr ⟨ha, decide_eq_true hinstall'⟩)
        (List.mem_filter.mpr ⟨mem_winners_of_attributed hp, decide_eq_true hinstall⟩)
        (anchorKey_of_installation (hkey.trans (Option.some.inj hsome).symm))
      rw [hsame] at hkept
      exact hkept (haffected hinstall)
    · rw [if_neg hinstall] at hsome
      cases hsome

omit hinitialRows in
/-- The first attribution that bears the id of an install is its own exactly
where its leader is an install of its scope. -/
theorem prior_own_iff (a : Attempt) :
    (∃ prior, priorAttribution initial a.record.payload.installationId = some prior ∧
      prior.installation = some a.installation) ↔
      ∃ b, leader input a = some b ∧ b.record.eventName = .install ∧ b.scope = a.scope := by
  rw [prior_eq hlist hinitial hids]
  constructor
  · rintro ⟨prior, hprior, hinstallation⟩
    obtain ⟨b, hb, rfl⟩ := Option.map_eq_some_iff.mp hprior
    rw [firstRow_installation] at hinstallation
    by_cases hinstall : b.record.eventName = .install
    · rw [if_pos hinstall] at hinstallation
      exact ⟨b, hb, hinstall, congrArg Prod.fst (Option.some.inj hinstallation)⟩
    · rw [if_neg hinstall] at hinstallation
      cases hinstallation
  · rintro ⟨b, hb, hinstall, hscope⟩
    have hsubject := firstSubject_of_leader hb
    rw [firstSubject, if_neg (by simp [hinstall]), if_pos hinstall] at hsubject
    refine ⟨firstRow input list b, by rw [hb]; rfl, ?_⟩
    rw [firstRow_installation, if_pos hinstall, Attempt.installation, Attempt.installation, hscope,
      hsubject]

omit hids hinitialRows in
include hkeys hanchors in
/-- **The condition, read off the records.**  What it says of the rows that the
evaluation computes it says of the records they are made of. -/
theorem rowsDeriveOnce_iff
    (h : fraudDecisions input (winners (orderedAttempts input)) = .ok decisions) :
    RowsDeriveOnce input (winners (orderedAttempts input)) initial decisions ↔
      DerivesOnce input := by
  obtain ⟨parts⟩ := initialParts hinitial
  have hinitialRows := parts.nodup_initial hkeys
  have hrow : ∀ t, t ∈ initial ↔ ∃ a ∈ attributed input, firstRow input list a = t := fun t => by
    rw [initial_eq_sort hinitial, sortAttributions, mem_sortByKey, List.mem_map]
  constructor
  · intro hrows
    have hids := nodup_firstIds hlist hinitial hkeys hrows
    refine ⟨hids, ?_, ?_, ?_, ?_⟩
    · rw [← map_derivedInstalls hlist hinitial hids h]
      exact hrows.once
    · intro a ha hinstall hkept hclick
      exact (prior_own_iff hlist hinitial hids a).mp
        (hrows.own a ha hinstall hkept ((isClickExcluded_iff h).mpr hclick))
    · intro p hp q hq hne x hx hx'
      refine hne (congrArg (fun a : Attempt => a.record.recordId)
        (firstRow_inj hinitial hinitialRows hp hq (hrows.forms _ ((hrow _).mpr ⟨p, hp, rfl⟩)
          _ ((hrow _).mpr ⟨q, hq, rfl⟩) x ?_ ?_)))
      · exact (isForm_iff hlist hinitial hids hinitialRows h hp).mpr hx
      · exact (isForm_iff hlist hinitial hids hinitialRows h hq).mpr hx'
    · intro s hs hrecalculated p hp hx
      obtain ⟨hkept, hparent⟩ := hrows.bases (firstRow input list s) ((hrow _).mpr ⟨s, hs, rfl⟩)
        ("attr:" ++ s.record.recordId.text) (by rw [firstRow_target hlist, if_pos hrecalculated])
        (firstRow input list p) ((hrow _).mpr ⟨p, hp, rfl⟩)
        ((isForm_iff hlist hinitial hids hinitialRows h hp).mpr hx)
      refine ⟨(firstRow_kept_iff hanchors hp).mp hkept, fun hsame => ?_⟩
      exact (not_parent_iff hlist hinitial hids hinitialRows h hp).mp
        (hparent (hsame.trans (firstRow_id hlist p).symm))
  · intro honce
    have hids := honce.firstIds
    refine ⟨?_, ?_, ?_, ?_⟩
    · rw [map_derivedInstalls hlist hinitial hids h]
      exact honce.once
    · intro a ha hinstall hkept hclick
      exact (prior_own_iff hlist hinitial hids a).mpr
        (honce.own a ha hinstall hkept ((isClickExcluded_iff h).mp hclick))
    · intro t ht t' ht' x hx hx'
      obtain ⟨p, hp, rfl⟩ := (hrow t).mp ht
      obtain ⟨q, hq, rfl⟩ := (hrow t').mp ht'
      by_contra hne
      refine honce.ids p hp q hq (fun hsame => hne ?_) x
        ((isForm_iff hlist hinitial hids hinitialRows h hp).mp hx)
        ((isForm_iff hlist hinitial hids hinitialRows h hq).mp hx')
      rw [eq_of_winners (mem_winners_of_attributed hp) (mem_winners_of_attributed hq)
        (congrArg Identifier.text hsame)]
    · intro t ht x hx t' ht' hform
      obtain ⟨s, hs, rfl⟩ := (hrow t).mp ht
      obtain ⟨p, hp, rfl⟩ := (hrow t').mp ht'
      rw [firstRow_target hlist] at hx
      by_cases hrecalculated : isRecalculated input s = true
      · rw [if_pos hrecalculated] at hx
        obtain rfl := Option.some.inj hx
        obtain ⟨hkept, hparent⟩ := honce.bases s hs hrecalculated p hp
          ((isForm_iff hlist hinitial hids hinitialRows h hp).mp hform)
        refine ⟨(firstRow_kept_iff hanchors hp).mpr hkept, fun hsame => ?_⟩
        exact (not_parent_iff hlist hinitial hids hinitialRows h hp).mpr
          (hparent (hsame.trans (firstRow_id hlist p)))
      · rw [if_neg hrecalculated] at hx
        cases hx

end Conditions

section Evaluation

variable [Digest]

/-- The accepted installs anchor distinct installations. -/
theorem nodup_installAnchors {input : EvaluatorInput} {out : EvaluationOutput}
    (h : evaluate input = .ok out) :
    (((winners (orderedAttempts input)).filter
      (fun a => a.record.eventName = .install)).map anchorKey).Nodup := by
  obtain ⟨i, _, _, hi, -⟩ := evaluate_eq_ok h
  obtain ⟨hall, hcandidates, -, hlist, hdecisions, hanchors, -⟩ := ingest_eq_ok hi
  rw [hcandidates] at hlist
  rw [orderedAttempts, ← hall, winners, ← acceptedUnique_eq hlist, ← hdecisions, acceptedUnique,
    List.filter_filter]
  simp only [assertInstallationAnchors, bind_eq_ok] at hanchors
  obtain ⟨result, haccumulate, -⟩ := hanchors
  exact (nodup_anchors haccumulate).1

/-- **One chain a subject.**  Where the record ids are distinct, the
attributions of an evaluation form chains exactly when no installation id is
derived for twice and the first attribution that bears an id is the one
meant. -/
theorem attributionChains_iff (input : EvaluatorInput) {out : EvaluationOutput}
    (hrecords : ((attempts input).map (·.record.recordId)).Nodup)
    (h : evaluate input = .ok out) :
    AttributionChains input (winners (orderedAttempts input)) out ↔ DerivesOnce input := by
  obtain ⟨list, initial, fraud, hlist, hinitial, hfraud, -, -, hout, hdecisions⟩ :=
    evaluate_winners h
  have hkeys : ((winners (orderedAttempts input)).map (·.record.recordId)).Nodup :=
    (List.filter_sublist.map _).nodup
      (((KeyedSort.perm_sortOn _ _).map _).nodup_iff.mpr hrecords)
  have hanchors := nodup_installAnchors h
  have hstage : fraudDecisions input (winners (orderedAttempts input)) = .ok fraud.decisions := by
    simp only [fraudStage, bind_eq_ok, pure_eq_ok] at hfraud
    obtain ⟨decisions, hd, _, _, rfl⟩ := hfraud
    exact hd
  exact (attributionChains_iff_rows hkeys hanchors hinitial hfraud hout hdecisions).trans
    (rowsDeriveOnce_iff hlist hinitial hkeys hanchors hstage)

end Evaluation

section Runs

attribute [local instance] checksumDigest

/-- A click and an install that names it, on a day of January. -/
def clickAndInstall (click install : Identifier) (day : Fin 100) (replayed : Bool) : List Record :=
  [(launchAttempt click {
      eventName := .click
      clickId := some click
      redirectorClickAt := some ⟨2026, 1, day, 3, 3, 0, 0⟩
      replaySuspected := some replayed }).record,
    (launchAttempt install {
      eventName := .install
      installationId := some install
      installType := some .firstInstall
      clickId := some click
      installBeginAtServer := some ⟨2026, 1, day, 3, 4, 0, 0⟩ }).record]

/-- The records, and a day half of whose installs come before their clicks. -/
def halfNegativeDay (records : List Record) : EvaluatorInput where
  ingress := .direct {
      (launchAttempt (.named "click") { eventName := .click }).server with
      fraudActionsEnabled := some true } records
  fxPolicy := (runtimeInput []).fxPolicy
  sourceDayAggregates := [{
    tenantId := .named "tenant"
    appId := .named "app"
    metricDate := ⟨2026, 1, 2⟩
    campaignId := .named "campaign"
    network := .named "network"
    siteId := ⟨"site", by decide⟩
    clicks := 2
    installs := 2
    medianCvr := 1
    ctitP50Ms := 60000
    ctitP95Ms := 60000
    ctitNegativeCount := some 1
    inputSnapshotId := "snapshot"
    computedAt := ⟨2026, 1, 3, 1, 0, 0, 0⟩ }]

/-- A click that looks like a replay, and the install that names it, on the
day. -/
def replayedDay : EvaluatorInput :=
  halfNegativeDay (clickAndInstall (.named "click")
    (.named "install") 2 true)

/-- An install on the day, and one of the day behind whose click looks like a
replay. -/
def replayedLater : EvaluatorInput :=
  halfNegativeDay (clickAndInstall (.named "click")
      (.named "install") 2 false ++
    clickAndInstall (.named "replay")
      (.named "other") 3 true)

/-- Two attributions of the output supersede one. -/
def supersedesTwice (out : EvaluationOutput) : Bool :=
  out.attributions.any fun p => out.attributions.any fun s => out.attributions.any fun s' =>
    s.supersedesAttributionId = some p.attributionId &&
      s'.supersedesAttributionId = some p.attributionId && s.attributionId ≠ s'.attributionId

set_option maxRecDepth 4000 in
/-- Both days evaluate. -/
theorem replayedDays_evaluate :
    ((evaluate replayedDay).toOption.map supersedesTwice) = some true ∧
      (evaluate replayedLater).toOption.isSome = true := by
  constructor
  · decide +kernel
  · decide +kernel

/-- The evaluation of the replayed day returns, and supersedes one row twice.
-/
theorem exists_replayedDay : ∃ out, evaluate replayedDay = .ok out ∧ supersedesTwice out = true := by
  have hevaluates := replayedDays_evaluate.1
  cases hout : evaluate replayedDay with
  | error e =>
      rw [hout] at hevaluates
      cases hevaluates
  | ok out =>
      rw [hout] at hevaluates
      exact ⟨out, rfl, Option.some.inj hevaluates⟩

/-- Its record ids are distinct. -/
theorem replayedDay_records : ((attempts replayedDay).map (·.record.recordId)).Nodup := by
  decide

/-- So are those of the later replay. -/
theorem replayedLater_records : ((attempts replayedLater).map (·.record.recordId)).Nodup := by
  decide

/-- The condition where no attribution is recalculated and every install leads
to one of its own scope. -/
def derivesApart (input : EvaluatorInput) : Bool :=
  ((attributed input).map (firstId input)).Nodup &&
    ((derivedInstalls input).map (·.1.record.payload.installationId)).Nodup &&
    (winners (orderedAttempts input)).all (fun a => a.record.eventName ≠ .install ||
      (leader input a).any (fun b => b.record.eventName = .install && b.scope = a.scope)) &&
    (attributed input).all (fun p => (attributed input).all (fun q =>
      p.record.recordId = q.record.recordId || (idsOf input p).all (fun x => x ∉ idsOf input q))) &&
    (attributed input).all (fun s => !isRecalculated input s)

/-- The test of the records is enough for the condition. -/
theorem derivesOnce_of_apart {input : EvaluatorInput} (h : derivesApart input = true) :
    DerivesOnce input := by
  simp only [derivesApart, Bool.and_eq_true, decide_eq_true_iff, List.all_eq_true] at h
  obtain ⟨⟨⟨⟨hfirst, honce⟩, hleaders⟩, hids⟩, hkept⟩ := h
  refine ⟨hfirst, honce, fun a ha hinstall _ _ => ?_, fun p hp q hq hne x hx => ?_,
    fun s hs hrecalculated => ?_⟩
  · have hleader := hleaders a ha
    rw [Bool.or_eq_true, decide_eq_true_iff] at hleader
    rcases hleader with hother | hleader
    · exact absurd hinstall hother
    · obtain ⟨b, hb, hown⟩ := (Option.any_eq_true _ _).mp hleader
      rw [Bool.and_eq_true, decide_eq_true_iff, decide_eq_true_iff] at hown
      exact ⟨b, hb, hown⟩
  · have hapart := hids p hp q hq
    rw [Bool.or_eq_true, decide_eq_true_iff, List.all_eq_true] at hapart
    rcases hapart with hsame | hapart
    · exact absurd hsame hne
    · exact of_decide_eq_true (hapart x hx)
  · have havailable := hkept s hs
    rw [hrecalculated] at havailable
    cases havailable

set_option maxRecDepth 4000 in
/-- One install is derived for by its day and the other by its click. -/
theorem replayedLater_apart : derivesApart replayedLater = true ∧
    (derivedInstalls replayedLater).map (fun d => d.1.record.recordId.text) =
      ["install", "other"] := by
  decide +kernel

/-- Both kinds of attributions are derived, each for an install of its own, and
the attributions form chains. -/
theorem replayedLater_chains :
    (derivedInstalls replayedLater).map (fun d => d.1.record.recordId.text) =
      ["install", "other"] ∧
    ∃ out, evaluate replayedLater = .ok out ∧
      AttributionChains replayedLater (winners (orderedAttempts replayedLater)) out := by
  have hevaluates := replayedDays_evaluate.2
  cases hout : evaluate replayedLater with
  | error e =>
      rw [hout] at hevaluates
      cases hevaluates
  | ok out =>
      exact ⟨replayedLater_apart.2, out, rfl, (attributionChains_iff replayedLater
        replayedLater_records hout).mpr (derivesOnce_of_apart replayedLater_apart.1)⟩

/-- **An install of both kinds.**  Its click is excluded and its day is
anomalous: the exclusion and the provisional attribution both supersede its
initial one. -/
theorem excluded_on_anomalous_day : ((attempts replayedDay).map (·.record.recordId)).Nodup ∧
    ∃ out, evaluate replayedDay = .ok out ∧
      ¬ AttributionChains replayedDay (winners (orderedAttempts replayedDay)) out := by
  refine ⟨replayedDay_records, ?_⟩
  obtain ⟨out, hout, htwice⟩ := exists_replayedDay
  refine ⟨out, hout, fun hchains => ?_⟩
  unfold supersedesTwice at htwice
  obtain ⟨p, hp, htwice⟩ := List.any_eq_true.mp htwice
  obtain ⟨s, hs, htwice⟩ := List.any_eq_true.mp htwice
  obtain ⟨s', hs', htwice⟩ := List.any_eq_true.mp htwice
  simp only [Bool.and_eq_true, decide_eq_true_iff] at htwice
  obtain ⟨⟨hnamed, hnamed'⟩, hids⟩ := htwice
  exact hids (congrArg Attribution.attributionId (hchains.once p hp s hs s' hs' hnamed hnamed'))

end Runs

end OpenMasu
