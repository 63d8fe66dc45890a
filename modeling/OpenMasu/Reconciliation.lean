import OpenMasu.MetricRuns

/-!
# Reconciliation with external rows

External rows are matched with internal candidates by normalized keys inside
one tenant and app; the first rule that applies names the difference.
Imported installs reconcile with themselves under the provider's references.

* `normalizedKey` — the text two keys are compared by;
* `differenceReason` — why a row and its candidates differ;
* `importedReconciliationInput` — the row of an imported install;
* `reconciliationResults` — the reported rows.
-/

namespace OpenMasu

variable [Digest]

/-- The white space `trim` removes. -/
def isTrimmed (c : Char) : Bool :=
  [9, 10, 11, 12, 13, 32, 0xa0, 0x1680, 0x2028, 0x2029, 0x202f, 0x205f, 0x3000, 0xfeff].contains
    c.toNat || (0x2000 ≤ c.toNat && c.toNat ≤ 0x200a)

/-- `trim`. -/
def trimText (s : String) : String :=
  String.ofList (((s.toList.dropWhile isTrimmed).reverse.dropWhile isTrimmed).reverse)

/-- Lower case of the ASCII letters, everything else kept. -/
def lowerAscii (s : String) : String :=
  String.ofList (s.toList.map (fun c =>
    if 'A' ≤ c ∧ c ≤ 'Z' then Char.ofNat (c.toNat + 32) else c))

/-- `normalized`: the value a key is compared by. -/
def normalizedValue (k : MatchingKey) : String :=
  match k.normalization with
  | .lowercaseAscii => lowerAscii k.value
  | .trim => trimText k.value
  | .identity => k.value

/-- `key`: type, encoding and normalized value in one text. -/
def normalizedKey (k : MatchingKey) : String :=
  k.type.text ++ ":" ++ k.valueEncoding.elim "" (fun e => e.text ++ ":") ++ normalizedValue k

inductive DifferenceReason where
  | matched
  | candidateMissing
  | candidateExcluded
  | windowMismatch
  | joinKeyMissing
  | joinKeyAmbiguous
  | freshnessMismatch
  | externalRowUnmatched
  | redactionCausedRecalculation
  | providerModeledConversion
  deriving DecidableEq

def DifferenceReason.text : DifferenceReason → String
  | matched => "matched"
  | candidateMissing => "candidate_missing"
  | candidateExcluded => "candidate_excluded"
  | windowMismatch => "window_mismatch"
  | joinKeyMissing => "join_key_missing"
  | joinKeyAmbiguous => "join_key_ambiguous"
  | freshnessMismatch => "freshness_mismatch"
  | externalRowUnmatched => "external_row_unmatched"
  | redactionCausedRecalculation => "redaction_caused_recalculation"
  | providerModeledConversion => "provider_modeled_conversion"

instance : Encode DifferenceReason := ⟨fun r => .str r.text⟩

structure Reconciliation where
  reconciliationId : String
  tenantId : Identifier
  appId : Identifier
  inputSnapshotId : String
  externalSnapshotId : String
  differenceReasonCode : DifferenceReason
  matchingKeys : List MatchingKey
  candidates : List String
  exclusions : List (Option String)
  windows : List String
  joins : List String
  freshness : Freshness

instance : Encode Reconciliation := ⟨fun r => .object [
  member "reconciliation_id" r.reconciliationId,
  member "tenant_id" r.tenantId,
  member "app_id" r.appId,
  member "input_snapshot_id" r.inputSnapshotId,
  member "external_snapshot_id" r.externalSnapshotId,
  member "difference_reason_code" r.differenceReasonCode,
  member "difference_reason_version" contractVersion,
  member "matching_keys" r.matchingKeys,
  member "candidates" r.candidates,
  ("exclusions", some (.arr (r.exclusions.map (fun e => e.elim .null .str)))),
  member "windows" r.windows,
  member "joins" r.joins,
  member "freshness" r.freshness]⟩

/-- A protected key over a provider's reference. -/
def providerKey (provider : Option String) (type : MatchingKeyType) (value : Identifier) :
    MatchingKey where
  type := type
  value := sha256 (.object [
    optional "provider" provider, member "type" type, member "value" value])
  scope := "tenant_app"
  normalization := .identity
  cardinality := .oneToOne
  «protected» := true
  valueEncoding := some ⟨"sha256", by decide⟩
  accessClass := some "protected"

/-- The provider's references to an imported install, as keys. -/
def providerKeys (a : Attempt) : List MatchingKey :=
  match a.record.payload.importContext with
  | none => []
  | some c =>
      (c.providerInstallRef.map (providerKey (some c.provider) .providerInstallId)).toList ++
        (c.providerClickRef.map (providerKey (some c.provider) .providerClickId)).toList

/-- `importedReconciliationInputs`, for one imported install. -/
def importedReconciliationInput (a : Attempt) : ReconciliationInput :=
  let keys := providerKeys a
  { reconciliationId := "reconciliation:import:" ++ a.record.recordId.text
    tenantId := a.server.tenantId
    appId := a.server.appId
    inputSnapshotId := "snapshot:internal:" ++ a.record.recordId.text
    externalSnapshotId := "snapshot:provider:" ++ a.record.recordId.text
    matchingKeys := keys
    providerModeledWithoutCandidate :=
      (a.record.payload.importContext.any
        (fun c => c.providerAttributionStrategy = .modeled)) && keys.isEmpty
    candidates := if keys.isEmpty then [] else [{
      candidateId := a.record.recordId
      tenantId := a.server.tenantId
      appId := a.server.appId
      matchingKeys := keys
      windowStatus := .notApplicable
      freshness := .current
      excluded := false }]
    freshness := .current }

/-- The rows that imported installs reconcile. -/
def importedReconciliationInputs (accepted : List Attempt) : List ReconciliationInput :=
  (accepted.filter (fun a => a.record.eventName = .install && a.record.producer.isImport)).map
    importedReconciliationInput

/-- The candidates of a row's scope that share a key with it. -/
def matchedCandidates (item : ReconciliationInput) : List ReconciliationCandidate :=
  item.candidates.filter (fun c => c.scope = item.scope &&
    c.matchingKeys.any (fun k => (item.matchingKeys.map normalizedKey).contains (normalizedKey k)))

/-- The first rule that names the difference between a row and its
candidates. -/
def differenceReason (item : ReconciliationInput) : DifferenceReason :=
  if item.privacyRedaction then .redactionCausedRecalculation
  else match matchedCandidates item with
    | [] =>
        if item.providerModeledWithoutCandidate then .providerModeledConversion
        else if item.matchingKeys.isEmpty then .joinKeyMissing
        else if item.matchingKeys.any
            (fun k => k.type = .providerClickId || k.type = .providerInstallId) then
          .candidateMissing
        else .externalRowUnmatched
    | first :: rest =>
        if item.matchingKeys.isEmpty then .joinKeyMissing
        else if !rest.isEmpty && item.matchingKeys.any (fun k => k.cardinality = .oneToOne) then
          .joinKeyAmbiguous
        else if first.excluded then .candidateExcluded
        else if first.windowStatus = .outOfWindow then .windowMismatch
        else if first.freshness = .stale then .freshnessMismatch
        else .matched

/-- Texts in their order. -/
def sortTexts (l : List String) : List String := KeyedSort.sortOn codeUnits l

/-- The reported row of a reconciliation. -/
def reconciliationResult (item : ReconciliationInput) : Reconciliation :=
  let matched := matchedCandidates item
  let sortedKeys := KeyedSort.sortOn (fun k => codeUnits (normalizedKey k)) item.matchingKeys
  { reconciliationId := item.reconciliationId
    tenantId := item.tenantId
    appId := item.appId
    inputSnapshotId := item.inputSnapshotId
    externalSnapshotId := item.externalSnapshotId
    differenceReasonCode := differenceReason item
    matchingKeys := sortedKeys
    candidates := sortTexts (matched.map (·.candidateId.text))
    -- `sort` leaves absent reasons behind all others
    exclusions := KeyedSort.sortOn (fun e : Option String => e.elim [1] (fun s => 0 :: codeUnits s))
      ((matched.filter (·.excluded)).map (·.exclusionReason))
    windows := sortTexts (matched.map (fun c => c.candidateId.text ++ ":" ++ c.windowStatus.text))
    joins := sortTexts (matched.map (fun c =>
      ",".intercalate (sortedKeys.map normalizedKey) ++ "=>" ++ c.candidateId.text))
    freshness := matched.head?.elim item.freshness (·.freshness) }

/-- The identity of a reconciliation. -/
def reconciliationIdentity (item : ReconciliationInput) : Scope × String :=
  (item.scope, item.reconciliationId)

/-- `reconciliationResults`. -/
def reconciliationResults (input : EvaluatorInput) (accepted : List Attempt) :
    Except Failure (List Reconciliation) :=
  let items := input.reconciliationInputs ++ importedReconciliationInputs accepted
  if (items.map reconciliationIdentity).Nodup then
    .ok (sortByKey (items.map reconciliationResult)
      (fun r => [r.reconciliationId, r.tenantId.text, r.appId.text]))
  else .error (.error "duplicate reconciliation identity")

end OpenMasu
