import OpenMasu.DeepLinkGuard
import OpenMasu.SdkWorker
import OpenMasu.SqlCohort

/-!
# The workers that append attributions

Besides the runtime ingestion three workers append attributions, each of them
superseding an earlier one: a referrer verdict that comes late, the clock
anomalies of a source day, and the answer of an AdServices lookup.  The metric
engines read the latest attribution of an installation.

* `Attribution.installation` — what an attribution is about;
* `Ledger.engineAttribution` — the attribution the engines read;
* `markClockAnomalyAttributionsProvisional`, `completeLookup` — the workers;
* `AttributionWorld.step` — a step of any of them.
-/

namespace OpenMasu

open AppendOnly (insertOnce latest)

/-- The installation an attribution is about. -/
def Attribution.installation (t : Attribution) : Option (Scope × Option String) :=
  if t.subjectScope = .installationLevel then some (t.scope, t.subjectRef) else none

/-- The attribution the metric engines read for an installation: the latest
decided, the greatest id among these, up to the watermark where there is
one. -/
def Ledger.engineAttribution (db : Database) (l : Ledger) (scope : Scope) (ref : String)
    (watermark : Option Timestamp) : Option Attribution :=
  latest (isLaterAttribution db) (l.attributions.filter (fun t =>
    t.installation = some (scope, some ref) && watermark.all (isBefore t.decidedAt)))

/-- Another attribution of the scope supersedes the attribution. -/
def Ledger.isSuperseded (l : Ledger) (t : Attribution) : Bool :=
  l.attributions.any (fun s =>
    s.scope = t.scope && s.supersedesAttributionId = some t.attributionId)

section ClockAnomalies

/-- The install fact names a click of the date; a click fact has the columns
of its event. -/
def Ledger.isClickedOn (l : Ledger) (date : CalendarDate) (f : InstallFact) : Bool :=
  l.logicalEvents.any (fun e => e.event.eventName = .click && e.event.evidenceKey.scope = f.scope &&
    e.attempt.record.payload.clickId.isSome && e.attempt.record.payload.clickId = f.clickId &&
    e.attempt.record.payload.redirectorClickAt.any (fun at_ => dateOf at_.ms = date))

/-- The attributions to the clicks of a date that none supersedes, ordered by
their ids. -/
def Ledger.clickAttributions (db : Database) (l : Ledger) (scope : Scope) (date : CalendarDate) :
    List Attribution :=
  (l.attributions.filter (fun t => t.scope = scope && t.reasonCode = .validInstallReferrer &&
    l.installFacts.any (fun f => f.scope = scope && t.subjectRef = some f.installationId.text &&
      l.isClickedOn date f) && !l.isSuperseded t)).mergeSort
    (fun a b => !db.sortsBefore b.attributionId a.attributionId)

variable [Digest]

/-- The provisional attribution that supersedes one of an anomalous date. -/
def clockProvisional (date : CalendarDate) (now : Timestamp) (prior : Attribution) : Attribution :=
  { prior with
    attributionId := "attribution:ctit-provisional:" ++
      String.ofList ((sha256 (.arr [.str prior.attributionId, .str date.text])).toList.take 32)
    decidedAt := now
    inputCutoffAt := now
    finality := .provisional
    supersedesAttributionId := some prior.attributionId }

/-- `markClockAnomalyAttributionsProvisional`. -/
def markClockAnomalyAttributionsProvisional (db : Database) (l : Ledger) (scope : Scope)
    (metricDate : CalendarDate) (negativeCount installCount : BinaryFloat.Number)
    (bundle : FraudBundle) (now : Timestamp) : Ledger :=
  if installCount = .finite 0 then l
  else if !exceedsNegativeRate negativeCount installCount bundle then l
  else { l with
    attributions := (l.clickAttributions db scope metricDate).foldl
      (fun rows prior => insertOnce (·.attributionId) (clockProvisional metricDate now prior) rows)
      l.attributions }

end ClockAnomalies

section Lookups

/-- A queued AdServices lookup. -/
structure LookupRow where
  scope : Scope
  installRecordId : Identifier

/-- What a lookup ends with. -/
structure LookupAnswer where
  status : AdservicesStatus
  responseRef : Identifier
  responseDigest : String
  now : Timestamp

/-- The ledger, and the installs that have a row in
`adservices_lookup_results`. -/
structure AttributionWorld where
  ledger : Ledger := {}
  lookupResults : List EvidenceKey := []

/-- The installation of the install a lookup is for. -/
def Ledger.lookupInstallation (l : Ledger) (row : LookupRow) : Option String :=
  let key : EvidenceKey := ⟨row.scope, row.installRecordId⟩
  if l.rawRecords.any (fun r => r.evidenceKey = key) then
    (l.installFacts.find? (fun f => f.scope = row.scope && l.logicalEvents.any (fun e =>
      e.event.evidenceKey = key && e.event.logicalEventId = f.logicalEventId))).map
      (·.installationId.text)
  else none

/-- `installAttribution`: the attribution a lookup supersedes. -/
def Ledger.lookupPrior (db : Database) (l : Ledger) (row : LookupRow) : Option Attribution :=
  (l.lookupInstallation row).bind (fun ref => l.engineAttribution db row.scope ref none)

/-- The attribution a lookup appends; its id is a digest of a text. -/
def lookupReplacement (textDigest : String → String) (row : LookupRow) (answer : LookupAnswer)
    (prior : Attribution) : Attribution :=
  let verdict := adservicesVerdict answer.status
  { prior with
    attributionId := "attr:adservices:" ++ String.ofList ((textDigest
      ((String.singleton (Char.ofNat 0)).intercalate [row.scope.tenantId.text, row.scope.appId.text,
        row.installRecordId.text, answer.responseDigest, verdict.reasonCode.text])).toList.take 48)
    status := verdict.status
    method := verdict.method
    model := verdict.model
    reasonCode := verdict.reasonCode
    evidenceRefs := prior.evidenceRefs ++ [⟨row.scope.tenantId, row.scope.appId, answer.responseRef,
      .available⟩]
    decidedAt := answer.now
    inputCutoffAt := answer.now
    finality := .final
    supersedesAttributionId := some prior.attributionId }

/-- `completeLookup`: nothing is kept when the install has no attribution,
when the new id is taken, or when the install has a result. -/
def completeLookup (db : Database) (textDigest : String → String) (w : AttributionWorld)
    (row : LookupRow) (answer : LookupAnswer) : AttributionWorld :=
  match w.ledger.lookupPrior db row with
  | none => w
  | some prior =>
      let replacement := lookupReplacement textDigest row answer prior
      let key : EvidenceKey := ⟨row.scope, row.installRecordId⟩
      if replacement.attributionId ∈ w.ledger.attributions.map (·.attributionId) ∨
          key ∈ w.lookupResults then w
      else {
        ledger := { w.ledger with attributions := w.ledger.attributions ++ [replacement] }
        lookupResults := w.lookupResults ++ [key] }

end Lookups

/-- A step of one of the workers. -/
inductive AttributionStep where
  | ingest (call : RuntimeCall)
  | late (attribution : Attribution)
  | clockAnomaly (scope : Scope) (metricDate : CalendarDate)
      (negativeCount installCount : BinaryFloat.Number) (bundle : FraudBundle) (now : Timestamp)
  | lookup (row : LookupRow) (answer : LookupAnswer)

variable [Digest] [PayloadSchemas]

/-- What a step leaves. -/
def AttributionWorld.step (db : Database) (textDigest : String → String) (w : AttributionWorld) :
    AttributionStep → AttributionWorld
  | .ingest call => { w with ledger := w.ledger.ingest call }
  | .late attribution => { w with ledger := persistLateAttribution w.ledger attribution }
  | .clockAnomaly scope metricDate negativeCount installCount bundle now =>
      { w with
        ledger := markClockAnomalyAttributionsProvisional db w.ledger scope metricDate
          negativeCount installCount bundle now }
  | .lookup row answer => completeLookup db textDigest w row answer

end OpenMasu
