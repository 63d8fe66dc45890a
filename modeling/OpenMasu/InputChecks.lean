import OpenMasu.IngestionOutput

/-!
# The checks an evaluation makes before and after its decisions

An evaluation refuses its whole input when an import names a foreign
provider, an anchored revenue does not come from a postback, a reference
leaves its scope, or two accepted installs anchor one installation.

* `assertImportProviderContexts`, `assertRevenueAnchorSources`,
  `assertScopedReferences` — before the decisions;
* `assertInstallationAnchors` — on the accepted installs.
-/

namespace OpenMasu

variable [Digest]

/-- The import names the provider it was authenticated for. -/
def assertImportProviderContext (a : Attempt) : Except Failure Unit :=
  match a.record.payload.importContext with
  | some context =>
      if a.record.producer.isImport ∧ a.record.producer.text ≠ "import:" ++ context.provider then
        .error (.error "import_context.provider must match the authenticated import producer")
      else .ok ()
  | none => .ok ()

def assertImportProviderContexts (all : List Attempt) : Except Failure Unit :=
  PartialList.forEach assertImportProviderContext all

def assertRevenueAnchorSource (a : Attempt) : Except Failure Unit :=
  if a.record.eventName = .adRevenue ∧ a.record.payload.anchorSource.isSome ∧
      ¬ a.record.producer.isPostback then
    .error (.error
      "ad_revenue.anchor_source is limited to authenticated S2S postback producers")
  else .ok ()

def assertRevenueAnchorSources (all : List Attempt) : Except Failure Unit :=
  PartialList.forEach assertRevenueAnchorSource all

/-- The first delivery of a record inside a scope. -/
def findRecord (all : List Attempt) (scope : Scope) (recordId : Option Identifier) :
    Option Attempt :=
  all.find? (fun a => a.scope = scope && some a.record.recordId = recordId)

def assertPrivacyReference (all : List Attempt) (request : PrivacyRequest)
    (affected : AffectedRecord) : Except Failure Unit :=
  let reference := request.privacyRequestId.text ++ "/" ++ affected.recordId.text
  match findRecord all request.scope (some affected.recordId) with
  | none => .error (.error ("cross-scope or missing privacy reference: " ++ reference))
  | some target =>
      if request.requestedVia = .onDeviceSdk ∧
          target.record.payload.installationId ≠ request.deletionSubjectRef then
        .error (.error ("on-device privacy request targets another installation: " ++ reference))
      else .ok ()

def assertExists (all : List Attempt) (scope : Scope) (recordId : Option Identifier)
    (message : String) : Except Failure Unit :=
  if (findRecord all scope recordId).isSome then .ok () else .error (.error message)

/-- `assertScopedReferences`: every reference resolves inside its scope. -/
def assertScopedReferences (input : EvaluatorInput) (all : List Attempt) :
    Except Failure Unit := do
  PartialList.forEach (fun request =>
    PartialList.forEach (assertPrivacyReference all request) request.affectedRecords)
    input.privacyRequests
  PartialList.forEach (fun c => assertExists all c.scope c.correctsRecordId
    ("cross-scope or missing correction reference: " ++ c.correctionId)) input.correctionInputs
  PartialList.forEach (fun e => assertExists all e.scope (some e.recordId)
    ("cross-scope or missing retention reference: " ++ e.recordId.text))
    input.retentionExpirations
  PartialList.forEach (fun a => assertExists all a.scope a.record.payload.correctionTargetRecordId
    ("cross-scope or missing refund target: " ++ a.record.recordId.text))
    (all.filter (fun a => a.record.eventName = .refund))

/-- The installation an install anchors, inside its scope. -/
def anchorKey (a : Attempt) : Scope × Option Identifier :=
  (a.scope, a.record.payload.installationId)

/-- The anchor of one accepted install, given the anchors before it. -/
def assertInstallationAnchor (acceptedInstalls : List Attempt)
    (anchors : List (Scope × Option Identifier)) (a : Attempt) :
    Except Failure (List (Scope × Option Identifier)) :=
  let payload := a.record.payload
  let named := a.record.recordId.text
  if anchorKey a ∈ anchors then
    .error (.error ("ambiguous installation anchor: " ++
      (payload.installationId.elim "undefined" (·.text))))
  else if payload.installType = some .reinstall ∨ payload.installType = some .redownload then
    if payload.priorInstallationId.isNone ∨
        payload.priorInstallationId = payload.installationId then
      .error (.error ("invalid reinstall installation anchor: " ++ named))
    else if acceptedInstalls.any
        (fun c => anchorKey c = (a.scope, payload.priorInstallationId)) then
      .ok (anchorKey a :: anchors)
    else .error (.error ("missing prior installation anchor: " ++ named))
  else if payload.priorInstallationId.isSome then
    .error (.error ("first install must not name a prior installation: " ++ named))
  else .ok (anchorKey a :: anchors)

/-- `assertInstallationAnchors`: accepted installs anchor distinct
installations, and a reinstall names one that is anchored. -/
def assertInstallationAnchors (decisions : Decisions) (all : List Attempt) :
    Except Failure Unit := do
  let acceptedInstalls := all.filter
    (fun a => a.record.eventName = .install && isAcceptedUnique decisions a)
  let _ ← PartialList.accumulate (assertInstallationAnchor acceptedInstalls) [] acceptedInstalls
  return ()

end OpenMasu
