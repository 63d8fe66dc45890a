import OpenMasu.Supersession
import OpenMasu.WatermarkStability

/-!
# The registry of rule bundles

An administrator registers revisions of rule bundles; a revision supersedes
the current one of its bundle.  Ingestion and aggregation resolve the one
current revision whose bundle id begins with `fraud-`, and check its digests
once more.  The registry asks for the predecessor within one bundle id, the
resolution for a single bundle in the app.

* `validateBody`, `activateRuleBundle` — the registration;
* `resolveActiveFraudBundle`, `fraudContext` — the resolution, and what a call
  binds;
* `bundleTable`, `Registered` — the registry as rows that supersede rows;
* `ResolvesLast`, `KeepsFraudBundle` — the law and its condition;
* `resolvesLast_iff` — a history of registrations obeys the law throughout
  exactly when every registration meets the condition.
-/

namespace OpenMasu

open AppendOnly (StepsMeet latest)

/-- A definition as it is registered; its base layer can be null. -/
structure BundleDefinition where
  bundle : FraudBundle
  nullBase : Bool := false

/-- The layers of a definition. -/
def BundleDefinition.layers (d : BundleDefinition) : Json :=
  if d.nullBase then
    .object [("base", some .null), ("operator", d.bundle.layers.operator.map encodeLayer),
      ("private", d.bundle.layers.privateDigest.map (fun p => .object [member "digest" p]))]
  else toJson d.bundle.layers

instance : Encode BundleDefinition := ⟨fun d => .object [
  member "id" d.bundle.id, member "version" d.bundle.version, ("layers", some d.layers),
  member "rules" d.bundle.rules]⟩

/-- A row of `control.rule_bundle_revisions`. -/
structure RuleBundleRow where
  revisionId : String
  scope : Scope
  ruleBundleId : String
  ruleBundleVersion : String
  ruleBundleHash : String
  definition : Option BundleDefinition
  definitionDigest : Option String
  supersedes : Option String
  activatedAt : Timestamp

/-- The body of a registration; its scalar members are read as texts. -/
structure ActivationBody where
  ruleBundleId : String
  ruleBundleVersion : String
  definition : Option BundleDefinition
  ruleBundleHash : Option String := none
  definitionDigest : Option String := none
  supersedes : Option String := none
  hasForbiddenField : Bool := false

/-- What a valid body registers. -/
structure ActivationValue where
  ruleBundleId : String
  ruleBundleVersion : String
  ruleBundleHash : String
  definition : Option BundleDefinition
  definitionDigest : Option String
  supersedes : Option String

/-- A registration: who registers what, the id drawn for it and the clock. -/
structure Activation where
  scope : Scope
  body : ActivationBody
  revisionId : String
  now : Timestamp

/-- `LIKE 'fraud-%'`. -/
def isFraudId (ruleBundleId : String) : Bool := "fraud-".toList.isPrefixOf ruleBundleId.toList

section Registration

variable [Digest]

/-- A check that throws. -/
def refuse (bad : Bool) (message : String) : Except Failure Unit :=
  if bad then .error (.error message) else .ok ()

/-- `fraudBundleHash`, of a definition. -/
def definitionHash (d : BundleDefinition) : Except Failure String := do
  assertFraudBundle d.bundle
  return sha256 (toJson d)

/-- The hash of the definition, where there is one. -/
def registeredHash : Option BundleDefinition → Except Failure (Option String)
  | none => .ok none
  | some d => (definitionHash d).map some

def validateBody (body : ActivationBody) : Except Failure ActivationValue := do
  refuse body.hasForbiddenField "rule_bundle_field_forbidden"
  refuse (!isBundleId body.ruleBundleId) "rule_bundle_id_invalid"
  refuse ((codeUnits body.ruleBundleVersion).length < 1 ||
    128 < (codeUnits body.ruleBundleVersion).length) "rule_bundle_version_invalid"
  refuse (body.definition.isNone && isFraudId body.ruleBundleId) "fraud_bundle_definition_required"
  let computedHash ← registeredHash body.definition
  let computedDigest := body.definition.map (fun d => sha256 (toJson d))
  refuse (body.definition.any (fun d => d.bundle.id.text ≠ body.ruleBundleId ||
    d.bundle.version.text ≠ body.ruleBundleVersion)) "rule_bundle_definition_identity_mismatch"
  refuse (body.ruleBundleHash.any (fun h => !isDigest h)) "rule_bundle_hash_invalid"
  refuse (body.definitionDigest.any (fun h => !isDigest h)) "rule_bundle_definition_digest_invalid"
  refuse (computedHash.any (fun c => body.ruleBundleHash.any (fun h => h ≠ c)))
    "rule_bundle_hash_mismatch"
  refuse (computedDigest.any (fun c => body.definitionDigest.any (fun h => h ≠ c)))
    "rule_bundle_definition_digest_mismatch"
  let ruleBundleHash := (computedHash <|> body.ruleBundleHash).getD ""
  refuse (!isDigest ruleBundleHash) "rule_bundle_hash_invalid"
  refuse (body.supersedes.any (fun s => !isBundleId s)) "supersedes_rule_bundle_revision_id_invalid"
  return ⟨body.ruleBundleId, body.ruleBundleVersion, ruleBundleHash, body.definition,
    computedDigest, body.supersedes⟩

/-- A row of `control.rule_bundles_current`: no revision of the app supersedes
it. -/
def isCurrentRevision (rows : List RuleBundleRow) (r : RuleBundleRow) : Bool :=
  !rows.any (fun s => s.scope = r.scope && s.supersedes = some r.revisionId)

/-- The row that a valid body registers. -/
def Activation.row (a : Activation) (v : ActivationValue) : RuleBundleRow where
  revisionId := a.revisionId
  scope := a.scope
  ruleBundleId := v.ruleBundleId
  ruleBundleVersion := v.ruleBundleVersion
  ruleBundleHash := v.ruleBundleHash
  definition := v.definition
  definitionDigest := v.definitionDigest
  supersedes := v.supersedes
  activatedAt := a.now

/-- The keys and checks of the table. -/
def admitsRevision (rows : List RuleBundleRow) (r : RuleBundleRow) : Bool :=
  r.revisionId ∉ rows.map (·.revisionId) &&
    !rows.any (fun s => s.scope = r.scope && s.ruleBundleId = r.ruleBundleId &&
      (s.ruleBundleVersion = r.ruleBundleVersion ||
        (s.supersedes.isNone && r.supersedes.isNone))) &&
    r.supersedes.all (fun x => x ≠ r.revisionId &&
      rows.any (fun s => s.scope = r.scope && s.ruleBundleId = r.ruleBundleId &&
        s.revisionId = x) &&
      !rows.any (fun s => s.scope = r.scope && s.supersedes = some x))

/-- The current revision of a bundle, the latest where there are several. -/
def currentRevision (db : Database) (rows : List RuleBundleRow) (scope : Scope)
    (ruleBundleId : String) : Option RuleBundleRow :=
  latest (fun a b => isLaterRow db a.activatedAt b.activatedAt a.revisionId b.revisionId)
    (rows.filter (fun r => r.scope = scope && r.ruleBundleId = ruleBundleId &&
      isCurrentRevision rows r))

/-- `activateRuleBundle`: the rows behind a registration. -/
def activateRuleBundle (db : Database) (rows : List RuleBundleRow) (a : Activation) :
    Except Failure (List RuleBundleRow) := do
  let value ← validateBody a.body
  let currentId := (currentRevision db rows a.scope value.ruleBundleId).map (·.revisionId)
  refuse (currentId ≠ value.supersedes) "rule_bundle_predecessor_mismatch"
  refuse (!admitsRevision rows (a.row value)) "constraint_violation"
  return rows ++ [a.row value]

end Registration

section Resolution

variable [Digest]

/-- `ActiveFraudBundleRevision`. -/
structure ActiveFraudBundleRevision where
  ruleBundleRevisionId : String
  ruleBundleId : String
  ruleBundleVersion : String
  ruleBundleHash : String
  definitionDigest : String
  definition : BundleDefinition
  activatedAt : Timestamp

def validatedRevision (row : RuleBundleRow) : Except Failure ActiveFraudBundleRevision :=
  match row.definition, row.definitionDigest with
  | some definition, some storedDigest => do
      refuse (definition.bundle.id.text ≠ row.ruleBundleId ||
        definition.bundle.version.text ≠ row.ruleBundleVersion) "fraud_rule_bundle_identity_mismatch"
      let definitionDigest := sha256 (toJson definition)
      let bundleHash ← definitionHash definition
      refuse (definitionDigest ≠ storedDigest) "fraud_rule_bundle_definition_digest_mismatch"
      refuse (bundleHash ≠ row.ruleBundleHash) "fraud_rule_bundle_hash_mismatch"
      return ⟨row.revisionId, row.ruleBundleId, row.ruleBundleVersion, row.ruleBundleHash,
        definitionDigest, definition, row.activatedAt⟩
  | _, _ => .error (.error "fraud_rule_bundle_definition_missing")

/-- The current revisions of the fraud bundles of an app. -/
def currentFraudRevisions (rows : List RuleBundleRow) (scope : Scope) : List RuleBundleRow :=
  rows.filter (fun r => r.scope = scope && isFraudId r.ruleBundleId && isCurrentRevision rows r)

def resolveActiveFraudBundle (rows : List RuleBundleRow) (scope : Scope) :
    Except Failure (Option ActiveFraudBundleRevision) :=
  match currentFraudRevisions rows scope with
  | [] => .ok none
  | [row] => (validatedRevision row).map some
  | _ => .error (.error "active_fraud_rule_bundle_ambiguous")

/-- `fraudNumberParameter`, of a definition: the members of a null base layer
cannot be read. -/
def definitionNumber (d : BundleDefinition) (name : String) (fallback : Rat) :
    Except Failure Rat :=
  if d.nullBase then .error (.error "cannot_read_properties_of_null")
  else .ok (fraudNumberParameter d.bundle name fallback)

/-- `serverBundleContext`. -/
def serverBundleContext (r : ActiveFraudBundleRevision) : FraudRuleBundleContext where
  ruleBundleId := r.definition.bundle.id
  ruleBundleVersion := r.definition.bundle.version
  ruleBundleHash := r.ruleBundleHash
  definitionDigest := r.definitionDigest
  definition := r.definition.bundle

/-- What `ingestRuntimeBatch` binds to its attempts and `aggregateSourceDay`
judges the sources by: the resolved revision, with a parameter read from
it. -/
def fraudContext (rows : List RuleBundleRow) (scope : Scope) :
    Except Failure (Option FraudRuleBundleContext) := do
  match ← resolveActiveFraudBundle rows scope with
  | none => return none
  | some active =>
      let _ ← definitionNumber active.definition "ctit_lower_bound_seconds" 10
      return some (serverBundleContext active)

end Resolution

open PartialList (bind_eq_ok pure_eq_ok)

section Facts

variable [Digest]

omit [Digest] in
theorem exists_of_map_eq_ok {α β : Type} {x : Except Failure α} {f : α → β} {b : β}
    (h : x.map f = .ok b) : ∃ a, x = .ok a ∧ f a = b := by
  cases x with
  | error e => cases h
  | ok a => exact ⟨a, rfl, Except.ok.inj h⟩

omit [Digest] in
@[simp] theorem refuse_eq_ok {bad : Bool} {message : String} {u : Unit} :
    refuse bad message = .ok u ↔ bad = false := by
  cases bad
  · exact ⟨fun _ => rfl, fun _ => rfl⟩
  · exact ⟨nofun, nofun⟩

theorem definitionHash_eq_ok {d : BundleDefinition} {hash : String} :
    definitionHash d = .ok hash ↔ assertFraudBundle d.bundle = .ok () ∧ hash = sha256 (toJson d) := by
  rw [definitionHash, bind_eq_ok]
  constructor
  · rintro ⟨u, hu, hhash⟩
    exact ⟨hu, (pure_eq_ok.mp hhash).symm⟩
  · rintro ⟨hu, rfl⟩
    exact ⟨(), hu, rfl⟩

/-- A revision that passes the checks of the resolution: a fraud bundle has a
definition of its name and version, with its digests. -/
def RuleBundleRow.IsValid (r : RuleBundleRow) : Prop :=
  isFraudId r.ruleBundleId = true → ∃ d, r.definition = some d ∧
    r.definitionDigest = some (sha256 (toJson d)) ∧ r.ruleBundleHash = sha256 (toJson d) ∧
    d.bundle.id.text = r.ruleBundleId ∧ d.bundle.version.text = r.ruleBundleVersion ∧
    assertFraudBundle d.bundle = .ok ()

/-- A registered row passes the checks of the resolution. -/
theorem isValid_of_validateBody {a : Activation} {v : ActivationValue}
    (h : validateBody a.body = .ok v) :
    v.ruleBundleId = a.body.ruleBundleId ∧ v.definition = a.body.definition ∧
      (a.row v).IsValid := by
  simp only [validateBody, bind_eq_ok, refuse_eq_ok, pure_eq_ok] at h
  obtain ⟨-, -, -, -, -, -, -, hrequired, computedHash, hhash, -, hidentity, -, -, -, -, -, -, -, -,
    -, -, -, -, rfl⟩ := h
  refine ⟨rfl, rfl, fun hfraud => ?_⟩
  cases hdefinition : a.body.definition with
  | none =>
      rw [hdefinition] at hrequired
      change isFraudId a.body.ruleBundleId = true at hfraud
      rw [hfraud] at hrequired
      cases hrequired
  | some d =>
      rw [hdefinition] at hhash hidentity
      obtain ⟨hash, hd, rfl⟩ := exists_of_map_eq_ok hhash
      obtain ⟨hasserted, rfl⟩ := definitionHash_eq_ok.mp hd
      have hnames : ¬ (d.bundle.id.text ≠ a.body.ruleBundleId ∨
          d.bundle.version.text ≠ a.body.ruleBundleVersion) := by
        simpa using hidentity
      rw [not_or, not_not, not_not] at hnames
      exact ⟨d, rfl, rfl, rfl, hnames.1, hnames.2, hasserted⟩

/-- The revision a valid row of a definition resolves to. -/
def RuleBundleRow.active (r : RuleBundleRow) (d : BundleDefinition) :
    ActiveFraudBundleRevision where
  ruleBundleRevisionId := r.revisionId
  ruleBundleId := r.ruleBundleId
  ruleBundleVersion := r.ruleBundleVersion
  ruleBundleHash := r.ruleBundleHash
  definitionDigest := sha256 (toJson d)
  definition := d
  activatedAt := r.activatedAt

/-- A valid row of a fraud bundle passes the resolution. -/
theorem validatedRevision_of_isValid {r : RuleBundleRow} (hvalid : r.IsValid)
    (hfraud : isFraudId r.ruleBundleId = true) :
    ∃ d, r.definition = some d ∧ validatedRevision r = .ok (r.active d) := by
  obtain ⟨d, hd, hdigest, hhash, hid, hversion, hasserted⟩ := hvalid hfraud
  refine ⟨d, hd, ?_⟩
  rw [validatedRevision, hd, hdigest]
  simp only [bind_eq_ok, refuse_eq_ok, pure_eq_ok]
  refine ⟨(), ?_, _, definitionHash_eq_ok.mpr ⟨hasserted, rfl⟩, (), ?_, (), ?_, rfl⟩
  · rw [hid, hversion]
    simp
  · simp
  · rw [hhash]
    simp

end Facts

section Registry

variable [Digest] {db : Database}

/-- The registry, as rows that supersede rows. -/
def bundleTable : Supersession.Table RuleBundleRow String (Scope × String) where
  id := (·.revisionId)
  target := (·.supersedes)
  subject := fun r => some (r.scope, r.ruleBundleId)

/-- Every bundle of an app has one current revision, and every revision is
valid. -/
structure Registered (rows : List RuleBundleRow) : Prop where
  chained : Supersession.Chained bundleTable rows
  valid : ∀ r ∈ rows, r.IsValid

omit [Digest] in
/-- The current rows are the heads. -/
theorem isCurrentRevision_iff {rows : List RuleBundleRow}
    (hchained : Supersession.Chained bundleTable rows) {r : RuleBundleRow} (hr : r ∈ rows) :
    isCurrentRevision rows r = true ↔ Supersession.IsHead bundleTable rows r := by
  rw [isCurrentRevision, Bool.not_eq_true', List.any_eq_false]
  constructor
  · intro h
    refine ⟨hr, fun s hs htarget => h s hs ?_⟩
    obtain ⟨p, hp, hid, hsubject⟩ := hchained.refers s hs _ htarget
    have hpr : p = r := List.inj_on_of_nodup_map hchained.nodup hp hr hid
    have hscope : p.scope = s.scope := congrArg Prod.fst (Option.some.inj hsubject)
    rw [Bool.and_eq_true]
    exact ⟨decide_eq_true (hscope.symm.trans (congrArg _ hpr)), decide_eq_true htarget⟩
  · rintro ⟨-, hhead⟩ s hs hboth
    rw [Bool.and_eq_true] at hboth
    exact hhead s hs (of_decide_eq_true hboth.2)

/-- What a successful registration did. -/
theorem activateRuleBundle_eq_ok {rows rows' : List RuleBundleRow} {a : Activation}
    (h : activateRuleBundle db rows a = .ok rows') :
    ∃ v, validateBody a.body = .ok v ∧
      (currentRevision db rows a.scope v.ruleBundleId).map (·.revisionId) = v.supersedes ∧
      admitsRevision rows (a.row v) = true ∧ rows' = rows ++ [a.row v] := by
  simp only [activateRuleBundle, bind_eq_ok, refuse_eq_ok, pure_eq_ok] at h
  obtain ⟨v, hv, -, hpredecessor, -, hadmits, rfl⟩ := h
  refine ⟨v, hv, ?_, ?_, rfl⟩
  · simpa using hpredecessor
  · simpa using hadmits

omit [Digest] in
/-- A current revision of the named bundle. -/
theorem mem_of_currentRevision {rows : List RuleBundleRow} {scope : Scope} {ruleBundleId : String}
    {r : RuleBundleRow} (h : currentRevision db rows scope ruleBundleId = some r) :
    r ∈ rows ∧ r.scope = scope ∧ r.ruleBundleId = ruleBundleId ∧
      isCurrentRevision rows r = true := by
  have hmem := AppendOnly.mem_of_latest h
  simpa [and_assoc] using hmem

omit [Digest] in
/-- A bundle without a current revision has none. -/
theorem no_rows_of_currentRevision {rows : List RuleBundleRow}
    (hchained : Supersession.Chained bundleTable rows) {scope : Scope} {ruleBundleId : String}
    (h : currentRevision db rows scope ruleBundleId = none) :
    ∀ r ∈ rows, (r.scope, r.ruleBundleId) ≠ (scope, ruleBundleId) := by
  intro r hr hkey
  obtain ⟨head, hhead, hsubject⟩ := hchained.hasHead r hr _ rfl
  refine AppendOnly.latest_ne_none ?_ h
  have hsame : (head.scope, head.ruleBundleId) = (scope, ruleBundleId) :=
    (Option.some.inj hsubject).trans hkey
  have hcurrent := (isCurrentRevision_iff hchained hhead.1).mpr hhead
  refine List.ne_nil_of_mem (a := head) (List.mem_filter.mpr ⟨hhead.1, ?_⟩)
  rw [hcurrent, Bool.and_true, Bool.and_eq_true]
  exact ⟨decide_eq_true (congrArg Prod.fst hsame), decide_eq_true (congrArg Prod.snd hsame)⟩

omit [Digest] in
/-- **Step.**  A registration supersedes the head of its bundle, the revision
that is current under its id. -/
theorem fits_of_activation {rows : List RuleBundleRow}
    (hchained : Supersession.Chained bundleTable rows) {a : Activation} {v : ActivationValue}
    (hpredecessor : (currentRevision db rows a.scope v.ruleBundleId).map (·.revisionId) =
      v.supersedes) (hadmits : admitsRevision rows (a.row v) = true) :
    Supersession.Fits bundleTable rows (a.row v) where
  fresh := by
    rw [admitsRevision, Bool.and_eq_true, Bool.and_eq_true] at hadmits
    exact of_decide_eq_true hadmits.1.1
  first := by
    intro hnone k hk s hs hsame
    have hcurrent : currentRevision db rows a.scope v.ruleBundleId = none := by
      rw [← Option.map_eq_none_iff, hpredecessor]
      exact hnone
    exact no_rows_of_currentRevision hchained hcurrent s hs
      (Option.some.inj (hsame.trans hk.symm))
  next := by
    intro x hx
    change v.supersedes = some x at hx
    rw [hx, Option.map_eq_some_iff] at hpredecessor
    obtain ⟨p, hp, hid⟩ := hpredecessor
    obtain ⟨hmem, hscope, hbundle, hcurrent⟩ := mem_of_currentRevision hp
    have hsubject : bundleTable.subject p = bundleTable.subject (a.row v) :=
      congrArg some (Prod.ext hscope hbundle)
    exact ⟨p, hmem, hid, hsubject, fun _ _ => (isCurrentRevision_iff hchained hmem).mp hcurrent⟩

/-- **Step.**  A successful registration keeps the registry. -/
theorem Registered.activate {rows rows' : List RuleBundleRow} (h : Registered rows)
    {a : Activation} (ha : activateRuleBundle db rows a = .ok rows') : Registered rows' := by
  obtain ⟨v, hv, hpredecessor, hadmits, rfl⟩ := activateRuleBundle_eq_ok ha
  refine ⟨h.chained.append (fits_of_activation h.chained hpredecessor hadmits), ?_⟩
  intro r hr
  rcases List.mem_append.mp hr with hr | hr
  · exact h.valid r hr
  · rw [List.mem_singleton.mp hr]
    exact (isValid_of_validateBody hv).2.2

end Registry

section Law

variable [Digest] (db : Database)

omit [Digest] in
/-- The revision of a fraud bundle that was registered last in the app. -/
def lastFraudRevision (rows : List RuleBundleRow) (scope : Scope) : Option RuleBundleRow :=
  (rows.filter (fun r => r.scope = scope && isFraudId r.ruleBundleId)).getLast?

/-- **The law.**  The resolution does not throw: it finds the revision of a
fraud bundle that was registered last, with its definition, or none where none
was.  The calls behind it bind what it finds. -/
structure ResolvesLast (rows : List RuleBundleRow) (scope : Scope) : Prop where
  resolves : resolveActiveFraudBundle rows scope =
    .ok ((lastFraudRevision rows scope).bind (fun r => r.definition.map r.active))
  defined : ∀ r, lastFraudRevision rows scope = some r → r.definition.isSome = true
  binds : ∃ context, fraudContext rows scope = .ok context

/-- The rows behind a registration, which can be refused. -/
def registerRevision (rows : List RuleBundleRow) (a : Activation) : List RuleBundleRow :=
  match activateRuleBundle db rows a with
  | .ok rows' => rows'
  | .error _ => rows

/-- **The condition on a registration.**  A successful one of a fraud bundle
bears the id of the fraud bundle that is active in the app, if there is one,
and its base layer is not null. -/
def KeepsFraudBundle (rows : List RuleBundleRow) (a : Activation) : Prop :=
  ∀ rows', activateRuleBundle db rows a = .ok rows' → isFraudId a.body.ruleBundleId = true →
    (∀ r ∈ currentFraudRevisions rows a.scope, r.ruleBundleId = a.body.ruleBundleId) ∧
      ∀ d, a.body.definition = some d → d.nullBase = false

/-- The registry when all went well: the current revision of a fraud bundle is
the one that was registered last in its app, and can be read. -/
structure SingleFraudBundle (rows : List RuleBundleRow) : Prop where
  registered : Registered rows
  last : ∀ r, Supersession.IsHead bundleTable rows r → isFraudId r.ruleBundleId = true →
    lastFraudRevision rows r.scope = some r
  readable : ∀ r ∈ rows, isFraudId r.ruleBundleId = true →
    ∀ d, r.definition = some d → d.nullBase = false

variable {db} {rows rows' : List RuleBundleRow}

omit [Digest] in
theorem mem_currentFraudRevisions {scope : Scope} {r : RuleBundleRow}
    (hchained : Supersession.Chained bundleTable rows) :
    r ∈ currentFraudRevisions rows scope ↔
      r.scope = scope ∧ isFraudId r.ruleBundleId = true ∧
        Supersession.IsHead bundleTable rows r := by
  rw [currentFraudRevisions, List.mem_filter, Bool.and_eq_true, Bool.and_eq_true, decide_eq_true_iff]
  constructor
  · rintro ⟨hr, ⟨hscope, hfraud⟩, hcurrent⟩
    exact ⟨hscope, hfraud, (isCurrentRevision_iff hchained hr).mp hcurrent⟩
  · rintro ⟨hscope, hfraud, hhead⟩
    exact ⟨hhead.1, ⟨hscope, hfraud⟩, (isCurrentRevision_iff hchained hhead.1).mpr hhead⟩

omit [Digest] in
/-- The last revision with one row more. -/
theorem lastFraudRevision_append (n : RuleBundleRow) (scope : Scope) :
    lastFraudRevision (rows ++ [n]) scope =
      if n.scope = scope ∧ isFraudId n.ruleBundleId = true then some n
      else lastFraudRevision rows scope := by
  unfold lastFraudRevision
  rw [List.filter_append]
  split
  · rename_i hn
    have hkeep : [n].filter (fun r => r.scope = scope && isFraudId r.ruleBundleId) = [n] := by
      simp [hn.1, hn.2]
    rw [hkeep, List.getLast?_append]
    rfl
  · rename_i hn
    have hdrop : [n].filter (fun r => r.scope = scope && isFraudId r.ruleBundleId) = [] := by
      simpa using hn
    rw [hdrop, List.append_nil]

/-- The app's fraud bundle is the only current one. -/
theorem SingleFraudBundle.current_eq (h : SingleFraudBundle rows) {scope : Scope} :
    currentFraudRevisions rows scope = (lastFraudRevision rows scope).toList := by
  have hmem : ∀ r, r ∈ currentFraudRevisions rows scope ↔ r.scope = scope ∧
      isFraudId r.ruleBundleId = true ∧ Supersession.IsHead bundleTable rows r :=
    fun _ => mem_currentFraudRevisions h.registered.chained
  have hnodup : (currentFraudRevisions rows scope).Nodup :=
    (h.registered.chained.nodup.of_map _).filter _
  have hlast : ∀ r ∈ currentFraudRevisions rows scope, lastFraudRevision rows scope = some r := by
    intro r hr
    obtain ⟨rfl, hfraud, hhead⟩ := (hmem r).mp hr
    exact h.last r hhead hfraud
  cases hl : lastFraudRevision rows scope with
  | none =>
      refine List.eq_nil_iff_forall_not_mem.mpr fun r hr => ?_
      cases hl.symm.trans (hlast r hr)
  | some r =>
      have hr := List.mem_of_getLast? hl
      rw [List.mem_filter, Bool.and_eq_true, decide_eq_true_iff] at hr
      obtain ⟨hmemr, hscope, hfraud⟩ := hr
      obtain ⟨head, hhead, hsubject⟩ := h.registered.chained.hasHead r hmemr _ rfl
      have hsame : (head.scope, head.ruleBundleId) = (r.scope, r.ruleBundleId) :=
        Option.some.inj hsubject
      have hheadMem : head ∈ currentFraudRevisions rows scope := by
        refine (hmem head).mpr ⟨(congrArg Prod.fst hsame).trans hscope, ?_, hhead⟩
        have hbundle : head.ruleBundleId = r.ruleBundleId := congrArg Prod.snd hsame
        rw [hbundle]
        exact hfraud
      match hcurrent : currentFraudRevisions rows scope with
      | [] =>
          rw [hcurrent] at hheadMem
          cases hheadMem
      | [x] =>
          have hx := hlast x (hcurrent ▸ List.mem_cons_self)
          rw [hl] at hx
          rw [Option.some.inj hx]
          rfl
      | x :: y :: rest =>
          have hx := hlast x (hcurrent ▸ List.mem_cons_self)
          have hy := hlast y (hcurrent ▸ List.mem_cons_of_mem _ List.mem_cons_self)
          rw [hcurrent] at hnodup
          have hne := (List.nodup_cons.mp hnodup).1
          rw [Option.some.inj (hx.symm.trans hy)] at hne
          exact absurd List.mem_cons_self hne

/-- Where one fraud bundle is current, the resolution finds the last
revision. -/
theorem SingleFraudBundle.resolvesLast (h : SingleFraudBundle rows) (scope : Scope) :
    ResolvesLast rows scope := by
  have hcurrent : currentFraudRevisions rows scope = (lastFraudRevision rows scope).toList :=
    h.current_eq
  cases hl : lastFraudRevision rows scope with
  | none =>
      have hresolves : resolveActiveFraudBundle rows scope = .ok none := by
        rw [resolveActiveFraudBundle, hcurrent, hl]
        rfl
      refine ⟨?_, ?_, none, ?_⟩
      · rw [hresolves, hl]
        rfl
      · intro r hr
        cases hl.symm.trans hr
      · rw [fraudContext, hresolves]
        rfl
  | some r =>
      have hr := List.mem_of_getLast? hl
      rw [List.mem_filter, Bool.and_eq_true] at hr
      obtain ⟨d, hd, hvalidated⟩ :=
        validatedRevision_of_isValid (h.registered.valid r hr.1) hr.2.2
      have hresolves : resolveActiveFraudBundle rows scope = .ok (some (r.active d)) := by
        rw [resolveActiveFraudBundle, hcurrent, hl, Option.toList_some]
        change (validatedRevision r).map some = _
        rw [hvalidated]
        rfl
      have hreadable : definitionNumber (r.active d).definition "ctit_lower_bound_seconds" 10 =
          .ok (fraudNumberParameter d.bundle "ctit_lower_bound_seconds" 10) := by
        change (if d.nullBase = true then _ else _) = _
        rw [h.readable r hr.1 hr.2.2 d hd]
        rfl
      refine ⟨?_, ?_, some (serverBundleContext (r.active d)), ?_⟩
      · rw [hresolves, hl, Option.bind_some, hd]
        rfl
      · intro r' hr'
        cases hl.symm.trans hr'
        rw [hd]
        rfl
      · rw [fraudContext, hresolves]
        change (definitionNumber (r.active d).definition "ctit_lower_bound_seconds" 10 >>= _) = _
        rw [hreadable]
        rfl

/-- **Step.**  A registration under the condition keeps the registry single: it
supersedes the revision that was current. -/
theorem SingleFraudBundle.activate (h : SingleFraudBundle rows) {a : Activation}
    (hkeeps : KeepsFraudBundle db rows a) (ha : activateRuleBundle db rows a = .ok rows') :
    SingleFraudBundle rows' := by
  have hregistered := h.registered.activate ha
  have hkept := hkeeps rows' ha
  obtain ⟨v, hv, hpredecessor, hadmits, rfl⟩ := activateRuleBundle_eq_ok ha
  obtain ⟨hbundle, hdefinition, -⟩ := isValid_of_validateBody hv
  have hfits := fits_of_activation h.registered.chained hpredecessor hadmits
  refine ⟨hregistered, fun r hr hfraud => ?_, fun r hr hfraud d hd => ?_⟩
  · rw [lastFraudRevision_append]
    rcases (Supersession.isHead_append_iff h.registered.chained hfits r).mp hr with
      rfl | ⟨hhead, htarget⟩
    · rw [if_pos ⟨rfl, hfraud⟩]
    · rw [if_neg, h.last r hhead hfraud]
      rintro ⟨hscope, hnew⟩
      have hsame : r.ruleBundleId = a.body.ruleBundleId := by
        refine (hkept (hbundle ▸ hnew)).1 r ?_
        exact (mem_currentFraudRevisions h.registered.chained).mpr ⟨hscope.symm, hfraud, hhead⟩
      refine htarget (Supersession.target_of_isHead h.registered.chained hfits hhead rfl ?_)
      exact congrArg some (Prod.ext hscope.symm (hsame.trans hbundle.symm))
  · rcases List.mem_append.mp hr with hr | hr
    · exact h.readable r hr hfraud d hd
    · rw [List.mem_singleton.mp hr] at hfraud hd
      exact (hkept (hbundle ▸ hfraud)).2 d (hdefinition ▸ hd)

/-- A registration outside the condition breaks the law. -/
theorem not_resolvesLast_of_activation (h : SingleFraudBundle rows) {a : Activation}
    (hkeeps : ¬ KeepsFraudBundle db rows a) :
    ¬ ResolvesLast (registerRevision db rows a) a.scope := by
  intro hlaw
  refine hkeeps fun rows' ha hfraud => ?_
  rw [registerRevision, ha] at hlaw
  change ResolvesLast rows' a.scope at hlaw
  have hregistered := h.registered.activate ha
  obtain ⟨v, hv, hpredecessor, hadmits, rfl⟩ := activateRuleBundle_eq_ok ha
  obtain ⟨hbundle, hdefinition, -⟩ := isValid_of_validateBody hv
  have hnewFraud : isFraudId (a.row v).ruleBundleId = true := by
    rw [← hbundle] at hfraud
    exact hfraud
  have hfits := fits_of_activation h.registered.chained hpredecessor hadmits
  have hheads := Supersession.isHead_append_iff h.registered.chained hfits
  have hnew : a.row v ∈ currentFraudRevisions (rows ++ [a.row v]) a.scope :=
    (mem_currentFraudRevisions hregistered.chained).mpr
      ⟨rfl, hnewFraud, (hheads _).mpr (.inl rfl)⟩
  have hsingle : ∀ r ∈ currentFraudRevisions (rows ++ [a.row v]) a.scope, r = a.row v := by
    intro r hr
    have hresolves := hlaw.resolves
    unfold resolveActiveFraudBundle at hresolves
    match hcurrent : currentFraudRevisions (rows ++ [a.row v]) a.scope with
    | [] =>
        rw [hcurrent] at hr
        cases hr
    | [x] =>
        rw [hcurrent] at hr hnew
        exact (List.mem_singleton.mp hr).trans (List.mem_singleton.mp hnew).symm
    | _ :: _ :: _ =>
        rw [hcurrent] at hresolves
        cases hresolves
  constructor
  · intro r hr
    obtain ⟨hscope, hrFraud, hhead⟩ := (mem_currentFraudRevisions h.registered.chained).mp hr
    by_contra hother
    have hstays : Supersession.IsHead bundleTable (rows ++ [a.row v]) r := by
      refine (hheads r).mpr (.inr ⟨hhead, fun htarget => hother ?_⟩)
      obtain ⟨p, hp, hid, hsubject, -⟩ := hfits.next _ htarget
      have hpr : p = r := List.inj_on_of_nodup_map h.registered.chained.nodup hp hhead.1 hid
      have hpair : (p.scope, p.ruleBundleId) = (a.scope, v.ruleBundleId) :=
        Option.some.inj hsubject
      rw [← hpr, ← hbundle]
      exact congrArg Prod.snd hpair
    have heq := hsingle r
      ((mem_currentFraudRevisions hregistered.chained).mpr ⟨hscope, hrFraud, hstays⟩)
    exact hother (heq ▸ hbundle)
  · intro d hd
    cases hbase : d.nullBase with
    | false => rfl
    | true =>
        exfalso
        obtain ⟨context, hcontext⟩ := hlaw.binds
        have hlast : lastFraudRevision (rows ++ [a.row v]) a.scope = some (a.row v) := by
          rw [lastFraudRevision_append, if_pos ⟨rfl, hnewFraud⟩]
        have hdv : (a.row v).definition = some d := hdefinition.trans hd
        rw [fraudContext, hlaw.resolves, hlast, Option.bind_some, hdv] at hcontext
        change (definitionNumber d "ctit_lower_bound_seconds" 10 >>= _) = _ at hcontext
        rw [definitionNumber, hbase] at hcontext
        cases hcontext

theorem singleFraudBundle_nil : SingleFraudBundle ([] : List RuleBundleRow) where
  registered := ⟨Supersession.chained_nil, fun _ h => absurd h List.not_mem_nil⟩
  last _ h := absurd h.1 List.not_mem_nil
  readable _ h := absurd h List.not_mem_nil

/-- A refused registration changes nothing, a successful one under the
condition keeps the registry single. -/
theorem SingleFraudBundle.register (h : SingleFraudBundle rows) {a : Activation}
    (hkeeps : KeepsFraudBundle db rows a) : SingleFraudBundle (registerRevision db rows a) := by
  unfold registerRevision
  split
  · rename_i rows' ha
    exact h.activate hkeeps ha
  · exact h

/-- A run obeys the law in every state exactly when its registrations meet the
condition.  The registry stays single up to the first that does not, and the
law fails behind it. -/
theorem resolvesLast_iff_of_single (h : SingleFraudBundle rows) (run : List Activation) :
    (∀ before after, run = before ++ after →
      ∀ scope, ResolvesLast (before.foldl (registerRevision db) rows) scope) ↔
      StepsMeet (registerRevision db) (KeepsFraudBundle db) rows run := by
  induction run generalizing rows with
  | nil =>
      refine ⟨fun _ => trivial, fun _ before after hsplit scope => ?_⟩
      rw [(List.append_eq_nil_iff.mp hsplit.symm).1]
      exact h.resolvesLast scope
  | cons a rest ih =>
      constructor
      · intro hlaw
        have hkeeps : KeepsFraudBundle db rows a := by
          by_contra hnot
          exact not_resolvesLast_of_activation h hnot (hlaw [a] rest rfl a.scope)
        refine ⟨hkeeps, (ih (h.register hkeeps)).mp fun before after hsplit scope => ?_⟩
        exact hlaw (a :: before) after (congrArg (a :: ·) hsplit) scope
      · rintro ⟨hkeeps, hrest⟩ before after hsplit scope
        cases before with
        | nil => exact h.resolvesLast scope
        | cons b before =>
            obtain ⟨rfl, hrestSplit⟩ := List.cons.inj hsplit
            exact (ih (h.register hkeeps)).mpr hrest before after hrestSplit scope

/-- **The resolution of fraud bundles.**  From the empty registry on, every
state of a history of registrations obeys the law in every app exactly when
every registration keeps the fraud bundle of its app. -/
theorem resolvesLast_iff (db : Database) (run : List Activation) :
    (∀ before after, run = before ++ after →
      ∀ scope, ResolvesLast (before.foldl (registerRevision db) []) scope) ↔
      StepsMeet (registerRevision db) (KeepsFraudBundle db) [] run :=
  resolvesLast_iff_of_single singleFraudBundle_nil run

end Law

section TwoBundles

attribute [local instance] checksumDigest

/-- A bundle with one rule. -/
def oneRuleBundle (id : Identifier) : FraudBundle where
  id := id
  version := .named "1"
  layers := { base := [] }
  rules := [⟨"transport-replay-v1", ["replay_signal"], .exclude⟩]

/-- The first registration of a bundle. -/
def firstRegistration (id : Identifier) (revisionId : String) : Activation where
  scope := ⟨.named "tenant", .named "app"⟩
  body := {
    ruleBundleId := id.text
    ruleBundleVersion := "1"
    definition := some { bundle := oneRuleBundle id } }
  revisionId := revisionId
  now := ⟨2026, 1, 1, 0, 0, 0, 0⟩

/-- The rows behind both, when both succeed and the resolution throws. -/
def bothRegistered : Bool :=
  match activateRuleBundle plainDatabase []
      (firstRegistration (.named "fraud-a") "rule-bundle:1") with
  | .error _ => false
  | .ok rows =>
      match activateRuleBundle plainDatabase rows (firstRegistration (.named "fraud-b")
          "rule-bundle:2") with
      | .error _ => false
      | .ok rows' => !(resolveActiveFraudBundle rows' ⟨.named "tenant",
          .named "app"⟩).isOk

end TwoBundles

end OpenMasu
