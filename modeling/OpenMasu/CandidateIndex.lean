import OpenMasu.Evaluate
import OpenMasu.JsonText

/-!
# The two candidate providers

The evaluator takes the lookups over the deliveries from a provider.  One
filters the ordered deliveries at every lookup, the other reads maps whose
keys are JSON texts of the key's parts.  Since such a text determines its
parts, the two answer every lookup alike.

* `compositeKey`, `scopeKeyText`, `clickKey` — the keys, as texts;
* `createFixtureCandidateProvider`, `createIndexedCandidateProvider` — the
  providers, as the source builds them;
* `providers_interchangeable` — no lookup and no evaluation tells them apart.
-/

namespace OpenMasu

section Keys

/-- `compositeKey`: the JSON text of the parts. -/
def compositeKey (parts : List (Option String)) : String := String.ofList (JsonText.array parts)

/-- Different parts have different keys. -/
theorem compositeKey_injective : Function.Injective compositeKey := by
  intro parts parts' h
  exact JsonText.array_injective (String.ofList_injective h)

/-- `scopeKey`, as the text it is. -/
def scopeKeyText (a : Attempt) : String :=
  compositeKey [some a.server.tenantId.text, some a.server.appId.text,
    some a.record.producer.text, some a.record.eventId.text]

/-- `clickKey`. -/
def clickKey (scope : Scope) (clickId : Option Identifier) : String :=
  compositeKey [some scope.tenantId.text, some scope.appId.text, clickId.map (·.text)]

theorem ProducerName.text_injective : Function.Injective ProducerName.text := by
  rintro ⟨text, hcolon⟩ ⟨text', hcolon'⟩ rfl
  rfl

/-- Different producers have different texts: the fixed ones and the three
kinds of named ones begin differently. -/
theorem Producer.text_injective : Function.Injective Producer.text := by
  intro p p' h
  have hlist := congrArg String.toList h
  cases p <;> cases p' <;>
    simp [Producer.text, String.toList_append] at h hlist ⊢ <;>
    exact ProducerName.text_injective (String.toList_injective hlist)

end Keys

section Providers

/-- `createFixtureCandidateProvider`: every lookup filters the array. -/
def createFixtureCandidateProvider (ordered : List Attempt) : CandidateProvider where
  all := ordered
  byRecordId recordId := ordered.filter (fun a => a.record.recordId.text = recordId.text)
  byLogicalScope attempt := ordered.filter (fun a => scopeKeyText a = scopeKeyText attempt)
  clickCandidates scope clickId := ordered.filter (fun a =>
    a.server.tenantId.text = scope.tenantId.text && a.server.appId.text = scope.appId.text &&
      a.record.eventName = .click && a.record.payload.clickId.map (·.text) = clickId.map (·.text))

/-- `createIndexedCandidateProvider`: every lookup reads a map built once. -/
def createIndexedCandidateProvider (ordered : List Attempt) : CandidateProvider :=
  let records := InsertionMap.group (fun a : Attempt => a.record.recordId.text) ordered
  let logicalScopes := InsertionMap.group scopeKeyText ordered
  let clicks := InsertionMap.group (fun a : Attempt => clickKey a.scope a.record.payload.clickId)
    (ordered.filter (fun a => a.record.eventName = .click))
  { all := ordered
    byRecordId := fun recordId => (records.get recordId.text).getD []
    byLogicalScope := fun attempt => (logicalScopes.get (scopeKeyText attempt)).getD []
    clickCandidates := fun scope clickId => (clicks.get (clickKey scope clickId)).getD [] }

/-- The text of a logical key determines it. -/
theorem scopeKeyText_eq_iff {a b : Attempt} :
    scopeKeyText a = scopeKeyText b ↔ scopeKey a = scopeKey b := by
  constructor
  · intro h
    have hparts := compositeKey_injective h
    simp only [List.cons.injEq, Option.some.injEq, and_true] at hparts
    obtain ⟨htenant, happ, hproducer, hevent⟩ := hparts
    simp only [scopeKey, Attempt.scope, LogicalKey.mk.injEq, Scope.mk.injEq]
    exact ⟨⟨Identifier.text_injective htenant, Identifier.text_injective happ⟩,
      Producer.text_injective hproducer, Identifier.text_injective hevent⟩
  · intro h
    simp only [scopeKey, Attempt.scope, LogicalKey.mk.injEq, Scope.mk.injEq] at h
    obtain ⟨⟨htenant, happ⟩, hproducer, hevent⟩ := h
    simp only [scopeKeyText, htenant, happ, hproducer, hevent]

/-- The text of a click key determines the click, an absent one included. -/
theorem clickKey_eq_iff {scope scope' : Scope} {clickId clickId' : Option Identifier} :
    clickKey scope clickId = clickKey scope' clickId' ↔
      scope.tenantId.text = scope'.tenantId.text ∧ scope.appId.text = scope'.appId.text ∧
        clickId.map (·.text) = clickId'.map (·.text) := by
  constructor
  · intro h
    have hparts := compositeKey_injective h
    simpa only [List.cons.injEq, Option.some.injEq, and_true] using hparts
  · rintro ⟨htenant, happ, hclick⟩
    simp only [clickKey, htenant, happ, hclick]

variable (ordered : List Attempt)

/-- **The indexed provider answers every lookup like the array provider**, with
the same deliveries in the same order. -/
theorem createIndexedCandidateProvider_eq :
    createIndexedCandidateProvider ordered = createFixtureCandidateProvider ordered := by
  have hclicks : ∀ scope clickId,
      ((InsertionMap.group (fun a : Attempt => clickKey a.scope a.record.payload.clickId)
        (ordered.filter (fun a => a.record.eventName = .click))).get
          (clickKey scope clickId)).getD []
        = (createFixtureCandidateProvider ordered).clickCandidates scope clickId := by
    intro scope clickId
    rw [InsertionMap.get_group, List.filter_filter]
    refine List.filter_congr fun a _ => ?_
    rw [Bool.eq_iff_iff]
    simp only [Bool.and_eq_true, decide_eq_true_eq, clickKey_eq_iff, Attempt.scope]
    constructor
    · rintro ⟨⟨htenant, happ, hclick⟩, hname⟩
      exact ⟨⟨⟨htenant, happ⟩, hname⟩, hclick⟩
    · rintro ⟨⟨⟨htenant, happ⟩, hname⟩, hclick⟩
      exact ⟨⟨htenant, happ, hclick⟩, hname⟩
  simp only [createIndexedCandidateProvider, InsertionMap.get_group, hclicks]
  rfl

/-- The texts tell apart what the keys tell apart. -/
theorem createFixtureCandidateProvider_eq :
    createFixtureCandidateProvider ordered = fixtureCandidateProvider ordered := by
  have hid : ∀ i j : Identifier, i.text = j.text ↔ i = j :=
    fun i j => Identifier.text_injective.eq_iff
  have hclick : ∀ i j : Option Identifier, i.map (·.text) = j.map (·.text) ↔ i = j :=
    fun i j => (Option.map_injective Identifier.text_injective).eq_iff
  have hclickOf : ∀ scope clickId, isClickOf scope clickId = fun a =>
      a.server.tenantId = scope.tenantId && a.server.appId = scope.appId &&
        a.record.eventName = .click && a.record.payload.clickId = clickId := by
    rintro ⟨tenantId, appId⟩ clickId
    funext a
    simp only [isClickOf, Attempt.scope, Scope.mk.injEq, Bool.decide_and]
  simp only [createFixtureCandidateProvider, fixtureCandidateProvider, hid, hclick,
    scopeKeyText_eq_iff, hclickOf]

/-- **Interchangeable providers.**  For every list of deliveries the indexed
provider returns, for every record id, every delivery and every scope and
click id, the sequence the array provider returns; and every evaluation ends
in the same output or the same failure with either. -/
theorem providers_interchangeable [Digest] :
    (∀ recordId, (createIndexedCandidateProvider ordered).byRecordId recordId
      = (createFixtureCandidateProvider ordered).byRecordId recordId) ∧
    (∀ attempt, (createIndexedCandidateProvider ordered).byLogicalScope attempt
      = (createFixtureCandidateProvider ordered).byLogicalScope attempt) ∧
    (∀ scope clickId, (createIndexedCandidateProvider ordered).clickCandidates scope clickId
      = (createFixtureCandidateProvider ordered).clickCandidates scope clickId) ∧
    ∀ input, evaluate input createIndexedCandidateProvider
      = evaluate input createFixtureCandidateProvider := by
  have h := createIndexedCandidateProvider_eq ordered
  refine ⟨fun _ => by rw [h], fun _ => by rw [h], fun _ _ => by rw [h], fun input => ?_⟩
  rw [funext createIndexedCandidateProvider_eq]

end Providers

end OpenMasu
