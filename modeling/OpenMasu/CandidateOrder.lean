import OpenMasu.EvaluatorInput
import OpenMasu.InsertionMap

/-!
# The order of deliveries and the lookups over it

Every evaluation first sorts its deliveries by receipt; the first delivery of
a logical key in that order is the key's canonical candidate.  The decision
logic then looks deliveries up by record id, by logical key and by click.

* `sortCandidateAttempts` — the order of deliveries;
* `CandidateProvider` — the lookups, as a record of functions;
* `indexedCandidateProvider_eq` — the indexed provider of the ledger writers
  answers every lookup like the one that filters an array.
-/

namespace OpenMasu

variable [Digest]

/-- `candidateAttemptSortKey`, as the code units that compare. -/
def candidateAttemptSortKey (a : Attempt) : List (List Nat) :=
  [a.record.receivedAt.text, a.record.recordId.text, a.record.deliveryId.text,
   a.server.tenantId.text, a.server.appId.text, a.record.schemaVersion,
   sha256 (toJson a.record)].map codeUnits

/-- `sortCandidateAttempts`: the deliveries in the order of their receipt,
record id and delivery id. -/
def sortCandidateAttempts (values : List Attempt) : List Attempt :=
  KeyedSort.sortOn candidateAttemptSortKey values

@[simp] theorem mem_sortCandidateAttempts {a : Attempt} {values : List Attempt} :
    a ∈ sortCandidateAttempts values ↔ a ∈ values :=
  KeyedSort.mem_sortOn _

/-- Deliveries selected before or after the sort are the same list. -/
theorem filter_sortCandidateAttempts (p : Attempt → Bool) (values : List Attempt) :
    (sortCandidateAttempts values).filter p = sortCandidateAttempts (values.filter p) :=
  KeyedSort.filter_sortOn _ _ _

@[simp] theorem sortCandidateAttempts_idem (values : List Attempt) :
    sortCandidateAttempts (sortCandidateAttempts values) = sortCandidateAttempts values :=
  KeyedSort.sortOn_sortOn _ _

/-- The lookups the decision logic makes. -/
structure CandidateProvider where
  all : List Attempt
  byRecordId : Identifier → List Attempt
  byLogicalScope : Attempt → List Attempt
  clickCandidates : Scope → Option Identifier → List Attempt

/-- The delivery is a click of the scope with the click id. -/
def isClickOf (scope : Scope) (clickId : Option Identifier) (a : Attempt) : Bool :=
  a.scope = scope && a.record.eventName = .click && a.record.payload.clickId = clickId

/-- `FixtureArrayCandidateProvider`: every lookup filters the array. -/
def fixtureCandidateProvider (ordered : List Attempt) : CandidateProvider where
  all := ordered
  byRecordId recordId := ordered.filter (fun a => a.record.recordId = recordId)
  byLogicalScope attempt := ordered.filter (fun a => scopeKey a = scopeKey attempt)
  clickCandidates scope clickId := ordered.filter (isClickOf scope clickId)

/-- `IndexedCandidateProvider`: every lookup reads a map built once. -/
def indexedCandidateProvider (ordered : List Attempt) : CandidateProvider :=
  let records := InsertionMap.group (fun a : Attempt => a.record.recordId) ordered
  let logicalScopes := InsertionMap.group scopeKey ordered
  let clicks := InsertionMap.group (fun a : Attempt => (a.scope, a.record.payload.clickId))
    (ordered.filter (fun a => a.record.eventName = .click))
  { all := ordered
    byRecordId := fun recordId => (records.get recordId).getD []
    byLogicalScope := fun attempt => (logicalScopes.get (scopeKey attempt)).getD []
    clickCandidates := fun scope clickId => (clicks.get (scope, clickId)).getD [] }

omit [Digest] in
/-- **The two providers answer alike.**  The indexed provider returns, for
every lookup, the list the array provider filters out. -/
theorem indexedCandidateProvider_eq (ordered : List Attempt) :
    indexedCandidateProvider ordered = fixtureCandidateProvider ordered := by
  have hclicks : ∀ scope clickId,
      (((InsertionMap.group (fun a : Attempt => (a.scope, a.record.payload.clickId))
        (ordered.filter (fun a => a.record.eventName = .click))).get (scope, clickId)).getD [])
        = ordered.filter (isClickOf scope clickId) := by
    intro scope clickId
    rw [InsertionMap.get_group, List.filter_filter]
    apply List.filter_congr
    intro a _
    simp only [isClickOf, Prod.mk.injEq, Bool.decide_and]
    cases decide (a.scope = scope) <;> cases decide (a.record.eventName = EventName.click) <;>
      cases decide (a.record.payload.clickId = clickId) <;> rfl
  simp only [indexedCandidateProvider, fixtureCandidateProvider, InsertionMap.get_group, hclicks]

end OpenMasu
