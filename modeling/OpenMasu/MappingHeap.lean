import OpenMasu.JsHeap
import OpenMasu.MappingRules

/-!
# Mapping rules on the heap

An import loads its mapping and its rows as objects and then maps the rows one
after the other.  Constants and defaults of the mapping, what a row has, and
what its objects inherit are put into the output by reference, and the output
is written in place.

* `realm`, `property` — `Object.prototype` and its functions, and a member that
  is looked up through it;
* `LoadedRule`, `loadRules` — the mapping, its constants and defaults loaded;
* `evaluateLoaded`, `mergeLoaded`, `setTargetLoaded`, `mapRowLoaded` — the code;
* `mapRowsLoaded` — the rows of an import.
-/

namespace OpenMasu

open JsHeap
open JsonPaths (setMember assign)

section Realm

/-- `Object.prototype`, without a member anyone has written into it, and the
functions it has, as they are before an import. -/
def realm : Heap where
  cells := .object [] :: inheritedFunctions.map fun name =>
    .array [.prim (.str (functionText name))]

/-- The cell of `Object.prototype`. -/
def protoCell : Nat := 0

/-- The cell of a function that plain objects inherit. -/
def functionCell (name : String) : Nat := inheritedFunctions.idxOf name + 1

/-- `value[name]`, where the value is an object: a member of its own, one that
was written into `Object.prototype`, or one of its functions. -/
def property (h : Heap) (value : Value) (name : String) : Option Value :=
  if h.isObject value then
    match (h.members value).lookup name with
    | some v => some v
    | none =>
        if name = "__proto__" then
          some (if value = .ref protoCell then .prim .null else .ref protoCell)
        else
          match (h.members (.ref protoCell)).lookup name with
          | some v => some v
          | none => if name ∈ inheritedFunctions then some (.ref (functionCell name)) else none
  else none

variable {h : Heap} {a : Nat} {v : Value} {name : String} {ms : List (String × Value)}

/-- The function of a name is in its cell. -/
theorem realm_get_functionCell (hname : name ∈ inheritedFunctions) :
    realm.get (functionCell name) = some (.array [.prim (.str (functionText name))]) := by
  have hlt := List.idxOf_lt_length_iff.mpr hname
  rw [Heap.get, realm, functionCell, List.getElem?_cons_succ, List.getElem?_map,
    List.getElem?_eq_getElem hlt, List.getElem_idxOf hlt]
  rfl

theorem functionCell_lt (hname : name ∈ inheritedFunctions) : functionCell name < realm.size :=
  Heap.lt_of_get (realm_get_functionCell hname)

theorem protoCell_lt : protoCell < realm.size := by decide

/-- Nobody has written into `Object.prototype`. -/
theorem members_protoCell (hrealm : Keeps realm h) : h.members (.ref protoCell) = [] := by
  refine Heap.members_of_get ?_
  rw [hrealm.keeps protoCell protoCell_lt]
  rfl

theorem not_isObject_functionCell (hrealm : Keeps realm h) (hname : name ∈ inheritedFunctions) :
    h.isObject (.ref (functionCell name)) = false := by
  rw [Heap.isObject, hrealm.keeps _ (functionCell_lt hname), realm_get_functionCell hname]

/-- A member of its own hides what an object inherits. -/
theorem property_own (hget : h.get a = some (.object ms)) (hlookup : ms.lookup name = some v) :
    property h (.ref a) name = some v := by
  rw [property, if_pos (Heap.isObject_of_get hget), Heap.members_of_get hget, hlookup]

/-- Without one an object has what all inherit. -/
theorem property_inherited (hrealm : Keeps realm h) (hobject : h.isObject v = true)
    (hlookup : (h.members v).lookup name = none) (hname : name ≠ "__proto__") :
    property h v name =
      if name ∈ inheritedFunctions then some (.ref (functionCell name)) else none := by
  rw [property, if_pos hobject, hlookup, if_neg hname, members_protoCell hrealm]
  rfl

/-- A name that a target can have: among what plain objects inherit that is the
constructor alone. -/
structure IsTargetName (name : String) : Prop where
  proto : name ≠ "__proto__"
  inherited : name ∈ inheritedFunctions → name = "constructor"

theorem isTargetName (hname : isTargetPart name.toList = true) : IsTargetName name where
  proto := by
    rintro rfl
    revert hname
    decide
  inherited := by
    intro hmem
    simp only [inheritedFunctions, List.mem_cons, List.not_mem_nil, or_false] at hmem
    rcases hmem with rfl | rfl | rfl | rfl | rfl | rfl | rfl | rfl | rfl | rfl | rfl <;>
      first | rfl | exact absurd hname (by decide)

/-- A member that a target names. -/
theorem property_target (hrealm : Keeps realm h) (hobject : h.isObject v = true)
    (hname : IsTargetName name) : property h v name = ((h.members v).lookup name).or
      (if name = "constructor" then some (.ref (functionCell name)) else none) := by
  cases hlookup : (h.members v).lookup name with
  | some u =>
      rw [property, if_pos hobject, hlookup]
      rfl
  | none =>
      have hsame : name ∈ inheritedFunctions ↔ name = "constructor" := by
        refine ⟨hname.inherited, ?_⟩
        rintro rfl
        exact List.mem_cons_self
      rw [property_inherited hrealm hobject hlookup hname.proto, Option.none_or]
      simp only [hsame]

theorem MappingTarget.isTargetName_of_mem {target : MappingTarget} {part : String}
    (hpart : part ∈ target.parts) : IsTargetName part := by
  obtain ⟨cs, hcs, rfl⟩ := List.mem_map.mp hpart
  refine isTargetName ?_
  rw [String.toList_ofList]
  exact List.all_eq_true.mp target.valid cs hcs

end Realm

section Loading

/-- An expression without `object`, its constant and default in the heap. -/
structure LoadedLeaf where
  settings : LeafExpression
  const : Option Value
  default : Option Value

inductive LoadedExpression where
  | leaf (e : LoadedLeaf)
  | object (children : List (String × LoadedExpression))

structure LoadedRule where
  target : MappingTarget
  expression : LoadedExpression

def loadOption : Option Json → Heap → Option Value × Heap
  | none, h => (none, h)
  | some j, h =>
      let (v, h') := load j h
      (some v, h')

mutual

def loadExpression : MappingExpression → Heap → LoadedExpression × Heap
  | .leaf e, h =>
      let (const, h₁) := loadOption e.const h
      let (default, h₂) := loadOption e.default h₁
      (.leaf ⟨e, const, default⟩, h₂)
  | .object children, h =>
      let (loaded, h') := loadChildren children h
      (.object loaded, h')

def loadChildren : List (String × MappingExpression) → Heap →
    List (String × LoadedExpression) × Heap
  | [], h => ([], h)
  | (name, child) :: rest, h =>
      let (first, h₁) := loadExpression child h
      let (loaded, h₂) := loadChildren rest h₁
      ((name, first) :: loaded, h₂)

end

/-- The rules of `loadMapping`. -/
def loadRules : List MappingRule → Heap → List LoadedRule × Heap
  | [], h => ([], h)
  | rule :: rules, h =>
      let (expression, h₁) := loadExpression rule.expression h
      let (loaded, h₂) := loadRules rules h₁
      (⟨rule.target, expression⟩ :: loaded, h₂)

end Loading

section Evaluation

variable (text : MappingFunctions)

/-- `sourceValue`. -/
def loadedSource (h : Heap) (row : Value) (name : Option String) : Option Value :=
  match name with
  | none => none
  | some name =>
      if name = "" then none
      else (name.toList.splitOn '.').foldl (fun value part =>
        value.bind fun v => property h v (String.ofList part)) (some row)

/-- The expression does nothing to an object or an array. -/
def LeafExpression.passes (e : LeafExpression) : Bool :=
  e.map.isNone && e.boolean.isNone && e.timestamp.isNone && e.money.isNone && e.prefixText.isNone

def LoadedLeaf.chosen (e : LoadedLeaf) (h : Heap) (row : Value) : Option Value :=
  e.settings.pick (fun v => isEmptyValue (v.map h.read)) (loadedSource h row) e.const e.default

/-- `evaluateExpression` without `object`.  An object or an array that nothing
converts is the one of the mapping, of the row or of all objects; all else is
made. -/
def LoadedLeaf.evaluate (e : LoadedLeaf) (row : Value) (h : Heap) :
    Except MappingError (Option Value) × Heap :=
  let chosen := e.chosen h row
  match e.settings.finish text (h.read row) (chosen.map h.read) with
  | .error err => (.error err, h)
  | .ok none => (.ok none, h)
  | .ok (some j) =>
      match chosen, e.settings.passes with
      | some (.ref a), true => (.ok (some (.ref a)), h)
      | _, _ =>
          let (v, h') := load j h
          (.ok (some v), h')

mutual

/-- `evaluateExpression`. -/
def evaluateLoaded (row : Value) : LoadedExpression → Heap →
    Except MappingError (Option Value) × Heap
  | .leaf e, h => e.evaluate text row h
  | .object children, h =>
      match evaluateLoadedChildren row children h with
      | (.error err, h') => (.error err, h')
      | (.ok members, h') => (.ok (some (.ref h'.size)), h'.alloc (.object members))

/-- The members of an object expression. -/
def evaluateLoadedChildren (row : Value) : List (String × LoadedExpression) → Heap →
    Except MappingError (List (String × Value)) × Heap
  | [], h => (.ok [], h)
  | (name, child) :: rest, h =>
      match evaluateLoaded row child h with
      | (.error err, h₁) => (.error err, h₁)
      | (.ok value, h₁) =>
          match evaluateLoadedChildren row rest h₁ with
          | (.error err, h₂) => (.error err, h₂)
          | (.ok members, h₂) =>
              (.ok (match value with
                | none => members
                | some v => (name, v) :: members), h₂)

end

end Evaluation

section Rules

/-- `mergeValue`. -/
def mergeLoaded (h : Heap) (target : Nat) (key : String) (value : Value) : Heap :=
  let members := h.members (.ref target)
  match property h (.ref target) key, h.isObject value with
  | some (.ref existing), true =>
      if h.isObject (.ref existing) then
        h.set existing (.object (assign (h.members (.ref existing)) (h.members value)))
      else h.set target (.object (setMember members key value))
  | _, _ => h.set target (.object (setMember members key value))

/-- `setTarget`, from some cursor on. -/
def setTargetLoaded (path : String) : List String → Value → Nat → Heap →
    Except MappingError Unit × Heap
  | [], _, _, h => (.ok (), h)
  | [key], value, cursor, h => (.ok (), mergeLoaded h cursor key value)
  | part :: next :: rest, value, cursor, h =>
      let collision : MappingError := ⟨"mapping target collides with a scalar: " ++ path, [path]⟩
      match property h (.ref cursor) part with
      | some (.ref existing) =>
          if h.isObject (.ref existing) then setTargetLoaded path (next :: rest) value existing h
          else (.error collision, h)
      | some (.prim _) => (.error collision, h)
      | none =>
          let members := setMember (h.members (.ref cursor)) part (.ref h.size)
          setTargetLoaded path (next :: rest) value h.size
            ((h.alloc (.object [])).set cursor (.object members))

/-- The loop of `mapRow`. -/
def applyRulesLoaded (text : MappingFunctions) (row : Value) (output : Nat) :
    List LoadedRule → Heap → Except MappingError Unit × Heap
  | [], h => (.ok (), h)
  | rule :: rules, h =>
      match evaluateLoaded text row rule.expression h with
      | (.error err, h₁) => (.error err, h₁)
      | (.ok none, h₁) => applyRulesLoaded text row output rules h₁
      | (.ok (some value), h₁) =>
          match setTargetLoaded rule.target.path rule.target.parts value output h₁ with
          | (.error err, h₂) => (.error err, h₂)
          | (.ok (), h₂) => applyRulesLoaded text row output rules h₂

/-- `mapRow`. -/
def mapRowLoaded (text : MappingFunctions) (rules : List LoadedRule) (row : Value) (h : Heap) :
    Except MappingError Value × Heap :=
  match applyRulesLoaded text row h.size rules (h.alloc (.object [])) with
  | (.error err, h') => (.error err, h')
  | (.ok (), h') => (.ok (.ref h.size), h')

/-- The loop of an import over its rows. -/
def mapRowsLoaded (text : MappingFunctions) (rules : List LoadedRule) : List Value → Heap →
    List (Except MappingError Value) × Heap
  | [], h => ([], h)
  | row :: rows, h =>
      let (result, h₁) := mapRowLoaded text rules row h
      let (results, h₂) := mapRowsLoaded text rules rows h₁
      (result :: results, h₂)

end Rules

end OpenMasu
