import OpenMasu.Canonical

/-!
# Closed object schemas

A schema constrains a JSON value.  The vocabulary is the part of JSON Schema
that closed event schemas use: types, constants, text patterns and lengths,
the members of an object, and the logical combinators.  A keyword constrains
values of its own kind only; a text pattern says nothing about a number.

Objects are written as lists of members that may be absent, so what a schema
says about a member is decided by that member alone.

* `Schema`, `Schema.admits` — a schema, and the values it admits;
* `Schema.all`, `Schema.anyOf`, `Schema.ifThenElse` — combinations;
* `memberOf`, `get?_object` — the members of an object;
* `admits_required`, `admits_property` — what a schema says of one member;
* `MemberFits` — a member that is declared and fits its schema;
* `closedObject`, `admits_closedObject` — a closed object, member by member.
-/

namespace JsonSchema

open OpenMasu (Json)

/-- The types of JSON values; an integer is a number without a fraction. -/
inductive JsonType where
  | object
  | array
  | string
  | number
  | integer
  | boolean
  | null
  deriving DecidableEq

/-- The value has the type. -/
def JsonType.isOf : JsonType → Json → Bool
  | .object, .obj _ => true
  | .array, .arr _ => true
  | .string, .str _ => true
  | .number, .num _ => true
  | .integer, .num q => q.den = 1
  | .boolean, .bool _ => true
  | .null, .null => true
  | _, _ => false

/-- The member of an object. -/
def get? (name : String) : Json → Option Json
  | .obj members => (members.find? (fun m => m.1 = name)).map Prod.snd
  | _ => none

/-- A schema. -/
inductive Schema where
  | any
  | type (t : JsonType)
  | enum (texts : List String)
  | flag (value : Bool)
  | pattern (accepts : List Char → Bool)
  | minLength (n : Nat)
  | maxLength (n : Nat)
  | minimum (n : Int)
  | maximum (n : Int)
  | property (name : String) (schema : Schema)
  | required (name : String)
  | only (names : List String)
  | propertyNames (accepts : List Char → Bool)
  | maxProperties (n : Nat)
  | eachProperty (schema : Schema)
  | both (a b : Schema)
  | either (a b : Schema)
  | negation (a : Schema)

namespace Schema

/-- All schemas of a list. -/
def all : List Schema → Schema
  | [] => any
  | s :: rest => both s (all rest)

/-- Some schema of a list. -/
def anyOf : List Schema → Schema
  | [] => negation any
  | s :: rest => either s (anyOf rest)

/-- `if`, `then`, `else`. -/
def ifThenElse (condition yes no : Schema) : Schema :=
  both (either (negation condition) yes) (either condition no)

/-- `if` and `then`. -/
def ifThen (condition yes : Schema) : Schema := either (negation condition) yes

/-- The schema admits the value. -/
def admits : Schema → Json → Bool
  | any, _ => true
  | type t, v => t.isOf v
  | enum texts, .str s => texts.contains s
  | enum _, _ => false
  | flag b, .bool b' => b = b'
  | flag _, _ => false
  | pattern accepts, .str s => accepts s.toList
  | pattern _, _ => true
  | minLength n, .str s => n ≤ s.length
  | minLength _, _ => true
  | maxLength n, .str s => s.length ≤ n
  | maxLength _, _ => true
  | minimum n, .num q => (n : Rat) ≤ q
  | minimum _, _ => true
  | maximum n, .num q => q ≤ (n : Rat)
  | maximum _, _ => true
  | property name schema, v => (get? name v).all (fun member => schema.admits member)
  | required name, .obj members => (get? name (.obj members)).isSome
  | required _, _ => true
  | only names, .obj members => members.all (fun m => names.contains m.1)
  | only _, _ => true
  | propertyNames accepts, .obj members => members.all (fun m => accepts m.1.toList)
  | propertyNames _, _ => true
  | maxProperties n, .obj members => members.length ≤ n
  | maxProperties _, _ => true
  | eachProperty schema, .obj members => members.all (fun m => schema.admits m.2)
  | eachProperty _, _ => true
  | both a b, v => a.admits v && b.admits v
  | either a b, v => a.admits v || b.admits v
  | negation a, v => !a.admits v

variable {a b c : Schema} {v : Json}

/-- `true` admits everything. -/
theorem admits_any : any.admits v = true := rfl

/-- Both of two schemas. -/
theorem admits_both : (both a b).admits v = (a.admits v && b.admits v) := rfl

/-- One of two schemas. -/
theorem admits_either : (either a b).admits v = (a.admits v || b.admits v) := rfl

/-- Not the schema. -/
theorem admits_negation : (negation a).admits v = !a.admits v := rfl

/-- `additionalProperties: false`, over the declared names. -/
theorem admits_only {names : List String} {members : List (String × Json)} :
    (only names).admits (.obj members) = members.all (fun m => names.contains m.1) := rfl

/-- `allOf`. -/
@[simp] theorem admits_all {l : List Schema} : (all l).admits v = true ↔ ∀ s ∈ l, s.admits v = true := by
  induction l with
  | nil => exact ⟨fun _ s hs => absurd hs List.not_mem_nil, fun _ => rfl⟩
  | cons s rest ih =>
      simp only [all, admits_both, Bool.and_eq_true, ih, List.forall_mem_cons]

/-- `anyOf`. -/
@[simp] theorem admits_anyOf {l : List Schema} : (anyOf l).admits v = true ↔ ∃ s ∈ l, s.admits v = true := by
  induction l with
  | nil => simp [anyOf, admits_negation, admits_any]
  | cons s rest ih =>
      simp only [anyOf, admits_either, Bool.or_eq_true, ih, List.mem_cons, or_and_right, exists_or,
        exists_eq_left]

/-- `if`, `then` and `else`. -/
theorem admits_ifThenElse : (ifThenElse a b c).admits v = true ↔
    (a.admits v = true → b.admits v = true) ∧ (a.admits v = false → c.admits v = true) := by
  simp only [ifThenElse, admits_both, admits_either, admits_negation]
  cases a.admits v with
  | false => simp
  | true => simp

/-- `if` and `then`. -/
theorem admits_ifThen : (ifThen a b).admits v = true ↔ (a.admits v = true → b.admits v = true) := by
  simp only [ifThen, admits_either, admits_negation]
  cases a.admits v with
  | false => simp
  | true => simp

end Schema

section Objects

variable {members : List (String × Option Json)}

/-- The member of a list of members that may be absent. -/
def memberOf (members : List (String × Option Json)) (name : String) : Option Json :=
  (members.find? (fun m => m.1 = name)).bind Prod.snd

/-- An object has the members of its list. -/
theorem get?_object (hnodup : (members.map Prod.fst).Nodup) (name : String) :
    get? name (Json.object members) = memberOf members name := by
  change ((members.filterMap (fun m => m.2.map (fun v => (m.1, v)))).find?
    (fun m => m.1 = name)).map Prod.snd = memberOf members name
  rw [memberOf]
  induction members with
  | nil => rfl
  | cons m rest ih =>
      obtain ⟨hfresh, hrest⟩ := List.nodup_cons.mp hnodup
      by_cases hname : m.1 = name
      · cases hvalue : m.2 with
        | some v =>
            rw [List.filterMap_cons_some (by rw [hvalue]; rfl),
              List.find?_cons_of_pos (by simpa using hname), List.find?_cons_of_pos (by simpa using hname),
              Option.map_some, Option.bind_some, hvalue]
        | none =>
            rw [List.filterMap_cons_none (by rw [hvalue]; rfl), ih hrest,
              List.find?_cons_of_pos (by simpa using hname), Option.bind_some, hvalue]
            have hnone : rest.find? (fun m => m.1 = name) = none := by
              rw [List.find?_eq_none]
              intro m' hm' h
              exact hfresh (List.mem_map.mpr ⟨m', hm', (of_decide_eq_true h).trans hname.symm⟩)
            rw [hnone, Option.bind_none]
      · rw [List.find?_cons_of_neg (by simpa using hname), ← ih hrest]
        cases hvalue : m.2 with
        | some v =>
            rw [List.filterMap_cons_some (by rw [hvalue]; rfl),
              List.find?_cons_of_neg (by simpa using hname)]
        | none => rw [List.filterMap_cons_none (by rw [hvalue]; rfl)]

/-- A member without a value counts as absent; the others are found under their
names. -/
theorem memberOf_eq_some (hnodup : (members.map Prod.fst).Nodup) {name : String} {v : Json} :
    memberOf members name = some v ↔ (name, some v) ∈ members := by
  rw [memberOf]
  induction members with
  | nil => simp
  | cons m rest ih =>
      obtain ⟨hfresh, hrest⟩ := List.nodup_cons.mp hnodup
      by_cases hname : m.1 = name
      · rw [List.find?_cons_of_pos (by simpa using hname), Option.bind_some, List.mem_cons]
        constructor
        · intro h
          exact .inl (Prod.ext hname.symm h.symm)
        · intro h
          rcases h with h | h
          · rw [← h]
          · exact absurd (List.mem_map.mpr ⟨_, h, hname.symm⟩) hfresh
      · rw [List.find?_cons_of_neg (by simpa using hname), ih hrest, List.mem_cons]
        exact ⟨.inr, fun h => h.resolve_left fun heq => hname (congrArg Prod.fst heq).symm⟩

/-- A required member has a value. -/
theorem admits_required (hnodup : (members.map Prod.fst).Nodup) (name : String) :
    (Schema.required name).admits (Json.object members) = (memberOf members name).isSome := by
  rw [← get?_object hnodup]
  rfl

/-- The schema of a property asks only for a member that is there. -/
theorem admits_property (hnodup : (members.map Prod.fst).Nodup) (name : String) (s : Schema) :
    (Schema.property name s).admits (Json.object members) = (memberOf members name).all s.admits := by
  rw [← get?_object hnodup]
  rfl

/-- The member is absent, or declared and fitting. -/
def MemberFits (properties : List (String × Schema)) (m : String × Option Json) : Prop :=
  ∀ v, m.2 = some v → ∃ s, (m.1, s) ∈ properties ∧ s.admits v = true

section Fitting

variable {properties : List (String × Schema)} {name : String} {s : Schema}

/-- A declared member with a value that its schema admits fits. -/
theorem MemberFits.present {v : Json} (hmem : (name, s) ∈ properties) (hv : s.admits v = true) :
    MemberFits properties (name, some v) := by
  intro w hw
  refine ⟨s, hmem, ?_⟩
  rw [← Option.some.inj hw]
  exact hv

/-- So does one that may be absent. -/
theorem MemberFits.optional {α : Type} {value : Option α} {f : α → Json}
    (hmem : (name, s) ∈ properties) (hv : ∀ a, value = some a → s.admits (f a) = true) :
    MemberFits properties (name, value.map f) := by
  intro w hw
  obtain ⟨a, ha, hf⟩ := Option.map_eq_some_iff.mp hw
  refine ⟨s, hmem, ?_⟩
  rw [← hf]
  exact hv a ha

/-- So does one that is present under a condition. -/
theorem MemberFits.when {c : Prop} [Decidable c] {v : Json} (hmem : (name, s) ∈ properties)
    (hv : c → s.admits v = true) : MemberFits properties (name, if c then some v else none) := by
  intro w hw
  obtain ⟨hc, hvalue⟩ := Option.ite_none_right_eq_some.mp hw
  refine ⟨s, hmem, ?_⟩
  rw [← Option.some.inj hvalue]
  exact hv hc

/-- The value of a member that fits, by the one schema of its name. -/
theorem MemberFits.admits {value : Option Json} (hdeclared : (properties.map Prod.fst).Nodup)
    (hmem : (name, s) ∈ properties) (h : MemberFits properties (name, value)) {v : Json}
    (hvalue : value = some v) : s.admits v = true := by
  obtain ⟨s', hs', hv⟩ := h v hvalue
  have hsame : (name, s') = (name, s) := List.inj_on_of_nodup_map hdeclared hs' hmem rfl
  have hs : s' = s := (Prod.ext_iff.mp hsame).2
  rw [← hs]
  exact hv

/-- A declared member with a value fits exactly where its schema admits it. -/
theorem memberFits_some_iff (hdeclared : (properties.map Prod.fst).Nodup)
    (hmem : (name, s) ∈ properties) {v : Json} :
    MemberFits properties (name, some v) ↔ s.admits v = true :=
  ⟨fun h => h.admits hdeclared hmem rfl, .present hmem⟩

end Fitting

/-- An object whose members are all present. -/
theorem obj_eq_object (l : List (String × Json)) :
    Json.obj l = Json.object (l.map fun m => (m.1, some m.2)) := by
  rw [Json.object, List.filterMap_map]
  exact congrArg Json.obj (List.filterMap_some (l := l)).symm

/-- A closed object: its members and those it cannot do without. -/
def closedObject (properties : List (String × Schema)) (required : List String) : Schema :=
  .all [.type .object, .only (properties.map Prod.fst),
    .all (required.map .required), .all (properties.map fun p => .property p.1 p.2)]

/-- **A closed object, member by member.**  Every member that is present is
declared and fits its schema, and the required members are present. -/
theorem admits_closedObject {properties : List (String × Schema)} {required : List String}
    (hnodup : (members.map Prod.fst).Nodup) (hdeclared : (properties.map Prod.fst).Nodup) :
    (closedObject properties required).admits (Json.object members) = true ↔
      (∀ m ∈ members, MemberFits properties m) ∧
        ∀ name ∈ required, (memberOf members name).isSome := by
  have honly : (Schema.only (properties.map Prod.fst)).admits (Json.object members) = true ↔
      ∀ m ∈ members, ∀ v, m.2 = some v → m.1 ∈ properties.map Prod.fst := by
    simp only [Json.object, Schema.admits_only, List.all_eq_true, List.mem_filterMap, List.contains_iff_mem,
      Option.map_eq_some_iff]
    constructor
    · intro h m hm v hv
      exact h (m.1, v) ⟨m, hm, v, hv, rfl⟩
    · intro h e ⟨m, hm, v, hv, he⟩
      rw [← he]
      exact h m hm v hv
  have hrequired : (∀ s ∈ required.map Schema.required, s.admits (Json.object members) = true) ↔
      ∀ name ∈ required, (memberOf members name).isSome := by
    simp only [List.forall_mem_map]
    exact forall₂_congr fun name _ => by rw [admits_required hnodup]
  have hproperty : (∀ s ∈ properties.map fun p => Schema.property p.1 p.2,
      s.admits (Json.object members) = true) ↔
        ∀ p ∈ properties, ∀ v, memberOf members p.1 = some v → p.2.admits v = true := by
    simp only [List.forall_mem_map]
    refine forall₂_congr fun p _ => ?_
    rw [admits_property hnodup, Option.all_eq_true]
  simp only [closedObject, Schema.admits_all, List.forall_mem_cons, List.not_mem_nil, false_imp_iff,
    implies_true, and_true, honly, hrequired, hproperty]
  constructor
  · intro ⟨_, hnames, hpresent, hfits⟩
    refine ⟨fun m hm v hv => ?_, hpresent⟩
    obtain ⟨p, hp, hname⟩ := List.mem_map.mp (hnames m hm v hv)
    refine ⟨p.2, by rw [← hname]; exact hp, hfits p hp v ?_⟩
    rw [hname, memberOf_eq_some hnodup, ← hv]
    exact hm
  · intro ⟨hfits, hpresent⟩
    refine ⟨rfl, fun m hm v hv => ?_, hpresent, fun p hp v hv => ?_⟩
    · obtain ⟨s, hs, -⟩ := hfits m hm v hv
      exact List.mem_map.mpr ⟨_, hs, rfl⟩
    · obtain ⟨s, hs, hadmits⟩ := hfits _ ((memberOf_eq_some hnodup).mp hv) v rfl
      have hsame : (p.1, s) = p := List.inj_on_of_nodup_map hdeclared hs hp rfl
      rw [← hsame]
      exact hadmits

end Objects

end JsonSchema
