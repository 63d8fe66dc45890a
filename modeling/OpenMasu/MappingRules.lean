import Mathlib.Data.List.Pairwise
import OpenMasu.DecimalMoney
import OpenMasu.JsonPaths
import OpenMasu.PartialList

/-!
# Mapping rules

A mapping turns a row of an import into an object, rule by rule.  A rule
evaluates an expression and writes its value at a target path; an object that
is there already is merged with an object value, one level deep.

* `evaluateExpression`, `setTarget`, `mapRow` — the code;
* `TargetWrite`, `WritesApart` — what the rules write for a row;
* `mapRow_composes` — when the rules compose without loss, in every order.
-/

namespace OpenMasu

open PartialList (bind_eq_ok)
open JsonPaths

section Expressions

/-- What a row is rejected with: the code and the target. -/
structure MappingError where
  message : String
  fields : List String := []

/-- The texts that are read as true and as false. -/
structure BooleanConfig where
  trueValues : List Json
  falseValues : List Json
  default : Option Bool := none

/-- How a timestamp is read. -/
structure TimestampConfig where
  defaultTimezone : String := "UTC"
  timezoneSource : Option String := none

/-- How money is read, with the column of its currency. -/
structure MoneyExpression where
  config : MoneyConfig
  currencySource : Option String := none

/-- An expression without `object`. -/
structure LeafExpression where
  source : Option String := none
  fallbackColumn : Option String := none
  prefixText : Option String := none
  const : Option Json := none
  default : Option Json := none
  map : Option (List (String × Json)) := none
  mapDefault : Option Json := none
  omitIfEmpty : Bool := false
  boolean : Option BooleanConfig := none
  uppercase : Bool := false
  timestamp : Option TimestampConfig := none
  money : Option MoneyExpression := none

/-- A `MappingExpression`; beside `object` no other member is read. -/
inductive MappingExpression where
  | leaf (e : LeafExpression)
  | object (children : List (String × MappingExpression))

/-- `String`, the letter cases, and `new Date(text)` written by `toISOString`. -/
structure MappingFunctions extends TextFunctions where
  toLowerCase : String → String
  isoDate : String → Option String

variable (text : MappingFunctions)

/-- The functions every plain object inherits. -/
def inheritedFunctions : List String := [
  "constructor", "toString", "valueOf", "toLocaleString", "hasOwnProperty", "isPrototypeOf",
  "propertyIsEnumerable", "__defineGetter__", "__defineSetter__", "__lookupGetter__",
  "__lookupSetter__"]

/-- The text of a function that plain objects inherit. -/
def functionText (name : String) : String :=
  "function " ++ (if name = "constructor" then "Object" else name) ++ "() { [native code] }"

/-- A native function, written as an array of its text: as a function, an array
is no text, is never merged, has no members a source names, and `String` of it
is the text. -/
def nativeFunction (name : String) : Json := .arr [.str (functionText name)]

/-- What a source leads to: a value of the row, or something that plain objects
inherit, a function or `Object.prototype` itself. -/
inductive SourceHit where
  | row (value : Json)
  | native (name : String)
  | prototype

/-- The value of a hit; the prototype has no enumerable member. -/
def SourceHit.json : SourceHit → Json
  | .row value => value
  | .native name => nativeFunction name
  | .prototype => .obj []

/-- A member that every plain object inherits. -/
def inheritedMember (part : String) : Option SourceHit :=
  if part = "__proto__" then some .prototype
  else if part ∈ inheritedFunctions then some (.native part)
  else none

/-- `value[part]`, where the value is an object: its own member, or one it
inherits. -/
def SourceHit.member (hit : SourceHit) (part : String) : Option SourceHit :=
  match hit with
  | .row (.obj members) =>
      match members.lookup part with
      | some value => some (.row value)
      | none => inheritedMember part
  | .prototype => if part = "__proto__" then some (.row .null) else inheritedMember part
  | _ => none

/-- The path of a source followed through a row. -/
def findSource (row : Json) (name : Option String) : Option SourceHit :=
  match name with
  | none => none
  | some name =>
      if name = "" then none
      else (name.toList.splitOn '.').foldl
        (fun hit part => hit.bind (·.member (String.ofList part))) (some (.row row))

/-- `sourceValue`. -/
def sourceValue (row : Json) (name : Option String) : Option Json :=
  (findSource row name).map SourceHit.json

/-- `value === undefined || value === null || value === ""` -/
def isEmptyValue : Option Json → Bool
  | none => true
  | some .null => true
  | some (.str s) => s = ""
  | some _ => false

/-- `String(value)` -/
def MappingFunctions.stringOfValue (value : Option Json) : String :=
  match value with
  | none => "undefined"
  | some v => text.stringOf v

/-- `/(?:Z|[+-][0-9]{2}:[0-9]{2})$/i` -/
def hasZone (s : List Char) : Bool :=
  match s.reverse with
  | c :: rest =>
      c = 'Z' || c = 'z' ||
        match c :: rest with
        | m₂ :: m₁ :: ':' :: h₂ :: h₁ :: sign :: _ =>
            m₂.isDigit && m₁.isDigit && h₂.isDigit && h₁.isDigit && (sign = '+' || sign = '-')
        | _ => false
  | [] => false

/-- `normalizeTimestamp`. -/
def normalizeTimestamp (value : Option Json) (config : TimestampConfig) (row : Json) :
    Except MappingError String :=
  match value with
  | some (.str s) =>
      let trimmed := NumberText.trimmed s.toList
      if trimmed = [] then .error { message := "timestamp source is empty" }
      else
        let zone := match config.timezoneSource.filter (· ≠ "") with
          | some name => sourceValue row (some name)
          | none => some (.str config.defaultTimezone)
        let zoned : Except MappingError (List Char) :=
          if hasZone trimmed then .ok trimmed
          else match zone with
            | some (.str "UTC") => .ok (trimmed ++ ['Z'])
            | _ => .error { message := "only the verified UTC default timezone is supported" }
        match zoned with
        | .error e => .error e
        | .ok s => match text.isoDate (String.ofList s) with
          | some iso => .ok iso
          | none => .error { message := "timestamp source is invalid" }
  | _ => .error { message := "timestamp source is empty" }

/-- `booleanValue`. -/
def booleanValue (value : Option Json) (config : BooleanConfig) : Except MappingError Bool :=
  let normal := fun s : String => text.toLowerCase (String.ofList (NumberText.trimmed s.toList))
  let normalized := normal (text.stringOfValue value)
  if normalized ∈ config.trueValues.map (fun v => normal (text.stringOf v)) then .ok true
  else if normalized ∈ config.falseValues.map (fun v => normal (text.stringOf v)) then .ok false
  else match config.default with
    | some b => .ok b
    | none => .error { message := "boolean source is outside the declared vocabulary" }

/-- The fields an error of the expression names. -/
def LeafExpression.errorFields (e : LeafExpression) : List String :=
  (e.source.filter (· ≠ "")).toList

/-- The constant, the source, the fallback or the default. -/
def LeafExpression.pick {α : Type} (e : LeafExpression) (isEmpty : Option α → Bool)
    (source : Option String → Option α) (const default : Option α) : Option α :=
  let value := const.or (source e.source)
  let value := if isEmpty value && (e.fallbackColumn.filter (· ≠ "")).isSome then
      source e.fallbackColumn else value
  if isEmpty value && default.isSome then default else value

/-- The value the expression has in the row, before it is converted. -/
def LeafExpression.chosen (e : LeafExpression) (row : Json) : Option Json :=
  e.pick isEmptyValue (sourceValue row) e.const e.default

/-- `expression.map`. -/
def LeafExpression.mapped (e : LeafExpression) (value : Option Json) :
    Except MappingError (Option Json) :=
  match e.map with
  | none => .ok value
  | some entries =>
      match entries.lookup (text.stringOfValue value) with
      | some v => .ok (some v)
      | none =>
          match e.mapDefault with
          | some v => .ok (some v)
          | none => .error ⟨"enum source is outside the declared map", e.errorFields⟩

/-- `expression.boolean`. -/
def LeafExpression.asBoolean (e : LeafExpression) (value : Option Json) :
    Except MappingError (Option Json) :=
  match e.boolean with
  | none => .ok value
  | some config => (booleanValue text value config).map fun b => some (.bool b)

/-- `expression.uppercase`. -/
def LeafExpression.uppercased (e : LeafExpression) (value : Option Json) : Option Json :=
  match value with
  | some (.str s) => if e.uppercase then some (.str (text.toUpperCase s)) else value
  | _ => value

/-- `expression.timestamp`. -/
def LeafExpression.asTimestamp (e : LeafExpression) (row : Json) (value : Option Json) :
    Except MappingError (Option Json) :=
  match e.timestamp with
  | none => .ok value
  | some config => (normalizeTimestamp text value config row).map fun s => some (.str s)

/-- `expression.money`. -/
def LeafExpression.asMoney (e : LeafExpression) (row : Json) (value : Option Json) :
    Except MappingError (Option Json) :=
  match e.money with
  | none => .ok value
  | some money =>
      match moneyValue text.toTextFunctions value money.config
          (sourceValue row money.currencySource) with
      | .error message => .error { message := message }
      | .ok m => .ok (some (.obj [("amount_unscaled", .str m.amountUnscaled),
          ("amount_scale", .int m.amountScale), ("currency", .str m.currency)]))

/-- The conversions of a leaf, one after another. -/
def LeafExpression.converted (e : LeafExpression) (row : Json) (value : Option Json) :
    Except MappingError (Option Json) := do
  let value ← e.asBoolean text value
  let value ← e.asTimestamp text row (e.uppercased text value)
  e.asMoney text row value

/-- `expression.prefix`. -/
def LeafExpression.prefixed (e : LeafExpression) (value : Json) : Except MappingError Json :=
  match e.prefixText with
  | none => .ok value
  | some p =>
      match value with
      | .str s => .ok (.str (p ++ s))
      | .num n => .ok (.str (p ++ text.stringOf (.num n)))
      | _ => .error ⟨"prefix requires a string or number source", e.errorFields⟩

/-- What becomes of the chosen value; `none` is the omitted value. -/
def LeafExpression.finish (e : LeafExpression) (row : Json) (chosen : Option Json) :
    Except MappingError (Option Json) := do
  let value ← e.mapped text chosen
  if e.omitIfEmpty && isEmptyValue value then return none
  match ← e.converted text row value with
  | none => throw ⟨"required mapping source is missing", e.errorFields⟩
  | some value => return some (← e.prefixed text value)

/-- `evaluateExpression` without `object`. -/
def LeafExpression.evaluate (e : LeafExpression) (row : Json) :
    Except MappingError (Option Json) :=
  e.finish text row (e.chosen row)

mutual

/-- `evaluateExpression`. -/
def evaluateExpression : MappingExpression → Json → Except MappingError (Option Json)
  | .leaf e, row => e.evaluate text row
  | .object children, row => do return some (.obj (← evaluateChildren children row))

/-- The members of an object expression. -/
def evaluateChildren : List (String × MappingExpression) → Json →
    Except MappingError (List (String × Json))
  | [], _ => .ok []
  | (name, child) :: rest, row => do
      let value ← evaluateExpression child row
      let members ← evaluateChildren rest row
      return match value with
        | none => members
        | some v => (name, v) :: members

end

end Expressions

section Rules

/-- `^[a-z][a-z0-9_]*$` -/
def isTargetPart : List Char → Bool
  | [] => false
  | c :: cs => c.isLower && cs.all fun c => c.isLower || c.isDigit || c = '_'

/-- A target of a rule. -/
structure MappingTarget where
  path : String
  valid : (path.toList.splitOn '.').all isTargetPart = true

/-- `path.split(".")` -/
def MappingTarget.parts (t : MappingTarget) : List String :=
  (t.path.toList.splitOn '.').map String.ofList

/-- A rule: a target and what is written there. -/
structure MappingRule where
  target : MappingTarget
  expression : MappingExpression

/-- `mergeValue`. -/
def mergeValue (target : List (String × Json)) (key : String) (value : Json) :
    List (String × Json) :=
  match target.lookup key, value with
  | some (.obj old), .obj new => setMember target key (.obj (assign old new))
  | _, _ => setMember target key value

/-- `setTarget`, from some cursor on.  Of the names a target can have, plain
objects inherit one: `constructor` is a function. -/
def setTarget (path : String) : List String → Json → List (String × Json) →
    Except MappingError (List (String × Json))
  | [], _, target => .ok target
  | [key], value, target => .ok (mergeValue target key value)
  | part :: next :: rest, value, target =>
      let collision : MappingError := ⟨"mapping target collides with a scalar: " ++ path, [path]⟩
      match target.lookup part with
      | some (.obj inner) => do
          return setMember target part (.obj (← setTarget path (next :: rest) value inner))
      | some _ => throw collision
      | none =>
          if part = "constructor" then throw collision
          else do return setMember target part (.obj (← setTarget path (next :: rest) value []))

/-- One rule of the loop of `mapRow`. -/
def applyRule (text : MappingFunctions) (row : Json) (output : List (String × Json))
    (rule : MappingRule) : Except MappingError (List (String × Json)) := do
  match ← evaluateExpression text rule.expression row with
  | none => return output
  | some value => setTarget rule.target.path rule.target.parts value output

/-- `mapRow`: the members of the object it returns. -/
def mapRow (text : MappingFunctions) (rules : List MappingRule) (row : Json) :
    Except MappingError (List (String × Json)) :=
  rules.foldlM (applyRule text row) []

end Rules

section Targets

variable {path : String} {parts : List String} {v : Json} {ms ms' : List (String × Json)}

/-- Two objects can be merged member by member. -/
def CanMerge (v : Json) : Prop :=
  ∀ new, v = .obj new → (new.map Prod.fst).Nodup ∧ "__proto__" ∉ new.map Prod.fst

/-- What is seen behind a merge: the value under its key, and what was there
elsewhere. -/
theorem view_mergeValue {key : String}
    (hmerge : view (.obj ms) [key] = some .object → CanMerge v) (q : List String) :
    view (.obj (mergeValue ms key v)) q = written [key] v (view (.obj ms)) q := by
  cases q with
  | nil => rfl
  | cons k rest =>
      rw [written]
      by_cases hkey : k = key
      · subst hkey
        rw [if_pos rfl]
        unfold mergeValue
        split
        · case h_1 old new hlookup =>
            have hold : view (.obj ms) [k] = some .object := by
              rw [view_cons, hlookup]
              rfl
            rw [view_setMember_self]
            cases rest with
            | nil => rfl
            | cons k' rest =>
                obtain ⟨hnodup, hproto⟩ := hmerge hold new rfl
                rw [written, view_cons, lookup_assign hnodup hproto]
                cases hnew : new.lookup k' with
                | none => simp [hold, hnew, kindOf, hlookup]
                | some u => simp [hnew]
        · case h_2 hplain =>
            rw [view_setMember_self]
            cases rest with
            | nil => rfl
            | cons k' rest =>
                rw [written, if_neg]
                rintro ⟨hold, hv, -⟩
                obtain ⟨new, rfl⟩ := eq_obj_of_kindOf hv
                rw [view_cons, Option.bind_eq_some_iff] at hold
                obtain ⟨u, hu, hobject⟩ := hold
                have hkind : kindOf u = .object := Option.some.inj ((view_nil u).symm.trans hobject)
                obtain ⟨old, rfl⟩ := eq_obj_of_kindOf hkind
                exact hplain old new hu rfl
      · rw [if_neg hkey]
        unfold mergeValue
        split <;> exact view_setMember_of_ne _ _ _ hkey

/-- What the output holds behind a rule. -/
theorem view_setTarget (h : setTarget path parts v ms = .ok ms') (hparts : parts ≠ [])
    (hmerge : view (.obj ms) parts = some .object → CanMerge v) (q : List String) :
    view (.obj ms') q = written parts v (view (.obj ms)) q := by
  induction parts generalizing ms ms' q with
  | nil => exact absurd rfl hparts
  | cons part parts ih =>
      cases parts with
      | nil =>
          cases h
          exact view_mergeValue hmerge q
      | cons next rest =>
          -- The object the cursor moves to, one that is there or a new one.
          have hinner : ∃ inner inner', setTarget path (next :: rest) v inner = .ok inner' ∧
              ms' = setMember ms part (.obj inner') ∧ ∀ key path,
                view (.obj inner) (key :: path) = view (.obj ms) (part :: key :: path) := by
            rw [setTarget] at h
            split at h
            · case h_1 inner hlookup =>
                rw [bind_eq_ok] at h
                obtain ⟨inner', hset, hms⟩ := h
                refine ⟨inner, inner', hset, (Except.ok.inj hms).symm, fun key path => ?_⟩
                rw [view_cons ms, hlookup]
                rfl
            · cases h
            · case h_3 hlookup =>
                split at h
                · cases h
                · rw [bind_eq_ok] at h
                  obtain ⟨inner', hset, hms⟩ := h
                  refine ⟨[], inner', hset, (Except.ok.inj hms).symm, fun key path => ?_⟩
                  rw [view_cons ms, hlookup]
                  rfl
          obtain ⟨inner, inner', hset, rfl, hview⟩ := hinner
          have hbelow := ih hset (List.cons_ne_nil _ _) (fun hold => hmerge (by rwa [← hview]))
          cases q with
          | nil => rfl
          | cons k q =>
              rw [written]
              by_cases hkey : k = part
              · subst hkey
                rw [if_pos rfl, view_setMember_self, hbelow]
                exact written_congr (List.cons_ne_nil _ _) hview
              · rw [if_neg hkey, view_setMember_of_ne _ _ _ hkey]

/-- A target can be set where only objects are above it and no name is inherited. -/
theorem setTarget_isOk (hplain : "constructor" ∉ parts.dropLast)
    (hobjects : ∀ p, p ≠ [] → p <+: parts → p ≠ parts → ∀ κ, view (.obj ms) p = some κ →
      κ = .object) : ∃ ms', setTarget path parts v ms = .ok ms' := by
  induction parts generalizing ms with
  | nil => exact ⟨ms, rfl⟩
  | cons part parts ih =>
      cases parts with
      | nil => exact ⟨_, rfl⟩
      | cons next rest =>
          rw [List.dropLast_cons_cons, List.mem_cons, not_or] at hplain
          have hbelow : ∀ inner, (∀ key path, view (.obj inner) (key :: path) =
              view (.obj ms) (part :: key :: path)) →
              ∃ ms', setTarget path (next :: rest) v inner = .ok ms' := by
            intro inner hview
            refine ih hplain.2 fun p hp habove hne κ hκ => ?_
            obtain ⟨key, path, rfl⟩ := List.exists_cons_of_ne_nil hp
            rw [hview] at hκ
            refine hobjects _ (List.cons_ne_nil _ _) ?_ ?_ κ hκ
            · exact List.cons_prefix_cons.mpr ⟨rfl, habove⟩
            · exact fun heq => hne (List.cons.inj heq).2
          rw [setTarget]
          split
          · case h_1 inner hlookup =>
              obtain ⟨inner', hset⟩ := hbelow inner fun key path => by
                rw [view_cons ms, hlookup]
                rfl
              rw [hset]
              exact ⟨_, rfl⟩
          · case h_2 u hvalue hlookup =>
              have hkind := hobjects [part] (List.cons_ne_nil _ _) ⟨next :: rest, rfl⟩ (by simp)
                (kindOf u) (by rw [view_cons, hlookup]; exact view_nil u)
              obtain ⟨inner, rfl⟩ := eq_obj_of_kindOf hkind
              exact absurd rfl (hvalue inner)
          · case h_3 hlookup =>
              rw [if_neg fun h => hplain.1 h.symm]
              obtain ⟨inner', hset⟩ := hbelow [] fun key path => by
                rw [view_cons ms, hlookup]
                rfl
              rw [hset]
              exact ⟨_, rfl⟩

/-- Into an empty output no target is set below `constructor`. -/
theorem setTarget_constructor (h : "constructor" ∈ parts.dropLast) :
    setTarget path parts v [] ≠ .ok ms' := by
  induction parts generalizing ms' with
  | nil => cases h
  | cons part parts ih =>
      cases parts with
      | nil => cases h
      | cons next rest =>
          intro hset
          rw [setTarget, List.lookup_nil] at hset
          simp only at hset
          split at hset
          · cases hset
          · case isFalse hne =>
              rw [List.dropLast_cons_cons, List.mem_cons] at h
              rw [bind_eq_ok] at hset
              obtain ⟨inner, hinner, -⟩ := hset
              exact ih (h.resolve_left fun heq => hne heq.symm) hinner

end Targets

section Writes

/-- What a rule writes for a row: a value at a target.  `leafPaths` are the
paths its expression can have leaves at, `produced` the leaves it has. -/
structure TargetWrite where
  path : String
  parts : List String
  value : Json
  leafPaths : List (List String)
  produced : List (List String × Json)

namespace TargetWrite

/-- What the write brings at a path. -/
noncomputable def view (w : TargetWrite) : List String → Option Kind := ownView w.parts w.value

/-- The value is what the leaves and the objects above them make up. -/
structure IsSound (w : TargetWrite) : Prop where
  parts_ne : w.parts ≠ []
  near : ∀ q κ, w.view q = some κ → ∃ p ∈ w.leafPaths, p <+: q ∨ q <+: p
  at_leaf : ∀ q v, w.view q = some (.value v) → ∃ p u, (p, u) ∈ w.produced ∧ p <+: q
  leaf : ∀ p u, (p, u) ∈ w.produced → p ∈ w.leafPaths ∧
    ∀ rest, w.view (p ++ rest) = JsonPaths.view u rest
  names : w.parts ∈ w.leafPaths ∨ ∀ ms, w.value = .obj ms → (ms.map Prod.fst).Nodup

/-- No leaf path of the one is above one of the other. -/
def Apart (w w' : TargetWrite) : Prop :=
  ∀ p ∈ w.leafPaths, ∀ p' ∈ w'.leafPaths, ¬ p <+: p' ∧ ¬ p' <+: p

variable {w w' : TargetWrite} {q : List String} {κ κ' : Kind}

/-- Writes are apart in both orders. -/
theorem Apart.symm (h : Apart w w') : Apart w' w := fun p hp p' hp' => (h p' hp' p hp).symm

/-- A write shows its value where it writes. -/
theorem view_parts (w : TargetWrite) : w.view w.parts = some (kindOf w.value) := by
  have h := ownView_append w.parts w.value []
  rwa [List.append_nil, view_nil] at h

/-- A leaf path of the one above what the other brings. -/
theorem Apart.not_isPrefix (h : Apart w w') (hw' : w'.IsSound) {p : List String}
    (hp : p ∈ w.leafPaths) (hq : w'.view q = some κ) : ¬ p <+: q := by
  intro habove
  obtain ⟨p', hp', hnear | hnear⟩ := hw'.near q κ hq
  · rcases List.prefix_or_prefix_of_prefix habove hnear with hcomparable | hcomparable
    · exact (h p hp p' hp').1 hcomparable
    · exact (h p hp p' hp').2 hcomparable
  · exact (h p hp p' hp').1 (habove.trans hnear)

/-- A write is not apart from itself. -/
theorem Apart.ne (h : Apart w w') (hw : w.IsSound) : w ≠ w' := by
  rintro rfl
  obtain ⟨p, hp, -⟩ := hw.near w.parts _ w.view_parts
  exact (h p hp p hp).1 List.prefix_rfl

/-- What two writes bring at one path are objects. -/
theorem Apart.eq_object (h : Apart w w') (hw : w.IsSound) (hw' : w'.IsSound)
    (hq : w.view q = some κ) (hq' : w'.view q = some κ') : κ = .object := by
  cases κ with
  | object => rfl
  | value v =>
      obtain ⟨p, u, hproduced, habove⟩ := hw.at_leaf q v hq
      exact absurd habove (h.not_isPrefix hw' (hw.leaf p u hproduced).1 hq')

/-- Where another write brings something, the value is an object to merge. -/
theorem Apart.names (h : Apart w w') (hw : w.IsSound) (hw' : w'.IsSound)
    (hq' : w'.view w.parts = some κ) (hproto : w.view (w.parts ++ ["__proto__"]) = none) :
    CanMerge w.value := by
  intro new hnew
  refine ⟨?_, ?_⟩
  · rcases hw.names with hleaf | hnames
    · exact absurd List.prefix_rfl (h.not_isPrefix hw' hleaf hq')
    · exact hnames new hnew
  · intro hmem
    rw [TargetWrite.view, ownView_append, hnew, view_cons] at hproto
    obtain ⟨m, hm, hname⟩ := List.mem_map.mp hmem
    have hlookup : new.lookup "__proto__" = none := by
      cases hlookup : new.lookup "__proto__" with
      | none => rfl
      | some u =>
          rw [hlookup] at hproto
          simp at hproto
    rw [List.lookup_eq_none_iff] at hlookup
    have hdiffers := hlookup m hm
    simp [hname] at hdiffers

end TargetWrite

namespace TargetWrite

/-- Nothing the others write is below a member of the value but what is there in
the value too. -/
def Keeps (w : TargetWrite) (W : List TargetWrite) : Prop :=
  ∀ w' ∈ W, w ≠ w' → ∀ key rest, rest ≠ [] → w.view (w.parts ++ [key]) ≠ none →
    w'.view (w.parts ++ key :: rest) ≠ none → w.view (w.parts ++ key :: rest) ≠ none

/-- A value with a member `__proto__` is merged with nothing the others write. -/
def Unhooked (w : TargetWrite) (W : List TargetWrite) : Prop :=
  ∀ w' ∈ W, w ≠ w' → w.view (w.parts ++ ["__proto__"]) ≠ none → w'.view w.parts = none

end TargetWrite

/-- The condition under which writes compose. -/
structure Composable (W : List TargetWrite) : Prop where
  /-- No target goes through a member all objects inherit. -/
  plain : ∀ w ∈ W, "constructor" ∉ w.parts.dropLast
  keeps : ∀ w ∈ W, w.Keeps W
  unhooked : ∀ w ∈ W, w.Unhooked W

/-- Writes of rules whose leaf paths are apart. -/
structure WritesApart (W : List TargetWrite) : Prop where
  sound : ∀ w ∈ W, w.IsSound
  apart : W.Pairwise TargetWrite.Apart

/-- The writes, one after another. -/
def applyWrite (output : List (String × Json)) (w : TargetWrite) :
    Except MappingError (List (String × Json)) :=
  setTarget w.path w.parts w.value output

/-- All that is there comes from the writes. -/
def Within (ms : List (String × Json)) (W : List TargetWrite) : Prop :=
  ∀ q ≠ [], ∀ κ, view (.obj ms) q = some κ → ∃ w ∈ W, w.view q = some κ

/-- What is there is what the writes bring. -/
def WritesHold (ms : List (String × Json)) (W : List TargetWrite) : Prop :=
  ∀ q ≠ [], ∀ κ, view (.obj ms) q = some κ ↔ ∃ w ∈ W, w.view q = some κ

section Steps

variable {W : List TargetWrite} {w : TargetWrite} {ms ms' : List (String × Json)}

/-- A write over what other writes left. -/
theorem view_applyWrite (hw : w.IsSound) (hW : ∀ w' ∈ W, w'.IsSound ∧ w.Apart w')
    (hunhooked : w.Unhooked W)
    (hwithin : Within ms W) (h : applyWrite ms w = .ok ms') (q : List String) :
    view (.obj ms') q = written w.parts w.value (view (.obj ms)) q := by
  refine view_setTarget h hw.parts_ne (fun hold => ?_) q
  obtain ⟨w', hw', hview⟩ := hwithin w.parts hw.parts_ne _ hold
  refine (hW w' hw').2.names hw (hW w' hw').1 hview ?_
  by_contra hproto
  rw [hunhooked w' hw' ((hW w' hw').2.ne hw) hproto] at hview
  cases hview

/-- A write keeps the output within what the writes name. -/
theorem within_applyWrite (hw : w.IsSound) (hW : ∀ w' ∈ W, w'.IsSound ∧ w.Apart w')
    (hunhooked : w.Unhooked W)
    (hwithin : Within ms W) (h : applyWrite ms w = .ok ms') : Within ms' (W ++ [w]) := by
  intro q hq κ hκ
  rw [view_applyWrite hw hW hunhooked hwithin h] at hκ
  cases hown : w.view q with
  | some κ' =>
      rw [written_eq_own hown] at hκ
      exact ⟨w, by simp, by rw [hown, hκ]⟩
  | none =>
      rcases written_cases (view (.obj ms)) hown with hsame | ⟨_, _, _, hnone, _⟩
      · rw [hsame] at hκ
        obtain ⟨w', hw', hview⟩ := hwithin q hq κ hκ
        exact ⟨w', List.mem_append_left _ hw', hview⟩
      · rw [hnone] at hκ
        cases hκ

/-- The target of a write can be set. -/
theorem applyWrite_isOk (hw : w.IsSound) (hW : ∀ w' ∈ W, w'.IsSound ∧ w.Apart w')
    (hplain : "constructor" ∉ w.parts.dropLast) (hwithin : Within ms W) :
    ∃ ms', applyWrite ms w = .ok ms' := by
  refine setTarget_isOk hplain fun p hp habove _ κ hκ => ?_
  obtain ⟨w', hw', hview⟩ := hwithin p hp κ hκ
  cases κ with
  | object => rfl
  | value v =>
      obtain ⟨p', u, hproduced, hbelow⟩ := (hW w' hw').1.at_leaf p v hview
      have hleaf := ((hW w' hw').1.leaf p' u hproduced).1
      exact absurd (hbelow.trans habove)
        ((hW w' hw').2.symm.not_isPrefix hw hleaf w.view_parts)

/-- Nothing is lost where the new value has what is below its members. -/
theorem holds_applyWrite (hw : w.IsSound) (hW : ∀ w' ∈ W, w'.IsSound ∧ w.Apart w')
    (hunhooked : w.Unhooked W)
    (hkeeps : w.Keeps W)
    (hholds : WritesHold ms W) (h : applyWrite ms w = .ok ms') : WritesHold ms' (W ++ [w]) := by
  have hwithin : Within ms W := fun q hq κ => (hholds q hq κ).mp
  intro q hq κ
  refine ⟨within_applyWrite hw hW hunhooked hwithin h q hq κ, ?_⟩
  rintro ⟨w', hw', hview⟩
  rw [view_applyWrite hw hW hunhooked hwithin h]
  rcases List.mem_append.mp hw' with hw' | hw'
  · obtain ⟨hsound, hapart⟩ := hW w' hw'
    have hold := (hholds q hq κ).mpr ⟨w', hw', hview⟩
    cases hown : w.view q with
    | some κ' =>
        rw [written_eq_own hown, hapart.eq_object hw hsound hown hview,
          hapart.symm.eq_object hsound hw hview hown]
    | none =>
        rcases written_cases (view (.obj ms)) hown with hsame | ⟨key, rest, rfl, -, hwhy⟩
        · rw [hsame, hold]
        · exfalso
          rcases hwhy with hobject | hvalue | hmember
          · exact hobject (view_eq_object hold)
          · -- The value is a leaf, and the other write would be below it.
            cases hkind : kindOf w.value with
            | object => exact hvalue hkind
            | value v =>
                have hparts := w.view_parts
                rw [hkind] at hparts
                obtain ⟨p, u, hproduced, habove⟩ := hw.at_leaf _ v hparts
                refine hapart.not_isPrefix hsound (hw.leaf p u hproduced).1 hview ?_
                exact habove.trans (List.prefix_append _ _)
          · have hbrings : w.view (w.parts ++ [key]) ≠ none := by
              rw [TargetWrite.view, ownView_append]
              exact hmember
            by_cases hrest : rest = []
            · subst hrest
              exact hbrings hown
            · refine hkeeps w' hw' (hapart.ne hw) key rest hrest hbrings ?_ hown
              rw [hview]
              exact Option.some_ne_none _
  · obtain rfl := List.mem_singleton.mp hw'
    exact written_eq_own hview

end Steps

section Runs

variable {W W' done todo : List TargetWrite} {w w' : TargetWrite}
  {ms ms₁ ms₂ : List (String × Json)}

/-- Whether writes are apart does not depend on their order. -/
theorem WritesApart.perm (h : WritesApart W) (hperm : W'.Perm W) : WritesApart W' where
  sound := fun w hw => h.sound w (hperm.mem_iff.mp hw)
  apart := (hperm.pairwise_iff fun {_ _} h => h.symm).mpr h.apart

/-- Of writes that are apart any two are. -/
theorem WritesApart.apart_of_ne (h : WritesApart W) (hw : w ∈ W) (hw' : w' ∈ W) (hne : w ≠ w') :
    w.Apart w' := by
  have : Std.Symm TargetWrite.Apart := ⟨fun _ _ h => h.symm⟩
  exact List.Pairwise.forall h.apart hw hw' hne

/-- Each write is applied to what those before it left. -/
theorem exists_foldlM_applyWrite (hall : WritesApart (done ++ todo))
    (hplain : ∀ w ∈ todo, "constructor" ∉ w.parts.dropLast)
    (hunhooked : ∀ w ∈ todo, w.Unhooked (done ++ todo))
    (hwithin : Within ms done) :
    ∃ ms', todo.foldlM applyWrite ms = .ok ms' ∧ Within ms' (done ++ todo) ∧
      ((∀ w ∈ todo, w.Keeps (done ++ todo)) → WritesHold ms done → WritesHold ms' (done ++ todo)) := by
  induction todo generalizing done ms with
  | nil =>
      rw [List.append_nil]
      exact ⟨ms, rfl, hwithin, fun _ h => h⟩
  | cons w todo ih =>
      have hsplit : done ++ w :: todo = (done ++ [w]) ++ todo := by simp
      have hw : w.IsSound := hall.sound w (by simp)
      have hW : ∀ w' ∈ done, w'.IsSound ∧ w.Apart w' := by
        intro w' hw'
        have hpair := (List.pairwise_append.mp hall.apart).2.2 w' hw' w List.mem_cons_self
        exact ⟨hall.sound w' (List.mem_append_left _ hw'), hpair.symm⟩
      have hfree : w.Unhooked done := fun w' hw' =>
        hunhooked w List.mem_cons_self w' (List.mem_append_left _ hw')
      obtain ⟨ms₁, hset⟩ := applyWrite_isOk hw hW (hplain w List.mem_cons_self) hwithin
      have hwithin₁ := within_applyWrite hw hW hfree hwithin hset
      rw [hsplit] at hall hunhooked
      obtain ⟨ms₂, hrest, hwithin₂, hholds₂⟩ := ih hall
        (fun w hw => hplain w (List.mem_cons_of_mem _ hw))
        (fun w hw => hunhooked w (List.mem_cons_of_mem _ hw)) hwithin₁
      refine ⟨ms₂, ?_, ?_, ?_⟩
      · rw [List.foldlM_cons, hset]
        exact hrest
      · rw [hsplit]
        exact hwithin₂
      · intro hkept hholds
        rw [hsplit] at hkept ⊢
        refine hholds₂ (fun w hw => hkept w (List.mem_cons_of_mem _ hw)) ?_
        refine holds_applyWrite hw hW hfree (fun w' hw' => ?_) hholds hset
        have hmem : w' ∈ (done ++ [w]) ++ todo := by simp [hw']
        exact hkept w List.mem_cons_self w' hmem

/-- The object has exactly the leaves: each with its value, and what is no
object is part of one. -/
structure ContainsExactly (ms : List (String × Json)) (leaves : List (List String × Json)) :
    Prop where
  leaf : ∀ p u, (p, u) ∈ leaves → ∀ rest, view (.obj ms) (p ++ rest) = view u rest
  all : ∀ q v, view (.obj ms) q = some (.value v) → ∃ p u, (p, u) ∈ leaves ∧ p <+: q

/-- The objects are the same up to the order of their members. -/
def SameObject (ms ms' : List (String × Json)) : Prop :=
  ∀ q, view (.obj ms) q = view (.obj ms') q

/-- In every order the writes succeed, with the same object and exactly the leaves. -/
def WritesLaw (W : List TargetWrite) : Prop :=
  ∀ W' : List TargetWrite, W'.Perm W → ∃ ms ms',
    W.foldlM applyWrite [] = .ok ms ∧ W'.foldlM applyWrite [] = .ok ms' ∧
    ContainsExactly ms (W.flatMap (·.produced)) ∧ SameObject ms ms'

/-- Before the first write nothing is there. -/
theorem holds_nil : WritesHold [] [] := by
  intro q hq κ
  obtain ⟨key, rest, rfl⟩ := List.exists_cons_of_ne_nil hq
  simp

/-- Writes into an empty output. -/
theorem exists_run (hall : WritesApart W) (hplain : ∀ w ∈ W, "constructor" ∉ w.parts.dropLast)
    (hunhooked : ∀ w ∈ W, w.Unhooked W) :
    ∃ ms, W.foldlM applyWrite [] = .ok ms ∧ Within ms W ∧
      ((∀ w ∈ W, w.Keeps W) → WritesHold ms W) := by
  have hnil : Within [] [] := fun q hq κ => (holds_nil q hq κ).mp
  obtain ⟨ms, hset, hwithin, hholds⟩ :=
    @exists_foldlM_applyWrite [] W [] hall hplain hunhooked hnil
  exact ⟨ms, hset, hwithin, fun hkept => hholds hkept holds_nil⟩

/-- Behind all writes the output has what they produce and nothing else. -/
theorem WritesHold.containsExactly (hall : WritesApart W) (h : WritesHold ms W) :
    ContainsExactly ms (W.flatMap (·.produced)) := by
  constructor
  · intro p u hp rest
    obtain ⟨w, hw, hproduced⟩ := List.mem_flatMap.mp hp
    have hsound := hall.sound w hw
    obtain ⟨hleaf, hvalue⟩ := hsound.leaf p u hproduced
    by_cases hempty : p ++ rest = []
    · -- A leaf path is not empty: the target has parts.
      obtain ⟨rfl, rfl⟩ := List.append_eq_nil_iff.mp hempty
      have hroot : w.view [] = some .object := by
        obtain ⟨part, parts, hparts⟩ := List.exists_cons_of_ne_nil hsound.parts_ne
        rw [TargetWrite.view, hparts]
        rfl
      rw [← hvalue [], List.append_nil, hroot]
      rfl
    · ext κ
      rw [h _ hempty κ, ← hvalue rest]
      constructor
      · rintro ⟨w', hw', hview⟩
        by_cases heq : w = w'
        · rw [heq]
          exact hview
        · have hapart := hall.apart_of_ne hw hw' heq
          exact absurd (List.prefix_append p rest)
            (hapart.not_isPrefix (hall.sound w' hw') hleaf hview)
      · intro hview
        exact ⟨w, hw, hview⟩
  · intro q v hq
    by_cases hempty : q = []
    · subst hempty
      cases hq
    · obtain ⟨w, hw, hview⟩ := (h q hempty _).mp hq
      obtain ⟨p, u, hproduced, habove⟩ := (hall.sound w hw).at_leaf q v hview
      exact ⟨p, u, List.mem_flatMap.mpr ⟨w, hw, hproduced⟩, habove⟩

/-- Composable writes compose. -/
theorem writesLaw_of_composable (hall : WritesApart W) (hc : Composable W) : WritesLaw W := by
  have hrun : ∀ W' : List TargetWrite, W'.Perm W →
      ∃ ms, W'.foldlM applyWrite [] = .ok ms ∧ WritesHold ms W' := by
    intro W' hperm
    have hmem : ∀ {w}, w ∈ W' ↔ w ∈ W := hperm.mem_iff
    obtain ⟨ms, hset, -, hholds⟩ := exists_run (hall.perm hperm)
      (fun w hw => hc.plain w (hmem.mp hw))
      (fun w hw w' hw' => hc.unhooked w (hmem.mp hw) w' (hmem.mp hw'))
    refine ⟨ms, hset, hholds fun w hw w' hw' => ?_⟩
    exact hc.keeps w (hmem.mp hw) w' (hmem.mp hw')
  intro W' hperm
  obtain ⟨ms, hset, hholds⟩ := hrun W (List.Perm.refl _)
  obtain ⟨ms', hset', hholds'⟩ := hrun W' hperm
  refine ⟨ms, ms', hset, hset', hholds.containsExactly hall, fun q => ?_⟩
  by_cases hq : q = []
  · rw [hq, view_nil, view_nil]
    rfl
  · ext κ
    rw [hholds q hq κ, hholds' q hq κ]
    simp only [hperm.mem_iff]

/-- Two of the writes can be made the last ones, in either order. -/
theorem exists_perm_pair (hw : w ∈ W) (hw' : w' ∈ W) (hne : w ≠ w') :
    ∃ rest, (rest ++ [w', w]).Perm W ∧ (rest ++ [w, w']).Perm W := by
  obtain ⟨a, b, rfl⟩ := List.append_of_mem hw
  have hmem : w' ∈ a ++ b := by
    simp only [List.mem_append, List.mem_cons] at hw' ⊢
    rcases hw' with h | h | h
    · exact .inl h
    · exact absurd h.symm hne
    · exact .inr h
  obtain ⟨c, d, hcd⟩ := List.append_of_mem hmem
  have hfront : (w :: w' :: (c ++ d)).Perm (a ++ w :: b) := by
    refine List.Perm.trans (List.Perm.cons w ?_) List.perm_middle.symm
    rw [hcd]
    exact List.perm_middle.symm
  refine ⟨c ++ d, ?_, ?_⟩
  · exact List.perm_append_comm.trans ((List.Perm.swap w w' _).trans hfront)
  · exact List.perm_append_comm.trans hfront

/-- The last of some writes, over what the others left. -/
theorem view_last (hall : WritesApart W) (hplain : ∀ w ∈ W, "constructor" ∉ w.parts.dropLast)
    (hunhooked : ∀ w ∈ W, w.Unhooked W) (hperm : (done ++ [w]).Perm W)
    (h : (done ++ [w]).foldlM applyWrite [] = .ok ms) :
    ∃ ms₁, ∀ q, view (.obj ms) q = written w.parts w.value (view (.obj ms₁)) q := by
  have hmem : ∀ {w'}, w' ∈ done ++ [w] ↔ w' ∈ W := hperm.mem_iff
  have hall' := hall.perm hperm
  have hdone : WritesApart done := ⟨fun w' hw' => hall'.sound w' (List.mem_append_left _ hw'),
    (List.pairwise_append.mp hall'.apart).1⟩
  obtain ⟨ms₁, hset₁, hwithin, -⟩ := exists_run hdone
    (fun w' hw' => hplain w' (hmem.mp (List.mem_append_left _ hw')))
    (fun w' hw' w'' hw'' => hunhooked w' (hmem.mp (List.mem_append_left _ hw')) w''
      (hmem.mp (List.mem_append_left _ hw'')))
  rw [List.foldlM_append, hset₁] at h
  simp only [List.foldlM_cons, List.foldlM_nil, bind_eq_ok] at h
  obtain ⟨_, hms₁, ms₂, hset, hms⟩ := h
  cases hms₁
  cases hms
  have hlast : w ∈ done ++ [w] := List.mem_append_right _ List.mem_cons_self
  refine ⟨ms₁, fun q => view_applyWrite (hall'.sound w hlast) (fun w' hw' => ?_) (fun w' hw' => ?_)
    hwithin hset q⟩
  · have hpair := (List.pairwise_append.mp hall'.apart).2.2 w' hw' w List.mem_cons_self
    exact ⟨hdone.sound w' hw', hpair.symm⟩
  · exact hunhooked w (hmem.mp hlast) w' (hmem.mp (List.mem_append_left _ hw'))

/-- Writes that compose are composable. -/
theorem composable_of_writesLaw (hall : WritesApart W)
    (hproto : ∀ w ∈ W, w.parts ∈ w.leafPaths ∨ w.view (w.parts ++ ["__proto__"]) = none)
    (h : WritesLaw W) : Composable W := by
  have hunhooked : ∀ w ∈ W, w.Unhooked W := by
    intro w hw w' hw' hne hmember
    have hleaf := (hproto w hw).resolve_right hmember
    cases hview : w'.view w.parts with
    | none => rfl
    | some κ =>
        exact absurd List.prefix_rfl
          ((hall.apart_of_ne hw hw' hne).not_isPrefix (hall.sound w' hw') hleaf hview)
  have hplain : ∀ w ∈ W, "constructor" ∉ w.parts.dropLast := by
    intro w hw hmem
    obtain ⟨a, b, hab⟩ := List.append_of_mem hw
    have hperm : (w :: (a ++ b)).Perm W := by
      rw [hab]
      exact List.perm_middle.symm
    obtain ⟨_, ms, -, hset, -⟩ := h _ hperm
    rw [List.foldlM_cons, bind_eq_ok] at hset
    obtain ⟨ms₁, hfirst, -⟩ := hset
    exact setTarget_constructor hmem hfirst
  refine ⟨hplain, ?_, hunhooked⟩
  intro w hw w' hw' hne key rest _ hbrings hbelow hlost
  obtain ⟨others, hperm, hperm'⟩ := exists_perm_pair hw hw' hne
  obtain ⟨ms, ms₁, hset, hset₁, -, hsame₁⟩ := h _ hperm
  obtain ⟨ms', ms₂, hset', hset₂, -, hsame₂⟩ := h _ hperm'
  rw [hset] at hset'
  cases hset'
  -- Behind `w` nothing is left below its member, behind `w'` its value is there.
  have hfirst : view (.obj ms₁) (w.parts ++ key :: rest) = none := by
    rw [show others ++ [w', w] = (others ++ [w']) ++ [w] by simp] at hperm hset₁
    obtain ⟨ms₀, hview⟩ := view_last hall hplain hunhooked hperm hset₁
    have hmember : JsonPaths.view w.value [key] ≠ none := by
      rwa [TargetWrite.view, ownView_append] at hbrings
    rw [hview, written_of_member hmember, ← ownView_append w.parts]
    exact hlost
  obtain ⟨κ, hκ⟩ := Option.ne_none_iff_exists'.mp hbelow
  have hsecond : view (.obj ms₂) (w.parts ++ key :: rest) = some κ := by
    rw [show others ++ [w, w'] = (others ++ [w]) ++ [w'] by simp] at hperm' hset₂
    obtain ⟨ms₀, hview⟩ := view_last hall hplain hunhooked hperm' hset₂
    rw [hview]
    exact written_eq_own hκ
  rw [← hsame₁, hsame₂, hsecond] at hfirst
  cases hfirst

end Runs

end Writes

section Leaves

mutual

/-- The paths at which an expression can have leaves. -/
def MappingExpression.leafPaths : MappingExpression → List (List String)
  | .leaf _ => [[]]
  | .object children => childPaths children

/-- The paths below an object. -/
def childPaths : List (String × MappingExpression) → List (List String)
  | [] => []
  | (name, child) :: rest => child.leafPaths.map (name :: ·) ++ childPaths rest

end

mutual

/-- Every object expression has a member, and no two of one name. -/
def MappingExpression.IsValid : MappingExpression → Prop
  | .leaf _ => True
  | .object children => children ≠ [] ∧ (children.map Prod.fst).Nodup ∧ ChildrenValid children

/-- The expressions below an object are valid. -/
def ChildrenValid : List (String × MappingExpression) → Prop
  | [] => True
  | (_, child) :: rest => child.IsValid ∧ ChildrenValid rest

end

variable (text : MappingFunctions)

mutual

/-- The leaves an expression has for a row. -/
def leavesOf : MappingExpression → Json → List (List String × Json)
  | .leaf e, row =>
      match e.evaluate text row with
      | .ok (some v) => [([], v)]
      | _ => []
  | .object children, row => childLeaves children row

/-- The leaves below an object, with what they evaluate to. -/
def childLeaves : List (String × MappingExpression) → Json → List (List String × Json)
  | [], _ => []
  | (name, child) :: rest, row =>
      (leavesOf child row).map (fun l => (name :: l.1, l.2)) ++ childLeaves rest row

end

variable {text}

/-- A valid expression has a leaf. -/
theorem leafPaths_ne_nil : ∀ e : MappingExpression, e.IsValid → e.leafPaths ≠ []
  | .leaf _, _ => by simp [MappingExpression.leafPaths]
  | .object [], h => absurd rfl h.1
  | .object ((name, child) :: rest), h => by
      have hchild := leafPaths_ne_nil child h.2.2.1
      simp [MappingExpression.leafPaths, childPaths, hchild]

/-- An omitted expression has no leaves. -/
theorem leavesOf_of_omitted {e : MappingExpression} {row : Json}
    (h : evaluateExpression text e row = .ok none) : leavesOf text e row = [] := by
  cases e with
  | leaf e =>
      rw [evaluateExpression] at h
      rw [leavesOf, h]
  | object children =>
      rw [evaluateExpression, bind_eq_ok] at h
      obtain ⟨_, _, hnone⟩ := h
      cases hnone

/-- The value of an expression is made up of its leaves. -/
structure Describes (paths : List (List String)) (leaves : List (List String × Json)) (v : Json) :
    Prop where
  near : ∀ q κ, view v q = some κ → ∃ p ∈ paths, p <+: q ∨ q <+: p
  at_leaf : ∀ q u, view v q = some (.value u) → ∃ p x, (p, x) ∈ leaves ∧ p <+: q
  leaf : ∀ p u, (p, u) ∈ leaves → p ∈ paths ∧ ∀ rest, view v (p ++ rest) = view u rest

/-- The members of an object expression are made up of the leaves below them. -/
structure DescribesMembers (names : List String) (paths : List (List String))
    (leaves : List (List String × Json)) (ms : List (String × Json)) : Prop where
  sublist : (ms.map Prod.fst).Sublist names
  near : ∀ key rest κ, view (.obj ms) (key :: rest) = some κ →
    ∃ p ∈ paths, p <+: key :: rest ∨ key :: rest <+: p
  at_leaf : ∀ key rest u, view (.obj ms) (key :: rest) = some (.value u) →
    ∃ p x, (p, x) ∈ leaves ∧ p <+: key :: rest
  leaf : ∀ p u, (p, u) ∈ leaves → p ∈ paths ∧ (∃ key ∈ names, ∃ rest, p = key :: rest) ∧
    ∀ rest, view (.obj ms) (p ++ rest) = view u rest

/-- A leaf is all of its value. -/
theorem describes_leaf (v : Json) : Describes [[]] [([], v)] v where
  near := fun q κ _ => ⟨[], List.mem_cons_self, .inl List.nil_prefix⟩
  at_leaf := fun q u _ => ⟨[], v, List.mem_cons_self, List.nil_prefix⟩
  leaf := by
    intro p u h
    obtain ⟨rfl, rfl⟩ := Prod.mk.inj (List.mem_singleton.mp h)
    exact ⟨List.mem_cons_self, fun rest => rfl⟩

/-- An object is made up of what is below its members. -/
theorem DescribesMembers.describes {names : List String} {paths : List (List String)}
    {leaves : List (List String × Json)} {ms : List (String × Json)}
    (h : DescribesMembers names paths leaves ms) (hne : paths ≠ []) :
    Describes paths leaves (.obj ms) where
  near := by
    intro q κ hq
    cases q with
    | nil =>
        obtain ⟨p, hp⟩ := List.exists_mem_of_ne_nil _ hne
        exact ⟨p, hp, .inr List.nil_prefix⟩
    | cons key rest => exact h.near key rest κ hq
  at_leaf := by
    intro q u hq
    cases q with
    | nil => cases hq
    | cons key rest => exact h.at_leaf key rest u hq
  leaf := fun p u hp => ⟨(h.leaf p u hp).1, (h.leaf p u hp).2.2⟩

/-- A child that is omitted adds no member. -/
theorem DescribesMembers.skip {names : List String} {paths : List (List String)}
    {leaves : List (List String × Json)} {ms : List (String × Json)}
    (h : DescribesMembers names paths leaves ms) (name : String) (below : List (List String)) :
    DescribesMembers (name :: names) (below.map (name :: ·) ++ paths) leaves ms where
  sublist := h.sublist.cons name
  near := by
    intro key rest κ hq
    obtain ⟨p, hp, hnear⟩ := h.near key rest κ hq
    exact ⟨p, List.mem_append_right _ hp, hnear⟩
  at_leaf := h.at_leaf
  leaf := by
    intro p u hp
    obtain ⟨hmem, ⟨key, hkey, hsplit⟩, hview⟩ := h.leaf p u hp
    exact ⟨List.mem_append_right _ hmem, ⟨key, List.mem_cons_of_mem _ hkey, hsplit⟩, hview⟩

/-- A child with a value adds a member. -/
theorem DescribesMembers.cons {names : List String} {paths below : List (List String)}
    {leaves own : List (List String × Json)} {ms : List (String × Json)} {v : Json} {name : String}
    (h : DescribesMembers names paths leaves ms) (hchild : Describes below own v)
    (hname : name ∉ names) :
    DescribesMembers (name :: names) (below.map (name :: ·) ++ paths)
      (own.map (fun l => (name :: l.1, l.2)) ++ leaves) ((name, v) :: ms) where
  sublist := h.sublist.cons_cons name
  near := by
    intro key rest κ hq
    by_cases hkey : key = name
    · subst hkey
      rw [view_cons, List.lookup_cons_self] at hq
      obtain ⟨p, hp, hnear⟩ := hchild.near rest κ hq
      refine ⟨key :: p, List.mem_append_left _ (List.mem_map_of_mem hp), ?_⟩
      rcases hnear with hnear | hnear
      · exact .inl (List.cons_prefix_cons.mpr ⟨rfl, hnear⟩)
      · exact .inr (List.cons_prefix_cons.mpr ⟨rfl, hnear⟩)
    · rw [view_cons, List.lookup_cons, beq_false_of_ne hkey, ← view_cons] at hq
      obtain ⟨p, hp, hnear⟩ := h.near key rest κ hq
      exact ⟨p, List.mem_append_right _ hp, hnear⟩
  at_leaf := by
    intro key rest u hq
    by_cases hkey : key = name
    · subst hkey
      rw [view_cons, List.lookup_cons_self] at hq
      obtain ⟨p, x, hp, habove⟩ := hchild.at_leaf rest u hq
      refine ⟨key :: p, x, List.mem_append_left _ ?_, List.cons_prefix_cons.mpr ⟨rfl, habove⟩⟩
      exact List.mem_map.mpr ⟨(p, x), hp, rfl⟩
    · rw [view_cons, List.lookup_cons, beq_false_of_ne hkey, ← view_cons] at hq
      obtain ⟨p, x, hp, habove⟩ := h.at_leaf key rest u hq
      exact ⟨p, x, List.mem_append_right _ hp, habove⟩
  leaf := by
    intro p u hp
    rcases List.mem_append.mp hp with hp | hp
    · obtain ⟨l, hl, heq⟩ := List.mem_map.mp hp
      obtain ⟨rfl, rfl⟩ := Prod.mk.inj heq
      obtain ⟨hmem, hview⟩ := hchild.leaf l.1 l.2 hl
      refine ⟨List.mem_append_left _ (List.mem_map_of_mem hmem),
        ⟨name, List.mem_cons_self, l.1, rfl⟩, fun rest => ?_⟩
      rw [List.cons_append, view_cons, List.lookup_cons_self]
      exact hview rest
    · obtain ⟨hmem, ⟨key, hkey, below, rfl⟩, hview⟩ := h.leaf p u hp
      refine ⟨List.mem_append_right _ hmem, ⟨key, List.mem_cons_of_mem _ hkey, below, rfl⟩,
        fun rest => ?_⟩
      have hne : key ≠ name := fun heq => hname (heq ▸ hkey)
      rw [← hview rest, List.cons_append, view_cons, List.lookup_cons, beq_false_of_ne hne,
        ← view_cons]

mutual

/-- The value of a valid expression is made up of its leaves. -/
theorem describes_evaluateExpression : ∀ (e : MappingExpression) (row v : Json), e.IsValid →
    evaluateExpression text e row = .ok (some v) → Describes e.leafPaths (leavesOf text e row) v
  | .leaf e, row, v, _, h => by
      rw [evaluateExpression] at h
      rw [MappingExpression.leafPaths, leavesOf, h]
      exact describes_leaf v
  | .object children, row, v, hvalid, h => by
      rw [evaluateExpression, bind_eq_ok] at h
      obtain ⟨ms, hms, hv⟩ := h
      cases hv
      have hmembers := describes_evaluateChildren children row ms hvalid.2.1 hvalid.2.2 hms
      exact hmembers.describes (leafPaths_ne_nil (.object children) hvalid)

/-- The members of an object expression are made up of its leaves. -/
theorem describes_evaluateChildren : ∀ (children : List (String × MappingExpression)) (row : Json)
    (ms : List (String × Json)), (children.map Prod.fst).Nodup → ChildrenValid children →
    evaluateChildren text children row = .ok ms →
    DescribesMembers (children.map Prod.fst) (childPaths children)
      (childLeaves text children row) ms
  | [], row, ms, _, _, h => by
      cases h
      exact ⟨List.Sublist.slnil, nofun, nofun, nofun⟩
  | (name, child) :: rest, row, ms, hnodup, hvalid, h => by
      rw [List.map_cons, List.nodup_cons] at hnodup
      rw [evaluateChildren] at h
      simp only [bind_eq_ok] at h
      obtain ⟨value, hvalue, members, hmembers, hms⟩ := h
      have hrest := describes_evaluateChildren rest row members hnodup.2 hvalid.2 hmembers
      rw [childPaths, childLeaves]
      cases value with
      | none =>
          cases hms
          rw [leavesOf_of_omitted hvalue]
          exact hrest.skip name child.leafPaths
      | some v =>
          cases hms
          exact hrest.cons (describes_evaluateExpression child row v hvalid.1 hvalue) hnodup.1

end

end Leaves

section Law

variable (text : MappingFunctions)

/-- The paths of the output at which a rule can have leaves. -/
def MappingRule.leafPaths (rule : MappingRule) : List (List String) :=
  rule.expression.leafPaths.map (rule.target.parts ++ ·)

/-- The leaves of the output a rule has for a row. -/
def MappingRule.leaves (rule : MappingRule) (row : Json) : List (List String × Json) :=
  (leavesOf text rule.expression row).map fun l => (rule.target.parts ++ l.1, l.2)

/-- What a rule writes; nothing where its expression is omitted or fails. -/
def MappingRule.write (rule : MappingRule) (row : Json) : Option TargetWrite :=
  match evaluateExpression text rule.expression row with
  | .ok (some v) => some {
      path := rule.target.path
      parts := rule.target.parts
      value := v
      leafPaths := rule.leafPaths
      produced := rule.leaves text row }
  | _ => none

/-- What the rules write for a row. -/
def rowWrites (rules : List MappingRule) (row : Json) : List TargetWrite :=
  rules.filterMap fun rule => rule.write text row

/-- Every expression has a value for the row, or is omitted. -/
def Evaluates (rules : List MappingRule) (row : Json) : Prop :=
  ∀ rule ∈ rules, ∃ value, evaluateExpression text rule.expression row = .ok value

/-- The rules write disjoint leaf paths. -/
def LeavesApart (rules : List MappingRule) : Prop :=
  rules.Pairwise fun rule rule' => ∀ p ∈ rule.leafPaths, ∀ p' ∈ rule'.leafPaths,
    ¬ p <+: p' ∧ ¬ p' <+: p

/-- In every order of the rules `mapRow` returns the same object, with exactly
the leaves of the expressions; or an expression fails, and all orders with it. -/
def RulesCompose (rules : List MappingRule) (row : Json) : Prop :=
  ∀ rules' : List MappingRule, rules'.Perm rules →
    (¬ Evaluates text rules row ∧ (∃ e, mapRow text rules row = .error e) ∧
      ∃ e, mapRow text rules' row = .error e) ∨
    ∃ o o', mapRow text rules row = .ok o ∧ mapRow text rules' row = .ok o' ∧
      ContainsExactly o (rules.flatMap fun rule => rule.leaves text row) ∧ SameObject o o'

variable {text} {rules rules' : List MappingRule} {row : Json}

/-- A target has a name. -/
theorem parts_ne_nil (t : MappingTarget) : t.parts ≠ [] := by
  simp [MappingTarget.parts]

/-- The writes of valid rules are sound. -/
theorem write_isSound {rule : MappingRule} {w : TargetWrite} (hvalid : rule.expression.IsValid)
    (h : rule.write text row = some w) : w.IsSound := by
  unfold MappingRule.write at h
  split at h
  · case h_1 v hv =>
      cases h
      have hdescribes := describes_evaluateExpression _ _ _ hvalid hv
      constructor
      · exact parts_ne_nil _
      · intro q κ hq
        rcases comparable_of_ownView hq with habove | ⟨rest, rfl⟩
        · obtain ⟨p, hp⟩ := List.exists_mem_of_ne_nil _ (leafPaths_ne_nil _ hvalid)
          exact ⟨_, List.mem_map_of_mem hp, .inr (habove.trans (List.prefix_append _ _))⟩
        · rw [TargetWrite.view, ownView_append] at hq
          obtain ⟨p, hp, hnear⟩ := hdescribes.near rest κ hq
          refine ⟨_, List.mem_map_of_mem hp, ?_⟩
          rw [List.prefix_append_right_inj, List.prefix_append_right_inj]
          exact hnear
      · intro q u hq
        obtain ⟨rest, rfl⟩ : ∃ rest, q = rule.target.parts ++ rest := by
          rcases comparable_of_ownView hq with habove | ⟨rest, hrest⟩
          · by_cases hne : q = rule.target.parts
            · exact ⟨[], by rw [hne, List.append_nil]⟩
            · rw [TargetWrite.view, ownView_of_isPrefix habove hne] at hq
              cases hq
          · exact ⟨rest, hrest.symm⟩
        rw [TargetWrite.view, ownView_append] at hq
        obtain ⟨p, x, hp, hbelow⟩ := hdescribes.at_leaf rest u hq
        refine ⟨_, x, List.mem_map.mpr ⟨(p, x), hp, rfl⟩, ?_⟩
        exact (List.prefix_append_right_inj _).mpr hbelow
      · intro p u hp
        obtain ⟨l, hl, heq⟩ := List.mem_map.mp hp
        obtain ⟨rfl, rfl⟩ := Prod.mk.inj heq
        obtain ⟨hmem, hview⟩ := hdescribes.leaf l.1 l.2 hl
        refine ⟨List.mem_map_of_mem hmem, fun rest => ?_⟩
        rw [TargetWrite.view, List.append_assoc, ownView_append]
        exact hview rest
      · cases hexpr : rule.expression with
        | leaf e =>
            left
            simp [MappingRule.leafPaths, hexpr, MappingExpression.leafPaths]
        | object children =>
            right
            intro ms hms
            rw [hexpr] at hvalid hv
            rw [evaluateExpression, bind_eq_ok] at hv
            obtain ⟨members, hmembers, hvalue⟩ := hv
            cases hvalue
            have hsame : members = ms := Json.obj.inj hms
            have hsublist :=
              (describes_evaluateChildren _ _ _ hvalid.2.1 hvalid.2.2 hmembers).sublist
            rw [hsame] at hsublist
            exact hsublist.nodup hvalid.2.1
  · cases h

/-- Rules whose leaves are apart write apart. -/
theorem writesApart_rowWrites (hvalid : ∀ rule ∈ rules, rule.expression.IsValid)
    (happart : LeavesApart rules) : WritesApart (rowWrites text rules row) := by
  constructor
  · intro w hw
    obtain ⟨rule, hrule, hwrite⟩ := List.mem_filterMap.mp hw
    exact write_isSound (hvalid rule hrule) hwrite
  · refine List.pairwise_filterMap.mpr (happart.imp ?_)
    intro rule rule' h w hw w' hw'
    have hpaths : ∀ {rule : MappingRule} {w : TargetWrite}, rule.write text row = some w →
        w.leafPaths = rule.leafPaths := by
      intro rule w hw
      unfold MappingRule.write at hw
      split at hw
      · cases hw
        rfl
      · cases hw
    rw [TargetWrite.Apart, hpaths hw, hpaths hw']
    exact h

/-- A rule that has no value writes nothing. -/
theorem rowWrites_cons_none {rule : MappingRule} (h : rule.write text row = none) :
    rowWrites text (rule :: rules) row = rowWrites text rules row := by
  simp [rowWrites, h]

/-- A rule that has one writes it before the others. -/
theorem rowWrites_cons_some {rule : MappingRule} {w : TargetWrite}
    (h : rule.write text row = some w) :
    rowWrites text (rule :: rules) row = w :: rowWrites text rules row := by
  simp [rowWrites, h]

/-- The loop applies the writes. -/
theorem foldlM_applyRule (heval : Evaluates text rules row) (ms : List (String × Json)) :
    rules.foldlM (applyRule text row) ms = (rowWrites text rules row).foldlM applyWrite ms := by
  induction rules generalizing ms with
  | nil => rfl
  | cons rule rules ih =>
      have hrest : Evaluates text rules row := fun r hr => heval r (List.mem_cons_of_mem _ hr)
      obtain ⟨value, hvalue⟩ := heval rule List.mem_cons_self
      rw [List.foldlM_cons]
      cases value with
      | none =>
          have hwrite : rule.write text row = none := by
            rw [MappingRule.write, hvalue]
          have hstep : applyRule text row ms rule = .ok ms := by
            rw [applyRule, hvalue]
            rfl
          rw [hstep, rowWrites_cons_none hwrite]
          exact ih hrest ms
      | some v =>
          obtain ⟨w, hw, hset⟩ : ∃ w, rule.write text row = some w ∧
              applyRule text row ms rule = applyWrite ms w := by
            rw [MappingRule.write, hvalue]
            refine ⟨_, rfl, ?_⟩
            rw [applyRule, hvalue]
            rfl
          rw [hset, rowWrites_cons_some hw, List.foldlM_cons]
          congr 1
          funext ms'
          exact ih hrest ms'

/-- Where an expression fails, `mapRow` fails. -/
theorem evaluates_of_foldlM {ms o : List (String × Json)}
    (h : rules.foldlM (applyRule text row) ms = .ok o) : Evaluates text rules row := by
  induction rules generalizing ms with
  | nil => exact nofun
  | cons rule rules ih =>
      rw [List.foldlM_cons, bind_eq_ok] at h
      obtain ⟨ms', hstep, hrest⟩ := h
      rw [applyRule, bind_eq_ok] at hstep
      obtain ⟨value, hvalue, -⟩ := hstep
      intro r hr
      rcases List.mem_cons.mp hr with rfl | hr
      · exact ⟨value, hvalue⟩
      · exact ih hrest r hr

/-- The leaves of the rules are those of their writes. -/
theorem flatMap_produced (heval : Evaluates text rules row) :
    (rowWrites text rules row).flatMap (·.produced) =
      rules.flatMap fun rule => rule.leaves text row := by
  induction rules with
  | nil => rfl
  | cons rule rules ih =>
      have hrest := ih fun r hr => heval r (List.mem_cons_of_mem _ hr)
      obtain ⟨value, hvalue⟩ := heval rule List.mem_cons_self
      rw [List.flatMap_cons, ← hrest]
      cases value with
      | none =>
          have hwrite : rule.write text row = none := by
            rw [MappingRule.write, hvalue]
          rw [rowWrites_cons_none hwrite, MappingRule.leaves, leavesOf_of_omitted hvalue]
          rfl
      | some v =>
          have hwrite : ∃ w, rule.write text row = some w ∧ w.produced = rule.leaves text row := by
            rw [MappingRule.write, hvalue]
            exact ⟨_, rfl, rfl⟩
          obtain ⟨w, hw, hproduced⟩ := hwrite
          rw [rowWrites_cons_some hw, List.flatMap_cons, hproduced]

/-- An order of the images is one of the list. -/
theorem exists_perm_filterMap {α β : Type} {f : α → Option β} {images : List β} {l : List α}
    (h : images.Perm (l.filterMap f)) : ∃ l' : List α, l'.Perm l ∧ l'.filterMap f = images := by
  induction images generalizing l with
  | nil => exact ⟨l, List.Perm.refl _, h.symm.eq_nil⟩
  | cons b images ih =>
      obtain ⟨a, ha, hfa⟩ := List.mem_filterMap.mp (h.mem_iff.mp List.mem_cons_self)
      obtain ⟨l₁, l₂, rfl⟩ := List.append_of_mem ha
      have hrest : images.Perm ((l₁ ++ l₂).filterMap f) := by
        refine List.Perm.cons_inv (h.trans ?_) (a := b)
        rw [List.filterMap_append, List.filterMap_cons_some hfa, List.filterMap_append]
        exact List.perm_middle
      obtain ⟨l', hl', hmap⟩ := ih hrest
      refine ⟨a :: l', (hl'.cons a).trans List.perm_middle.symm, ?_⟩
      rw [List.filterMap_cons_some hfa, hmap]

/-- No object expression at a target has a member `__proto__`. -/
def NoPrototypes (rules : List MappingRule) : Prop :=
  ∀ rule ∈ rules, ∀ children, rule.expression = .object children →
    "__proto__" ∉ children.map Prod.fst

/-- Without `__proto__` among the names no write goes into a prototype. -/
theorem proto_of_noPrototypes (hvalid : ∀ rule ∈ rules, rule.expression.IsValid)
    (hproto : NoPrototypes rules) : ∀ w ∈ rowWrites text rules row,
      w.parts ∈ w.leafPaths ∨ w.view (w.parts ++ ["__proto__"]) = none := by
  intro w hw
  obtain ⟨rule, hrule, hwrite⟩ := List.mem_filterMap.mp hw
  unfold MappingRule.write at hwrite
  split at hwrite
  · case h_1 v hv =>
      cases hwrite
      cases hexpr : rule.expression with
      | leaf e =>
          left
          simp [MappingRule.leafPaths, hexpr, MappingExpression.leafPaths]
      | object children =>
          right
          have hrulevalid := hvalid rule hrule
          rw [hexpr] at hrulevalid hv
          rw [evaluateExpression, bind_eq_ok] at hv
          obtain ⟨members, hmembers, hvalue⟩ := hv
          cases hvalue
          have hsublist :=
            (describes_evaluateChildren _ _ _ hrulevalid.2.1 hrulevalid.2.2 hmembers).sublist
          have hnone : members.lookup "__proto__" = none := by
            rw [List.lookup_eq_none_iff]
            intro m hm
            have hne : "__proto__" ≠ m.1 := by
              intro heq
              refine hproto rule hrule children hexpr (hsublist.subset ?_)
              rw [heq]
              exact List.mem_map_of_mem hm
            simpa using hne
          rw [TargetWrite.view, ownView_append, view_cons, hnone]
          rfl
  · cases hwrite

/-- **Disjoint rules compose exactly where their writes do.**  Where every rule
yields a value the condition is about their writes alone; where one fails, the
row is refused in every order of the rules.  A rule whose object expression has
a member `__proto__` is left out of one direction. -/
theorem mapRow_composes (hvalid : ∀ rule ∈ rules, rule.expression.IsValid)
    (happart : LeavesApart rules) :
    ((Evaluates text rules row → Composable (rowWrites text rules row)) →
      RulesCompose text rules row) ∧
    (NoPrototypes rules → RulesCompose text rules row →
      Evaluates text rules row → Composable (rowWrites text rules row)) := by
  have hall : WritesApart (rowWrites text rules row) := writesApart_rowWrites hvalid happart
  have herror : ∀ rules' : List MappingRule, ¬ Evaluates text rules' row →
      ∃ e, mapRow text rules' row = .error e := by
    intro rules' hnot
    cases hrun : mapRow text rules' row with
    | error e => exact ⟨e, rfl⟩
    | ok o => exact absurd (evaluates_of_foldlM hrun) hnot
  have hperm : ∀ rules' : List MappingRule, rules'.Perm rules → Evaluates text rules row →
      Evaluates text rules' row := fun rules' h heval rule hrule =>
    heval rule (h.mem_iff.mp hrule)
  constructor
  · intro hcond rules' hrules'
    by_cases heval : Evaluates text rules row
    · obtain ⟨o, o', ho, ho', hexact, hsame⟩ := writesLaw_of_composable hall (hcond heval)
        (rowWrites text rules' row) (hrules'.filterMap _)
      refine .inr ⟨o, o', ?_, ?_, ?_, hsame⟩
      · rw [mapRow, foldlM_applyRule heval, ho]
      · rw [mapRow, foldlM_applyRule (hperm rules' hrules' heval), ho']
      · rw [← flatMap_produced heval]
        exact hexact
    · refine .inl ⟨heval, herror rules heval, herror rules' fun h => heval fun rule hrule => ?_⟩
      exact h rule (hrules'.mem_iff.mpr hrule)
  · intro hproto hcompose heval
    refine composable_of_writesLaw hall (proto_of_noPrototypes hvalid hproto) ?_
    intro W' hW'
    obtain ⟨rules', hrules', rfl⟩ := exists_perm_filterMap hW'
    obtain ⟨hnot, -⟩ | ⟨o, o', ho, ho', hexact, hsame⟩ := hcompose rules' hrules'
    · exact absurd heval hnot
    · refine ⟨o, o', ?_, ?_, ?_, hsame⟩
      · rw [← foldlM_applyRule heval]
        exact ho
      · exact (foldlM_applyRule (hperm rules' hrules' heval) []).symm.trans ho'
      · rw [flatMap_produced heval]
        exact hexact

end Law

section Examples

/-- Texts as they are, and no dates. -/
def plainFunctions : MappingFunctions where
  stringOf
    | .str s => s
    | _ => ""
  toUpperCase := String.toUpper
  toLowerCase := String.toLower
  isoDate := fun _ => none

/-- A rule with a constant text. -/
def constRule (target : MappingTarget) (value : String) : MappingRule :=
  ⟨target, .leaf { const := some (.str value) }⟩

/-- The target of a payload as a whole. -/
def payloadTarget : MappingTarget := ⟨"payload", by decide⟩

/-- The target of the event name. -/
def eventNameTarget : MappingTarget := ⟨"event_name", by decide⟩

/-- The plan of a purchase, as an object expression, and its tier. -/
def purchaseRules : List MappingRule := [
  constRule ⟨"payload.detail.tier", by decide⟩ "gold",
  ⟨payloadTarget,
    .object [("detail", .object [("plan", .leaf { const := some (.str "yearly") })])]⟩]

/-- A row of two columns. -/
def paidRow : Json := .obj [("status", .str "paid"), ("plan", .str "yearly")]

/-- A constant, a column, a name that no column has but every object inherits,
and an object expression that is merged with the targets below `payload`. -/
def paidRules : List MappingRule := [
  constRule eventNameTarget "purchase",
  ⟨⟨"payload.plan", by decide⟩, .leaf { source := some "plan" }⟩,
  ⟨⟨"payload.origin", by decide⟩, .leaf { source := some "toString" }⟩,
  ⟨payloadTarget,
    .object [("tier", .leaf { const := some (.str "gold") }),
      ("status", .leaf { source := some "status" })]⟩]

/-- The leaves of the rules are apart. -/
theorem paidRules_apart : LeavesApart paidRules := by
  have hpaths : paidRules.map MappingRule.leafPaths =
      [[["event_name"]], [["payload", "plan"]], [["payload", "origin"]],
        [["payload", "tier"], ["payload", "status"]]] := by
    decide
  have hpairwise : (paidRules.map MappingRule.leafPaths).Pairwise fun paths paths' =>
      ∀ p ∈ paths, ∀ p' ∈ paths', ¬ p <+: p' ∧ ¬ p' <+: p := by
    rw [hpaths]
    decide
  exact List.pairwise_map.mp hpairwise

/-- What the rules write for the row. -/
theorem paidRules_write :
    (rowWrites plainFunctions paidRules paidRow).map (fun w => (w.parts, w.value)) = [
      (["event_name"], .str "purchase"), (["payload", "plan"], .str "yearly"),
      (["payload", "origin"], nativeFunction "toString"),
      (["payload"], .obj [("tier", .str "gold"), ("status", .str "paid")])] := by
  rfl

/-- The rules compose for the row, in all their orders, and its object has what
every rule writes. -/
theorem paidRules_compose : RulesCompose plainFunctions paidRules paidRow ∧
    mapRow plainFunctions paidRules paidRow = .ok [("event_name", .str "purchase"),
      ("payload", .obj [("plan", .str "yearly"), ("origin", nativeFunction "toString"),
        ("tier", .str "gold"), ("status", .str "paid")])] := by
  have hvalid : ∀ rule ∈ paidRules, rule.expression.IsValid := by
    intro rule hrule
    simp only [paidRules, List.mem_cons, List.not_mem_nil, or_false] at hrule
    rcases hrule with rfl | rfl | rfl | rfl <;>
      simp [constRule, MappingExpression.IsValid, ChildrenValid]
  have hwrites : ∀ w ∈ rowWrites plainFunctions paidRules paidRow, (w.parts, w.value) ∈
      [(["event_name"], .str "purchase"), (["payload", "plan"], .str "yearly"),
        (["payload", "origin"], nativeFunction "toString"),
        (["payload"], .obj [("tier", .str "gold"), ("status", .str "paid")])] :=
    fun w hw => paidRules_write ▸ List.mem_map_of_mem hw
  refine ⟨(mapRow_composes hvalid paidRules_apart).1 fun _ => ⟨fun w hw => ?_, ?_, ?_⟩, by rfl⟩
  · have hw' := hwrites w hw
    simp only [List.mem_cons, Prod.mk.injEq, List.not_mem_nil, or_false] at hw'
    rcases hw' with ⟨h, -⟩ | ⟨h, -⟩ | ⟨h, -⟩ | ⟨h, -⟩ <;> rw [h] <;> decide
  · intro w hw w' hw' hne key rest hrest hmember hother
    exfalso
    obtain ⟨first, rest, rfl⟩ := List.exists_cons_of_ne_nil hrest
    have hw := hwrites w hw
    have hw' := hwrites w' hw'
    simp only [List.mem_cons, Prod.mk.injEq, List.not_mem_nil, or_false] at hw hw'
    -- Only the object has members, and below them nobody writes.
    rw [TargetWrite.view, ownView_append] at hmember
    rcases hw with ⟨-, hv⟩ | ⟨-, hv⟩ | ⟨-, hv⟩ | ⟨hp, hv⟩ <;> rw [hv] at hmember
    · exact hmember rfl
    · exact hmember rfl
    · exact hmember rfl
    · have hkey : key = "tier" ∨ key = "status" := by
        by_contra hnot
        rw [not_or] at hnot
        refine hmember ?_
        simp [List.lookup_cons, beq_false_of_ne hnot.1, beq_false_of_ne hnot.2]
      rw [hp, TargetWrite.view] at hother
      rcases hw' with ⟨hp', hv'⟩ | ⟨hp', hv'⟩ | ⟨hp', hv'⟩ | ⟨hp', hv'⟩ <;>
        rw [hp', hv'] at hother <;> rcases hkey with rfl | rfl <;>
        simp [ownView_cons_cons, ownView_nil] at hother
      · exact hother rfl
      · obtain ⟨x, hx, hview⟩ := hother
        cases hx
        exact hview rfl
  · intro w hw w' hw' hne hproto
    exfalso
    have hw := hwrites w hw
    simp only [List.mem_cons, Prod.mk.injEq, List.not_mem_nil, or_false] at hw
    rw [TargetWrite.view, ownView_append] at hproto
    rcases hw with ⟨-, hv⟩ | ⟨-, hv⟩ | ⟨-, hv⟩ | ⟨-, hv⟩ <;> rw [hv] at hproto <;>
      exact hproto rfl

/-- The tier is lost: the object expression replaces what is below `detail`,
where another rule has written before. -/
theorem purchaseRules_lose : LeavesApart purchaseRules ∧
    (∀ rule ∈ purchaseRules, rule.expression.IsValid) ∧
    ¬ RulesCompose plainFunctions purchaseRules (.obj []) := by
  refine ⟨?_, ?_, ?_⟩
  · have hpaths : purchaseRules.map MappingRule.leafPaths =
        [[["payload", "detail", "tier"]], [["payload", "detail", "plan"]]] := by
      decide
    have hpairwise : (purchaseRules.map MappingRule.leafPaths).Pairwise fun paths paths' =>
        ∀ p ∈ paths, ∀ p' ∈ paths', ¬ p <+: p' ∧ ¬ p' <+: p := by
      rw [hpaths]
      decide
    exact List.pairwise_map.mp hpairwise
  · intro rule hrule
    rcases List.mem_cons.mp hrule with rfl | hrule
    · exact trivial
    · rw [List.mem_singleton.mp hrule]
      simp [MappingExpression.IsValid, ChildrenValid]
  · intro h
    have hrun : mapRow plainFunctions purchaseRules (.obj []) =
        .ok [("payload", .obj [("detail", .obj [("plan", .str "yearly")])])] := by
      rfl
    rcases h purchaseRules (List.Perm.refl _) with ⟨-, ⟨e, he⟩, -⟩ | ⟨o, -, ho, -, hexact, -⟩
    · rw [hrun] at he
      cases he
    · rw [hrun] at ho
      cases ho
      have htier := hexact.leaf ["payload", "detail", "tier"] (.str "gold") List.mem_cons_self []
      cases htier

end Examples

end OpenMasu
