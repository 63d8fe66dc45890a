import OpenMasu.MappingHeap
import OpenMasu.OwnedObjects

/-!
# Where the objects of an output come from

What `mapRow` computes, with the origin of every object and array: made by a
rule, or one of the mapping, of the row or of all plain objects that was put
into the output by reference.

* `traceExpression`, `traceTarget`, `traceRow` — `mapRow` with the origins;
  `none` where a rule writes into an object that was there before;
* `KeepsApart` — the condition on a row;
* `finish_cases` — what an expression makes of the chosen value;
* `traceRules_json` — without the origins a trace is what the code computes.
-/

namespace OpenMasu

open OwnedObjects
open JsonPaths (setMember assign)
open PartialList (bind_eq_ok)

section Traces

/-- Where an object comes from that a rule did not make.  The realm are
`Object.prototype` and its functions, which all objects share. -/
inductive Origin where
  | mapping
  | row
  | realm

/-- Where the value of a source comes from. -/
def SourceHit.origin : SourceHit → Origin
  | .row _ => .row
  | .native _ => .realm
  | .prototype => .realm

/-- A made value: a scalar, or an object of scalars. -/
def freshPart : Json → Piece Origin
  | .obj members => .made (members.map fun m => (m.1, .given .row m.2))
  | j => .given .row j

/-- The chosen value with its origin. -/
def LeafExpression.traceChosen (e : LeafExpression) (row : Json) : Option (Origin × Json) :=
  e.pick (fun v => isEmptyValue (v.map (·.2)))
    (fun name => (findSource row name).map fun hit => (hit.origin, hit.json))
    (e.const.map (.mapping, ·)) (e.default.map (.mapping, ·))

variable (text : MappingFunctions)

/-- What a leaf evaluates to, with where its value comes from. -/
def LeafExpression.trace (e : LeafExpression) (row : Json) :
    Except MappingError (Option (Piece Origin)) :=
  match e.finish text row ((e.traceChosen row).map (·.2)) with
  | .error err => .error err
  | .ok none => .ok none
  | .ok (some j) =>
      match e.traceChosen row with
      | some (origin, value) =>
          if isContainer value && e.passes then .ok (some (.given origin value))
          else .ok (some (freshPart j))
      | none => .ok (some (freshPart j))

mutual

/-- The part an expression evaluates to. -/
def traceExpression (row : Json) : MappingExpression → Except MappingError (Option (Piece Origin))
  | .leaf e => e.trace text row
  | .object children => do return some (.made (← traceChildren row children))

/-- The expressions below an object, one after another. -/
def traceChildren (row : Json) : List (String × MappingExpression) →
    Except MappingError (List (String × Piece Origin))
  | [] => .ok []
  | (name, child) :: rest => do
      let part ← traceExpression row child
      let parts ← traceChildren row rest
      return match part with
        | none => parts
        | some p => (name, p) :: parts

end

/-- The target leads to a collision before anything is written. -/
def collides : List String → List (String × Json) → Bool
  | part :: next :: rest, members =>
      match members.lookup part with
      | some (.obj inner) => collides (next :: rest) inner
      | some _ => true
      | none => part = "constructor"
  | _, _ => false

/-- `mergeValue`; `none` where it assigns to an object that was given, or to a
prototype. -/
def traceMerge (target : List (String × Piece Origin)) (key : String) (value : Piece Origin) :
    Option (List (String × Piece Origin)) :=
  match target.lookup key, value.isObject with
  | some (.made old), true =>
      if "__proto__" ∈ value.members.map Prod.fst then none
      else some (setMember target key (.made (assign old value.members)))
  | some (.given _ (.obj _)), true => none
  | _, _ => some (setMember target key value)

/-- `setTarget`, from some cursor on. -/
def traceTarget (path : String) : List String → Piece Origin → List (String × Piece Origin) →
    Option (Except MappingError (List (String × Piece Origin)))
  | [], _, target => some (.ok target)
  | [key], value, target => (traceMerge target key value).map .ok
  | part :: next :: rest, value, target =>
      let collision : MappingError := ⟨"mapping target collides with a scalar: " ++ path, [path]⟩
      match target.lookup part with
      | some (.made inner) => (traceTarget path (next :: rest) value inner).map fun r =>
          r.map fun inner' => setMember target part (.made inner')
      | some (.given _ (.obj members)) =>
          if collides (next :: rest) members then some (.error collision) else none
      | some (.given _ _) => some (.error collision)
      | none =>
          if part = "constructor" then some (.error collision)
          else (traceTarget path (next :: rest) value []).map fun r =>
            r.map fun inner' => setMember target part (.made inner')

/-- The loop of `mapRow`. -/
def traceRules (row : Json) : List MappingRule → List (String × Piece Origin) →
    Option (Except MappingError (List (String × Piece Origin)))
  | [], target => some (.ok target)
  | rule :: rules, target =>
      match traceExpression text row rule.expression with
      | .error err => some (.error err)
      | .ok none => traceRules row rules target
      | .ok (some value) =>
          match traceTarget rule.target.path rule.target.parts value target with
          | none => none
          | some (.error err) => some (.error err)
          | some (.ok target') => traceRules row rules target'

/-- `mapRow` with the origins. -/
def traceRow (rules : List MappingRule) (row : Json) :
    Option (Except MappingError (List (String × Piece Origin))) :=
  traceRules text row rules []

/-- No rule writes into an object that it did not make, and no object or array
is left in what is returned but of the row. -/
def KeepsApart (rules : List MappingRule) (row : Json) : Prop :=
  ∃ outcome, traceRow text rules row = some outcome ∧
    ∀ parts, outcome = .ok parts → MembersFrom (· = .row) parts

end Traces

section Choosing

variable {e : LeafExpression} {α β : Type}

/-- A choice between related options gives related options. -/
theorem rel_ite {R : α → β → Prop} {c c' : Bool} {a b : Option α} {a' b' : Option β}
    (hc : c = c') (ha : Option.Rel R a a') (hb : Option.Rel R b b') :
    Option.Rel R (if c then a else b) (if c' then a' else b') := by
  rw [hc]
  split
  · exact ha
  · exact hb

/-- Related values are chosen, or none on both sides. -/
theorem pick_related {R : α → β → Prop} {isEmpty : Option α → Bool} {isEmpty' : Option β → Bool}
    {source : Option String → Option α} {source' : Option String → Option β}
    {const default : Option α} {const' default' : Option β}
    (hempty : ∀ {a b}, Option.Rel R a b → isEmpty a = isEmpty' b)
    (hsource : ∀ name, Option.Rel R (source name) (source' name))
    (hconst : Option.Rel R const const') (hdefault : Option.Rel R default default') :
    Option.Rel R (e.pick isEmpty source const default)
      (e.pick isEmpty' source' const' default') := by
  have hfirst : Option.Rel R (const.or (source e.source)) (const'.or (source' e.source)) := by
    cases hconst with
    | some hab => exact .some hab
    | none => exact hsource _
  have hsome : default.isSome = default'.isSome := by
    cases hdefault <;> rfl
  have hsecond := rel_ite (congrArg (· && (e.fallbackColumn.filter (· ≠ "")).isSome) (hempty hfirst))
    (hsource e.fallbackColumn) hfirst
  refine rel_ite ?_ hdefault hsecond
  rw [hempty hsecond, hsome]

end Choosing

section Conversions

/-- The values of `map` and `map_default` are scalars. -/
def LeafExpression.MapsToScalars (e : LeafExpression) : Prop :=
  (∀ entries, e.map = some entries → ∀ m ∈ entries, isContainer m.2 = false) ∧
    ∀ v, e.mapDefault = some v → isContainer v = false

/-- A scalar, or an object of scalars. -/
def isPlain : Json → Bool
  | .obj members => members.all fun m => !isContainer m.2
  | .arr _ => false
  | _ => true

/-- A value that is no container is plain. -/
theorem isPlain_of_scalar {j : Json} (h : isContainer j = false) : isPlain j = true := by
  cases j <;> first | rfl | cases h

variable {text : MappingFunctions} {e : LeafExpression} {row j : Json} {chosen v w : Option Json}

/-- A value that was looked up in `map` is a scalar; without one the value
stays. -/
theorem mapped_cases (hscalar : e.MapsToScalars) (h : e.mapped text chosen = .ok v) :
    e.map = none ∧ v = chosen ∨ ∀ x, v = some x → isContainer x = false := by
  unfold LeafExpression.mapped at h
  split at h
  · case h_1 hmap =>
      cases h
      exact .inl ⟨hmap, rfl⟩
  · case h_2 entries hmap =>
      right
      intro x hx
      subst hx
      split at h
      · case h_1 y hy =>
          cases h
          obtain ⟨before, after, rfl, -⟩ := List.lookup_eq_some_iff.mp hy
          exact hscalar.1 _ hmap (_, x) (List.mem_append_right _ List.mem_cons_self)
      · split at h
        · case h_1 y hy =>
            cases h
            exact hscalar.2 _ hy
        · cases h

/-- A value that was read as a boolean is a scalar; without that the value
stays. -/
theorem asBoolean_cases (h : e.asBoolean text v = .ok w) :
    e.boolean = none ∧ w = v ∨ ∀ x, w = some x → isContainer x = false := by
  unfold LeafExpression.asBoolean at h
  split at h
  · case h_1 hnone =>
      cases h
      exact .inl ⟨hnone, rfl⟩
  · right
    intro x hx
    cases hvalue : booleanValue text v _ <;> rw [hvalue] at h <;> cases h
    cases hx
    rfl

/-- A value that was written in capitals is a scalar; without that the value
stays. -/
theorem uppercased_cases (text : MappingFunctions) (e : LeafExpression) (v : Option Json) :
    e.uppercased text v = v ∨ ∀ x, e.uppercased text v = some x → isContainer x = false := by
  unfold LeafExpression.uppercased
  split
  · split
    · right
      intro x hx
      cases hx
      rfl
    · exact .inl rfl
  · exact .inl rfl

/-- A value that was read as a timestamp is a scalar; without that the value
stays. -/
theorem asTimestamp_cases (h : e.asTimestamp text row v = .ok w) :
    e.timestamp = none ∧ w = v ∨ ∀ x, w = some x → isContainer x = false := by
  unfold LeafExpression.asTimestamp at h
  split at h
  · case h_1 hnone =>
      cases h
      exact .inl ⟨hnone, rfl⟩
  · right
    intro x hx
    cases hvalue : normalizeTimestamp text v _ row <;> rw [hvalue] at h <;> cases h
    cases hx
    rfl

/-- A value that was read as money is new and plain; without that the value
stays. -/
theorem asMoney_cases (h : e.asMoney text row v = .ok w) :
    e.money = none ∧ w = v ∨ ∀ x, w = some x → isPlain x = true := by
  unfold LeafExpression.asMoney at h
  split at h
  · case h_1 hnone =>
      cases h
      exact .inl ⟨hnone, rfl⟩
  · right
    intro x hx
    split at h
    · cases h
    · cases h
      cases hx
      rfl

/-- A value that was converted in any way is new and plain; without that the
value stays. -/
theorem converted_cases (h : e.converted text row v = .ok w) :
    (e.boolean = none ∧ e.timestamp = none ∧ e.money = none ∧ w = v) ∨
      ∀ x, w = some x → isPlain x = true := by
  rw [LeafExpression.converted] at h
  simp only [bind_eq_ok] at h
  obtain ⟨v₁, hboolean, v₂, htimestamp, hmoney⟩ := h
  have hscalar : ∀ {u}, (∀ x, u = some x → isContainer x = false) → ∀ x, u = some x →
      isPlain x = true := fun hall x hx => isPlain_of_scalar (hall x hx)
  rcases asMoney_cases hmoney with ⟨hno, rfl⟩ | hplain
  · rcases asTimestamp_cases htimestamp with ⟨hno', rfl⟩ | hplain
    · rcases uppercased_cases text e v₁ with hsame | hplain
      · rcases asBoolean_cases hboolean with ⟨hno'', rfl⟩ | hplain
        · exact .inl ⟨hno'', hno', hno, hsame⟩
        · rw [hsame]
          exact .inr (hscalar hplain)
      · exact .inr (hscalar hplain)
    · exact .inr (hscalar hplain)
  · exact .inr hplain

/-- A value with a prefix is a text; without one the value stays. -/
theorem prefixed_cases {x y : Json} (h : e.prefixed text x = .ok y) :
    e.prefixText = none ∧ y = x ∨ isContainer y = false := by
  unfold LeafExpression.prefixed at h
  split at h
  · case h_1 hnone =>
      cases h
      exact .inl ⟨hnone, rfl⟩
  · right
    split at h <;> cases h <;> rfl

/-- An object or an array that is not converted stays what it is. -/
theorem finish_passes {c : Json} (hpasses : e.passes = true) (hc : isContainer c = true) :
    e.finish text row (some c) = .ok (some c) := by
  simp only [LeafExpression.passes, Bool.and_eq_true, Option.isNone_iff_eq_none] at hpasses
  obtain ⟨⟨⟨⟨hmap, hboolean⟩, htimestamp⟩, hmoney⟩, hprefixed⟩ := hpasses
  have hempty : isEmptyValue (some c) = false := by
    cases c <;> first | rfl | cases hc
  have hmapped : e.mapped text (some c) = .ok (some c) := by
    rw [LeafExpression.mapped, hmap]
  have hconverted : e.converted text row (some c) = .ok (some c) := by
    have huppercased : e.uppercased text (some c) = some c := by
      cases c <;> first | rfl | cases hc
    simp only [LeafExpression.converted, LeafExpression.asBoolean, hboolean, bind, Except.bind,
      huppercased, LeafExpression.asTimestamp, htimestamp, LeafExpression.asMoney, hmoney]
  have hlast : e.prefixed text c = .ok c := by
    rw [LeafExpression.prefixed, hprefixed]
  rw [LeafExpression.finish, hmapped]
  simp only [bind, Except.bind, hempty, Bool.and_false, hconverted, hlast]
  rfl

/-- What an expression makes of the chosen value: that value, or a plain one. -/
theorem finish_cases (hscalar : e.MapsToScalars) (h : e.finish text row chosen = .ok (some j)) :
    (e.passes = true ∧ chosen = some j) ∨ isPlain j = true := by
  rw [LeafExpression.finish, bind_eq_ok] at h
  obtain ⟨v, hmapped, h⟩ := h
  split at h
  · cases h
  · rw [bind_eq_ok] at h
    obtain ⟨w, hconverted, h⟩ := h
    split at h
    · cases h
    · case h_2 x =>
        rw [bind_eq_ok] at h
        obtain ⟨y, hprefixed, hy⟩ := h
        cases hy
        rcases prefixed_cases hprefixed with ⟨hno, rfl⟩ | hplain
        · rcases converted_cases hconverted with ⟨hboolean, htimestamp, hmoney, rfl⟩ | hplain
          · rcases mapped_cases hscalar hmapped with ⟨hmap, rfl⟩ | hplain
            · refine .inl ⟨?_, rfl⟩
              rw [LeafExpression.passes, hmap, hboolean, htimestamp, hmoney, hno]
              rfl
            · exact .inr (isPlain_of_scalar (hplain _ rfl))
          · exact .inr (hplain _ rfl)
        · exact .inr (isPlain_of_scalar hplain)

end Conversions

section Erasure

variable {text : MappingFunctions} {row : Json} {path key : String} {ps : List String}
  {value : Piece Origin} {target parts : List (String × Piece Origin)}

/-- Options that are related by a function are so by its map. -/
theorem map_of_rel {α β : Type} {f : α → β} {a : Option α} {b : Option β}
    (h : Option.Rel (fun a b => f a = b) a b) : a.map f = b := by
  cases h with
  | some hab => exact congrArg some hab
  | none => rfl

/-- The value that a leaf starts from is the one of its trace. -/
theorem traceChosen_json (e : LeafExpression) (row : Json) :
    (e.traceChosen row).map (·.2) = e.chosen row := by
  refine map_of_rel (pick_related ?_ ?_ ?_ ?_)
  · intro a b hab
    cases hab with
    | some hab => exact congrArg (fun j => isEmptyValue (some j)) hab
    | none => rfl
  · intro name
    rw [sourceValue]
    cases findSource row name with
    | none => exact .none
    | some hit => exact .some rfl
  · cases e.const with
    | none => exact .none
    | some j => exact .some rfl
  · cases e.default with
    | none => exact .none
    | some j => exact .some rfl

/-- A new part is the value it was made from. -/
theorem freshPart_json (j : Json) : (freshPart j).json = j := by
  cases j with
  | obj members => rw [freshPart, Piece.json, membersJson_given]
  | _ => rfl

/-- **Leaves.**  A trace forgets nothing: without the origins it is the
evaluation. -/
theorem trace_json (e : LeafExpression) (row : Json) :
    (e.trace text row).map (Option.map Piece.json) = e.evaluate text row := by
  rw [LeafExpression.evaluate, LeafExpression.trace, ← traceChosen_json]
  cases hfinish : e.finish text row ((e.traceChosen row).map (·.2)) with
  | error err => rfl
  | ok result =>
      cases result with
      | none => rfl
      | some j =>
          have hfresh : (Except.ok (some (freshPart j)) :
              Except MappingError (Option (Piece Origin))).map (Option.map Piece.json) =
              .ok (some j) := by
            simp only [Except.map, Option.map_some, freshPart_json]
          dsimp only
          split
          · case h_1 origin c hchosen =>
              split
              · case isTrue hgiven =>
                  rw [Bool.and_eq_true] at hgiven
                  rw [hchosen, Option.map_some, finish_passes hgiven.2 hgiven.1] at hfinish
                  cases hfinish
                  rfl
              · exact hfresh
          · exact hfresh

mutual

/-- **Expressions.**  The same of every expression, by recursion over it. -/
theorem traceExpression_json (row : Json) : ∀ e : MappingExpression,
    (traceExpression text row e).map (Option.map Piece.json) = evaluateExpression text e row
  | .leaf e => trace_json e row
  | .object children => by
      rw [traceExpression, evaluateExpression, ← traceChildren_json row children]
      cases traceChildren text row children <;> rfl

/-- The same of the expressions below an object. -/
theorem traceChildren_json (row : Json) : ∀ children : List (String × MappingExpression),
    (traceChildren text row children).map membersJson = evaluateChildren text children row
  | [] => rfl
  | (name, child) :: rest => by
      rw [traceChildren, evaluateChildren, ← traceExpression_json row child,
        ← traceChildren_json row rest]
      cases traceExpression text row child with
      | error err => rfl
      | ok part =>
          cases traceChildren text row rest with
          | error err => rfl
          | ok parts => cases part <;> rfl

end

/-- To look a member up, and to forget its origin, are in any order. -/
theorem lookup_membersJson (parts : List (String × Piece Origin)) (key : String) :
    (membersJson parts).lookup key = (parts.lookup key).map Piece.json := by
  rw [membersJson_eq, JsonPaths.lookup_map]

/-- The same of writing a member. -/
theorem setMember_membersJson (parts : List (String × Piece Origin)) (key : String)
    (p : Piece Origin) :
    setMember (membersJson parts) key p.json = membersJson (setMember parts key p) := by
  rw [membersJson_eq, membersJson_eq, JsonPaths.setMember_map]

/-- And of writing several. -/
theorem assign_membersJson (old new : List (String × Piece Origin)) :
    assign (membersJson old) (membersJson new) = membersJson (assign old new) := by
  rw [membersJson_eq, membersJson_eq, membersJson_eq, JsonPaths.assign_map]

/-- A merge that is traced is the merge of the values. -/
theorem traceMerge_json (h : traceMerge target key value = some parts) :
    membersJson parts = mergeValue (membersJson target) key value.json := by
  have hset : ∀ {old : Option (Piece Origin)}, target.lookup key = old →
      (∀ members, old.map Piece.json = some (.obj members) → value.isObject = false) →
      membersJson (setMember target key value) = mergeValue (membersJson target) key value.json := by
    intro old hold hno
    unfold mergeValue
    rw [lookup_membersJson, hold, ← setMember_membersJson]
    split
    · case h_1 members new hobject hnew =>
        have hvalue := hno members hobject
        rw [Piece.isObject, hnew] at hvalue
        cases hvalue
    · rfl
  unfold traceMerge at h
  split at h
  · case h_1 old hlookup hobject =>
      split at h
      · cases h
      · cases h
        unfold mergeValue
        rw [lookup_membersJson, hlookup, Piece.members_json hobject]
        simp only [Option.map_some, Piece.json, assign_membersJson]
        exact (setMember_membersJson target key (.made _)).symm
  · cases h
  · case h_3 hmade hgiven =>
      cases h
      refine hset rfl fun members hobject => ?_
      rw [Option.map_eq_some_iff] at hobject
      obtain ⟨old, hlookup, hjson⟩ := hobject
      cases hvalue : value.isObject with
      | false => rfl
      | true =>
          cases old with
          | made old => exact absurd hvalue (hmade old hlookup)
          | given origin j =>
              cases (hjson : j = .obj members)
              exact absurd hvalue (hgiven origin members hlookup)

/-- A collision is an error of the code. -/
theorem setTarget_of_collides {members : List (String × Json)} (v : Json)
    (h : collides ps members = true) : setTarget path ps v members =
      .error ⟨"mapping target collides with a scalar: " ++ path, [path]⟩ := by
  induction ps generalizing members with
  | nil => cases h
  | cons part ps ih =>
      cases ps with
      | nil => cases h
      | cons next rest =>
          rw [collides] at h
          rw [setTarget]
          cases hlookup : members.lookup part with
          | none =>
              simp only [hlookup] at h
              exact if_pos (of_decide_eq_true h)
          | some u =>
              simp only [hlookup] at h
              cases u with
              | obj inner =>
                  simp only [ih h]
                  rfl
              | _ => rfl

/-- A target that is written in the trace is written in the values. -/
theorem traceTarget_json {t : Except MappingError (List (String × Piece Origin))}
    (h : traceTarget path ps value target = some t) :
    t.map membersJson = setTarget path ps value.json (membersJson target) := by
  induction ps generalizing target t with
  | nil =>
      cases h
      rfl
  | cons part ps ih =>
      cases ps with
      | nil =>
          rw [traceTarget, Option.map_eq_some_iff] at h
          obtain ⟨parts, hmerge, rfl⟩ := h
          rw [setTarget, ← traceMerge_json hmerge]
          rfl
      | cons next rest =>
          have hbelow : ∀ {inner : List (String × Piece Origin)}
              {t : Except MappingError (List (String × Piece Origin))},
              (traceTarget path (next :: rest) value inner).map (fun r =>
                r.map fun inner' => setMember target part (.made inner')) = some t →
              t.map membersJson = (do return setMember (membersJson target) part (.obj
                (← setTarget path (next :: rest) value.json (membersJson inner)))) := by
            intro inner t ht
            rw [Option.map_eq_some_iff] at ht
            obtain ⟨r, hr, rfl⟩ := ht
            rw [← ih hr]
            cases r with
            | error err => rfl
            | ok inner' =>
                exact congrArg Except.ok (setMember_membersJson target part (.made inner')).symm
          rw [traceTarget] at h
          rw [setTarget, lookup_membersJson]
          split at h
          · case h_1 inner hlookup =>
              rw [hlookup]
              exact hbelow h
          · case h_2 origin members hlookup =>
              rw [hlookup]
              split at h
              · case isTrue hcollides =>
                  cases h
                  simp only [Option.map_some, Piece.json, setTarget_of_collides _ hcollides]
                  rfl
              · cases h
          · case h_3 origin j hobject hlookup =>
              cases h
              rw [hlookup]
              cases j with
              | obj members => exact absurd rfl (hobject members)
              | _ => rfl
          · case h_4 hlookup =>
              rw [hlookup]
              simp only [Option.map_none]
              split at h
              · case isTrue hname =>
                  cases h
                  rw [if_pos hname]
                  rfl
              · case isFalse hname =>
                  rw [if_neg hname]
                  exact hbelow h

/-- Without the origins a trace is what the code computes. -/
theorem traceRules_json {rules : List MappingRule}
    {t : Except MappingError (List (String × Piece Origin))}
    (h : traceRules text row rules target = some t) :
    t.map membersJson = rules.foldlM (applyRule text row) (membersJson target) := by
  induction rules generalizing target with
  | nil =>
      cases h
      rfl
  | cons rule rules ih =>
      rw [traceRules] at h
      rw [List.foldlM_cons, applyRule, ← traceExpression_json]
      cases hvalue : traceExpression text row rule.expression with
      | error err =>
          rw [hvalue] at h
          cases h
          rfl
      | ok part =>
          rw [hvalue] at h
          cases part with
          | none => exact ih h
          | some value =>
              dsimp only at h
              split at h
              · cases h
              · case h_2 err htarget =>
                  cases h
                  have hset := traceTarget_json htarget
                  simp only [Except.map, Option.map_some, bind, Except.bind, ← hset]
              · case h_3 target' htarget =>
                  have hset := traceTarget_json htarget
                  rw [ih h]
                  simp only [Except.map, Option.map_some, bind, Except.bind, ← hset]

end Erasure

end OpenMasu
