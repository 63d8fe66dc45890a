import OpenMasu.Canonical

/-!
# Paths into JSON objects

A path names members one below the other.  What an object holds is told by
what stands at each path: an object, or a value that is none.

* `setMember`, `assign` — one member set, and all members of another object;
* `view` — what stands at a path;
* `written` — what stands there after a value is written at a path, merged
  with an object that is there; `written_eq_own`, `written_cases` compare it
  with the value alone and with what was there before.
-/

namespace JsonPaths

open OpenMasu (Json)

section Members

variable {α : Type} {ms old new : List (String × α)} {name key : String} {v : α}

/-- Set a member, in its place or at the end. -/
def setMember : List (String × α) → String → α → List (String × α)
  | [], name, v => [(name, v)]
  | m :: ms, name, v => if m.1 = name then (name, v) :: ms else m :: setMember ms name v

/-- A member is set at its first place, or looked for in the rest. -/
theorem setMember_cons (m : String × α) (ms : List (String × α)) (name : String) (v : α) :
    setMember (m :: ms) name v =
      if m.1 = name then (name, v) :: ms else m :: setMember ms name v := rfl

/-- What was set is found under its name. -/
theorem lookup_setMember_self (ms : List (String × α)) (name : String) (v : α) :
    (setMember ms name v).lookup name = some v := by
  induction ms with
  | nil => exact List.lookup_cons_self
  | cons m ms ih =>
      rw [setMember_cons]
      split
      · simp
      · case isFalse hne =>
          have : (name == m.1) = false := by simpa using fun h => hne h.symm
          rw [List.lookup_cons, this]
          exact ih

/-- Other names keep what they had. -/
theorem lookup_setMember_of_ne (ms : List (String × α)) (v : α) (h : key ≠ name) :
    (setMember ms name v).lookup key = ms.lookup key := by
  induction ms with
  | nil =>
      have : (key == name) = false := by simpa using h
      change List.lookup key [(name, v)] = none
      rw [List.lookup_cons, this]
      rfl
  | cons m ms ih =>
      rw [setMember_cons]
      split
      · case isTrue heq =>
          have : (key == name) = false := by simpa using h
          have hm : (key == m.1) = false := by rw [heq]; exact this
          rw [List.lookup_cons, List.lookup_cons, this, hm]
      · rw [List.lookup_cons, List.lookup_cons, ih]

/-- One step of `Object.assign`.  Where the object has no member `__proto__`
of its own, setting it changes no member. -/
def assignMember (ms : List (String × α)) (m : String × α) : List (String × α) :=
  if m.1 = "__proto__" ∧ (ms.lookup "__proto__").isNone then ms else setMember ms m.1 m.2

/-- `Object.assign`. -/
def assign (old new : List (String × α)) : List (String × α) := new.foldl assignMember old

/-- The assigned members win. -/
theorem lookup_assign (hnodup : (new.map Prod.fst).Nodup)
    (hproto : "__proto__" ∉ new.map Prod.fst) (old : List (String × α)) (key : String) :
    (assign old new).lookup key = (new.lookup key).or (old.lookup key) := by
  induction new generalizing old with
  | nil => simp [assign]
  | cons m new ih =>
      rw [List.map_cons, List.nodup_cons] at hnodup
      rw [List.map_cons, List.mem_cons, not_or] at hproto
      have hstep : assign old (m :: new) = assign (setMember old m.1 m.2) new := by
        rw [assign, List.foldl_cons, assignMember, if_neg (fun h => hproto.1 h.1.symm)]
        rfl
      rw [hstep, ih hnodup.2 hproto.2, List.lookup_cons]
      by_cases hkey : key = m.1
      · subst hkey
        have hnone : new.lookup m.1 = none := by
          rw [List.lookup_eq_none_iff]
          intro p hp
          have hne : m.1 ≠ p.1 := by
            intro heq
            rw [heq] at hnodup
            exact hnodup.1 (List.mem_map_of_mem hp)
          simpa using hne
        rw [hnone, lookup_setMember_self]
        simp
      · have : (key == m.1) = false := by simpa using hkey
        rw [this, lookup_setMember_of_ne _ _ hkey]

/-- A lookup in mapped members maps what it finds. -/
theorem lookup_map {β : Type} (f : α → β) (ms : List (String × α)) (key : String) :
    (ms.map fun m => (m.1, f m.2)).lookup key = (ms.lookup key).map f := by
  induction ms with
  | nil => rfl
  | cons m ms ih =>
      rw [List.map_cons, List.lookup_cons, List.lookup_cons, ih]
      cases key == m.1 <;> rfl

/-- Setting a member and mapping the values commute. -/
theorem setMember_map {β : Type} (f : α → β) (ms : List (String × α)) (name : String) (v : α) :
    setMember (ms.map fun m => (m.1, f m.2)) name (f v) =
      (setMember ms name v).map fun m => (m.1, f m.2) := by
  induction ms with
  | nil => rfl
  | cons m ms ih =>
      rw [List.map_cons, setMember_cons, setMember_cons, ih]
      split <;> rfl

/-- Assigning members and mapping the values commute. -/
theorem assign_map {β : Type} (f : α → β) (old new : List (String × α)) :
    assign (old.map fun m => (m.1, f m.2)) (new.map fun m => (m.1, f m.2)) =
      (assign old new).map fun m => (m.1, f m.2) := by
  induction new generalizing old with
  | nil => rfl
  | cons m new ih =>
      have hstep : assignMember (old.map fun m => (m.1, f m.2)) (m.1, f m.2) =
          (assignMember old m).map fun m => (m.1, f m.2) := by
        rw [assignMember, assignMember, lookup_map, Option.isNone_map, setMember_map]
        split <;> rfl
      rw [assign, assign, List.map_cons, List.foldl_cons, List.foldl_cons, hstep]
      exact ih _

/-- Setting a member to what it is changes nothing. -/
theorem setMember_eq_self (h : ms.lookup name = some v) : setMember ms name v = ms := by
  induction ms with
  | nil => cases h
  | cons m ms ih =>
      rw [setMember_cons]
      rw [List.lookup_cons] at h
      by_cases hname : m.1 = name
      · rw [hname, beq_self_eq_true] at h
        cases h
        rw [if_pos hname, ← hname]
      · have hne : (name == m.1) = false := by simpa using fun heq => hname heq.symm
        rw [hne] at h
        rw [if_neg hname, ih h]

end Members

section Views

/-- An object, or a value that is none. -/
inductive Kind where
  | object
  | value (v : Json)

def kindOf : Json → Kind
  | .obj _ => .object
  | v => .value v

/-- What stands at a path. -/
def view : Json → List String → Option Kind
  | v, [] => some (kindOf v)
  | .obj ms, key :: path =>
      match ms.lookup key with
      | some v => view v path
      | none => none
  | _, _ :: _ => none

variable {ms : List (String × Json)} {v w : Json} {key : String} {path rest : List String}
  {κ : Kind}

@[simp] theorem view_nil (v : Json) : view v [] = some (kindOf v) := by
  cases v <;> rfl

@[simp] theorem view_cons (ms : List (String × Json)) (key : String) (path : List String) :
    view (.obj ms) (key :: path) = (ms.lookup key).bind fun v => view v path := by
  rw [view]
  cases ms.lookup key <;> rfl

/-- Below a value that is no object nothing stands. -/
theorem view_cons_of_value (h : kindOf v ≠ .object) (key : String) (path : List String) :
    view v (key :: path) = none := by
  cases v with
  | obj ms => exact absurd rfl h
  | null => rfl
  | bool b => rfl
  | num n => rfl
  | str s => rfl
  | arr items => rfl

/-- A value of the kind of objects has members. -/
theorem eq_obj_of_kindOf (h : kindOf v = .object) : ∃ ms, v = .obj ms := by
  cases v with
  | obj ms => exact ⟨ms, rfl⟩
  | null => cases h
  | bool b => cases h
  | num n => cases h
  | str s => cases h
  | arr items => cases h

/-- Above what stands somewhere there are objects. -/
theorem view_eq_object (h : view v (path ++ key :: rest) = some κ) : view v path = some .object := by
  induction path generalizing v with
  | nil =>
      rw [List.nil_append] at h
      by_cases hv : kindOf v = .object
      · rw [view_nil, hv]
      · rw [view_cons_of_value hv] at h
        cases h
  | cons k path ih =>
      by_cases hv : kindOf v = .object
      · obtain ⟨ms, rfl⟩ := eq_obj_of_kindOf hv
        rw [List.cons_append, view_cons, Option.bind_eq_some_iff] at h
        obtain ⟨u, hu, hview⟩ := h
        rw [view_cons, hu]
        exact ih hview
      · rw [List.cons_append, view_cons_of_value hv] at h
        cases h

/-- Something below a member shows that the member is there. -/
theorem view_isSome_of_cons (h : view v (key :: rest) = some κ) : view v [key] ≠ none := by
  by_cases hv : kindOf v = .object
  · obtain ⟨ms, rfl⟩ := eq_obj_of_kindOf hv
    rw [view_cons, Option.bind_eq_some_iff] at h
    obtain ⟨u, hu, -⟩ := h
    rw [view_cons, hu]
    exact Option.some_ne_none _
  · rw [view_cons_of_value hv] at h
    cases h

/-- Below the set member the new value is seen. -/
theorem view_setMember_self (ms : List (String × Json)) (key : String) (v : Json)
    (path : List String) : view (.obj (setMember ms key v)) (key :: path) = view v path := by
  rw [view_cons, lookup_setMember_self]
  rfl

/-- Below every other member nothing changes. -/
theorem view_setMember_of_ne (ms : List (String × Json)) {name : String} (v : Json)
    (path : List String) (h : key ≠ name) :
    view (.obj (setMember ms name v)) (key :: path) = view (.obj ms) (key :: path) := by
  rw [view_cons, view_cons, lookup_setMember_of_ne _ _ h]

end Views

section Writing

variable {v : Json} {parts q rest : List String} {key : String} {old old' : List String → Option Kind}
  {κ : Kind}

open Classical in
/-- What stands at a path after a value is written at `parts`: objects above
it, the value at and below it.  Where an object is there already and the
value is one, the members the value does not have stay. -/
noncomputable def written : List String → Json → (List String → Option Kind) → List String → Option Kind
  | [], v, _, [] => view v []
  | [], v, old, key :: rest =>
      if old [] = some .object ∧ kindOf v = .object ∧ view v [key] = none then old (key :: rest)
      else view v (key :: rest)
  | _ :: _, _, _, [] => some .object
  | part :: parts, v, old, key :: rest =>
      if key = part then written parts v (fun path => old (part :: path)) rest
      else old (key :: rest)

/-- What a value written at `parts` brings by itself. -/
noncomputable def ownView (parts : List String) (v : Json) : List String → Option Kind :=
  written parts v fun _ => none

/-- Only what stood there before at paths with a member counts. -/
theorem written_congr (hparts : parts ≠ []) (h : ∀ key rest, old (key :: rest) = old' (key :: rest)) :
    written parts v old q = written parts v old' q := by
  cases parts with
  | nil => exact absurd rfl hparts
  | cons part parts =>
      cases q with
      | nil => rfl
      | cons key rest =>
          rw [written, written]
          split
          · congr 1
            funext path
            exact h part path
          · exact h key rest

/-- A write to the root is seen everywhere. -/
theorem ownView_nil (v : Json) (q : List String) : ownView [] v q = view v q := by
  cases q with
  | nil => rfl
  | cons key rest => simp [ownView, written]

/-- A write is seen along its own path only. -/
theorem ownView_cons_cons (part : String) (parts : List String) (v : Json) (key : String)
    (rest : List String) : ownView (part :: parts) v (key :: rest) =
      if key = part then ownView parts v rest else none := rfl

/-- At and below its place the value brings what it holds. -/
theorem ownView_append (parts : List String) (v : Json) (rest : List String) :
    ownView parts v (parts ++ rest) = view v rest := by
  induction parts with
  | nil => exact ownView_nil v rest
  | cons part parts ih =>
      rw [List.cons_append, ownView_cons_cons, if_pos rfl]
      exact ih

/-- Above its place it brings objects. -/
theorem ownView_of_isPrefix (h : q <+: parts) (hne : q ≠ parts) :
    ownView parts v q = some .object := by
  induction parts generalizing q with
  | nil => exact absurd (List.prefix_nil.mp h) hne
  | cons part parts ih =>
      cases q with
      | nil => rfl
      | cons key rest =>
          obtain ⟨rfl, hrest⟩ := List.cons_prefix_cons.mp h
          rw [ownView_cons_cons, if_pos rfl]
          exact ih hrest fun heq => hne (by rw [heq])

/-- It brings nothing beside its place. -/
theorem comparable_of_ownView (h : ownView parts v q = some κ) : q <+: parts ∨ parts <+: q := by
  induction parts generalizing q with
  | nil => exact .inr List.nil_prefix
  | cons part parts ih =>
      cases q with
      | nil => exact .inl List.nil_prefix
      | cons key rest =>
          rw [ownView_cons_cons] at h
          split at h
          · case isTrue heq =>
              subst heq
              rcases ih h with hrest | hrest
              · exact .inl (List.cons_prefix_cons.mpr ⟨rfl, hrest⟩)
              · exact .inr (List.cons_prefix_cons.mpr ⟨rfl, hrest⟩)
          · cases h

/-- What the value brings stands there afterwards. -/
theorem written_eq_own (h : ownView parts v q = some κ) : written parts v old q = some κ := by
  induction parts generalizing q old with
  | nil =>
      rw [ownView_nil] at h
      cases q with
      | nil => exact h
      | cons key rest =>
          rw [written, if_neg]
          · exact h
          · rintro ⟨-, -, hnone⟩
            exact view_isSome_of_cons h hnone
  | cons part parts ih =>
      cases q with
      | nil => exact h
      | cons key rest =>
          rw [ownView_cons_cons] at h
          rw [written]
          split at h
          · case isTrue heq =>
              rw [if_pos heq]
              exact ih h
          · cases h

/-- What the value does not bring was there before, and stays unless the path
is below the value's place, in a member the value has or where there is no
object to merge with. -/
theorem written_cases (old : List String → Option Kind) (h : ownView parts v q = none) :
    written parts v old q = old q ∨
      ∃ key rest, q = parts ++ key :: rest ∧ written parts v old q = none ∧
        (old parts ≠ some .object ∨ kindOf v ≠ .object ∨ view v [key] ≠ none) := by
  induction parts generalizing q old with
  | nil =>
      cases q with
      | nil => cases h
      | cons key rest =>
          rw [ownView_nil] at h
          rw [written]
          split
          · exact .inl rfl
          · case isFalse hmerge =>
              refine .inr ⟨key, rest, rfl, h, ?_⟩
              by_cases hold : old [] = some .object
              · by_cases hv : kindOf v = .object
                · exact .inr (.inr fun hnone => hmerge ⟨hold, hv, hnone⟩)
                · exact .inr (.inl hv)
              · exact .inl hold
  | cons part parts ih =>
      cases q with
      | nil => cases h
      | cons key rest =>
          rw [ownView_cons_cons] at h
          rw [written]
          split
          · case isTrue heq =>
              subst heq
              rw [if_pos rfl] at h
              rcases ih (fun path => old (key :: path)) h with
                hsame | ⟨k, r, rfl, hnone, hwhy⟩
              · exact .inl hsame
              · exact .inr ⟨k, r, rfl, hnone, hwhy⟩
          · exact .inl rfl

/-- Below a member of the value only what the value has there is left. -/
theorem written_of_member (h : view v [key] ≠ none) :
    written parts v old (parts ++ key :: rest) = view v (key :: rest) := by
  induction parts generalizing old with
  | nil => rw [List.nil_append, written, if_neg fun hmerge => h hmerge.2.2]
  | cons part parts ih =>
      rw [List.cons_append, written, if_pos rfl]
      exact ih

end Writing

end JsonPaths
