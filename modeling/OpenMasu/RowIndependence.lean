import Mathlib.Order.CompletePartialOrder
import OpenMasu.MappingTraces

/-!
# Rows are mapped independently

A row leaves the mapping and the rows alone, and keeps its result to itself,
as long as its rules write into objects they made and no object is left in the
result that the mapping has or that all objects inherit.

* `expression_spec`, `setTarget_spec`, `rules_spec`, `row_spec` — what the code
  does to the heap, in terms of traces;
* `loadRules_spec`, `loadItems_rows` — the mapping and the rows in the heap;
* `RowsIndependent`, `rows_independent` — any number of rows.
-/

namespace OpenMasu

open JsHeap OwnedObjects
open JsonPaths (setMember assign)

section Evaluation

mutual

/-- The expression in the heap, its constants and defaults related to those of
the mapping. -/
def LoadsAs (G : Value → Json → Prop) : LoadedExpression → MappingExpression → Prop
  | .leaf l, .leaf e =>
      l.settings = e ∧ Option.Rel G l.const e.const ∧ Option.Rel G l.default e.default
  | .object loaded, .object children => ChildrenLoadAs G loaded children
  | _, _ => False

/-- The expressions below an object are loaded one by one, under their names.
-/
def ChildrenLoadAs (G : Value → Json → Prop) :
    List (String × LoadedExpression) → List (String × MappingExpression) → Prop
  | [], [] => True
  | (name, l) :: loaded, (name', e) :: children =>
      name = name' ∧ LoadsAs G l e ∧ ChildrenLoadAs G loaded children
  | _, _ => False

end

mutual

/-- The schema admits scalars only as values of `map` and as `map_default`. -/
def MappingExpression.MapsToScalars : MappingExpression → Prop
  | .leaf e => e.MapsToScalars
  | .object children => ChildrenMapToScalars children

/-- The expressions below an object map their values to scalars. -/
def ChildrenMapToScalars : List (String × MappingExpression) → Prop
  | [] => True
  | (_, child) :: rest => child.MapsToScalars ∧ ChildrenMapToScalars rest

end

/-- The same error, or related values. -/
def Yields {α β : Type} (R : α → β → Prop) : Except MappingError α → Except MappingError β → Prop
  | .error err, .error err' => err = err'
  | .ok a, .ok b => R a b
  | _, _ => False

/-- A value made of cells from some address on. -/
def MadeOf (B : Base Origin) (start : Nat) (h : Heap) (v : Value) (p : Piece Origin) : Prop :=
  ∃ A, Rep B h p v A ∧ A.Nodup ∧ ∀ a ∈ A, start ≤ a ∧ a < h.size

variable {text : MappingFunctions} {B : Base Origin} {h : Heap} {v row : Value} {j : Json}
  {origin : Origin} {l : LoadedLeaf} {e : LeafExpression}

/-- A member of what the row or the mapping gives is given by it as well. -/
theorem given_member (hkeeps : Keeps B.heap h) (hgiven : Given B origin j v) (name : String) :
    Option.Rel (fun u k => Given B origin k u) ((h.members v).lookup name)
      (match some j with
        | some (.obj members) => members.lookup name
        | _ => none) := by
  cases v with
  | prim p =>
      rw [hgiven.reads.prim]
      cases p <;> exact .none
  | ref a =>
      have ha := hgiven.inside a rfl
      rw [Heap.members, hkeeps.keeps a (B.below origin a ha)]
      cases hget : B.heap.get a with
      | none =>
          rw [hgiven.reads.ref_none hget]
          exact .none
      | some c =>
          cases c with
          | array items =>
              obtain ⟨js, hj⟩ := hgiven.reads.ref_array hget
              rw [hj]
              exact .none
          | object ms =>
              obtain ⟨rfl, hmembers⟩ := hgiven.reads.ref_object hget
              dsimp only
              rw [JsonPaths.lookup_map]
              cases hlookup : ms.lookup name with
              | none => exact .none
              | some u =>
                  obtain ⟨before, after, rfl, -⟩ := List.lookup_eq_some_iff.mp hlookup
                  have hmem : (name, u) ∈ before ++ (name, u) :: after :=
                    List.mem_append_right _ List.mem_cons_self
                  refine .some ⟨hmembers _ hmem, ?_⟩
                  exact B.closed origin a _ ha hget u (List.mem_map_of_mem hmem)

/-- The values of one origin, told with it. -/
theorem rel_map {a : Option Value} {b : Option Json}
    (h : Option.Rel (fun v k => Given B origin k v) a b) :
    Option.Rel (fun v (p : Origin × Json) => Given B p.1 p.2 v) a (b.map (origin, ·)) := by
  cases h with
  | none => exact .none
  | some hgiven => exact .some hgiven

/-- What all objects inherit is as it was before the import, and no row has it. -/
structure HasRealm (B : Base Origin) : Prop where
  keeps : Keeps realm B.heap
  region : B.region .realm = newCells {} realm
  apart : protoCell ∉ B.region .row

/-- A value in the heap is what a source finds. -/
def IsHit (B : Base Origin) (v : Value) : SourceHit → Prop
  | .row k => Given B .row k v
  | .native name => name ∈ inheritedFunctions ∧ v = .ref (functionCell name)
  | .prototype => v = .ref protoCell

/-- A cell of the realm is in the region of the realm. -/
theorem HasRealm.inside (hrealm : HasRealm B) {a : Nat} (ha : a < realm.size) :
    (Value.ref a).In (B.region .realm) := by
  intro b hb
  cases hb
  rw [hrealm.region]
  exact ⟨Nat.zero_le a, ha⟩

/-- There is a cell of the realm. -/
theorem HasRealm.size_pos (hrealm : HasRealm B) : 1 ≤ B.heap.size :=
  (Nat.succ_le_of_lt protoCell_lt).trans hrealm.keeps.size

/-- What a source finds is of the row or of the realm. -/
theorem IsHit.given (hrealm : HasRealm B) {hit : SourceHit} (hhit : IsHit B v hit) :
    Given B hit.origin hit.json v := by
  cases hit with
  | row k => exact hhit
  | native name =>
      obtain ⟨hname, rfl⟩ := hhit
      refine ⟨⟨1, hrealm.size_pos, fun n hn => ?_⟩, hrealm.inside (functionCell_lt hname)⟩
      obtain ⟨m, rfl⟩ : ∃ m, n = m + 1 := ⟨n - 1, by omega⟩
      rw [json_ref, hrealm.keeps.keeps _ (functionCell_lt hname), realm_get_functionCell hname]
      cases m <;> rfl
  | prototype =>
      cases (hhit : v = .ref protoCell)
      refine ⟨⟨1, hrealm.size_pos, fun n hn => ?_⟩, hrealm.inside protoCell_lt⟩
      obtain ⟨m, rfl⟩ : ∃ m, n = m + 1 := ⟨n - 1, by omega⟩
      rw [json_ref, hrealm.keeps.keeps _ protoCell_lt]
      rfl

/-- What an object without a member of the name inherits. -/
theorem inherited_related (hrealm : HasRealm B) (hkeeps : Keeps B.heap h) {name : String}
    (hobject : h.isObject v = true) (hlookup : (h.members v).lookup name = none)
    (hproto : v ≠ .ref protoCell) :
    Option.Rel (IsHit B) (property h v name) (inheritedMember name) := by
  by_cases hname : name = "__proto__"
  · rw [inheritedMember, if_pos hname, property, if_pos hobject, hlookup, if_pos hname,
      if_neg hproto]
    exact .some rfl
  · rw [inheritedMember, if_neg hname,
      property_inherited (hrealm.keeps.trans hkeeps) hobject hlookup hname]
    split
    · case isTrue hmem => exact .some ⟨hmem, rfl⟩
    · exact .none

/-- One part of a source. -/
theorem member_related (hrealm : HasRealm B) (hkeeps : Keeps B.heap h) {hit : SourceHit}
    (hhit : IsHit B v hit) (name : String) :
    Option.Rel (IsHit B) (property h v name) (hit.member name) := by
  cases hit with
  | row k =>
      have hgiven : Given B .row k v := hhit
      have hobject : h.isObject v = isObj k :=
        Rep.isObject_eq (p := .given .row k) (A := 0) hkeeps ⟨rfl, hgiven⟩
      have hmember := given_member hkeeps hgiven name
      cases k with
      | obj members =>
          have hproto : v ≠ .ref protoCell := fun heq => hrealm.apart (hgiven.inside _ heq)
          dsimp only at hmember
          rw [SourceHit.member]
          cases hlookup : (h.members v).lookup name with
          | none =>
              rw [hlookup] at hmember
              generalize members.lookup name = k at hmember ⊢
              cases hmember
              exact inherited_related hrealm hkeeps hobject hlookup hproto
          | some u =>
              rw [hlookup] at hmember
              generalize members.lookup name = k at hmember ⊢
              cases hmember with
              | some hgiven =>
                  have hisObject : h.isObject v = true := hobject
                  rw [property, if_pos hisObject, hlookup]
                  exact .some hgiven
      | null | bool | num | str | arr =>
          rw [property, if_neg (by rw [hobject]; exact Bool.false_ne_true)]
          exact .none
  | native name' =>
      obtain ⟨hname, rfl⟩ := hhit
      have hfunction := not_isObject_functionCell (hrealm.keeps.trans hkeeps) hname
      rw [property, if_neg (by rw [hfunction]; exact Bool.false_ne_true)]
      exact .none
  | prototype =>
      cases (hhit : v = .ref protoCell)
      have hall := hrealm.keeps.trans hkeeps
      have hget : h.get protoCell = some (.object []) := hall.keeps _ protoCell_lt
      have hobject := Heap.isObject_of_get hget
      have hlookup : (h.members (.ref protoCell)).lookup name = none := by
        rw [members_protoCell hall]
        rfl
      rw [SourceHit.member]
      by_cases hname : name = "__proto__"
      · rw [if_pos hname, property, if_pos hobject, hlookup, if_pos hname, if_pos rfl]
        exact .some ⟨reads_prim _ .null, prim_in .null _⟩
      · rw [if_neg hname, inheritedMember, if_neg hname,
          property_inherited hall hobject hlookup hname]
        split
        · case isTrue hmem => exact .some ⟨hmem, rfl⟩
        · exact .none

/-- A lookup that finds what the row, the prototype or a function gives tells
where it found it. -/
theorem rel_hits (hrealm : HasRealm B) {a : Option Value} {b : Option SourceHit}
    (h : Option.Rel (IsHit B) a b) :
    Option.Rel (fun v (p : Origin × Json) => Given B p.1 p.2 v) a
      (b.map fun hit => (hit.origin, hit.json)) := by
  cases h with
  | none => exact .none
  | some hhit => exact .some (hhit.given hrealm)

/-- Sources find the same in the heap. -/
theorem loadedSource_related (hrealm : HasRealm B) (hkeeps : Keeps B.heap h)
    (hrow : Given B .row j row) (name : Option String) :
    Option.Rel (fun v (p : Origin × Json) => Given B p.1 p.2 v) (loadedSource h row name)
      ((findSource j name).map fun hit => (hit.origin, hit.json)) := by
  have hfold : ∀ (parts : List (List Char)) {a : Option Value} {b : Option SourceHit},
      Option.Rel (IsHit B) a b → Option.Rel (IsHit B)
        (parts.foldl (fun value part =>
          value.bind fun v => property h v (String.ofList part)) a)
        (parts.foldl (fun hit part => hit.bind (·.member (String.ofList part))) b) := by
    intro parts
    induction parts with
    | nil => exact id
    | cons part parts ih =>
        intro a b hab
        refine ih ?_
        cases hab with
        | none => exact .none
        | some hhit => exact member_related hrealm hkeeps hhit _
  cases name with
  | none => exact .none
  | some name =>
      rw [loadedSource, findSource]
      split
      · exact .none
      · have hstart : Option.Rel (IsHit B) (some row) (some (.row j)) := .some hrow
        exact rel_hits hrealm (hfold (name.toList.splitOn '.') hstart)

/-- What is given is read as the JSON value it stands for. -/
theorem rel_read (hkeeps : Keeps B.heap h) {a : Option Value} {b : Option (Origin × Json)}
    (hrel : Option.Rel (fun v (p : Origin × Json) => Given B p.1 p.2 v) a b) :
    a.map h.read = b.map (·.2) := by
  cases hrel with
  | none => rfl
  | some hgiven => exact congrArg some (hgiven.reads_of_keeps hkeeps).read_eq

/-- The value an expression starts from is the one of its trace, from the same
origin. -/
theorem chosen_related (hrealm : HasRealm B) (hkeeps : Keeps B.heap h) (hrow : Given B .row j row)
    (hsettings : l.settings = e)
    (hconst : Option.Rel (fun v k => Given B .mapping k v) l.const e.const)
    (hdefault : Option.Rel (fun v k => Given B .mapping k v) l.default e.default) :
    Option.Rel (fun v (p : Origin × Json) => Given B p.1 p.2 v) (l.chosen h row)
      (e.traceChosen j) := by
  subst hsettings
  refine pick_related ?_ (loadedSource_related hrealm hkeeps hrow) ?_ ?_
  · intro a b hab
    cases hab with
    | none => rfl
    | some hgiven =>
        rw [Option.map_some, Option.map_some, (hgiven.reads_of_keeps hkeeps).read_eq]
  · exact rel_map hconst
  · exact rel_map hdefault

/-- Scalars are made without a cell. -/
theorem loadMembers_scalars : ∀ {members : List (String × Json)},
    (∀ m ∈ members, isContainer m.2 = false) → (loadMembers members h).2 = h ∧
      ∀ h', RepMembers B h' (members.map fun m => (m.1, .given .row m.2))
        (loadMembers members h).1 0
  | [], _ => ⟨rfl, fun _ => ⟨rfl, rfl⟩⟩
  | (name, k) :: members, hscalar => by
      obtain ⟨hheap, hmembers⟩ :=
        loadMembers_scalars fun m hm => hscalar m (List.mem_cons_of_mem _ hm)
      have hfirst : ∃ p : Prim, load k h = (.prim p, h) ∧ k = p.json := by
        have hk := hscalar (name, k) List.mem_cons_self
        cases k with
        | null => exact ⟨.null, rfl, rfl⟩
        | bool b => exact ⟨.bool b, rfl, rfl⟩
        | num n => exact ⟨.num n, rfl, rfl⟩
        | str s => exact ⟨.str s, rfl, rfl⟩
        | arr items => cases hk
        | obj inner => cases hk
      obtain ⟨p, hload, rfl⟩ := hfirst
      rw [loadMembers, hload]
      refine ⟨hheap, fun h' => ⟨_, _, 0, 0, rfl, rfl, ⟨rfl, ?_⟩, hmembers h'⟩⟩
      exact ⟨reads_prim _ p, prim_in p _⟩

/-- A plain value is made of at most one new cell. -/
theorem load_plain (B : Base Origin) (h : Heap) (hplain : isPlain j = true) :
    Keeps h (load j h).2 ∧ MadeOf B h.size (load j h).2 (load j h).1 (freshPart j) := by
  have hscalar : ∀ p : Prim, Keeps h h ∧ MadeOf B h.size h (.prim p) (.given .row p.json) :=
    fun p => ⟨Keeps.refl h, 0, ⟨rfl, reads_prim _ p, prim_in p _⟩, Multiset.nodup_zero, nofun⟩
  cases j with
  | null => exact hscalar .null
  | bool b => exact hscalar (.bool b)
  | num n => exact hscalar (.num n)
  | str s => exact hscalar (.str s)
  | arr items => cases hplain
  | obj members =>
      have hall : ∀ m ∈ members, isContainer m.2 = false := by
        intro m hm
        have hm' := List.all_eq_true.mp hplain m hm
        simpa using hm'
      obtain ⟨hheap, hmembers⟩ := loadMembers_scalars (B := B) (h := h) hall
      rw [load]
      dsimp only
      rw [hheap]
      refine ⟨keeps_alloc h _, h.size ::ₘ 0, ⟨_, _, 0, rfl, rfl, Heap.get_alloc_self h _,
        hmembers _⟩, Multiset.nodup_singleton _, ?_⟩
      intro a ha
      rw [Multiset.mem_singleton.mp ha, Heap.size_alloc]
      exact ⟨Nat.le_refl _, Nat.lt_succ_self _⟩

/-- What is evaluated leaves the heap as it was and is as its trace says. -/
structure EvaluatesTo (B : Base Origin) (h : Heap)
    (result : Except MappingError (Option Value) × Heap)
    (trace : Except MappingError (Option (Piece Origin))) : Prop where
  keeps : Keeps h result.2
  yields : Yields (Option.Rel (MadeOf B h.size result.2)) result.1 trace

/-- **Leaves.**  A leaf evaluates to a value that is given, or to a new
primitive one, as its trace says. -/
theorem leaf_spec (text : MappingFunctions) (hrealm : HasRealm B) (hkeeps : Keeps B.heap h)
    (hrow : Given B .row j row)
    (hload : LoadsAs (fun v k => Given B .mapping k v) (.leaf l) (.leaf e))
    (hscalar : e.MapsToScalars) :
    EvaluatesTo B h (l.evaluate text row h) (e.trace text j) := by
  obtain ⟨hsettings, hconst, hdefault⟩ := hload
  have hrel := chosen_related hrealm hkeeps hrow hsettings hconst hdefault
  subst hsettings
  have hjson := rel_read hkeeps hrel
  rw [LoadedLeaf.evaluate, LeafExpression.trace, (hrow.reads_of_keeps hkeeps).read_eq]
  dsimp only
  rw [hjson]
  cases hfinish : l.settings.finish text j ((l.settings.traceChosen j).map (·.2)) with
  | error err => exact ⟨Keeps.refl h, rfl⟩
  | ok result =>
      cases result with
      | none => exact ⟨Keeps.refl h, .none⟩
      | some k =>
          -- Made values are plain.
          have hmade : isPlain k = true → EvaluatesTo B h (.ok (some (load k h).1), (load k h).2)
              (.ok (some (freshPart k))) := fun hplain =>
            ⟨(load_plain B h hplain).1, .some (load_plain B h hplain).2⟩
          have hcases := finish_cases hscalar hfinish
          dsimp only
          generalize l.chosen h row = chosen at hrel ⊢
          generalize l.settings.traceChosen j = traced at hrel hcases ⊢
          cases hrel with
          | none => exact hmade (hcases.resolve_left fun hpassed => by cases hpassed.2)
          | @some u p hgiven =>
              obtain ⟨origin, c⟩ := p
              dsimp only at hgiven
              cases u with
              | prim p =>
                  have hc : isContainer c = false := by
                    rw [hgiven.reads.prim]
                    cases p <;> rfl
                  dsimp only
                  rw [hc, Bool.false_and]
                  refine hmade (hcases.elim (fun hpassed => ?_) id)
                  rw [← Option.some.inj hpassed.2]
                  exact isPlain_of_scalar hc
              | ref a =>
                  have hc : isContainer c = true := hgiven.isContainer_eq.mpr ⟨a, rfl⟩
                  dsimp only
                  rw [hc, Bool.true_and]
                  cases hpasses : l.settings.passes with
                  | true =>
                      exact ⟨Keeps.refl h, .some ⟨0, ⟨rfl, hgiven⟩, Multiset.nodup_zero, fun _ hmem => absurd hmem (Multiset.notMem_zero _)⟩⟩
                  | false =>
                      exact hmade (hcases.resolve_left fun hpassed => by
                        rw [hpasses] at hpassed
                        cases hpassed.1)

/-- What the members of an object expression are made of. -/
def MembersMadeOf (B : Base Origin) (start : Nat) (h : Heap) (ms : List (String × Value))
    (parts : List (String × Piece Origin)) : Prop :=
  ∃ A, RepMembers B h parts ms A ∧ A.Nodup ∧ ∀ a ∈ A, start ≤ a ∧ a < h.size

/-- A value that was made of pieces stays so in a heap that keeps them. -/
theorem MadeOf.keeps {h' : Heap} {start : Nat} {p : Piece Origin} (hmade : MadeOf B start h v p)
    (hkeeps : Keeps h h') : MadeOf B start h' v p := by
  obtain ⟨A, hrep, hnodup, hbounds⟩ := hmade
  refine ⟨A, hrep.congr fun a ha => hkeeps.keeps a (hbounds a ha).2, hnodup, fun a ha => ?_⟩
  exact ⟨(hbounds a ha).1, (hbounds a ha).2.trans_le hkeeps.size⟩

mutual

/-- **Expressions.**  An expression evaluates as its trace says, by recursion
over it. -/
theorem expression_spec (text : MappingFunctions) (hrealm : HasRealm B)
    (hrow : Given B .row j row) :
    ∀ (l : LoadedExpression) (e : MappingExpression) (h : Heap), Keeps B.heap h →
      LoadsAs (fun v k => Given B .mapping k v) l e → e.MapsToScalars →
      EvaluatesTo B h (evaluateLoaded text row l h) (traceExpression text j e)
  | .leaf l, .leaf e, h, hkeeps, hload, hscalar => by
      rw [evaluateLoaded, traceExpression]
      rw [MappingExpression.MapsToScalars] at hscalar
      exact leaf_spec text hrealm hkeeps hrow hload hscalar
  | .leaf _, .object _, _, _, hload, _ => by simp only [LoadsAs] at hload
  | .object _, .leaf _, _, _, hload, _ => by simp only [LoadsAs] at hload
  | .object loaded, .object children, h, hkeeps, hload, hscalar => by
      rw [LoadsAs] at hload
      rw [MappingExpression.MapsToScalars] at hscalar
      obtain ⟨hgrown, hyields⟩ := children_spec text hrealm hrow loaded children h hkeeps hload hscalar
      rw [evaluateLoaded, traceExpression]
      generalize evaluateLoadedChildren text row loaded h = r at hgrown hyields ⊢
      generalize traceChildren text j children = t at hyields ⊢
      obtain ⟨result, h'⟩ := r
      cases result with
      | error err =>
          cases t with
          | error err' => exact ⟨hgrown, hyields⟩
          | ok parts => cases hyields
      | ok ms =>
          cases t with
          | error err' => cases hyields
          | ok parts =>
              obtain ⟨A, hmembers, hnodup, hbounds⟩ := hyields
              refine ⟨hgrown.trans (keeps_alloc h' _), .some ⟨h'.size ::ₘ A, ?_, ?_, ?_⟩⟩
              · refine ⟨_, ms, A, rfl, rfl, Heap.get_alloc_self h' _, ?_⟩
                exact hmembers.congr fun a ha => Heap.get_alloc_of_lt _ (hbounds a ha).2
              · refine Multiset.nodup_cons.mpr ⟨fun hmem => ?_, hnodup⟩
                exact Nat.lt_irrefl _ (hbounds _ hmem).2
              · intro a ha
                rw [Heap.size_alloc]
                rcases Multiset.mem_cons.mp ha with rfl | ha
                · exact ⟨hgrown.size, Nat.lt_succ_self _⟩
                · exact ⟨(hbounds a ha).1, Nat.lt_succ_of_lt (hbounds a ha).2⟩

/-- The same of the expressions below an object, one after another. -/
theorem children_spec (text : MappingFunctions) (hrealm : HasRealm B)
    (hrow : Given B .row j row) :
    ∀ (loaded : List (String × LoadedExpression)) (children : List (String × MappingExpression))
      (h : Heap), Keeps B.heap h → ChildrenLoadAs (fun v k => Given B .mapping k v) loaded children →
      ChildrenMapToScalars children →
      Keeps h (evaluateLoadedChildren text row loaded h).2 ∧
        Yields (MembersMadeOf B h.size (evaluateLoadedChildren text row loaded h).2)
          (evaluateLoadedChildren text row loaded h).1 (traceChildren text j children)
  | [], [], h, _, _, _ => by
      rw [evaluateLoadedChildren, traceChildren]
      exact ⟨Keeps.refl h, 0, ⟨rfl, rfl⟩, Multiset.nodup_zero, nofun⟩
  | [], _ :: _, _, _, hload, _ => by simp only [ChildrenLoadAs] at hload
  | _ :: _, [], _, _, hload, _ => by simp only [ChildrenLoadAs] at hload
  | (name, l) :: loaded, (name', e) :: children, h, hkeeps, hload, hscalar => by
      rw [ChildrenLoadAs] at hload
      rw [ChildrenMapToScalars] at hscalar
      obtain ⟨rfl, hfirst, hrest⟩ := hload
      obtain ⟨hgrown, hyields⟩ := expression_spec text hrealm hrow l e h hkeeps hfirst hscalar.1
      rw [evaluateLoadedChildren, traceChildren]
      generalize evaluateLoaded text row l h = r at hgrown hyields ⊢
      generalize traceExpression text j e = t at hyields ⊢
      obtain ⟨result, h₁⟩ := r
      dsimp only at hgrown hyields ⊢
      cases result with
      | error err =>
          cases t with
          | error err' => exact ⟨hgrown, hyields⟩
          | ok part => cases hyields
      | ok value =>
          cases t with
          | error err' => cases hyields
          | ok part =>
              obtain ⟨hgrown', hyields'⟩ :=
                children_spec text hrealm hrow loaded children h₁ (hkeeps.trans hgrown) hrest hscalar.2
              dsimp only
              generalize evaluateLoadedChildren text row loaded h₁ = r at hgrown' hyields' ⊢
              generalize traceChildren text j children = t at hyields' ⊢
              obtain ⟨result, h₂⟩ := r
              dsimp only at hgrown' hyields' ⊢
              cases result with
              | error err =>
                  cases t with
                  | error err' => exact ⟨hgrown.trans hgrown', hyields'⟩
                  | ok parts => cases hyields'
              | ok ms =>
                  cases t with
                  | error err' => cases hyields'
                  | ok parts =>
                      refine ⟨hgrown.trans hgrown', ?_⟩
                      obtain ⟨A, hmembers, hnodup, hbounds⟩ := hyields'
                      have hlater : ∀ a ∈ A, h.size ≤ a ∧ a < h₂.size := fun a ha =>
                        ⟨hgrown.size.trans (hbounds a ha).1, (hbounds a ha).2⟩
                      cases hyields with
                      | none => exact ⟨A, hmembers, hnodup, hlater⟩
                      | @some v p hmade =>
                          obtain ⟨C, hrep, hnodupC, hboundsC⟩ := hmade
                          refine ⟨C + A, ⟨v, ms, C, A, rfl, rfl, ?_, hmembers⟩, ?_, ?_⟩
                          · exact hrep.congr fun a ha => hgrown'.keeps a (hboundsC a ha).2
                          · refine Multiset.nodup_add.mpr ⟨hnodupC, hnodup, ?_⟩
                            refine Multiset.disjoint_left.mpr fun ha ha' => ?_
                            exact Nat.not_lt_of_le (hbounds _ ha').1 (hboundsC _ ha).2
                          · intro a ha
                            rcases Multiset.mem_add.mp ha with ha | ha
                            · exact ⟨(hboundsC a ha).1, (hboundsC a ha).2.trans_le hgrown'.size⟩
                            · exact hlater a ha

end

end Evaluation

section Targets

variable {B : Base Origin} {h : Heap} {a : Nat} {key path : String} {ps : List String}
  {value : Piece Origin} {v : Value} {parts parts' : List (String × Piece Origin)}
  {ms : List (String × Value)} {A C : Multiset Nat}

/-- Writing at a cursor changes cells of the output only, and leaves at the
cursor what the trace says. -/
structure Written (B : Base Origin) (h : Heap) (cursor : Nat) (A C : Multiset Nat)
    (result : Except MappingError Unit × Heap)
    (trace : Except MappingError (List (String × Piece Origin))) : Prop where
  size : h.size ≤ result.2.size
  frame : ∀ b < h.size, b ≠ cursor → b ∉ A → b ∉ C → result.2.get b = h.get b
  yields : Yields (fun _ parts' => ∃ ms' A', result.2.get cursor = some (.object ms') ∧
    RepMembers B result.2 parts' ms' A' ∧ (cursor ::ₘ A').Nodup ∧
    ∀ b ∈ A', b ∈ A ∨ b ∈ C ∨ (h.size ≤ b ∧ b < result.2.size)) result.1 trace

/-- What is at hand when a value is written into an object of the output: all
cells are of the output, and none is there twice. -/
structure Writable (B : Base Origin) (h : Heap) (cursor : Nat)
    (parts : List (String × Piece Origin)) (value : Piece Origin) (v : Value)
    (ms : List (String × Value)) (A C : Multiset Nat) : Prop where
  keeps : Keeps B.heap h
  get : h.get cursor = some (.object ms)
  members : RepMembers B h parts ms A
  value : Rep B h value v C
  nodup : (cursor ::ₘ (A + C)).Nodup
  bounds : ∀ b ∈ cursor ::ₘ (A + C), B.heap.size ≤ b ∧ b < h.size

/-- The cells of the parts that stay and of those to come are not the one that
is written. -/
theorem Writable.ne (hw : Writable B h a parts value v ms A C) {b : Nat} (hb : b ∈ A ∨ b ∈ C) :
    b ≠ a := by
  intro heq
  subst heq
  exact (Multiset.nodup_cons.mp hw.nodup).1 (Multiset.mem_add.mpr hb)

/-- The cell that is written is one of the row's own. -/
theorem Writable.cursor_bounds (hw : Writable B h a parts value v ms A C) :
    B.heap.size ≤ a ∧ a < h.size := hw.bounds a (Multiset.mem_cons_self _ _)

/-- A member set at the cursor. -/
theorem Writable.set (hw : Writable B h a parts value v ms A C) (key : String) :
    Written B h a A C (.ok (), h.set a (.object (setMember ms key v)))
      (.ok (setMember parts key value)) := by
  have hother : ∀ b, b ≠ a → (h.set a (.object (setMember ms key v))).get b = h.get b :=
    fun b hne => Heap.get_set_of_ne _ hne
  have hvalue : Rep B (h.set a (.object (setMember ms key v))) value v C :=
    hw.value.congr fun b hb => hother b (hw.ne (.inr hb))
  have hmembers : ∃ A' ≤ C + A, RepMembers B (h.set a (.object (setMember ms key v)))
      (setMember parts key value) (setMember ms key v) A' := by
    refine RepMembers.setMember ?_ key hvalue
    exact hw.members.congr fun b hb => hother b (hw.ne (.inl hb))
  obtain ⟨A', hle, hrep⟩ := hmembers
  refine ⟨Nat.le_of_eq (Heap.size_set ..).symm, fun b _ hne _ _ => hother b hne, ?_⟩
  refine ⟨_, A', Heap.get_set_self _ hw.cursor_bounds.2, hrep, ?_, fun b hb => ?_⟩
  · refine Multiset.nodup_of_le (Multiset.cons_le_cons a hle) ?_
    rw [add_comm]
    exact hw.nodup
  · rcases Multiset.mem_add.mp (Multiset.mem_of_le hle hb) with hb | hb
    · exact .inr (.inl hb)
    · exact .inl hb

/-- The members of an object assigned to one of the output. -/
theorem Writable.assign (hw : Writable B h a parts value v ms A C)
    {old : List (String × Piece Origin)} (hlookup : parts.lookup key = some (.made old))
    (hobject : value.isObject = true) (hproto : "__proto__" ∉ value.members.map Prod.fst) :
    Written B h a A C (.ok (), mergeLoaded h a key v)
      (.ok (setMember parts key (.made (assign old value.members)))) := by
  obtain ⟨u, C₁, D, hmember, rfl, ⟨b, oldMs, C₂, rfl, rfl, hget, hold⟩, hset⟩ :=
    hw.members.focus hlookup
  obtain ⟨C₃, hle₃, hnew⟩ := hw.value.members hw.keeps hobject
  obtain ⟨A', hle, hassigned⟩ := hold.assign hnew hproto
  have hmerge : mergeLoaded h a key v =
      h.set b (.object (JsonPaths.assign oldMs (h.members v))) := by
    unfold mergeLoaded
    rw [property_own hw.get hmember, hw.value.isObject_eq hw.keeps, hobject]
    dsimp only
    rw [if_pos (Heap.isObject_of_get hget), Heap.members_of_get hget]
  have hnodup := hw.nodup
  rw [Multiset.nodup_cons, Multiset.cons_add, Multiset.cons_add, Multiset.nodup_cons] at hnodup
  obtain ⟨ha, hb, hrest⟩ := hnodup
  have hsub : ∀ x ∈ A', x ∈ C₂ + D + C := by
    intro x hx
    have hmem := Multiset.mem_of_le hle hx
    simp only [Multiset.mem_add] at hmem ⊢
    rcases hmem with hmem | hmem
    · exact .inr (Multiset.mem_of_le hle₃ hmem)
    · exact .inl (.inl hmem)
  rw [hmerge]
  have hother : ∀ x, x ≠ b →
      (h.set b (.object (JsonPaths.assign oldMs (h.members v)))).get x = h.get x :=
    fun x hne => Heap.get_set_of_ne _ hne
  have hbound := hw.bounds b (by simp)
  have hrep : Rep B (h.set b (.object (JsonPaths.assign oldMs (h.members v))))
      (.made (JsonPaths.assign old value.members)) (.ref b) (b ::ₘ A') := by
    refine ⟨b, _, A', rfl, rfl, Heap.get_set_self _ hbound.2, ?_⟩
    refine hassigned.congr fun x hx => hother x fun heq => hb ?_
    rw [← heq]
    exact hsub x hx
  have hmembers := hset (fun x hx => hother x fun heq => hb (by
    rw [← heq]
    simp [hx])) hrep
  rw [JsonPaths.setMember_eq_self hmember] at hmembers
  refine ⟨Nat.le_of_eq (Heap.size_set ..).symm, fun x _ _ hxA _ => hother x fun heq => ?_, ?_⟩
  · subst heq
    exact hxA (by simp)
  · refine ⟨ms, _, ?_, hmembers, ?_, fun x hx => ?_⟩
    · rw [hother a fun heq => ha (by rw [heq]; exact Multiset.mem_cons_self _ _)]
      exact hw.get
    · have hall : a ::ₘ (b ::ₘ A' + D) ≤ a ::ₘ (b ::ₘ C₂ + D + C) := by
        refine Multiset.cons_le_cons a ?_
        rw [Multiset.cons_add, Multiset.cons_add, Multiset.cons_add]
        refine Multiset.cons_le_cons b ?_
        calc A' + D ≤ C₃ + C₂ + D := add_le_add_left hle D
          _ ≤ C + C₂ + D := add_le_add_left (add_le_add_left hle₃ C₂) D
          _ = C₂ + D + C := by rw [add_comm C C₂, add_right_comm]
      exact Multiset.nodup_of_le hall hw.nodup
    · simp only [Multiset.mem_add, Multiset.mem_cons] at hx ⊢
      rcases hx with (rfl | hx) | hx
      · exact .inl (.inl (.inl rfl))
      · have hx' := hsub x hx
        simp only [Multiset.mem_add] at hx'
        rcases hx' with (hx' | hx') | hx'
        · exact .inl (.inl (.inr hx'))
        · exact .inl (.inr hx')
        · exact .inr (.inl hx')
      · exact .inl (.inr hx)

/-- What is found at the cursor under a name a target can have. -/
theorem Writable.property_eq (hrealm : Keeps realm B.heap)
    (hw : Writable B h a parts value v ms A C) (hname : IsTargetName key) :
    property h (.ref a) key = (ms.lookup key).or
      (if key = "constructor" then some (.ref (functionCell key)) else none) := by
  rw [property_target (hrealm.trans hw.keeps) (Heap.isObject_of_get hw.get) hname,
    Heap.members_of_get hw.get]

/-- **Merging.**  To write a member under the cursor does what the trace does,
and touches no other cell. -/
theorem merge_spec (hrealm : Keeps realm B.heap) (hw : Writable B h a parts value v ms A C)
    (hname : IsTargetName key) (htrace : traceMerge parts key value = some parts') :
    Written B h a A C (.ok (), mergeLoaded h a key v) (.ok parts') := by
  unfold traceMerge at htrace
  split at htrace
  · case h_1 old hlookup hobject =>
      split at htrace
      · cases htrace
      · case isFalse hproto =>
          cases htrace
          exact hw.assign hlookup hobject hproto
  · cases htrace
  · case h_3 hmade hgiven =>
      cases htrace
      -- There is no object to merge with: a scalar, an array, a function or nothing.
      have hnone : ∀ existing, value.isObject = true → property h (.ref a) key = some (.ref existing) →
          h.isObject (.ref existing) = false := by
        intro existing hobject hproperty
        rw [hw.property_eq hrealm hname] at hproperty
        cases hpart : parts.lookup key with
        | none =>
            rw [(hw.members.add hpart).1, Option.none_or] at hproperty
            split at hproperty
            · case isTrue hconstructor =>
                cases hproperty
                refine not_isObject_functionCell (hrealm.trans hw.keeps) ?_
                rw [hconstructor]
                exact List.mem_cons_self
            · cases hproperty
        | some p =>
            obtain ⟨u, C', D, hmember, -, hrep, -⟩ := hw.members.focus hpart
            rw [hmember, Option.some_or] at hproperty
            cases hproperty
            rw [hrep.isObject_eq hw.keeps]
            cases p with
            | made old => exact absurd hobject (hmade old hpart)
            | given origin j =>
                cases j with
                | obj members => exact absurd hobject (hgiven origin members hpart)
                | _ => rfl
      have hmerge : mergeLoaded h a key v = h.set a (.object (setMember ms key v)) := by
        unfold mergeLoaded
        rw [Heap.members_of_get hw.get, hw.value.isObject_eq hw.keeps]
        dsimp only
        split
        · case h_1 existing hproperty hobject =>
            rw [if_neg]
            rw [hnone existing hobject hproperty]
            exact Bool.false_ne_true
        · rfl
      rw [hmerge]
      exact hw.set key

/-- A target that collides below a given object leaves the heap alone. -/
theorem setTargetLoaded_of_collides (hrealm : Keeps realm B.heap) {origin : Origin}
    {members : List (String × Json)} {b : Nat} (hkeeps : Keeps B.heap h)
    (hgiven : Given B origin (.obj members) (.ref b)) (hnames : ∀ p ∈ ps, IsTargetName p)
    (hcollides : collides ps members = true) : setTargetLoaded path ps v b h =
      (.error ⟨"mapping target collides with a scalar: " ++ path, [path]⟩, h) := by
  induction ps generalizing b members with
  | nil => cases hcollides
  | cons part ps ih =>
      cases ps with
      | nil => cases hcollides
      | cons next rest =>
          have hall := hrealm.trans hkeeps
          have hcursor : h.isObject (.ref b) = true :=
            Rep.isObject_eq (p := .given origin (.obj members)) (A := 0) hkeeps ⟨rfl, hgiven⟩
          rw [collides] at hcollides
          rw [setTargetLoaded, property_target hall hcursor (hnames part List.mem_cons_self)]
          have hmember := given_member hkeeps hgiven part
          dsimp only at hmember ⊢
          generalize (h.members (.ref b)).lookup part = u at hmember ⊢
          generalize members.lookup part = k at hmember hcollides
          cases hmember with
          | none =>
              have hconstructor : part = "constructor" := of_decide_eq_true hcollides
              have hfunction : h.isObject (.ref (functionCell part)) = false := by
                refine not_isObject_functionCell hall ?_
                rw [hconstructor]
                exact List.mem_cons_self
              rw [Option.none_or, if_pos hconstructor]
              dsimp only
              rw [if_neg (by rw [hfunction]; exact Bool.false_ne_true)]
          | @some u k hbelow =>
              have hobject := Rep.isObject_eq (p := .given origin k) (A := 0) hkeeps ⟨rfl, hbelow⟩
              rw [Option.some_or]
              cases u with
              | prim p => rfl
              | ref existing =>
                  dsimp only
                  rw [hobject]
                  cases k with
                  | obj inner =>
                      exact ih hbelow (fun p hp => hnames p (List.mem_cons_of_mem part hp)) hcollides
                  | _ => rfl

/-- An error leaves the heap as it is. -/
theorem written_error (B : Base Origin) (h : Heap) (a : Nat) (A C : Multiset Nat)
    (err : MappingError) : Written B h a A C (.error err, h) (.error err) where
  size := Nat.le_refl _
  frame := fun _ _ _ _ _ => rfl
  yields := rfl

/-- The object the cursor moves to, and what its own target leaves in it. -/
theorem Writable.below (hw : Writable B h a parts value v ms A C) {part : String}
    {inner : List (String × Piece Origin)} (hlookup : parts.lookup part = some (.made inner)) :
    ∃ b ms₁ A₁, ms.lookup part = some (.ref b) ∧ h.get b = some (.object ms₁) ∧
      Writable B h b inner value v ms₁ A₁ C ∧
      ∀ {r : Except MappingError Unit × Heap} {t : Except MappingError (List (String × Piece Origin))},
        Written B h b A₁ C r t → Written B h a A C r
          (t.map fun inner' => setMember parts part (.made inner')) := by
  obtain ⟨u, C₁, D, hmember, rfl, ⟨b, ms₁, A₁, rfl, rfl, hget, hinner⟩, hset⟩ :=
    hw.members.focus hlookup
  have hnodup := hw.nodup
  rw [Multiset.nodup_cons, Multiset.cons_add, Multiset.cons_add, Multiset.nodup_cons] at hnodup
  obtain ⟨ha, hb, hrest⟩ := hnodup
  simp only [Multiset.mem_cons, Multiset.mem_add, not_or] at ha hb
  rw [add_assoc, add_left_comm, Multiset.nodup_add, Multiset.disjoint_left] at hrest
  obtain ⟨hnodupD, hnodup₁, hdisjoint⟩ := hrest
  have hwithin : ∀ x ∈ b ::ₘ (A₁ + C), x ∈ a ::ₘ (b ::ₘ A₁ + D + C) := by
    intro x hx
    simp only [Multiset.mem_cons, Multiset.mem_add] at hx ⊢
    rcases hx with rfl | hx | hx
    · exact .inr (.inl (.inl (.inl rfl)))
    · exact .inr (.inl (.inl (.inr hx)))
    · exact .inr (.inr hx)
  refine ⟨b, ms₁, A₁, hmember, hget, ⟨hw.keeps, hget, hinner, hw.value, ?_, ?_⟩, ?_⟩
  · rw [Multiset.nodup_cons, Multiset.mem_add, not_or]
    exact ⟨⟨hb.1.1, hb.2⟩, hnodup₁⟩
  · exact fun x hx => hw.bounds x (hwithin x hx)
  · intro r t hwritten
    have hD : ∀ x ∈ D, x < h.size ∧ x ≠ b ∧ x ∉ A₁ ∧ x ∉ C := by
      intro x hx
      have hx' := hdisjoint hx
      rw [Multiset.mem_add, not_or] at hx'
      refine ⟨(hw.bounds x (by simp [hx])).2, fun heq => hb.1.2 (heq ▸ hx), hx'⟩
    refine ⟨hwritten.size, fun x hlt hne hxA hxC => ?_, ?_⟩
    · simp only [Multiset.mem_cons, Multiset.mem_add, not_or] at hxA
      exact hwritten.frame x hlt hxA.1.1 hxA.1.2 hxC
    · have hyields := hwritten.yields
      obtain ⟨result, h'⟩ := r
      cases result with
      | error err =>
          cases t with
          | error err' => exact hyields
          | ok inner' => cases hyields
      | ok _ =>
          cases t with
          | error err' => cases hyields
          | ok inner' =>
              obtain ⟨ms', A', hget', hmembers', hnodup', hcells⟩ := hyields
              have hrep : Rep B h' (.made inner') (.ref b) (b ::ₘ A') :=
                ⟨b, ms', A', rfl, rfl, hget', hmembers'⟩
              have hall := hset (fun x hx => hwritten.frame x (hD x hx).1 (hD x hx).2.1
                (hD x hx).2.2.1 (hD x hx).2.2.2) hrep
              rw [JsonPaths.setMember_eq_self hmember] at hall
              have hcells' : ∀ x ∈ A', x ∈ A₁ ∨ x ∈ C ∨ (h.size ≤ x ∧ x < h'.size) := hcells
              refine ⟨ms, _, ?_, hall, ?_, fun x hx => ?_⟩
              · rw [hwritten.frame a hw.cursor_bounds.2 ha.1 ha.2.1.1 ha.2.2]
                exact hw.get
              · rw [Multiset.nodup_cons, Multiset.nodup_add, Multiset.disjoint_left]
                refine ⟨?_, hnodup', hnodupD, fun {x} hx hxD => ?_⟩
                · simp only [Multiset.mem_cons, Multiset.mem_add, not_or]
                  refine ⟨⟨ha.1, fun hmem => ?_⟩, ha.2.1.2⟩
                  rcases hcells' a hmem with hmem | hmem | hmem
                  · exact ha.2.1.1 hmem
                  · exact ha.2.2 hmem
                  · exact Nat.not_lt_of_le hmem.1 hw.cursor_bounds.2
                · obtain ⟨hlt, hne, hx₁, hxC⟩ := hD x hxD
                  rcases Multiset.mem_cons.mp hx with heq | hx
                  · exact hne heq
                  · rcases hcells' x hx with hmem | hmem | hmem
                    · exact hx₁ hmem
                    · exact hxC hmem
                    · exact Nat.not_lt_of_le hmem.1 hlt
              · simp only [Multiset.mem_add, Multiset.mem_cons] at hx ⊢
                rcases hx with (rfl | hx) | hx
                · exact .inl (.inl (.inl rfl))
                · rcases hcells' x hx with hx | hx | hx
                  · exact .inl (.inl (.inr hx))
                  · exact .inr (.inl hx)
                  · exact .inr (.inr hx)
                · exact .inl (.inr hx)

/-- A new object for the cursor to move to. -/
theorem Writable.fresh (hw : Writable B h a parts value v ms A C) {part : String}
    (hlookup : parts.lookup part = none) :
    ∃ h₁, h₁ = (h.alloc (.object [])).set a (.object (setMember ms part (.ref h.size))) ∧
      Writable B h₁ h.size [] value v [] 0 C ∧
      ∀ {r : Except MappingError Unit × Heap} {t : Except MappingError (List (String × Piece Origin))},
        Written B h₁ h.size 0 C r t → Written B h a A C r
          (t.map fun inner' => setMember parts part (.made inner')) := by
  refine ⟨_, rfl, ?_, ?_⟩
  all_goals
    have halt := hw.cursor_bounds
    have hne : h.size ≠ a := Nat.ne_of_gt halt.2
    have hsize : ((h.alloc (.object [])).set a
        (.object (setMember ms part (.ref h.size)))).size = h.size + 1 := by
      rw [Heap.size_set, Heap.size_alloc]
    have hold : ∀ x < h.size, x ≠ a → ((h.alloc (.object [])).set a
        (.object (setMember ms part (.ref h.size)))).get x = h.get x := by
      intro x hx hxa
      rw [Heap.get_set_of_ne _ hxa, Heap.get_alloc_of_lt _ hx]
    have hC : ∀ x ∈ C, B.heap.size ≤ x ∧ x < h.size ∧ x ≠ a := fun x hx =>
      ⟨(hw.bounds x (by simp [hx])).1, (hw.bounds x (by simp [hx])).2, hw.ne (.inr hx)⟩
    generalize hh₁ : (h.alloc (.object [])).set a
      (.object (setMember ms part (.ref h.size))) = h₁ at hsize hold ⊢
  · refine ⟨?_, ?_, ⟨rfl, rfl⟩, ?_, ?_, ?_⟩
    · rw [← hh₁]
      exact (hw.keeps.trans (keeps_alloc h _)).set halt.1 _
    · rw [← hh₁, Heap.get_set_of_ne _ hne]
      exact Heap.get_alloc_self h _
    · exact hw.value.congr fun x hx => hold x (hC x hx).2.1 (hC x hx).2.2
    · rw [zero_add, Multiset.nodup_cons]
      refine ⟨fun hmem => Nat.lt_irrefl _ (hC _ hmem).2.1, ?_⟩
      exact (Multiset.nodup_add.mp (Multiset.nodup_cons.mp hw.nodup).2).2.1
    · intro x hx
      rw [zero_add, Multiset.mem_cons] at hx
      rw [hsize]
      rcases hx with rfl | hx
      · exact ⟨hw.keeps.size, Nat.lt_succ_self _⟩
      · exact ⟨(hC x hx).1, Nat.lt_succ_of_lt (hC x hx).2.1⟩
  · intro r t hwritten
    have hsize' := hwritten.size
    rw [hsize] at hsize'
    have hframe : ∀ x < h.size, x ∉ C → r.2.get x = h₁.get x := fun x hx hxC =>
      hwritten.frame x (by omega) (Nat.ne_of_lt hx) (Multiset.notMem_zero x) hxC
    have hnodup := hw.nodup
    rw [Multiset.nodup_cons, Multiset.mem_add, not_or, Multiset.nodup_add,
      Multiset.disjoint_left] at hnodup
    obtain ⟨⟨haA, haC⟩, hnodupA, -, hdisjoint⟩ := hnodup
    have hA : ∀ x ∈ A, x < h.size ∧ x ≠ a ∧ x ∉ C := fun x hx =>
      ⟨(hw.bounds x (by simp [hx])).2, hw.ne (.inl hx), hdisjoint hx⟩
    refine ⟨by omega, fun x hlt hne hxA hxC => ?_, ?_⟩
    · rw [hframe x hlt hxC, hold x hlt hne]
    · have hyields := hwritten.yields
      obtain ⟨result, h'⟩ := r
      cases result with
      | error err =>
          cases t with
          | error err' => exact hyields
          | ok inner' => cases hyields
      | ok _ =>
          cases t with
          | error err' => cases hyields
          | ok inner' =>
              obtain ⟨ms', A', hget', hmembers', hnodup', hcells⟩ := hyields
              have hcells' : ∀ x ∈ A', x ∈ C ∨ (h.size + 1 ≤ x ∧ x < h'.size) := fun x hx => by
                have hx' := (hcells x hx).resolve_left (Multiset.notMem_zero x)
                rwa [hsize] at hx'
              have hrep : Rep B h' (.made inner') (.ref h.size) (h.size ::ₘ A') :=
                ⟨h.size, ms', A', rfl, rfl, hget', hmembers'⟩
              have hall := (hw.members.add hlookup).2 (fun x hx => by
                rw [hframe x (hA x hx).1 (hA x hx).2.2, hold x (hA x hx).1 (hA x hx).2.1]) hrep
              refine ⟨setMember ms part (.ref h.size), _, ?_, hall, ?_, fun x hx => ?_⟩
              · rw [hframe a halt.2 haC, ← hh₁]
                refine Heap.get_set_self _ ?_
                rw [Heap.size_alloc]
                exact Nat.lt_succ_of_lt halt.2
              · rw [Multiset.nodup_cons, Multiset.nodup_add, Multiset.disjoint_left]
                refine ⟨?_, hnodup', hnodupA, fun {x} hx hxA => ?_⟩
                · simp only [Multiset.mem_cons, Multiset.mem_add, not_or]
                  refine ⟨⟨fun heq => hne heq.symm, fun hmem => ?_⟩, haA⟩
                  rcases hcells' a hmem with hmem | hmem
                  · exact haC hmem
                  · omega
                · obtain ⟨hlt, -, hxC⟩ := hA x hxA
                  rcases Multiset.mem_cons.mp hx with heq | hx
                  · omega
                  · rcases hcells' x hx with hmem | hmem
                    · exact hxC hmem
                    · omega
              · simp only [Multiset.mem_add, Multiset.mem_cons] at hx
                dsimp only at hsize' ⊢
                rcases hx with (rfl | hx) | hx
                · exact .inr (.inr ⟨Nat.le_refl _, by omega⟩)
                · rcases hcells' x hx with hx | hx
                  · exact .inr (.inl hx)
                  · exact .inr (.inr ⟨by omega, hx.2⟩)
                · exact .inl hx

/-- A target is set as its trace says. -/
theorem setTarget_spec (hrealm : Keeps realm B.heap) (hnames : ∀ p ∈ ps, IsTargetName p)
    {t : Except MappingError (List (String × Piece Origin))}
    (hw : Writable B h a parts value v ms A C) (htrace : traceTarget path ps value parts = some t) :
    Written B h a A C (setTargetLoaded path ps v a h) t := by
  induction ps generalizing h a parts ms A t with
  | nil =>
      cases htrace
      refine ⟨Nat.le_refl _, fun _ _ _ _ _ => rfl, ms, A, hw.get, hw.members, ?_, fun _ => .inl⟩
      exact Multiset.nodup_of_le (Multiset.cons_le_cons a (Multiset.le_add_right A C)) hw.nodup
  | cons part ps ih =>
      cases ps with
      | nil =>
          rw [traceTarget, Option.map_eq_some_iff] at htrace
          obtain ⟨parts', hmerge, rfl⟩ := htrace
          exact merge_spec hrealm hw (hnames part List.mem_cons_self) hmerge
      | cons next rest =>
          have hbelownames : ∀ p ∈ next :: rest, IsTargetName p := fun p hp =>
            hnames p (List.mem_cons_of_mem part hp)
          rw [traceTarget] at htrace
          rw [setTargetLoaded, hw.property_eq hrealm (hnames part List.mem_cons_self)]
          dsimp only
          split at htrace
          · case h_1 inner hlookup =>
              obtain ⟨b, ms₁, A₁, hmember, hget, hbelow, hback⟩ := hw.below hlookup
              rw [Option.map_eq_some_iff] at htrace
              obtain ⟨t', ht', rfl⟩ := htrace
              rw [hmember, Option.some_or]
              dsimp only
              rw [if_pos (Heap.isObject_of_get hget)]
              exact hback (ih hbelownames hbelow ht')
          · case h_2 origin members hlookup =>
              obtain ⟨u, C', D, hmember, -, hrep, -⟩ := hw.members.focus hlookup
              have hobject : h.isObject u = true := hrep.isObject_eq hw.keeps
              split at htrace
              · case isTrue hcollides =>
                  cases htrace
                  rw [hmember, Option.some_or]
                  cases u with
                  | prim p => cases hobject
                  | ref b =>
                      dsimp only
                      rw [if_pos hobject,
                        setTargetLoaded_of_collides hrealm hw.keeps hrep.2 hbelownames hcollides]
                      exact written_error B h a A C _
              · cases htrace
          · case h_3 origin j hno hlookup =>
              cases htrace
              obtain ⟨u, C', D, hmember, -, hrep, -⟩ := hw.members.focus hlookup
              have hobject : h.isObject u = false := by
                rw [hrep.isObject_eq hw.keeps]
                cases j with
                | obj members => exact absurd rfl (hno members)
                | _ => rfl
              rw [hmember, Option.some_or]
              cases u with
              | prim p => exact written_error B h a A C _
              | ref b =>
                  dsimp only
                  rw [hobject]
                  exact written_error B h a A C _
          · case h_4 hlookup =>
              rw [(hw.members.add hlookup).1, Option.none_or]
              split at htrace
              · case isTrue hname =>
                  cases htrace
                  have hfunction : h.isObject (.ref (functionCell part)) = false := by
                    refine not_isObject_functionCell (hrealm.trans hw.keeps) ?_
                    rw [hname]
                    exact List.mem_cons_self
                  rw [if_pos hname]
                  dsimp only
                  rw [if_neg (by rw [hfunction]; exact Bool.false_ne_true)]
                  exact written_error B h a A C _
              · case isFalse hname =>
                  rw [if_neg hname]
                  dsimp only
                  rw [Heap.members_of_get hw.get]
                  obtain ⟨h₁, rfl, hbelow, hback⟩ := hw.fresh hlookup
                  rw [Option.map_eq_some_iff] at htrace
                  obtain ⟨t', ht', rfl⟩ := htrace
                  exact hback (ih hbelownames hbelow ht')

end Targets

section Rows

variable {B : Base Origin} {h : Heap} {text : MappingFunctions} {rules : List MappingRule}
  {loaded : List LoadedRule} {row : Value} {j : Json} {start output : Nat}
  {parts : List (String × Piece Origin)} {ms : List (String × Value)} {A : Multiset Nat}

/-- A rule in the heap. -/
def RuleLoadsAs (G : Value → Json → Prop) (l : LoadedRule) (rule : MappingRule) : Prop :=
  l.target = rule.target ∧ LoadsAs G l.expression rule.expression

/-- The output while a row is mapped: an object of cells from `start` on. -/
structure Output (B : Base Origin) (start output : Nat) (h : Heap)
    (parts : List (String × Piece Origin)) (ms : List (String × Value)) (A : Multiset Nat) :
    Prop where
  keeps : Keeps B.heap h
  old : B.heap.size ≤ start
  get : h.get output = some (.object ms)
  members : RepMembers B h parts ms A
  nodup : (output ::ₘ A).Nodup
  bounds : ∀ b ∈ output ::ₘ A, start ≤ b ∧ b < h.size

/-- The output of a row stays as it is while the heap grows. -/
theorem Output.grow (ho : Output B start output h parts ms A) {h' : Heap} (hkeeps : Keeps h h') :
    Output B start output h' parts ms A where
  keeps := ho.keeps.trans hkeeps
  old := ho.old
  get := by
    rw [hkeeps.keeps output (ho.bounds output (Multiset.mem_cons_self _ _)).2]
    exact ho.get
  members := ho.members.congr fun b hb =>
    hkeeps.keeps b (ho.bounds b (Multiset.mem_cons_of_mem hb)).2
  nodup := ho.nodup
  bounds := fun b hb => ⟨(ho.bounds b hb).1, (ho.bounds b hb).2.trans_le hkeeps.size⟩

/-- A value that was just evaluated can be written into the output. -/
theorem Output.writable (ho : Output B start output h parts ms A) {h' : Heap} {v : Value}
    {p : Piece Origin} (hkeeps : Keeps h h') (hmade : MadeOf B h.size h' v p) :
    ∃ C, (∀ b ∈ C, h.size ≤ b ∧ b < h'.size) ∧ Writable B h' output parts p v ms A C := by
  obtain ⟨C, hrep, hnodup, hbounds⟩ := hmade
  have hgrown := ho.grow hkeeps
  refine ⟨C, hbounds, hgrown.keeps, hgrown.get, hgrown.members, hrep, ?_, ?_⟩
  · have hall := ho.nodup
    rw [Multiset.nodup_cons] at hall
    rw [Multiset.nodup_cons, Multiset.mem_add, Multiset.nodup_add, Multiset.disjoint_left]
    refine ⟨?_, hall.2, hnodup, fun {x} hx hxC => ?_⟩
    · rintro (hmem | hmem)
      · exact hall.1 hmem
      · have hlt := (ho.bounds output (Multiset.mem_cons_self _ _)).2
        exact Nat.not_lt_of_le (hbounds _ hmem).1 hlt
    · exact Nat.not_lt_of_le (hbounds x hxC).1 (ho.bounds x (Multiset.mem_cons_of_mem hx)).2
  · intro b hb
    rw [← Multiset.cons_add, Multiset.mem_add] at hb
    rcases hb with hb | hb
    · exact ⟨ho.old.trans (hgrown.bounds b hb).1, (hgrown.bounds b hb).2⟩
    · exact ⟨ho.keeps.size.trans (hbounds b hb).1, (hbounds b hb).2⟩

/-- The rules leave all cells before `start` alone, and the output as traced. -/
theorem rules_spec (hrealm : HasRealm B) (hrow : Given B .row j row)
    (hload : List.Forall₂ (RuleLoadsAs fun v k => Given B .mapping k v) loaded rules)
    (hscalar : ∀ rule ∈ rules, rule.expression.MapsToScalars)
    {t : Except MappingError (List (String × Piece Origin))}
    (ho : Output B start output h parts ms A) (htrace : traceRules text j rules parts = some t) :
    h.size ≤ (applyRulesLoaded text row output loaded h).2.size ∧
      (∀ b < start, (applyRulesLoaded text row output loaded h).2.get b = h.get b) ∧
      Yields (fun _ parts' => ∃ ms' A',
        Output B start output (applyRulesLoaded text row output loaded h).2 parts' ms' A')
        (applyRulesLoaded text row output loaded h).1 t := by
  induction hload generalizing h parts ms A t with
  | nil =>
      cases htrace
      exact ⟨Nat.le_refl _, fun _ _ => rfl, ms, A, ho⟩
  | @cons l rule loaded rules hfirst hload ih =>
      have hscalar' : ∀ r ∈ rules, r.expression.MapsToScalars := fun r hr =>
        hscalar r (List.mem_cons_of_mem _ hr)
      obtain ⟨hgrown, hyields⟩ := expression_spec text hrealm hrow l.expression rule.expression h
        ho.keeps hfirst.2 (hscalar rule List.mem_cons_self)
      have hstart : start ≤ h.size :=
        ((ho.bounds output (Multiset.mem_cons_self _ _)).1.trans_lt
          (ho.bounds output (Multiset.mem_cons_self _ _)).2).le
      rw [traceRules] at htrace
      rw [applyRulesLoaded, hfirst.1]
      generalize evaluateLoaded text row l.expression h = r at hgrown hyields ⊢
      generalize traceExpression text j rule.expression = e at hyields htrace
      obtain ⟨result, h₁⟩ := r
      dsimp only at hgrown hyields htrace ⊢
      cases result with
      | error err =>
          cases e with
          | ok part => cases hyields
          | error err' =>
              cases htrace
              exact ⟨hgrown.size, fun b hb => hgrown.keeps b (hb.trans_le hstart), hyields⟩
      | ok value =>
          cases e with
          | error err' => cases hyields
          | ok part =>
              cases hyields with
              | none =>
                  obtain ⟨hsize, hframe, hout⟩ := ih hscalar' (ho.grow hgrown) htrace
                  refine ⟨hgrown.size.trans hsize, fun b hb => ?_, hout⟩
                  rw [hframe b hb, hgrown.keeps b (hb.trans_le hstart)]
              | @some v p hmade =>
                  obtain ⟨C, hC, hw⟩ := ho.writable hgrown hmade
                  have hold : ∀ b < start, b ≠ output ∧ b ∉ A ∧ b ∉ C := by
                    intro b hb
                    have hA : ∀ x ∈ output ::ₘ A, b ≠ x := fun x hx =>
                      Nat.ne_of_lt (hb.trans_le (ho.bounds x hx).1)
                    refine ⟨hA _ (Multiset.mem_cons_self _ _), fun hmem => ?_, fun hmem => ?_⟩
                    · exact hA b (Multiset.mem_cons_of_mem hmem) rfl
                    · exact Nat.not_lt_of_le (hstart.trans (hC b hmem).1) hb
                  have hframe₁ : ∀ {r : Except MappingError Unit × Heap}
                      {u : Except MappingError (List (String × Piece Origin))},
                      Written B h₁ output A C r u → ∀ b < start, r.2.get b = h.get b := by
                    intro r u hwritten b hb
                    obtain ⟨hne, hbA, hbC⟩ := hold b hb
                    have hlt := hb.trans_le hstart
                    rw [hwritten.frame b (hlt.trans_le hgrown.size) hne hbA hbC]
                    exact hgrown.keeps b hlt
                  dsimp only at htrace ⊢
                  cases htarget : traceTarget rule.target.path rule.target.parts p parts with
                  | none =>
                      rw [htarget] at htrace
                      cases htrace
                  | some u =>
                      rw [htarget] at htrace
                      have hwritten := setTarget_spec hrealm.keeps
                        (fun _ hp => MappingTarget.isTargetName_of_mem hp) hw htarget
                      generalize setTargetLoaded rule.target.path rule.target.parts v output h₁ = r
                        at hwritten ⊢
                      have hyields := hwritten.yields
                      have hsize₁ := hgrown.size.trans hwritten.size
                      have hframe₂ := hframe₁ hwritten
                      obtain ⟨result, h₂⟩ := r
                      cases result with
                      | error err =>
                          cases u with
                          | ok parts' => cases hyields
                          | error err' =>
                              cases htrace
                              exact ⟨hsize₁, hframe₂, hyields⟩
                      | ok _ =>
                          cases u with
                          | error err' => cases hyields
                          | ok parts' =>
                              obtain ⟨ms', A', hget, hmembers, hnodup, hcells⟩ := hyields
                              have hout : Output B start output h₂ parts' ms' A' := by
                                have hbase : ∀ b < B.heap.size, h₂.get b = B.heap.get b := by
                                  intro b hb
                                  rw [hframe₂ b (hb.trans_le ho.old), ho.keeps.keeps b hb]
                                refine ⟨⟨ho.keeps.size.trans hsize₁, hbase⟩, ho.old, hget,
                                  hmembers, hnodup, fun b hb => ?_⟩
                                have hsize₂ : h₁.size ≤ h₂.size := hwritten.size
                                have hbound : ∀ b ∈ output ::ₘ A, start ≤ b ∧ b < h₂.size :=
                                  fun b hb =>
                                    ⟨(ho.bounds b hb).1, (ho.bounds b hb).2.trans_le hsize₁⟩
                                rcases Multiset.mem_cons.mp hb with rfl | hb
                                · exact hbound b (Multiset.mem_cons_self _ _)
                                · rcases hcells b hb with hb | hb | hb
                                  · exact hbound b (Multiset.mem_cons_of_mem hb)
                                  · exact ⟨hstart.trans (hC b hb).1, (hC b hb).2.trans_le hsize₂⟩
                                  · exact ⟨hstart.trans (hgrown.size.trans hb.1), hb.2⟩
                              obtain ⟨hsize, hframe, hdone⟩ := ih hscalar' hout htrace
                              refine ⟨hsize₁.trans hsize, fun b hb => ?_, hdone⟩
                              exact (hframe b hb).trans (hframe₂ b hb)

/-- A row leaves the heap as it was, and its result is as traced. -/
theorem row_spec (hrealm : HasRealm B) (hkeeps : Keeps B.heap h) (hrow : Given B .row j row)
    (hload : List.Forall₂ (RuleLoadsAs fun v k => Given B .mapping k v) loaded rules)
    (hscalar : ∀ rule ∈ rules, rule.expression.MapsToScalars)
    {t : Except MappingError (List (String × Piece Origin))}
    (htrace : traceRow text rules j = some t) :
    Keeps h (mapRowLoaded text loaded row h).2 ∧
      Yields (fun v parts => MadeOf B h.size (mapRowLoaded text loaded row h).2 v (.made parts))
        (mapRowLoaded text loaded row h).1 t := by
  have hout : Output B h.size h.size (h.alloc (.object [])) [] [] 0 := by
    refine ⟨hkeeps.trans (keeps_alloc h _), hkeeps.size, Heap.get_alloc_self h _, ⟨rfl, rfl⟩,
      Multiset.nodup_singleton _, fun b hb => ?_⟩
    rw [Multiset.mem_singleton.mp hb, Heap.size_alloc]
    exact ⟨Nat.le_refl _, Nat.lt_succ_self _⟩
  obtain ⟨hsize, hframe, hyields⟩ := rules_spec hrealm hrow hload hscalar hout htrace
  rw [Heap.size_alloc] at hsize
  have hcells : ∀ b < h.size,
      (applyRulesLoaded text row h.size loaded (h.alloc (.object []))).2.get b = h.get b := by
    intro b hb
    rw [hframe b hb, Heap.get_alloc_of_lt _ hb]
  rw [mapRowLoaded]
  generalize applyRulesLoaded text row h.size loaded (h.alloc (.object [])) = r
    at hsize hcells hyields ⊢
  obtain ⟨result, h'⟩ := r
  have hgrown : Keeps h h' := ⟨(Nat.le_succ _).trans hsize, hcells⟩
  cases result with
  | error err =>
      cases t with
      | error err' => exact ⟨hgrown, hyields⟩
      | ok parts => cases hyields
  | ok _ =>
      cases t with
      | error err' => cases hyields
      | ok parts =>
          obtain ⟨ms, A, ho⟩ := hyields
          refine ⟨hgrown, h.size ::ₘ A, ?_, ho.nodup, ho.bounds⟩
          exact ⟨h.size, ms, A, rfl, rfl, ho.get, ho.members⟩

end Rows

section Loading

variable {h h' h'' : Heap} {v : Value} {j : Json}

/-- The value was loaded between two heaps, and stands for the JSON. -/
structure LoadedIn (h h' : Heap) (v : Value) (j : Json) : Prop where
  reads : Reads h' v j
  inside : v.In (newCells h h')

/-- What was loaded stays so while the heap grows. -/
theorem LoadedIn.grow (hloaded : LoadedIn h h' v j) (hgrown : Grows h h') (hkeeps : Keeps h' h'') :
    LoadedIn h h'' v j where
  reads := hloaded.reads.congr hgrown.region hloaded.inside
    (fun a ha => hkeeps.keeps a ha.2) hkeeps.size
  inside := hloaded.inside.mono (newCells_subset_left hkeeps.size)

/-- What was loaded since some point was loaded since an earlier one. -/
theorem LoadedIn.widen (hloaded : LoadedIn h' h'' v j) (hsize : h.size ≤ h'.size) :
    LoadedIn h h'' v j where
  reads := hloaded.reads
  inside := hloaded.inside.mono (newCells_subset_right hsize)

/-- Options that are related are so by every weaker relation. -/
theorem rel_imp {α β : Type} {R S : α → β → Prop} (himp : ∀ a b, R a b → S a b) {a : Option α}
    {b : Option β} (h : Option.Rel R a b) : Option.Rel S a b := by
  cases h with
  | none => exact .none
  | some hab => exact .some (himp _ _ hab)

mutual

/-- An expression that was loaded is so under every weaker relation of values.
-/
theorem LoadsAs.mono {G G' : Value → Json → Prop} (hmono : ∀ v j, G v j → G' v j) :
    ∀ (l : LoadedExpression) (e : MappingExpression), LoadsAs G l e → LoadsAs G' l e
  | .leaf _, .leaf _, hload => by
      rw [LoadsAs] at hload ⊢
      obtain ⟨hsettings, hconst, hdefault⟩ := hload
      exact ⟨hsettings, rel_imp hmono hconst, rel_imp hmono hdefault⟩
  | .object loaded, .object children, hload => by
      rw [LoadsAs] at hload ⊢
      exact ChildrenLoadAs.mono hmono loaded children hload
  | .leaf _, .object _, hload => by simp only [LoadsAs] at hload
  | .object _, .leaf _, hload => by simp only [LoadsAs] at hload

/-- The same of the expressions below an object. -/
theorem ChildrenLoadAs.mono {G G' : Value → Json → Prop} (hmono : ∀ v j, G v j → G' v j) :
    ∀ (loaded : List (String × LoadedExpression)) (children : List (String × MappingExpression)),
      ChildrenLoadAs G loaded children → ChildrenLoadAs G' loaded children
  | [], [], _ => by
      rw [ChildrenLoadAs]
      exact trivial
  | (_, l) :: loaded, (_, e) :: children, hload => by
      rw [ChildrenLoadAs] at hload ⊢
      exact ⟨hload.1, LoadsAs.mono hmono l e hload.2.1,
        ChildrenLoadAs.mono hmono loaded children hload.2.2⟩
  | [], _ :: _, hload => by simp only [ChildrenLoadAs] at hload
  | _ :: _, [], hload => by simp only [ChildrenLoadAs] at hload

end

/-- An optional value is loaded into new cells. -/
theorem loadOption_spec (j : Option Json) (h : Heap) : Grows h (loadOption j h).2 ∧
    Option.Rel (LoadedIn h (loadOption j h).2) (loadOption j h).1 j := by
  cases j with
  | none => exact ⟨Grows.refl h, .none⟩
  | some j =>
      have hload := load_spec j h
      exact ⟨hload.toGrows, .some ⟨reads_load j h, hload.inside _ List.mem_cons_self⟩⟩

mutual

/-- An expression is loaded into new cells, its constants and defaults with it.
-/
theorem loadExpression_spec : ∀ (e : MappingExpression) (h : Heap),
    Grows h (loadExpression e h).2 ∧
      LoadsAs (LoadedIn h (loadExpression e h).2) (loadExpression e h).1 e
  | .leaf e, h => by
      obtain ⟨hgrown, hconst⟩ := loadOption_spec e.const h
      rw [loadExpression]
      dsimp only
      generalize loadOption e.const h = r at hgrown hconst ⊢
      obtain ⟨const, h₁⟩ := r
      dsimp only at hgrown hconst ⊢
      obtain ⟨hgrown', hdefault⟩ := loadOption_spec e.default h₁
      generalize loadOption e.default h₁ = r at hgrown' hdefault ⊢
      obtain ⟨default, h₂⟩ := r
      dsimp only at hgrown' hdefault ⊢
      refine ⟨hgrown.trans hgrown', ?_⟩
      rw [LoadsAs]
      refine ⟨rfl, rel_imp (fun v j hv => hv.grow hgrown hgrown'.toKeeps) hconst, ?_⟩
      exact rel_imp (fun v j hv => hv.widen hgrown.size) hdefault
  | .object children, h => by
      obtain ⟨hgrown, hload⟩ := loadChildren_spec children h
      rw [loadExpression]
      dsimp only
      generalize loadChildren children h = r at hgrown hload ⊢
      obtain ⟨loaded, h'⟩ := r
      refine ⟨hgrown, ?_⟩
      rw [LoadsAs]
      exact hload

/-- The same of the expressions below an object. -/
theorem loadChildren_spec : ∀ (children : List (String × MappingExpression)) (h : Heap),
    Grows h (loadChildren children h).2 ∧
      ChildrenLoadAs (LoadedIn h (loadChildren children h).2) (loadChildren children h).1 children
  | [], h => by
      rw [loadChildren, ChildrenLoadAs]
      exact ⟨Grows.refl h, trivial⟩
  | (name, child) :: rest, h => by
      obtain ⟨hgrown, hfirst⟩ := loadExpression_spec child h
      rw [loadChildren]
      dsimp only
      generalize loadExpression child h = r at hgrown hfirst ⊢
      obtain ⟨first, h₁⟩ := r
      dsimp only at hgrown hfirst ⊢
      obtain ⟨hgrown', hrest⟩ := loadChildren_spec rest h₁
      generalize loadChildren rest h₁ = r at hgrown' hrest ⊢
      obtain ⟨loaded, h₂⟩ := r
      dsimp only at hgrown' hrest ⊢
      refine ⟨hgrown.trans hgrown', ?_⟩
      rw [ChildrenLoadAs]
      refine ⟨rfl, hfirst.mono fun v j hv => hv.grow hgrown hgrown'.toKeeps, ?_⟩
      exact hrest.mono fun v j hv => hv.widen hgrown.size

end

/-- The rules of a mapping are loaded one after another into new cells. -/
theorem loadRules_spec (rules : List MappingRule) (h : Heap) : Grows h (loadRules rules h).2 ∧
    List.Forall₂ (RuleLoadsAs (LoadedIn h (loadRules rules h).2)) (loadRules rules h).1 rules := by
  induction rules generalizing h with
  | nil => exact ⟨Grows.refl h, .nil⟩
  | cons rule rules ih =>
      obtain ⟨hgrown, hfirst⟩ := loadExpression_spec rule.expression h
      rw [loadRules]
      dsimp only
      generalize loadExpression rule.expression h = r at hgrown hfirst ⊢
      obtain ⟨first, h₁⟩ := r
      dsimp only at hgrown hfirst ⊢
      obtain ⟨hgrown', hrest⟩ := ih h₁
      generalize loadRules rules h₁ = r at hgrown' hrest ⊢
      obtain ⟨loaded, h₂⟩ := r
      dsimp only at hgrown' hrest ⊢
      refine ⟨hgrown.trans hgrown', .cons ⟨rfl, ?_⟩ (hrest.imp fun l rule hl => ⟨hl.1, ?_⟩)⟩
      · exact hfirst.mono fun v j hv => hv.grow hgrown hgrown'.toKeeps
      · exact hl.2.mono fun v j hv => hv.widen hgrown.size

/-- A row in the heap, with the cells it was loaded into. -/
structure LoadedRow where
  value : Value
  json : Json
  cells : Set Nat

/-- The cells of a row. -/
structure LoadedRow.IsLoaded (r : LoadedRow) (h h' : Heap) : Prop where
  reads : Reads h' r.value r.json
  inside : r.value.In r.cells
  region : Region h' r.cells
  new : r.cells ⊆ newCells h h'

/-- Rows are loaded into cells of their own. -/
theorem loadItems_rows (rows : List Json) (h : Heap) : Grows h (loadItems rows h).2 ∧
    ∃ loaded : List LoadedRow, loaded.map (·.value) = (loadItems rows h).1 ∧
      loaded.map (·.json) = rows ∧ loaded.Pairwise (fun r r' => Disjoint r.cells r'.cells) ∧
      ∀ r ∈ loaded, r.IsLoaded h (loadItems rows h).2 := by
  induction rows generalizing h with
  | nil => exact ⟨Grows.refl h, [], rfl, rfl, .nil, nofun⟩
  | cons row rows ih =>
      have hfirst := load_spec row h
      have hreads := reads_load row h
      rw [loadItems]
      dsimp only
      generalize load row h = r at hfirst hreads ⊢
      obtain ⟨v, h₁⟩ := r
      dsimp only at hfirst hreads ⊢
      obtain ⟨hgrown', loaded, hvalues, hjsons, hapart, hloaded⟩ := ih h₁
      generalize loadItems rows h₁ = r at hgrown' hvalues hloaded ⊢
      obtain ⟨values, h₂⟩ := r
      dsimp only at hgrown' hvalues hloaded ⊢
      have hgrown := hfirst.toGrows
      have hinside := hfirst.inside v List.mem_cons_self
      have hregion : ∀ a ∈ newCells h h₁, h₂.get a = h₁.get a := fun a ha =>
        hgrown'.keeps a ha.2
      refine ⟨hgrown.trans hgrown', ⟨v, row, newCells h h₁⟩ :: loaded, ?_, ?_, ?_, ?_⟩
      · rw [List.map_cons, hvalues]
      · rw [List.map_cons, hjsons]
      · refine List.pairwise_cons.mpr ⟨fun r hr => ?_, hapart⟩
        refine Set.disjoint_left.mpr fun a ha ha' => ?_
        exact Nat.not_lt_of_le ((hloaded r hr).new ha').1 ha.2
      · intro r hr
        rcases List.mem_cons.mp hr with rfl | hr
        · refine ⟨hreads.congr hgrown.region hinside hregion hgrown'.size, hinside,
            hgrown.region.congr hregion, newCells_subset_left hgrown'.size⟩
        · have hr' := hloaded r hr
          exact ⟨hr'.reads, hr'.inside, hr'.region,
            hr'.new.trans (newCells_subset_right hgrown.size)⟩

end Loading

section Runs

/-- A row mapped on the freshly loaded mapping. -/
def mapRowAlone (text : MappingFunctions) (rules : List MappingRule) (row : Json) :
    Except MappingError Value × Heap :=
  let (loaded, h₁) := loadRules rules realm
  let (value, h₂) := load row h₁
  mapRowLoaded text loaded value h₂

/-- The heap with the mapping and the rows. -/
def importHeap (rules : List MappingRule) (rows : List Json) : Heap :=
  (loadItems rows (loadRules rules realm).2).2

/-- The first `n` rows mapped, of an import with more. -/
def mapRowsOf (text : MappingFunctions) (rules : List MappingRule) (rows : List Json) (n : Nat) :
    List (Except MappingError Value) × Heap :=
  mapRowsLoaded text (loadRules rules realm).1 ((loadItems rows (loadRules rules realm).2).1.take n)
    (importHeap rules rows)

/-- The result of the k-th row. -/
def rowResult (text : MappingFunctions) (rules : List MappingRule) (rows : List Json) (n k : Nat) :
    Option (Except MappingError Value) :=
  (mapRowsOf text rules rows n).1[k]?

/-- The mapping, the rows and what all objects inherit are as they were; no two
results lead to one cell, and none to a cell of the mapping or to one that is
inherited; and every result is, then still, what
`mapRow` computes and what mapping the row alone gives. -/
structure RowsIndependent (text : MappingFunctions) (rules : List MappingRule) (rows : List Json)
    (n : Nat) : Prop where
  unchanged : ∀ a < (importHeap rules rows).size,
    (mapRowsOf text rules rows n).2.get a = (importHeap rules rows).get a
  apart : ∀ i k v w, i ≠ k → rowResult text rules rows n i = some (.ok v) →
    rowResult text rules rows n k = some (.ok w) →
    ∀ a, Reaches (mapRowsOf text rules rows n).2 v a → ¬ Reaches (mapRowsOf text rules rows n).2 w a
  own : ∀ i v, rowResult text rules rows n i = some (.ok v) →
    ∀ a, Reaches (mapRowsOf text rules rows n).2 v a → (loadRules rules realm).2.size ≤ a
  same : ∀ k row, (rows.take n)[k]? = some row → ∃ result,
    rowResult text rules rows n k = some result ∧
    Yields (fun v o => StandsFor (mapRowsOf text rules rows n).2 v (.obj o)) result
      (mapRow text rules row) ∧
    Yields (fun v w => ∃ j, StandsFor (mapRowsOf text rules rows n).2 v j ∧
      StandsFor (mapRowAlone text rules row).2 w j) result (mapRowAlone text rules row).1

variable {text : MappingFunctions} {rules : List MappingRule} {loaded : List LoadedRule}
  {mapping : Set Nat} {h₁ h₂ h h' h'' : Heap}

/-- The mapping in the heap, with its cells. -/
structure MappingLoaded (rules : List MappingRule) (loaded : List LoadedRule)
    (mapping : Set Nat) (h : Heap) : Prop where
  load : List.Forall₂ (RuleLoadsAs fun v j => Reads h v j ∧ v.In mapping) loaded rules
  region : Region h mapping
  below : ∀ a ∈ mapping, a < h.size
  realm : Keeps realm h

/-- Behind the load the mapping stands in cells of its own, which no row may
write. -/
theorem mappingLoaded (rules : List MappingRule) (hkeeps : Keeps (loadRules rules realm).2 h) :
    MappingLoaded rules (loadRules rules realm).1 (newCells realm (loadRules rules realm).2) h := by
  obtain ⟨hgrown, hload⟩ := loadRules_spec rules realm
  have hagree : ∀ a ∈ newCells realm (loadRules rules realm).2, h.get a = (loadRules rules realm).2.get a :=
    fun a ha => hkeeps.keeps a ha.2
  refine ⟨hload.imp fun l rule hl => ⟨hl.1, hl.2.mono fun v j hv => ⟨?_, hv.inside⟩⟩,
    hgrown.region.congr hagree, fun a ha => ha.2.trans_le hkeeps.size, hgrown.toKeeps.trans hkeeps⟩
  exact hv.reads.congr hgrown.region hv.inside hagree hkeeps.size

/-- A mapped row, and the cells its result leads to. -/
structure RowOutcome where
  row : LoadedRow
  result : Except MappingError Value
  cells : Set Nat

/-- The result reads as it should and has cells of its row and new ones. -/
structure RowOutcome.IsMapped (text : MappingFunctions) (rules : List MappingRule) (h h' : Heap)
    (m : RowOutcome) : Prop where
  yields : Yields (fun v o => StandsFor h' v (.obj o)) m.result (mapRow text rules m.row.json)
  region : Region h' m.cells
  inside : ∀ v, m.result = .ok v → v.In m.cells
  within : ∀ a ∈ m.cells, a < h'.size ∧ (a ∈ m.row.cells ∨ h.size ≤ a)

/-- A row that was mapped reads the same in a heap that keeps its cells. -/
theorem RowOutcome.IsMapped.keeps {m : RowOutcome} (hm : m.IsMapped text rules h h')
    (hkeeps : Keeps h' h'') : m.IsMapped text rules h h'' := by
  have hagree : ∀ a ∈ m.cells, h''.get a = h'.get a := fun a ha =>
    hkeeps.keeps a (hm.within a ha).1
  refine ⟨?_, hm.region.congr hagree, hm.inside, fun a ha => ?_⟩
  · have hyields := hm.yields
    have hinside := hm.inside
    generalize m.result = result at hyields hinside ⊢
    generalize mapRow text rules m.row.json = expected at hyields ⊢
    cases result with
    | error err =>
        cases expected with
        | error err' => exact hyields
        | ok o => exact hyields
    | ok v =>
        cases expected with
        | error err => exact hyields
        | ok o => exact StandsFor.congr hyields hm.region (hinside v rfl) hagree
  · exact ⟨(hm.within a ha).1.trans_le hkeeps.size, (hm.within a ha).2⟩

/-- No reference leads out of the realm. -/
theorem region_realm (hrealm : Keeps realm h) : Region h (newCells {} realm) := by
  intro a c ha hget v hv
  rw [hrealm.keeps a ha.2, Heap.get, realm] at hget
  cases a with
  | zero =>
      cases hget
      cases hv
  | succ n =>
      rw [List.getElem?_cons_succ, List.getElem?_map, Option.map_eq_some_iff] at hget
      obtain ⟨name, -, rfl⟩ := hget
      rw [List.mem_singleton.mp hv]
      exact prim_in _ _

/-- One row. -/
theorem mapRow_step (hmapping : MappingLoaded rules loaded mapping h₂)
    (hstart : realm.size ≤ h₁.size)
    (hscalar : ∀ rule ∈ rules, rule.expression.MapsToScalars) {r : LoadedRow}
    (hr : r.IsLoaded h₁ h₂) (hkeeps : Keeps h₂ h) (hcond : KeepsApart text rules r.json) :
    Keeps h (mapRowLoaded text loaded r.value h).2 ∧ ∃ cells,
      RowOutcome.IsMapped text rules h (mapRowLoaded text loaded r.value h).2
        ⟨r, (mapRowLoaded text loaded r.value h).1, cells⟩ := by
  let B : Base Origin := {
    heap := h₂
    region := fun origin => match origin with
      | .mapping => mapping
      | .row => r.cells
      | .realm => newCells {} realm
    closed := fun origin => match origin with
      | .mapping => hmapping.region
      | .row => hr.region
      | .realm => region_realm hmapping.realm
    below := fun origin => match origin with
      | .mapping => hmapping.below
      | .row => fun a ha => (hr.new ha).2
      | .realm => fun a ha => ha.2.trans_le hmapping.realm.size }
  have hrealm : HasRealm B := by
    refine ⟨hmapping.realm, rfl, fun hproto => ?_⟩
    exact Nat.not_lt_of_le (hstart.trans (hr.new hproto).1) protoCell_lt
  obtain ⟨t, htrace, honly⟩ := hcond
  have hload : List.Forall₂ (RuleLoadsAs fun v k => Given B .mapping k v) loaded rules :=
    hmapping.load.imp fun l rule hl => ⟨hl.1, hl.2.mono fun v j hv => ⟨hv.1, hv.2⟩⟩
  obtain ⟨hgrown, hyields⟩ := row_spec (B := B) hrealm hkeeps ⟨hr.reads, hr.inside⟩ hload hscalar htrace
  have hcomputed : t.map membersJson = mapRow text rules r.json := traceRules_json htrace
  refine ⟨hgrown, ?_⟩
  generalize mapRowLoaded text loaded r.value h = result at hgrown hyields ⊢
  obtain ⟨result, h'⟩ := result
  have hempty : ∀ err, mapRow text rules r.json = .error err → result = .error err →
      RowOutcome.IsMapped text rules h h' ⟨r, result, ∅⟩ := by
    rintro err hmap rfl
    refine ⟨?_, nofun, nofun, nofun⟩
    rw [hmap]
    rfl
  cases result with
  | error err =>
      cases t with
      | ok parts => cases hyields
      | error err' =>
          cases (hyields : err = err')
          exact ⟨∅, hempty err hcomputed.symm rfl⟩
  | ok v =>
      cases t with
      | error err' => cases hyields
      | ok parts =>
          obtain ⟨A, hrep, -, hbounds⟩ := hyields
          have hall : Keeps B.heap h' := hkeeps.trans hgrown
          have hpart : (Piece.made parts).OnlyFrom (· = Origin.row) := honly parts rfl
          refine ⟨cellsOf B (· = .row) A, ?_, hrep.closed hall hpart, ?_, ?_⟩
          · rw [← hcomputed]
            exact hrep.stands hall
          · rintro _ ⟨⟩
            exact (hrep.leads hall hpart).1
          · rintro a (ha | ⟨_, rfl, ha⟩)
            · exact ⟨(hbounds a ha).2, .inr (hbounds a ha).1⟩
            · exact ⟨(B.below .row a ha).trans_le hall.size, .inl ha⟩

/-- Any number of rows. -/
theorem mapRows_run (hmapping : MappingLoaded rules loaded mapping h₂)
    (hstart : realm.size ≤ h₁.size)
    (hscalar : ∀ rule ∈ rules, rule.expression.MapsToScalars) {rows : List LoadedRow}
    (hrows : ∀ r ∈ rows, r.IsLoaded h₁ h₂ ∧ KeepsApart text rules r.json)
    (hapart : rows.Pairwise fun r r' => Disjoint r.cells r'.cells) (hkeeps : Keeps h₂ h) :
    Keeps h (mapRowsLoaded text loaded (rows.map (·.value)) h).2 ∧ ∃ mapped : List RowOutcome,
      mapped.map (·.row) = rows ∧
      mapped.map (·.result) = (mapRowsLoaded text loaded (rows.map (·.value)) h).1 ∧
      mapped.Pairwise (fun m m' => Disjoint m.cells m'.cells) ∧
      ∀ m ∈ mapped,
        m.IsMapped text rules h (mapRowsLoaded text loaded (rows.map (·.value)) h).2 := by
  induction rows generalizing h with
  | nil => exact ⟨Keeps.refl h, [], rfl, rfl, .nil, nofun⟩
  | cons r rows ih =>
      obtain ⟨hfirst, hrest⟩ := List.pairwise_cons.mp hapart
      obtain ⟨hr, hcond⟩ := hrows r List.mem_cons_self
      obtain ⟨hgrown, cells, hmapped⟩ := mapRow_step hmapping hstart hscalar hr hkeeps hcond
      rw [List.map_cons, mapRowsLoaded]
      dsimp only
      generalize mapRowLoaded text loaded r.value h = result at hgrown hmapped ⊢
      obtain ⟨result, g⟩ := result
      dsimp only at hgrown hmapped ⊢
      obtain ⟨hgrown', mapped, hrow, hresult, hdisjoint, hall⟩ :=
        ih (fun r' hr' => hrows r' (List.mem_cons_of_mem _ hr')) hrest (hkeeps.trans hgrown)
      generalize mapRowsLoaded text loaded (rows.map (·.value)) g = results
        at hgrown' hresult hall ⊢
      obtain ⟨results, g'⟩ := results
      dsimp only at hgrown' hresult hall ⊢
      refine ⟨hgrown.trans hgrown', ⟨r, result, cells⟩ :: mapped, ?_, ?_, ?_, ?_⟩
      · rw [List.map_cons, hrow]
      · rw [List.map_cons, hresult]
      · refine List.pairwise_cons.mpr ⟨fun m hm => Set.disjoint_left.mpr fun a ha ha' => ?_,
          hdisjoint⟩
        -- A cell of a later result is of its row, or newer than this result.
        obtain ⟨hlt, hmine⟩ := hmapped.within a ha
        rcases ((hall m hm).within a ha').2 with hother | hnew
        · have hmem : m.row ∈ rows := hrow ▸ List.mem_map_of_mem hm
          have hold := ((hrows m.row (List.mem_cons_of_mem _ hmem)).1.new hother).2
          rcases hmine with hmine | hmine
          · exact Set.disjoint_left.mp (hfirst m.row hmem) hmine hother
          · exact Nat.not_lt_of_le (hkeeps.size.trans hmine) hold
        · exact Nat.not_lt_of_le hnew hlt
      · intro m hm
        rcases List.mem_cons.mp hm with rfl | hm
        · exact hmapped.keeps hgrown'
        · have hm' := hall m hm
          refine ⟨hm'.yields, hm'.region, hm'.inside, fun a ha => ?_⟩
          exact ⟨(hm'.within a ha).1, (hm'.within a ha).2.imp_right hgrown.size.trans⟩

/-- A row that is mapped alone gives what `mapRow` computes. -/
theorem mapRowAlone_yields (hscalar : ∀ rule ∈ rules, rule.expression.MapsToScalars) {row : Json}
    (hcond : KeepsApart text rules row) :
    Yields (fun v o => StandsFor (mapRowAlone text rules row).2 v (.obj o))
      (mapRowAlone text rules row).1 (mapRow text rules row) := by
  have hload := load_spec row (loadRules rules realm).2
  have hreads := reads_load row (loadRules rules realm).2
  have hmapping := mappingLoaded rules hload.toKeeps
  have hrow : LoadedRow.IsLoaded ⟨(load row (loadRules rules realm).2).1, row,
      newCells (loadRules rules realm).2 (load row (loadRules rules realm).2).2⟩
      (loadRules rules realm).2 (load row (loadRules rules realm).2).2 :=
    ⟨hreads, hload.inside _ List.mem_cons_self, hload.region, le_refl _⟩
  have hstart := (loadRules_spec rules realm).1.size
  obtain ⟨-, cells, hmapped⟩ := mapRow_step hmapping hstart hscalar hrow (Keeps.refl _) hcond
  exact hmapped.yields

/-- **Rows are mapped independently** as long as each keeps its result apart:
where no rule writes into an object it did not make, and a result holds objects
of its own row alone, every row gives what it gives alone, and no two results
lead to one cell. -/
theorem rows_independent {rows : List Json} {n : Nat}
    (hscalar : ∀ rule ∈ rules, rule.expression.MapsToScalars)
    (hcond : ∀ row ∈ rows.take n, KeepsApart text rules row) :
    RowsIndependent text rules rows n := by
  obtain ⟨hgrown, loadedRows, hvalues, hjsons, hapart, hloaded⟩ :=
    loadItems_rows rows (loadRules rules realm).2
  have hmapping := mappingLoaded rules hgrown.toKeeps
  have hrows : ∀ r ∈ loadedRows.take n, r.IsLoaded (loadRules rules realm).2 (importHeap rules rows) ∧
      KeepsApart text rules r.json := by
    intro r hr
    refine ⟨hloaded r (List.mem_of_mem_take hr), hcond r.json ?_⟩
    rw [← hjsons, ← List.map_take]
    exact List.mem_map_of_mem hr
  have hstart := (loadRules_spec rules realm).1.size
  obtain ⟨hkeeps, mapped, hrow, hresult, hdisjoint, hall⟩ := mapRows_run hmapping hstart hscalar hrows
    (hapart.sublist (List.take_sublist n loadedRows)) (Keeps.refl _)
  rw [List.map_take, hvalues] at hkeeps hresult hall
  -- The result at an index is that of a mapped row.
  have hget : ∀ {k : Nat} {result : Except MappingError Value},
      rowResult text rules rows n k = some result →
      ∃ m, mapped[k]? = some m ∧ m.result = result := by
    intro k result hk
    rw [rowResult, mapRowsOf, importHeap, ← hresult, List.getElem?_map, Option.map_eq_some_iff] at hk
    exact hk
  constructor
  · exact fun a ha => hkeeps.keeps a ha
  · intro i k v w hne hi hk a hv hw
    obtain ⟨m, hm, hmv⟩ := hget hi
    obtain ⟨m', hm', hmw⟩ := hget hk
    have hin := (hall m (List.mem_of_getElem? hm))
    have hin' := (hall m' (List.mem_of_getElem? hm'))
    have ha := hin.region.reaches (hin.inside v hmv) hv
    have ha' := hin'.region.reaches (hin'.inside w hmw) hw
    obtain ⟨hi', rfl⟩ := List.getElem?_eq_some_iff.mp hm
    obtain ⟨hk', rfl⟩ := List.getElem?_eq_some_iff.mp hm'
    have hpairs := List.pairwise_iff_getElem.mp hdisjoint
    rcases Nat.lt_or_gt_of_ne hne with hlt | hlt
    · exact Set.disjoint_left.mp (hpairs i k hi' hk' hlt) ha ha'
    · exact Set.disjoint_left.mp (hpairs k i hk' hi' hlt) ha' ha
  · intro i v hi a hv
    obtain ⟨m, hm, hmv⟩ := hget hi
    have hmem := List.mem_of_getElem? hm
    have hin := hall m hmem
    have ha := hin.region.reaches (hin.inside v hmv) hv
    have hmrow : m.row ∈ loadedRows.take n := hrow ▸ List.mem_map_of_mem hmem
    rcases (hin.within a ha).2 with ha | ha
    · exact ((hrows m.row hmrow).1.new ha).1
    · exact hgrown.size.trans ha
  · intro k row hk
    have hmapped : ∃ m, mapped[k]? = some m ∧ m.row.json = row := by
      rw [← hjsons, ← List.map_take, ← hrow, List.map_map, List.getElem?_map,
        Option.map_eq_some_iff] at hk
      exact hk
    obtain ⟨m, hm, rfl⟩ := hmapped
    have hin := hall m (List.mem_of_getElem? hm)
    have hresult' : rowResult text rules rows n k = some m.result := by
      rw [rowResult, mapRowsOf, importHeap, ← hresult, List.getElem?_map, hm]
      rfl
    refine ⟨m.result, hresult', hin.yields, ?_⟩
    have halone := mapRowAlone_yields hscalar (hcond m.row.json (List.mem_of_getElem? hk))
    have hyields := hin.yields
    generalize mapRow text rules m.row.json = expected at halone hyields
    generalize mapRowAlone text rules m.row.json = alone at halone ⊢
    obtain ⟨result, h'⟩ := alone
    generalize m.result = result' at hyields ⊢
    cases expected with
    | error err =>
        cases result with
        | ok v => cases halone
        | error err' =>
            cases result' with
            | ok v => cases hyields
            | error err'' => exact (hyields : err'' = err).trans (halone : err' = err).symm
    | ok o =>
        cases result with
        | error err => cases halone
        | ok v =>
            cases result' with
            | error err => cases hyields
            | ok w => exact ⟨_, hyields, halone⟩

end Runs

section Examples

/-- A rule that copies a column. -/
def columnRule (target : MappingTarget) (column : String) : MappingRule :=
  ⟨target, .leaf { source := some column }⟩

/-- The target of the installation id. -/
def installationTarget : MappingTarget := ⟨"payload.installation_id", by decide⟩

/-- The payload starts from a constant object. -/
def sharedRules : List MappingRule := [
  constRule eventNameTarget "session_start",
  columnRule ⟨"event_id", by decide⟩ "id",
  columnRule ⟨"occurred_at", by decide⟩ "at",
  ⟨payloadTarget, .leaf { const := some (.obj []) }⟩,
  columnRule installationTarget "installation"]

/-- The constant object is merged into a payload that is there. -/
def mergedRules : List MappingRule := [
  columnRule installationTarget "installation",
  ⟨payloadTarget,
    .leaf { const := some (.obj [("subject_scope", .str "installation_level")]) }⟩]

/-- A row of an event and an installation. -/
def sessionRow (id installation : String) : Json :=
  .obj [("id", .str id), ("at", .str "2026-07-12T00:00:00.000Z"), ("installation", .str installation)]

/-- Two rows of different installations. -/
def sessionRows : List Json := [sessionRow "e1" "first", sessionRow "e2" "second"]

/-- Two rows of a mapping that merges its constant. -/
theorem mergedRules_independent : RowsIndependent plainFunctions mergedRules sessionRows 2 := by
  refine rows_independent (fun rule hrule => ?_) fun row hrow => ?_
  · simp only [mergedRules, List.mem_cons, List.not_mem_nil, or_false] at hrule
    rcases hrule with rfl | rfl <;> exact ⟨nofun, nofun⟩
  · have hkeeps : ∀ {row : Json} (installation : String),
        traceRow plainFunctions mergedRules row = some (.ok [("payload", .made [
          ("installation_id", .given .row (.str installation)),
          ("subject_scope", .given .mapping (.str "installation_level"))])]) →
        KeepsApart plainFunctions mergedRules row := by
      intro row installation htrace
      refine ⟨_, htrace, ?_⟩
      rintro parts ⟨⟩
      simp [MembersFrom, Piece.OnlyFrom, isContainer]
    have hrows : row = sessionRow "e1" "first" ∨ row = sessionRow "e2" "second" := by
      simpa only [sessionRows, List.take, List.mem_cons, List.not_mem_nil, or_false] using hrow
    rcases hrows with rfl | rfl
    · exact hkeeps "first" (by rfl)
    · exact hkeeps "second" (by rfl)

/-- A column that no row has and every object inherits. -/
def prototypeRules : List MappingRule := [
  columnRule payloadTarget "__proto__", columnRule installationTarget "installation"]

/-- The installation is written into `Object.prototype`, which is the payload of
every row. -/
example : ¬ KeepsApart plainFunctions prototypeRules (sessionRow "e1" "first") ∧
    (mapRowsOf plainFunctions prototypeRules sessionRows 2).2.get protoCell =
      some (.object [("installation_id", .prim (.str "second"))]) := by
  refine ⟨?_, by decide +kernel⟩
  rintro ⟨outcome, htrace, -⟩
  cases htrace

/-- The payload of the first result is the constant of the mapping, and has the
installation of the second row, since both rows were given the same object and
each wrote into it. -/
theorem sharedRules_leak :
    (∀ rule ∈ sharedRules, rule.expression.IsValid ∧ rule.expression.MapsToScalars) ∧
    (mapRowsOf plainFunctions sharedRules sessionRows 2).1.map Except.toOption =
      [some (.ref 15), some (.ref 16)] ∧
    (mapRowsOf plainFunctions sharedRules sessionRows 2).2.get 15 = some (.object [
      ("event_name", .prim (.str "session_start")), ("event_id", .prim (.str "e1")),
      ("occurred_at", .prim (.str "2026-07-12T00:00:00.000Z")), ("payload", .ref 12)]) ∧
    (mapRowsOf plainFunctions sharedRules sessionRows 1).2.get 12 =
      some (.object [("installation_id", .prim (.str "first"))]) ∧
    (mapRowsOf plainFunctions sharedRules sessionRows 2).2.get 12 =
      some (.object [("installation_id", .prim (.str "second"))]) ∧
    ¬ RowsIndependent plainFunctions sharedRules sessionRows 2 := by
  have hstart : (importHeap sharedRules sessionRows).get 12 = some (.object []) := by
    decide +kernel
  have hend : (mapRowsOf plainFunctions sharedRules sessionRows 2).2.get 12 =
      some (.object [("installation_id", .prim (.str "second"))]) := by
    decide +kernel
  refine ⟨?_, by decide +kernel, by decide +kernel, by decide +kernel, hend, fun h => ?_⟩
  · intro rule hrule
    simp only [sharedRules, List.mem_cons, List.not_mem_nil, or_false] at hrule
    rcases hrule with rfl | rfl | rfl | rfl | rfl <;>
      exact ⟨trivial, fun _ h => (by cases h), fun _ h => (by cases h)⟩
  · have hconst := h.unchanged 12 (by decide +kernel)
    rw [hstart, hend] at hconst
    cases hconst

end Examples

end OpenMasu
