import Mathlib.Data.Multiset.OrderedMonoid
import Mathlib.Data.Multiset.UnionInter
import OpenMasu.JsHeap
import OpenMasu.JsonPaths

/-!
# Objects of its own

A computation makes objects and puts values into them that were there before
it.  As long as it writes into objects of its own only, and no two members lead
to one of them, what it makes is a tree.

* `Piece` — an object that was made, or a value that was given, with its origin;
* `Base` — the heap before, with the cells the values of an origin lead to;
* `Rep`, `RepMembers` — the value of a part in the heap, with the made cells;
* `RepMembers.focus`, `RepMembers.add`, `RepMembers.assign` — one member
  changed, a new one, and all members of an object assigned;
* `Rep.stands`, `Rep.closed` — what the value stands for, and what it leads to.
-/

namespace OwnedObjects

open JsHeap JsonPaths
open OpenMasu (Json)

inductive Piece (ι : Type) where
  | given (origin : ι) (value : Json)
  | made (members : List (String × Piece ι))

variable {ι : Type}

section Parts

mutual

/-- The JSON of a part. -/
def Piece.json : Piece ι → Json
  | .given _ value => value
  | .made members => .obj (membersJson members)

def membersJson : List (String × Piece ι) → List (String × Json)
  | [] => []
  | (name, p) :: members => (name, p.json) :: membersJson members

end

def isObj : Json → Bool
  | .obj _ => true
  | _ => false

def Piece.isObject (p : Piece ι) : Bool := isObj p.json

/-- The members of an object; those of a given one have its origin. -/
def Piece.members : Piece ι → List (String × Piece ι)
  | .given origin (.obj members) => members.map fun m => (m.1, .given origin m.2)
  | .given _ _ => []
  | .made members => members

/-- An object or an array, which can be changed. -/
def isContainer : Json → Bool
  | .obj _ => true
  | .arr _ => true
  | _ => false

mutual

/-- All objects and arrays that were given have one of the origins. -/
def Piece.OnlyFrom (P : ι → Prop) : Piece ι → Prop
  | .given origin value => isContainer value = true → P origin
  | .made members => MembersFrom P members

def MembersFrom (P : ι → Prop) : List (String × Piece ι) → Prop
  | [] => True
  | (_, p) :: members => p.OnlyFrom P ∧ MembersFrom P members

end

/-- The members of a piece are read one by one. -/
theorem membersJson_eq (members : List (String × Piece ι)) :
    membersJson members = members.map fun m => (m.1, m.2.json) := by
  induction members with
  | nil => rfl
  | cons m members ih => rw [membersJson, List.map_cons, ih]

/-- Members that were given are read as they are. -/
theorem membersJson_given (origin : ι) (members : List (String × Json)) :
    membersJson (members.map fun m => (m.1, Piece.given origin m.2)) = members := by
  rw [membersJson_eq, List.map_map]
  exact List.map_id _

/-- The members of an object have its JSON. -/
theorem Piece.members_json {p : Piece ι} (h : p.isObject = true) :
    p.json = .obj (membersJson p.members) := by
  match p, h with
  | .made members, _ => rfl
  | .given origin (.obj members), _ => rw [Piece.members, membersJson_given, Piece.json]

end Parts

section Representation

/-- The heap before, with the cells that values of an origin lead to. -/
structure Base (ι : Type) where
  heap : Heap
  region : ι → Set Nat
  closed : ∀ i, Region heap (region i)
  below : ∀ i, ∀ a ∈ region i, a < heap.size

/-- A value of an origin, and what it stands for. -/
structure Given (B : Base ι) (origin : ι) (j : Json) (v : Value) : Prop where
  reads : Reads B.heap v j
  inside : v.In (B.region origin)

mutual

/-- A value of the heap is a part.  `A` are the cells made for it, one as often
as it is referred to. -/
def Rep (B : Base ι) (h : Heap) : Piece ι → Value → Multiset Nat → Prop
  | .given origin j, v, A => A = 0 ∧ Given B origin j v
  | .made parts, v, A => ∃ a ms C, v = .ref a ∧ A = a ::ₘ C ∧
      h.get a = some (.object ms) ∧ RepMembers B h parts ms C

def RepMembers (B : Base ι) (h : Heap) :
    List (String × Piece ι) → List (String × Value) → Multiset Nat → Prop
  | [], ms, A => ms = [] ∧ A = 0
  | (name, p) :: parts, ms, A => ∃ v rest C D, ms = (name, v) :: rest ∧ A = C + D ∧
      Rep B h p v C ∧ RepMembers B h parts rest D

end

variable {B : Base ι} {h h' : Heap} {p q : Piece ι} {v w : Value} {A C : Multiset Nat}
  {parts news : List (String × Piece ι)} {ms newMs : List (String × Value)} {key : String}

mutual

/-- Only the made cells matter. -/
theorem Rep.congr : ∀ {p : Piece ι} {v : Value} {A : Multiset Nat},
    (∀ a ∈ A, h'.get a = h.get a) → Rep B h p v A → Rep B h' p v A
  | .given _ _, _, _, _, hrep => hrep
  | .made _, _, _, hagree, hrep => by
      obtain ⟨a, ms, C, hv, rfl, hget, hmembers⟩ := hrep
      refine ⟨a, ms, C, hv, rfl, ?_, ?_⟩
      · rw [hagree a (Multiset.mem_cons_self a C), hget]
      · exact hmembers.congr fun b hb => hagree b (Multiset.mem_cons_of_mem hb)

/-- What represents members in one heap does so in every heap that is the same
on their cells. -/
theorem RepMembers.congr : ∀ {parts : List (String × Piece ι)} {ms : List (String × Value)}
    {A : Multiset Nat}, (∀ a ∈ A, h'.get a = h.get a) → RepMembers B h parts ms A →
      RepMembers B h' parts ms A
  | [], _, _, _, hrep => hrep
  | (_, _) :: _, _, _, hagree, hrep => by
      obtain ⟨v, rest, C, D, hms, rfl, hfirst, hrest⟩ := hrep
      refine ⟨v, rest, C, D, hms, rfl, ?_, ?_⟩
      · exact hfirst.congr fun a ha => hagree a (Multiset.mem_add.mpr (.inl ha))
      · exact hrest.congr fun a ha => hagree a (Multiset.mem_add.mpr (.inr ha))

end

/-- Given members represent themselves, with no cells of their own. -/
theorem RepMembers.of_given {origin : ι} : ∀ {ms : List (String × Value)} (read : Value → Json),
    (∀ m ∈ ms, Given B origin (read m.2) m.2) →
      RepMembers B h (ms.map fun m => (m.1, Piece.given origin (read m.2))) ms 0
  | [], _, _ => ⟨rfl, rfl⟩
  | m :: ms, read, hgiven =>
      ⟨m.2, ms, 0, 0, rfl, rfl, ⟨rfl, hgiven m List.mem_cons_self⟩,
        RepMembers.of_given read fun m' hm' => hgiven m' (List.mem_cons_of_mem m hm')⟩

/-- The member of a name, and what holds when another value takes its place. -/
theorem RepMembers.focus (hrep : RepMembers B h parts ms A) (hlookup : parts.lookup key = some p) :
    ∃ v C D, ms.lookup key = some v ∧ A = C + D ∧ Rep B h p v C ∧
      ∀ {h' : Heap} {q : Piece ι} {w : Value} {C' : Multiset Nat},
        (∀ a ∈ D, h'.get a = h.get a) → Rep B h' q w C' →
          RepMembers B h' (setMember parts key q) (setMember ms key w) (C' + D) := by
  induction parts generalizing ms A with
  | nil => cases hlookup
  | cons m parts ih =>
      obtain ⟨name, first⟩ := m
      obtain ⟨v, rest, C, D, rfl, rfl, hfirst, hrest⟩ := hrep
      rw [List.lookup_cons] at hlookup ⊢
      by_cases hname : name = key
      · subst hname
        rw [beq_self_eq_true] at hlookup ⊢
        cases hlookup
        refine ⟨v, C, D, rfl, rfl, hfirst, fun hagree hnew => ?_⟩
        rw [setMember_cons, setMember_cons, if_pos rfl, if_pos rfl]
        exact ⟨_, _, _, _, rfl, rfl, hnew, hrest.congr hagree⟩
      · have hne : (key == name) = false := by simpa using fun heq => hname heq.symm
        rw [hne] at hlookup ⊢
        obtain ⟨u, C', D', hlookup', rfl, hrep', hset⟩ := ih hrest hlookup
        refine ⟨u, C', C + D', hlookup', add_left_comm _ _ _, hrep', fun hagree hnew => ?_⟩
        rw [setMember_cons, setMember_cons, if_neg hname, if_neg hname]
        refine ⟨v, _, C, _, rfl, add_left_comm _ _ _, ?_, ?_⟩
        · exact hfirst.congr fun a ha => hagree a (Multiset.mem_add.mpr (.inl ha))
        · exact hset (fun a ha => hagree a (Multiset.mem_add.mpr (.inr ha))) hnew

/-- A member of a new name. -/
theorem RepMembers.add (hrep : RepMembers B h parts ms A) (hlookup : parts.lookup key = none) :
    ms.lookup key = none ∧ ∀ {h' : Heap} {q : Piece ι} {w : Value} {C' : Multiset Nat},
      (∀ a ∈ A, h'.get a = h.get a) → Rep B h' q w C' →
        RepMembers B h' (setMember parts key q) (setMember ms key w) (C' + A) := by
  induction parts generalizing ms A with
  | nil =>
      obtain ⟨rfl, rfl⟩ := hrep
      exact ⟨rfl, fun _ hnew => ⟨_, _, _, _, rfl, rfl, hnew, rfl, rfl⟩⟩
  | cons m parts ih =>
      obtain ⟨name, first⟩ := m
      obtain ⟨v, rest, C, D, rfl, rfl, hfirst, hrest⟩ := hrep
      rw [List.lookup_cons] at hlookup ⊢
      split at hlookup
      · cases hlookup
      · case h_2 hne =>
          have hname : name ≠ key := fun heq => by simp [heq] at hne
          obtain ⟨hlookup', hset⟩ := ih hrest hlookup
          refine ⟨hlookup', fun hagree hnew => ?_⟩
          rw [setMember_cons, setMember_cons, if_neg hname, if_neg hname]
          refine ⟨v, _, C, _, rfl, add_left_comm _ _ _, ?_, ?_⟩
          · exact hfirst.congr fun a ha => hagree a (Multiset.mem_add.mpr (.inl ha))
          · exact hset (fun a ha => hagree a (Multiset.mem_add.mpr (.inr ha))) hnew

/-- One member set in the same heap. -/
theorem RepMembers.setMember (hrep : RepMembers B h parts ms A) (key : String)
    (hnew : Rep B h q w C) :
    ∃ A' ≤ C + A, RepMembers B h (setMember parts key q) (setMember ms key w) A' := by
  cases hlookup : parts.lookup key with
  | none => exact ⟨_, le_refl _, (hrep.add hlookup).2 (fun _ _ => rfl) hnew⟩
  | some p =>
      obtain ⟨v, C', D, -, rfl, -, hset⟩ := hrep.focus hlookup
      refine ⟨C + D, ?_, hset (fun _ _ => rfl) hnew⟩
      exact add_le_add_right (Multiset.le_add_left D C') C

/-- The members of one object assigned to another. -/
theorem RepMembers.assign {D : Multiset Nat} (hrep : RepMembers B h parts ms A)
    (hnews : RepMembers B h news newMs D) (hproto : "__proto__" ∉ news.map Prod.fst) :
    ∃ A' ≤ D + A, RepMembers B h (assign parts news) (assign ms newMs) A' := by
  induction news generalizing parts ms newMs A D with
  | nil =>
      obtain ⟨rfl, rfl⟩ := hnews
      exact ⟨A, Multiset.le_add_left _ _, hrep⟩
  | cons m news ih =>
      obtain ⟨name, first⟩ := m
      obtain ⟨v, rest, C, D', rfl, rfl, hfirst, hrest⟩ := hnews
      rw [List.map_cons, List.mem_cons, not_or] at hproto
      have hname : name ≠ "__proto__" := fun heq => hproto.1 heq.symm
      obtain ⟨A₁, hle, hset⟩ := hrep.setMember name hfirst
      obtain ⟨A₂, hle', hassign⟩ := ih hset hrest hproto.2
      refine ⟨A₂, ?_, ?_⟩
      · calc A₂ ≤ D' + A₁ := hle'
          _ ≤ D' + (C + A) := add_le_add_right hle D'
          _ = C + D' + A := by rw [← add_assoc, add_comm D' C]
      · rw [JsonPaths.assign, JsonPaths.assign, List.foldl_cons, List.foldl_cons, assignMember,
          assignMember, if_neg fun hm => hname hm.1, if_neg fun hm => hname hm.1]
        exact hassign

/-- A given value is still read when the heap keeps the given cells. -/
theorem Given.reads_of_keeps {origin : ι} {j : Json} (hgiven : Given B origin j v)
    (hkeeps : Keeps B.heap h) : Reads h v j := by
  refine hgiven.reads.congr (B.closed origin) hgiven.inside ?_ hkeeps.size
  exact fun a ha => hkeeps.keeps a (B.below origin a ha)

/-- A value that stands for an object or an array is a reference, and no other is. -/
theorem Given.isContainer_eq {origin : ι} {j : Json} (hgiven : Given B origin j v) :
    isContainer j = true ↔ ∃ a, v = .ref a := by
  cases v with
  | prim p =>
      rw [hgiven.reads.prim]
      cases p <;> simp [Prim.json, isContainer]
  | ref a =>
      refine iff_of_true ?_ ⟨a, rfl⟩
      have hlt := B.below origin a (hgiven.inside a rfl)
      cases hget : B.heap.get a with
      | none =>
          rw [Heap.get, List.getElem?_eq_none_iff] at hget
          exact absurd hlt (Nat.not_lt_of_le hget)
      | some c =>
          cases c with
          | object members =>
              rw [(hgiven.reads.ref_object hget).1]
              rfl
          | array items =>
              obtain ⟨js, rfl⟩ := hgiven.reads.ref_array hget
              rfl

/-- A value is a reference to an object where its part is one. -/
theorem Rep.isObject_eq (hkeeps : Keeps B.heap h) (hrep : Rep B h p v A) :
    h.isObject v = p.isObject := by
  cases p with
  | made parts =>
      obtain ⟨a, ms, C, rfl, -, hget, -⟩ := hrep
      simp only [Heap.isObject, hget, Piece.isObject, Piece.json, isObj]
  | given origin j =>
      have hreads := hrep.2.reads_of_keeps hkeeps
      cases v with
      | prim p =>
          rw [Piece.isObject, Piece.json, hreads.prim]
          cases p <;> rfl
      | ref a =>
          rw [Piece.isObject, Piece.json, Heap.isObject]
          cases hget : h.get a with
          | none =>
              rw [hreads.ref_none hget]
              rfl
          | some c =>
              cases c with
              | object members =>
                  rw [(hreads.ref_object hget).1]
                  rfl
              | array items =>
                  obtain ⟨js, hj⟩ := hreads.ref_array hget
                  rw [hj]
                  rfl

/-- The members of an object, made or given. -/
theorem Rep.members (hkeeps : Keeps B.heap h) (hrep : Rep B h p v A) (hobject : p.isObject = true) :
    ∃ C ≤ A, RepMembers B h p.members (h.members v) C := by
  have hvalue := hrep.isObject_eq hkeeps
  rw [hobject] at hvalue
  cases p with
  | made parts =>
      obtain ⟨a, ms, C, rfl, rfl, hget, hmembers⟩ := hrep
      refine ⟨C, Multiset.le_cons_self C a, ?_⟩
      rw [Heap.members, hget]
      exact hmembers
  | given origin j =>
      obtain ⟨-, hgiven⟩ := hrep
      cases v with
      | prim p => cases hvalue
      | ref a =>
          have ha := hgiven.inside a rfl
          rw [Heap.isObject] at hvalue
          rw [Heap.members]
          split at hvalue
          · case h_1 ms hget =>
              rw [hkeeps.keeps a (B.below origin a ha)] at hget
              obtain ⟨rfl, hmembers⟩ := hgiven.reads.ref_object hget
              refine ⟨0, Multiset.zero_le _, ?_⟩
              rw [Piece.members, List.map_map]
              refine RepMembers.of_given _ fun m hm => ⟨hmembers m hm, ?_⟩
              exact B.closed origin a _ ha hget m.2 (List.mem_map_of_mem hm)
          · cases hvalue

mutual

/-- The value stands for the JSON of its part, read deeply enough. -/
theorem Rep.stands (hkeeps : Keeps B.heap h) : ∀ {p : Piece ι} {v : Value} {A : Multiset Nat},
    Rep B h p v A → StandsFor h v p.json
  | .given _ _, _, _, hrep => by
      obtain ⟨depth, -, hall⟩ := hrep.2.reads_of_keeps hkeeps
      exact ⟨depth, hall⟩
  | .made parts, _, _, hrep => by
      obtain ⟨a, ms, C, rfl, -, hget, hmembers⟩ := hrep
      obtain ⟨depth, hall⟩ := hmembers.stands hkeeps
      refine ⟨depth + 1, fun n hn => ?_⟩
      obtain ⟨m, rfl⟩ : ∃ m, n = m + 1 := ⟨n - 1, by omega⟩
      simp only [JsHeap.json, hget, hall m (by omega), Piece.json]

/-- Represented members stand for their values. -/
theorem RepMembers.stands (hkeeps : Keeps B.heap h) : ∀ {parts : List (String × Piece ι)}
    {ms : List (String × Value)} {A : Multiset Nat}, RepMembers B h parts ms A →
      ∃ depth, ∀ n, depth ≤ n → (ms.map fun m => (m.1, JsHeap.json h n m.2)) = membersJson parts
  | [], _, _, hrep => by
      rw [hrep.1]
      exact ⟨0, fun _ _ => rfl⟩
  | (name, p) :: parts, _, _, hrep => by
      obtain ⟨v, rest, C, D, rfl, -, hfirst, hrest⟩ := hrep
      obtain ⟨d, hread⟩ := hfirst.stands hkeeps
      obtain ⟨d', hread'⟩ := hrest.stands hkeeps
      refine ⟨max d d', fun n hn => ?_⟩
      rw [List.map_cons, hread n (by omega), hread' n (by omega), membersJson]

end

/-- Made cells, and what values of some origins lead to. -/
def cellsOf (B : Base ι) (P : ι → Prop) (A : Multiset Nat) : Set Nat :=
  {a | a ∈ A ∨ ∃ i, P i ∧ a ∈ B.region i}

/-- More owned cells make no fewer of them reachable. -/
theorem cellsOf_mono {P : ι → Prop} (hsub : ∀ a ∈ A, a ∈ C) : cellsOf B P A ⊆ cellsOf B P C :=
  fun a ha => ha.imp_left (hsub a)

mutual

/-- A part leads to its made cells and to its origins. -/
theorem Rep.leads (hkeeps : Keeps B.heap h) {P : ι → Prop} :
    ∀ {p : Piece ι} {v : Value} {A : Multiset Nat}, Rep B h p v A → p.OnlyFrom P →
      v.In (cellsOf B P A) ∧
        ∀ a ∈ A, ∀ c, h.get a = some c → ∀ u ∈ c.values, u.In (cellsOf B P A)
  | .given origin j, v, _, hrep, honly => by
      obtain ⟨rfl, hgiven⟩ := hrep
      refine ⟨fun a hv => .inr ⟨origin, honly ?_, hgiven.inside a hv⟩, nofun⟩
      exact hgiven.isContainer_eq.mpr ⟨a, hv⟩
  | .made parts, _, _, hrep, honly => by
      obtain ⟨a, ms, C, rfl, rfl, hget, hmembers⟩ := hrep
      obtain ⟨hvalues, hcells⟩ := hmembers.leads hkeeps honly
      have hsub : cellsOf B P C ⊆ cellsOf B P (a ::ₘ C) :=
        cellsOf_mono fun b hb => Multiset.mem_cons_of_mem hb
      refine ⟨?_, ?_⟩
      · intro b hb
        cases hb
        exact .inl (Multiset.mem_cons_self a C)
      · intro b hb c hget' u hu
        rcases Multiset.mem_cons.mp hb with rfl | hb
        · rw [hget] at hget'
          cases hget'
          obtain ⟨m, hm, rfl⟩ := List.mem_map.mp hu
          exact (hvalues m hm).mono hsub
        · exact (hcells b hb c hget' u hu).mono hsub

/-- Represented members lead to their own cells and to those they were given
from, and nowhere else. -/
theorem RepMembers.leads (hkeeps : Keeps B.heap h) {P : ι → Prop} :
    ∀ {parts : List (String × Piece ι)} {ms : List (String × Value)} {A : Multiset Nat},
      RepMembers B h parts ms A → MembersFrom P parts →
        (∀ m ∈ ms, m.2.In (cellsOf B P A)) ∧
          ∀ a ∈ A, ∀ c, h.get a = some c → ∀ u ∈ c.values, u.In (cellsOf B P A)
  | [], _, _, hrep, _ => by
      obtain ⟨rfl, rfl⟩ := hrep
      exact ⟨nofun, nofun⟩
  | (_, _) :: _, _, _, hrep, honly => by
      obtain ⟨v, rest, C, D, rfl, rfl, hfirst, hrest⟩ := hrep
      obtain ⟨hvalue, hcells⟩ := hfirst.leads hkeeps honly.1
      obtain ⟨hvalues, hcells'⟩ := hrest.leads hkeeps honly.2
      have hleft : cellsOf B P C ⊆ cellsOf B P (C + D) :=
        cellsOf_mono fun b hb => Multiset.mem_add.mpr (.inl hb)
      have hright : cellsOf B P D ⊆ cellsOf B P (C + D) :=
        cellsOf_mono fun b hb => Multiset.mem_add.mpr (.inr hb)
      refine ⟨?_, ?_⟩
      · intro m hm
        rcases List.mem_cons.mp hm with rfl | hm
        · exact hvalue.mono hleft
        · exact (hvalues m hm).mono hright
      · intro b hb c hget u hu
        rcases Multiset.mem_add.mp hb with hb | hb
        · exact (hcells b hb c hget u hu).mono hleft
        · exact (hcells' b hb c hget u hu).mono hright

end

/-- No reference leads out of a part and its origins. -/
theorem Rep.closed (hkeeps : Keeps B.heap h) {P : ι → Prop} (hrep : Rep B h p v A)
    (honly : p.OnlyFrom P) : Region h (cellsOf B P A) := by
  intro a c ha hget u hu
  rcases ha with ha | ⟨i, hi, ha⟩
  · exact (hrep.leads hkeeps honly).2 a ha c hget u hu
  · rw [hkeeps.keeps a (B.below i a ha)] at hget
    exact (B.closed i a c ha hget u hu).mono fun b hb => .inr ⟨i, hi, hb⟩

end Representation

end OwnedObjects
