import Mathlib.Order.Interval.Set.Basic
import OpenMasu.Canonical

/-!
# A heap of objects and arrays

Objects and arrays are cells of a heap, and values refer to them.  JSON is
loaded into fresh cells; what a value stands for is read back along its
references.

* `Heap`, `alloc`, `set` — the cells, a new one and a changed one;
* `json` — the JSON a value stands for, along so many references;
* `Reads` — the value stands for this JSON, read deeply enough;
* `Reaches` — the cells a value leads to;
* `Region` — a part of the heap no reference leads out of; in it a value reads
  and reaches the same in every heap that has its cells;
* `load` — JSON in fresh cells, `load_spec`.
-/

namespace JsHeap

open OpenMasu (Json)

section Heaps

/-- A value that is no object. -/
inductive Prim where
  | null
  | bool (value : Bool)
  | num (value : Rat)
  | str (value : String)
  deriving DecidableEq

/-- A value: a primitive one, or the address of an object. -/
inductive Value where
  | prim (p : Prim)
  | ref (addr : Nat)
  deriving DecidableEq

/-- An object or an array, with its own members or items. -/
inductive Cell where
  | object (members : List (String × Value))
  | array (items : List Value)
  deriving DecidableEq

/-- The cells that were allocated, in their order. -/
structure Heap where
  cells : List Cell := []
  deriving DecidableEq

namespace Heap

/-- How many cells there are. -/
def size (h : Heap) : Nat := h.cells.length

/-- The cell at an address. -/
def get (h : Heap) (a : Nat) : Option Cell := h.cells[a]?

/-- The heap with a new cell, whose address is the old size. -/
def alloc (h : Heap) (c : Cell) : Heap := ⟨h.cells ++ [c]⟩

/-- The heap with another cell at an address. -/
def set (h : Heap) (a : Nat) (c : Cell) : Heap := ⟨h.cells.set a c⟩

variable {h : Heap} {a b : Nat} {c : Cell}

/-- An allocation brings one cell. -/
@[simp] theorem size_alloc (h : Heap) (c : Cell) : (h.alloc c).size = h.size + 1 := by
  simp [size, alloc]

/-- A write brings none. -/
@[simp] theorem size_set (h : Heap) (a : Nat) (c : Cell) : (h.set a c).size = h.size := by
  simp [size, set]

/-- The new cell is the last one. -/
theorem get_alloc_self (h : Heap) (c : Cell) : (h.alloc c).get h.size = some c := by
  simp [get, alloc, size]

/-- The cells before it stay. -/
theorem get_alloc_of_lt (c : Cell) (ha : a < h.size) : (h.alloc c).get a = h.get a := by
  rw [get, alloc, List.getElem?_append_left ha]
  rfl

/-- Behind a write the cell is the one that was written. -/
theorem get_set_self (c : Cell) (ha : a < h.size) : (h.set a c).get a = some c := by
  rw [get, set, List.getElem?_set_self ha]

/-- The others stay. -/
theorem get_set_of_ne (c : Cell) (hne : b ≠ a) : (h.set a c).get b = h.get b := by
  rw [get, set, List.getElem?_set_ne hne.symm]
  rfl

/-- An address with a cell is within the heap. -/
theorem lt_of_get (hget : h.get a = some c) : a < h.size := by
  by_contra hnot
  rw [get, List.getElem?_eq_none (Nat.le_of_not_lt hnot)] at hget
  cases hget

end Heap

end Heaps

section Reading

/-- The JSON value of a primitive one. -/
def Prim.json : Prim → Json
  | .null => .null
  | .bool b => .bool b
  | .num n => .num n
  | .str s => .str s

/-- The JSON a value stands for, along at most so many references. -/
def json (h : Heap) : Nat → Value → Json
  | _, .prim p => p.json
  | 0, .ref _ => .null
  | n + 1, .ref a =>
      match h.get a with
      | some (.object members) => .obj (members.map fun m => (m.1, json h n m.2))
      | some (.array items) => .arr (items.map (json h n))
      | none => .null

/-- The JSON behind one more reference. -/
theorem json_ref (h : Heap) (n a : Nat) : json h (n + 1) (.ref a) =
    match h.get a with
    | some (.object members) => .obj (members.map fun m => (m.1, json h n m.2))
    | some (.array items) => .arr (items.map (json h n))
    | none => .null := rfl

/-- A reference to an object. -/
def Heap.isObject (h : Heap) : Value → Bool
  | .ref a =>
      match h.get a with
      | some (.object _) => true
      | _ => false
  | .prim _ => false

/-- The members of an object. -/
def Heap.members (h : Heap) : Value → List (String × Value)
  | .ref a =>
      match h.get a with
      | some (.object members) => members
      | _ => []
  | .prim _ => []

/-- The address of an object is an object. -/
theorem Heap.isObject_of_get {h : Heap} {a : Nat} {ms : List (String × Value)}
    (hget : h.get a = some (.object ms)) : h.isObject (.ref a) = true := by
  rw [Heap.isObject, hget]

/-- Its members are those of its cell. -/
theorem Heap.members_of_get {h : Heap} {a : Nat} {ms : List (String × Value)}
    (hget : h.get a = some (.object ms)) : h.members (.ref a) = ms := by
  rw [Heap.members, hget]

/-- The references of a cell. -/
def Cell.values : Cell → List Value
  | .object members => members.map Prod.snd
  | .array items => items

/-- What a value of the heap stands for. -/
def Heap.read (h : Heap) (v : Value) : Json := json h h.size v

/-- The value stands for the JSON, and reading along as many references as the
heap has cells is enough. -/
def Reads (h : Heap) (v : Value) (j : Json) : Prop :=
  ∃ depth ≤ h.size, ∀ n, depth ≤ n → json h n v = j

/-- Read deeply enough, the value stands for the JSON. -/
def StandsFor (h : Heap) (v : Value) (j : Json) : Prop := ∃ depth, ∀ n, depth ≤ n → json h n v = j

/-- The cells a value leads to. -/
inductive Reaches (h : Heap) (v : Value) : Nat → Prop
  | here {a : Nat} (hv : v = .ref a) : Reaches h v a
  | step {a b : Nat} {c : Cell} (hprevious : Reaches h v a) (hget : h.get a = some c)
      (hmem : .ref b ∈ c.values) : Reaches h v b

variable {h h' : Heap} {v : Value} {j : Json} {a b n : Nat}

/-- A value that reads as a JSON value is read as it. -/
theorem Reads.read_eq (hr : Reads h v j) : h.read v = j := by
  obtain ⟨depth, hdepth, hall⟩ := hr
  exact hall _ hdepth

/-- A primitive value reads as itself, in every heap. -/
theorem reads_prim (h : Heap) (p : Prim) : Reads h (.prim p) p.json :=
  ⟨0, Nat.zero_le _, fun n _ => by cases n <;> rfl⟩

/-- A reference to an object stands for one, its members for the members. -/
theorem Reads.ref_object {ms : List (String × Value)} (hr : Reads h (.ref a) j)
    (hget : h.get a = some (.object ms)) :
    j = .obj (ms.map fun m => (m.1, json h h.size m.2)) ∧
      ∀ m ∈ ms, Reads h m.2 (json h h.size m.2) := by
  obtain ⟨depth, hdepth, hall⟩ := hr
  have hmembers : ∀ n, depth ≤ n → j = .obj (ms.map fun m => (m.1, json h n m.2)) := by
    intro n hn
    rw [← hall (n + 1) (Nat.le_succ_of_le hn), json_ref, hget]
  refine ⟨hmembers _ hdepth, fun m hm => ⟨depth, hdepth, fun n hn => ?_⟩⟩
  have hsame := Json.obj.inj ((hmembers n hn).symm.trans (hmembers _ hdepth))
  exact (Prod.mk.inj (List.map_inj_left.mp hsame m hm)).2

/-- The address of an array reads as an array. -/
theorem Reads.ref_array {items : List Value} (hr : Reads h (.ref a) j)
    (hget : h.get a = some (.array items)) : ∃ js, j = .arr js := by
  obtain ⟨depth, -, hall⟩ := hr
  refine ⟨items.map (json h depth), ?_⟩
  rw [← hall (depth + 1) (Nat.le_succ _), json_ref, hget]

/-- An address without a cell reads as null. -/
theorem Reads.ref_none (hr : Reads h (.ref a) j) (hget : h.get a = none) : j = .null := by
  obtain ⟨depth, -, hall⟩ := hr
  rw [← hall (depth + 1) (Nat.le_succ _), json_ref, hget]

/-- A primitive value reads as nothing but itself. -/
theorem Reads.prim {p : Prim} (hr : Reads h (.prim p) j) : j = p.json := by
  obtain ⟨depth, -, hall⟩ := hr
  rw [← hall depth (Nat.le_refl _)]
  cases depth <;> rfl

end Reading

section Regions

/-- The value is no reference, or one into a set of cells. -/
def Value.In (v : Value) (S : Set Nat) : Prop := ∀ a, v = .ref a → a ∈ S

/-- No reference leads out of a set of cells. -/
def Region (h : Heap) (S : Set Nat) : Prop :=
  ∀ a c, a ∈ S → h.get a = some c → ∀ v ∈ c.values, v.In S

variable {h h' : Heap} {v : Value} {j : Json} {S T : Set Nat} {a n : Nat}

/-- A value within a region is within every larger one. -/
theorem Value.In.mono (hv : v.In S) (hsub : S ⊆ T) : v.In T := fun a ha => hsub (hv a ha)

/-- A primitive value points nowhere, so it is within every region. -/
theorem prim_in (p : Prim) (S : Set Nat) : (Value.prim p).In S := nofun

/-- A region is one in every heap that agrees on it. -/
theorem Region.congr (hregion : Region h S) (hagree : ∀ a ∈ S, h'.get a = h.get a) :
    Region h' S := by
  intro a c ha hget
  rw [hagree a ha] at hget
  exact hregion a c ha hget

/-- A value of the region stands for the same JSON wherever its cells are. -/
theorem Region.json_eq (hregion : Region h S) (hagree : ∀ a ∈ S, h'.get a = h.get a) (n : Nat)
    (hv : v.In S) : json h' n v = json h n v := by
  induction n generalizing v with
  | zero => cases v <;> rfl
  | succ n ih =>
      cases v with
      | prim p => rfl
      | ref a =>
          have ha := hv a rfl
          rw [json_ref, json_ref, hagree a ha]
          cases hget : h.get a with
          | none => rfl
          | some c =>
              have hvalues := hregion a c ha hget
              cases c with
              | object members =>
                  have hmembers : members.map (fun m => (m.1, json h' n m.2)) =
                      members.map fun m => (m.1, json h n m.2) :=
                    List.map_congr_left fun m hm =>
                      by rw [ih (hvalues m.2 (List.mem_map_of_mem hm))]
                  simp only [hmembers]
              | array items =>
                  have hitems : items.map (json h' n) = items.map (json h n) :=
                    List.map_congr_left fun u hu => ih (hvalues u hu)
                  simp only [hitems]

/-- A value within a region reads the same in every heap that agrees on the
region. -/
theorem Reads.congr (hr : Reads h v j) (hregion : Region h S) (hv : v.In S)
    (hagree : ∀ a ∈ S, h'.get a = h.get a) (hsize : h.size ≤ h'.size) : Reads h' v j := by
  obtain ⟨depth, hdepth, hall⟩ := hr
  refine ⟨depth, hdepth.trans hsize, fun n hn => ?_⟩
  rw [hregion.json_eq hagree n hv]
  exact hall n hn

/-- The same of a value that stands for a JSON value. -/
theorem StandsFor.congr (hstands : StandsFor h v j) (hregion : Region h S) (hv : v.In S)
    (hagree : ∀ a ∈ S, h'.get a = h.get a) : StandsFor h' v j := by
  obtain ⟨depth, hall⟩ := hstands
  refine ⟨depth, fun n hn => ?_⟩
  rw [hregion.json_eq hagree n hv]
  exact hall n hn

/-- A value of the region leads to cells of the region only. -/
theorem Region.reaches (hregion : Region h S) (hv : v.In S) (hr : Reaches h v a) : a ∈ S := by
  induction hr with
  | here hv' => exact hv _ hv'
  | step _ hget hmem ih => exact hregion _ _ ih hget _ hmem _ rfl

end Regions

section Loading

mutual

/-- JSON in fresh cells. -/
def load : Json → Heap → Value × Heap
  | .null, h => (.prim .null, h)
  | .bool b, h => (.prim (.bool b), h)
  | .num n, h => (.prim (.num n), h)
  | .str s, h => (.prim (.str s), h)
  | .arr items, h =>
      let (values, h') := loadItems items h
      (.ref h'.size, h'.alloc (.array values))
  | .obj members, h =>
      let (values, h') := loadMembers members h
      (.ref h'.size, h'.alloc (.object values))

/-- The items of an array, loaded one after another. -/
def loadItems : List Json → Heap → List Value × Heap
  | [], h => ([], h)
  | j :: rest, h =>
      let (v, h₁) := load j h
      let (values, h₂) := loadItems rest h₁
      (v :: values, h₂)

/-- The members of an object, loaded one after another. -/
def loadMembers : List (String × Json) → Heap → List (String × Value) × Heap
  | [], h => ([], h)
  | (name, j) :: rest, h =>
      let (v, h₁) := load j h
      let (members, h₂) := loadMembers rest h₁
      ((name, v) :: members, h₂)

end

/-- The cells the second heap has beyond the first. -/
def newCells (h h' : Heap) : Set Nat := Set.Ico h.size h'.size

/-- The second heap has the cells of the first. -/
structure Keeps (h h' : Heap) : Prop where
  size : h.size ≤ h'.size
  keeps : ∀ a < h.size, h'.get a = h.get a

/-- A heap keeps itself. -/
theorem Keeps.refl (h : Heap) : Keeps h h := ⟨Nat.le_refl _, fun _ _ => rfl⟩

/-- What is kept twice is kept. -/
theorem Keeps.trans {h₀ h₁ h₂ : Heap} (h : Keeps h₀ h₁) (h' : Keeps h₁ h₂) : Keeps h₀ h₂ where
  size := h.size.trans h'.size
  keeps := fun a ha => (h'.keeps a (ha.trans_le h.size)).trans (h.keeps a ha)

/-- An allocation keeps the cells there are. -/
theorem keeps_alloc (h : Heap) (c : Cell) : Keeps h (h.alloc c) where
  size := by
    rw [Heap.size_alloc]
    exact Nat.le_succ _
  keeps := fun _ ha => Heap.get_alloc_of_lt c ha

/-- So does a write to a cell that is newer than they are. -/
theorem Keeps.set {h₀ h : Heap} (hkeeps : Keeps h₀ h) {a : Nat} (ha : h₀.size ≤ a) (c : Cell) :
    Keeps h₀ (h.set a c) where
  size := by
    rw [Heap.size_set]
    exact hkeeps.size
  keeps := fun b hb => by
    rw [Heap.get_set_of_ne c (Nat.ne_of_lt (hb.trans_le ha))]
    exact hkeeps.keeps b hb

/-- The heap has grown by a region. -/
structure Grows (h h' : Heap) : Prop extends Keeps h h' where
  region : Region h' (newCells h h')

/-- A heap grows to itself by nothing. -/
theorem Grows.refl (h : Heap) : Grows h h where
  toKeeps := Keeps.refl h
  region := fun _ _ ha _ => absurd ha.2 (Nat.not_lt_of_le ha.1)

/-- What is new up to some point is new up to a later one. -/
theorem newCells_subset_left {h₀ h₁ h₂ : Heap} (hsize : h₁.size ≤ h₂.size) :
    newCells h₀ h₁ ⊆ newCells h₀ h₂ := Set.Ico_subset_Ico_right hsize

/-- What is new since some point is new since an earlier one. -/
theorem newCells_subset_right {h₀ h₁ h₂ : Heap} (hsize : h₀.size ≤ h₁.size) :
    newCells h₁ h₂ ⊆ newCells h₀ h₂ := Set.Ico_subset_Ico_left hsize

/-- Growth goes on: the new cells of both steps point only to new cells. -/
theorem Grows.trans {h₀ h₁ h₂ : Heap} (h : Grows h₀ h₁) (h' : Grows h₁ h₂) : Grows h₀ h₂ where
  toKeeps := h.toKeeps.trans h'.toKeeps
  region := by
    intro a c ha hget v hv
    by_cases hfirst : a < h₁.size
    · rw [h'.keeps a hfirst] at hget
      exact (h.region a c ⟨ha.1, hfirst⟩ hget v hv).mono (newCells_subset_left h'.size)
    · have hsecond := h'.region a c ⟨Nat.le_of_not_lt hfirst, ha.2⟩ hget v hv
      exact hsecond.mono (newCells_subset_right h.size)

/-- A cell that points only to new cells makes the heap grow. -/
theorem Grows.alloc {h₀ h : Heap} (hg : Grows h₀ h) {c : Cell}
    (hvalues : ∀ v ∈ c.values, v.In (newCells h₀ h)) : Grows h₀ (h.alloc c) where
  toKeeps := hg.toKeeps.trans (keeps_alloc h c)
  region := by
    have hsub : newCells h₀ h ⊆ newCells h₀ (h.alloc c) :=
      newCells_subset_left (by rw [Heap.size_alloc]; exact Nat.le_succ _)
    intro a c' ha hget v hv
    have hlt := ha.2
    rw [Heap.size_alloc] at hlt
    by_cases hold : a < h.size
    · rw [Heap.get_alloc_of_lt c hold] at hget
      exact (hg.region a c' ⟨ha.1, hold⟩ hget v hv).mono hsub
    · have ha : a = h.size := by omega
      rw [ha, Heap.get_alloc_self] at hget
      cases hget
      exact (hvalues v hv).mono hsub

/-- What was loaded reads the same in a heap that has grown further. -/
theorem Grows.json_eq {h₀ h h' : Heap} (hg : Grows h₀ h) (hnext : Grows h h') {v : Value}
    (hv : v.In (newCells h₀ h)) (n : Nat) : json h' n v = json h n v :=
  hg.region.json_eq (fun a ha => hnext.keeps a ha.2) n hv

/-- And in one with another cell. -/
theorem Grows.json_alloc {h₀ h : Heap} (hg : Grows h₀ h) (c : Cell) {v : Value}
    (hv : v.In (newCells h₀ h)) (n : Nat) : json (h.alloc c) n v = json h n v :=
  hg.region.json_eq (fun _ ha => Heap.get_alloc_of_lt c ha.2) n hv

/-- The values are in new cells, and reading them as deeply as there are new
cells gives what was loaded. -/
structure Loads {α : Type} (h h' : Heap) (values : List Value) (read : Nat → α) (j : α) :
    Prop extends Grows h h' where
  inside : ∀ v ∈ values, v.In (newCells h h')
  depth : ∃ depth ≤ h'.size - h.size, ∀ n, depth ≤ n → read n = j

/-- A primitive value is loaded without a cell. -/
theorem loads_prim (h : Heap) (p : Prim) :
    Loads h h [.prim p] (fun n => json h n (.prim p)) p.json where
  toGrows := Grows.refl h
  inside := fun v hv => by
    rw [List.mem_singleton.mp hv]
    exact prim_in p _
  depth := ⟨0, Nat.zero_le _, fun n _ => by cases n <;> rfl⟩

mutual

/-- Loaded JSON is in new cells and reads back. -/
theorem load_spec : ∀ (j : Json) (h : Heap), Loads h (load j h).2 [(load j h).1]
    (fun n => json (load j h).2 n (load j h).1) j
  | .null, h => loads_prim h .null
  | .bool b, h => loads_prim h (.bool b)
  | .num n, h => loads_prim h (.num n)
  | .str s, h => loads_prim h (.str s)
  | .arr items, h => by
      have hitems := loadItems_spec items h
      rw [load]
      generalize loadItems items h = r at hitems ⊢
      obtain ⟨values, h'⟩ := r
      dsimp only at hitems ⊢
      obtain ⟨depth, hdepth, hread⟩ := hitems.depth
      have hsize := hitems.size
      refine ⟨hitems.toGrows.alloc hitems.inside, ?_, depth + 1, ?_, ?_⟩
      · intro v hv a ha
        rw [List.mem_singleton.mp hv, Value.ref.injEq] at ha
        rw [newCells, Heap.size_alloc, Set.mem_Ico]
        omega
      · rw [Heap.size_alloc]
        omega
      · intro n hn
        obtain ⟨m, rfl⟩ : ∃ m, n = m + 1 := ⟨n - 1, by omega⟩
        have hvalues : values.map (json (h'.alloc (.array values)) m) = values.map (json h' m) :=
          List.map_congr_left fun v hv => hitems.toGrows.json_alloc _ (hitems.inside v hv) m
        simp only [json_ref, Heap.get_alloc_self, hvalues, hread m (by omega)]
  | .obj members, h => by
      have hmembers := loadMembers_spec members h
      rw [load]
      generalize loadMembers members h = r at hmembers ⊢
      obtain ⟨values, h'⟩ := r
      dsimp only at hmembers ⊢
      obtain ⟨depth, hdepth, hread⟩ := hmembers.depth
      have hsize := hmembers.size
      refine ⟨hmembers.toGrows.alloc hmembers.inside, ?_, depth + 1, ?_, ?_⟩
      · intro v hv a ha
        rw [List.mem_singleton.mp hv, Value.ref.injEq] at ha
        rw [newCells, Heap.size_alloc, Set.mem_Ico]
        omega
      · rw [Heap.size_alloc]
        omega
      · intro n hn
        obtain ⟨m, rfl⟩ : ∃ m, n = m + 1 := ⟨n - 1, by omega⟩
        have hvalues : values.map (fun v => (v.1, json (h'.alloc (.object values)) m v.2)) =
            values.map fun v => (v.1, json h' m v.2) :=
          List.map_congr_left fun v hv => by
            rw [hmembers.toGrows.json_alloc _ (hmembers.inside v.2 (List.mem_map_of_mem hv)) m]
        simp only [json_ref, Heap.get_alloc_self, hvalues, hread m (by omega)]

/-- The items of an array are loaded into new cells, and read back as they
were. -/
theorem loadItems_spec : ∀ (items : List Json) (h : Heap), Loads h (loadItems items h).2
    (loadItems items h).1 (fun n => (loadItems items h).1.map (json (loadItems items h).2 n)) items
  | [], h => ⟨Grows.refl h, nofun, 0, Nat.zero_le _, fun _ _ => rfl⟩
  | j :: rest, h => by
      have hfirst := load_spec j h
      rw [loadItems]
      generalize load j h = r at hfirst ⊢
      obtain ⟨v, h₁⟩ := r
      have hrest := loadItems_spec rest h₁
      dsimp only
      generalize loadItems rest h₁ = r at hrest ⊢
      obtain ⟨values, h₂⟩ := r
      dsimp only at hfirst hrest ⊢
      have hv := hfirst.inside v List.mem_cons_self
      obtain ⟨d, hd, hread⟩ := hfirst.depth
      obtain ⟨d', hd', hread'⟩ := hrest.depth
      have hsize := hfirst.size
      have hsize' := hrest.size
      refine ⟨hfirst.toGrows.trans hrest.toGrows, ?_, max d d', by omega, ?_⟩
      · intro u hu
        rcases List.mem_cons.mp hu with rfl | hu
        · exact hv.mono (newCells_subset_left hsize')
        · exact (hrest.inside u hu).mono (newCells_subset_right hsize)
      · intro n hn
        rw [List.map_cons, hfirst.toGrows.json_eq hrest.toGrows hv n, hread n (by omega)]
        exact congrArg _ (hread' n (by omega))

/-- The members of an object are loaded into new cells, and read back as they
were. -/
theorem loadMembers_spec : ∀ (members : List (String × Json)) (h : Heap),
    Loads h (loadMembers members h).2 ((loadMembers members h).1.map Prod.snd)
      (fun n => (loadMembers members h).1.map fun m => (m.1, json (loadMembers members h).2 n m.2))
      members
  | [], h => ⟨Grows.refl h, nofun, 0, Nat.zero_le _, fun _ _ => rfl⟩
  | (name, j) :: rest, h => by
      have hfirst := load_spec j h
      rw [loadMembers]
      generalize load j h = r at hfirst ⊢
      obtain ⟨v, h₁⟩ := r
      have hrest := loadMembers_spec rest h₁
      dsimp only
      generalize loadMembers rest h₁ = r at hrest ⊢
      obtain ⟨values, h₂⟩ := r
      dsimp only at hfirst hrest ⊢
      have hv := hfirst.inside v List.mem_cons_self
      obtain ⟨d, hd, hread⟩ := hfirst.depth
      obtain ⟨d', hd', hread'⟩ := hrest.depth
      have hsize := hfirst.size
      have hsize' := hrest.size
      refine ⟨hfirst.toGrows.trans hrest.toGrows, ?_, max d d', by omega, ?_⟩
      · intro u hu
        rcases List.mem_cons.mp hu with rfl | hu
        · exact hv.mono (newCells_subset_left hsize')
        · exact (hrest.inside u hu).mono (newCells_subset_right hsize)
      · intro n hn
        rw [List.map_cons, hfirst.toGrows.json_eq hrest.toGrows hv n, hread n (by omega)]
        exact congrArg _ (hread' n (by omega))

end

/-- A loaded value stands for its JSON. -/
theorem reads_load (j : Json) (h : Heap) : Reads (load j h).2 (load j h).1 j := by
  obtain ⟨depth, hdepth, hread⟩ := (load_spec j h).depth
  exact ⟨depth, hdepth.trans (Nat.sub_le _ _), hread⟩

end Loading

end JsHeap
