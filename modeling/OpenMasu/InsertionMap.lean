import Mathlib.Data.List.Nodup

/-!
# Maps that remember insertion order

The dictionaries of scripting languages keep the order in which their keys
were first written; a later write to a key replaces the value in place.  The
structure below carries the one fact its users rely on, that no key occurs
twice.

* `get_set_self`, `get_set_other` — reading back a write;
* `get_ofList` — a map built from a list of pairs holds the last value
  written for each key;
* `get_group`, `mem_group` — the lists collected under a key are the elements
  with that key, in order;
* `entries_group_filter` — selecting by key before or after grouping;
* `values_group`, `keys_group_perm` — the groups of a list in another order;
* `get_filter`, `length_erase_lt` — dropping entries.
-/

/-- A finite map with the insertion order of its keys. -/
structure InsertionMap (κ ν : Type) where
  entries : List (κ × ν)
  nodup : (entries.map Prod.fst).Nodup

namespace InsertionMap

variable {α κ ν : Type} [DecidableEq κ]

/-- The map without entries. -/
def empty : InsertionMap κ ν := ⟨[], List.nodup_nil⟩

/-- The value stored under a key. -/
def get (m : InsertionMap κ ν) (k : κ) : Option ν :=
  (m.entries.find? (fun e => e.1 = k)).map Prod.snd

/-- The values in the insertion order of their keys. -/
def values (m : InsertionMap κ ν) : List ν := m.entries.map Prod.snd

/-- Replace the value of a key in place, or write it behind all others. -/
def write (k : κ) (v : ν) : List (κ × ν) → List (κ × ν)
  | [] => [(k, v)]
  | e :: rest => if e.1 = k then (k, v) :: rest else e :: write k v rest

private theorem keys_write (k : κ) (v : ν) (l : List (κ × ν)) :
    (write k v l).map Prod.fst
      = if k ∈ l.map Prod.fst then l.map Prod.fst else l.map Prod.fst ++ [k] := by
  induction l with
  | nil => rfl
  | cons e rest ih =>
      by_cases he : e.1 = k
      · simp [write, he]
      · have hne : ¬ k = e.1 := fun h => he h.symm
        simp only [write, if_neg he, List.map_cons, ih, List.mem_cons, hne, false_or]
        by_cases hk : k ∈ rest.map Prod.fst
        · simp only [if_pos hk]
        · simp only [if_neg hk, List.cons_append]

/-- Write a value under a key. -/
def set (m : InsertionMap κ ν) (k : κ) (v : ν) : InsertionMap κ ν where
  entries := write k v m.entries
  nodup := by
    rw [keys_write]
    by_cases hk : k ∈ m.entries.map Prod.fst
    · rw [if_pos hk]
      exact m.nodup
    · rw [if_neg hk]
      exact m.nodup.append (List.nodup_singleton k) (by simpa using hk)

/-- The map written by a list of pairs, from first to last. -/
def ofList (l : List (κ × ν)) : InsertionMap κ ν :=
  l.foldl (fun m e => m.set e.1 e.2) empty

/-- Nothing is in the empty map. -/
@[simp] theorem get_empty (k : κ) : (empty : InsertionMap κ ν).get k = none := rfl

private theorem find_write (k k' : κ) (v : ν) (l : List (κ × ν)) :
    (write k v l).find? (fun e => e.1 = k')
      = if k = k' then some (k, v) else l.find? (fun e => e.1 = k') := by
  induction l with
  | nil =>
      by_cases h : k = k' <;> simp [write, h]
  | cons e rest ih =>
      by_cases he : e.1 = k
      · by_cases h : k = k'
        · simp [write, he, h]
        · have he' : ¬ e.1 = k' := fun h' => h (he.symm.trans h')
          simp [write, he, h]
      · by_cases h : k = k'
        · have he' : ¬ e.1 = k' := fun h' => he (h'.trans h.symm)
          simp only [write, if_neg he, List.find?_cons, ih, if_pos h, decide_eq_false he']
        · simp only [write, if_neg he, List.find?_cons, ih, if_neg h]

/-- Reading a key just written. -/
@[simp] theorem get_set_self (m : InsertionMap κ ν) (k : κ) (v : ν) :
    (m.set k v).get k = some v := by
  simp [get, set, find_write]

/-- A write leaves every other key alone. -/
theorem get_set_other (m : InsertionMap κ ν) {k k' : κ} (v : ν) (h : k ≠ k') :
    (m.set k v).get k' = m.get k' := by
  simp [get, set, find_write, h]

/-- What a key has behind a write: the value written, or what it had. -/
theorem get_set (m : InsertionMap κ ν) (k k' : κ) (v : ν) :
    (m.set k v).get k' = if k = k' then some v else m.get k' := by
  by_cases h : k = k'
  · subst h; simp
  · rw [if_neg h, get_set_other m v h]

private theorem get_foldl (l : List (κ × ν)) (m : InsertionMap κ ν) (k : κ) :
    (l.foldl (fun m e => m.set e.1 e.2) m).get k
      = ((l.reverse.find? (fun e => e.1 = k)).map Prod.snd).or (m.get k) := by
  induction l generalizing m with
  | nil => simp
  | cons e rest ih =>
      rw [List.foldl_cons, ih, get_set, List.reverse_cons, List.find?_append]
      cases rest.reverse.find? (fun e => e.1 = k) with
      | some _ => simp
      | none =>
          by_cases he : e.1 = k <;> simp [he]

/-- **Last write wins.**  A map built from pairs holds, under each key, the
value of the last pair with that key. -/
theorem get_ofList (l : List (κ × ν)) (k : κ) :
    (ofList l).get k = (l.reverse.find? (fun e => e.1 = k)).map Prod.snd := by
  simp [ofList, get_foldl]

/-- A key reads back if and only if some pair wrote it. -/
theorem get_ofList_isSome (l : List (κ × ν)) (k : κ) :
    ((ofList l).get k).isSome ↔ k ∈ l.map Prod.fst := by
  simp [get_ofList, List.find?_isSome, List.mem_map]

/-- What is read was written. -/
theorem mem_of_get_ofList {l : List (κ × ν)} {k : κ} {v : ν}
    (h : (ofList l).get k = some v) : (k, v) ∈ l := by
  rw [get_ofList, Option.map_eq_some_iff] at h
  obtain ⟨e, he, rfl⟩ := h
  have hk : e.1 = k := by simpa using List.find?_some he
  subst hk
  exact List.mem_reverse.mp (List.mem_of_find?_eq_some he)

/-- Later pairs are read before earlier ones. -/
theorem get_ofList_append (l l' : List (κ × ν)) (k : κ) :
    (ofList (l ++ l')).get k = ((ofList l').get k).or ((ofList l).get k) := by
  simp only [get_ofList, List.reverse_append, List.find?_append]
  cases l'.reverse.find? (fun e => e.1 = k) <;> simp

/-- The value under a key is the last of the pairs with it. -/
theorem get_ofList_eq_getLast? (l : List (κ × ν)) (k : κ) :
    (ofList l).get k = ((l.filter (fun e => e.1 = k)).getLast?).map Prod.snd := by
  rw [get_ofList, ← List.head?_filter, ← List.filter_reverse.symm, List.head?_reverse]

/-- Entries under other keys do not matter to a read. -/
theorem get_ofList_filter {l : List (κ × ν)} {k : κ} {p : κ × ν → Bool}
    (h : ∀ e ∈ l, e.1 = k → p e = true) : (ofList (l.filter p)).get k = (ofList l).get k := by
  have hr : ∀ e ∈ l.reverse, e.1 = k → p e = true := fun e he => h e (List.mem_reverse.mp he)
  rw [get_ofList, get_ofList, ← List.filter_reverse]
  generalize l.reverse = r at hr
  induction r with
  | nil => rfl
  | cons e rest ih =>
      have hrest := ih (fun e' he' => hr e' (List.mem_cons_of_mem _ he'))
      by_cases hk : e.1 = k
      · rw [List.filter_cons_of_pos (hr e List.mem_cons_self hk)]
        simp [hk]
      · by_cases hpe : p e = true
        · simpa [List.filter_cons_of_pos hpe, List.find?_cons, hk] using hrest
        · simpa [List.filter_cons_of_neg hpe, List.find?_cons, hk] using hrest

/-- Collect the elements of a list under their keys. -/
def group (key : α → κ) (l : List α) : InsertionMap κ (List α) :=
  l.foldl (fun m a => m.set (key a) ((m.get (key a)).getD [] ++ [a])) empty

private theorem get_group_foldl (key : α → κ) (l : List α)
    (m : InsertionMap κ (List α)) (k : κ) :
    ((l.foldl (fun m a => m.set (key a) ((m.get (key a)).getD [] ++ [a])) m).get k).getD []
      = (m.get k).getD [] ++ l.filter (fun a => key a = k) := by
  induction l generalizing m with
  | nil => simp
  | cons a rest ih =>
      rw [List.foldl_cons, ih, get_set]
      by_cases h : key a = k
      · subst h; simp
      · simp [h]

/-- The list collected under a key is the selection by that key, in order. -/
theorem get_group (key : α → κ) (l : List α) (k : κ) :
    ((group key l).get k).getD [] = l.filter (fun a => key a = k) := by
  simp [group, get_group_foldl]

/-- An entry reads back under its key. -/
theorem get_of_mem {m : InsertionMap κ ν} {e : κ × ν} (he : e ∈ m.entries) :
    m.get e.1 = some e.2 := by
  obtain ⟨l, hl⟩ := m
  simp only [get]
  induction l with
  | nil => cases he
  | cons x rest ih =>
      rw [List.map_cons, List.nodup_cons] at hl
      rcases List.mem_cons.mp he with rfl | he
      · simp
      · have hne : x.1 ≠ e.1 := fun h => hl.1 (h ▸ List.mem_map_of_mem he)
        rw [List.find?_cons_of_neg (by simpa using hne)]
        exact ih hl.2 he

private theorem mem_write {k : κ} {v : ν} {l : List (κ × ν)} {e : κ × ν}
    (h : e ∈ write k v l) : e = (k, v) ∨ e ∈ l := by
  induction l with
  | nil => exact .inl (by simpa [write] using h)
  | cons x rest ih =>
      by_cases hx : x.1 = k
      · rw [write, if_pos hx] at h
        rcases List.mem_cons.mp h with rfl | h
        · exact .inl rfl
        · exact .inr (List.mem_cons_of_mem _ h)
      · rw [write, if_neg hx] at h
        rcases List.mem_cons.mp h with rfl | h
        · exact .inr List.mem_cons_self
        · exact (ih h).imp id (List.mem_cons_of_mem _)

/-- A group is the selection by its key, and it has an element. -/
theorem mem_group {key : α → κ} {l : List α} {e : κ × List α}
    (he : e ∈ (group key l).entries) :
    e.2 = l.filter (fun a => key a = e.1) ∧ e.2 ≠ [] := by
  have hnonempty : ∀ (l : List α) (m : InsertionMap κ (List α)),
      (∀ x ∈ m.entries, x.2 ≠ []) →
      ∀ x ∈ (l.foldl (fun m a => m.set (key a) ((m.get (key a)).getD [] ++ [a])) m).entries,
        x.2 ≠ [] := by
    intro l
    induction l with
    | nil => exact fun m hm => hm
    | cons a rest ih =>
        intro m hm
        refine ih _ (fun x hx => ?_)
        rcases mem_write hx with rfl | hx
        · simp
        · exact hm x hx
  refine ⟨?_, hnonempty l empty (fun x hx => by cases hx) e he⟩
  rw [← get_group, get_of_mem he, Option.getD_some]

/-- The groups are the selections by the keys that occur. -/
theorem values_group (key : α → κ) (l : List α) :
    (group key l).values
      = ((group key l).entries.map Prod.fst).map (fun k => l.filter (fun a => key a = k)) := by
  rw [values, List.map_map]
  apply List.map_congr_left
  intro e he
  exact (mem_group he).1

/-- The keys of the groups are the keys that occur. -/
theorem mem_keys_group {key : α → κ} {l : List α} {k : κ} :
    k ∈ (group key l).entries.map Prod.fst ↔ k ∈ l.map key := by
  constructor
  · intro h
    obtain ⟨e, he, rfl⟩ := List.mem_map.mp h
    obtain ⟨hfilter, hne⟩ := mem_group he
    obtain ⟨a, ha⟩ := List.exists_mem_of_ne_nil _ hne
    rw [hfilter] at ha
    obtain ⟨ha, hkey⟩ := List.mem_filter.mp ha
    exact List.mem_map.mpr ⟨a, ha, of_decide_eq_true hkey⟩
  · intro h
    obtain ⟨a, ha, rfl⟩ := List.mem_map.mp h
    have hmem : a ∈ ((group key l).get (key a)).getD [] := by
      rw [get_group]
      exact List.mem_filter.mpr ⟨ha, decide_eq_true rfl⟩
    cases hget : (group key l).get (key a) with
    | none =>
        rw [hget] at hmem
        cases hmem
    | some v =>
        obtain ⟨e, he, -⟩ := Option.map_eq_some_iff.mp hget
        have hkey : e.1 = key a := by simpa using List.find?_some he
        exact hkey ▸ List.mem_map_of_mem (List.mem_of_find?_eq_some he)

/-- Grouping another order of a list finds the same keys. -/
theorem keys_group_perm (key : α → κ) {l l' : List α} (h : l.Perm l') :
    ((group key l).entries.map Prod.fst).Perm ((group key l').entries.map Prod.fst) := by
  refine (List.perm_ext_iff_of_nodup (group key l).nodup (group key l').nodup).mpr (fun k => ?_)
  rw [mem_keys_group, mem_keys_group, (h.map key).mem_iff]

private theorem filter_write_of_pos {k : κ} {v : ν} {p : κ → Bool} (hk : p k = true)
    (l : List (κ × ν)) :
    (write k v l).filter (fun e => p e.1) = write k v (l.filter (fun e => p e.1)) := by
  induction l with
  | nil => simp [write, hk]
  | cons x rest ih =>
      by_cases hx : x.1 = k
      · have hpx : p x.1 = true := hx ▸ hk
        simp [write, hx, hk]
      · by_cases hpx : p x.1 = true
        · simp [write, hx, hpx, ih]
        · simp [write, hx, hpx, ih]

private theorem filter_write_of_neg {k : κ} {v : ν} {p : κ → Bool} (hk : p k = false)
    (l : List (κ × ν)) :
    (write k v l).filter (fun e => p e.1) = l.filter (fun e => p e.1) := by
  induction l with
  | nil => simp [write, hk]
  | cons x rest ih =>
      by_cases hx : x.1 = k
      · simp [write, hx, hk]
      · by_cases hpx : p x.1 = true
        · simp [write, hx, hpx, ih]
        · simp [write, hx, hpx, ih]

private theorem get_of_filter {m m' : InsertionMap κ ν} {p : κ → Bool}
    (h : m'.entries = m.entries.filter (fun e => p e.1)) {k : κ} (hk : p k = true) :
    m'.get k = m.get k := by
  simp only [get, h, List.find?_filter]
  congr 2
  funext e
  by_cases he : e.1 = k
  · simp [he, hk]
  · simp [he]

/-- The groups of a selection by key are the groups with a selected key, in
their order. -/
theorem entries_group_filter (key : α → κ) (p : κ → Bool) (l : List α) :
    (group key (l.filter (fun a => p (key a)))).entries
      = (group key l).entries.filter (fun e => p e.1) := by
  have hfold : ∀ (l : List α) (m m' : InsertionMap κ (List α)),
      m'.entries = m.entries.filter (fun e => p e.1) →
      ((l.filter (fun a => p (key a))).foldl
        (fun m a => m.set (key a) ((m.get (key a)).getD [] ++ [a])) m').entries
        = ((l.foldl (fun m a => m.set (key a) ((m.get (key a)).getD [] ++ [a])) m).entries).filter
          (fun e => p e.1) := by
    intro l
    induction l with
    | nil => exact fun m m' h => h
    | cons a rest ih =>
        intro m m' h
        by_cases ha : p (key a) = true
        · rw [List.filter_cons, if_pos ha, List.foldl_cons, List.foldl_cons]
          apply ih
          simp only [set, h, get_of_filter h ha, filter_write_of_pos ha]
        · rw [List.filter_cons, if_neg ha, List.foldl_cons]
          apply ih
          simp only [set, h, filter_write_of_neg (Bool.eq_false_iff.mpr ha)]
  exact hfold l empty empty rfl

/-- A key that does not occur yet is written behind all others. -/
theorem write_of_notMem {k : κ} (v : ν) {l : List (κ × ν)} (h : k ∉ l.map Prod.fst) :
    write k v l = l ++ [(k, v)] := by
  induction l with
  | nil => rfl
  | cons e rest ih =>
      rw [List.map_cons, List.mem_cons, not_or] at h
      rw [write, if_neg (fun he => h.1 he.symm), ih h.2]
      rfl

/-- A map written by pairs with different keys has these pairs as its entries. -/
theorem entries_ofList {l : List (κ × ν)} (h : (l.map Prod.fst).Nodup) : (ofList l).entries = l := by
  have hfold : ∀ (l : List (κ × ν)) (m : InsertionMap κ ν),
      ((m.entries ++ l).map Prod.fst).Nodup →
        (l.foldl (fun m e => m.set e.1 e.2) m).entries = m.entries ++ l := by
    intro l
    induction l with
    | nil => exact fun m _ => (List.append_nil _).symm
    | cons e rest ih =>
        intro m hm
        have hfresh : e.1 ∉ m.entries.map Prod.fst := by
          intro hmem
          rw [List.map_append, List.map_cons, List.nodup_append] at hm
          exact hm.2.2 _ hmem _ List.mem_cons_self rfl
        have hentries : (m.set e.1 e.2).entries = m.entries ++ [e] := write_of_notMem e.2 hfresh
        rw [List.foldl_cons, ih, hentries, List.append_assoc, List.singleton_append]
        rw [hentries, List.append_assoc]
        exact hm
  exact hfold l empty h

/-- A key has a value where the pair is an entry. -/
theorem get_eq_some_iff {m : InsertionMap κ ν} {k : κ} {v : ν} :
    m.get k = some v ↔ (k, v) ∈ m.entries := by
  constructor
  · intro h
    obtain ⟨e, he, rfl⟩ := Option.map_eq_some_iff.mp h
    have hk : e.1 = k := by simpa using List.find?_some he
    subst hk
    exact List.mem_of_find?_eq_some he
  · exact get_of_mem

/-- A key written before keeps its place; a new one makes the map longer. -/
theorem length_set (m : InsertionMap κ ν) (k : κ) (v : ν) : (m.set k v).entries.length =
    if k ∈ m.entries.map Prod.fst then m.entries.length else m.entries.length + 1 := by
  rw [← List.length_map Prod.fst, set, keys_write]
  split
  · rw [List.length_map]
  · rw [List.length_append, List.length_map, List.length_singleton]

/-- The entries chosen by a condition. -/
def filter (p : κ × ν → Bool) (m : InsertionMap κ ν) : InsertionMap κ ν where
  entries := m.entries.filter p
  nodup := (List.filter_sublist.map Prod.fst).nodup m.nodup

/-- A map that is filtered has what it had under a key, where that passes. -/
theorem get_filter (p : κ × ν → Bool) (m : InsertionMap κ ν) (k : κ) :
    (m.filter p).get k = (m.get k).filter fun v => p (k, v) := by
  apply Option.ext
  intro v
  rw [get_eq_some_iff, filter, List.mem_filter, ← get_eq_some_iff, Option.filter_eq_some_iff]

/-- The map without a key. -/
def erase (k : κ) (m : InsertionMap κ ν) : InsertionMap κ ν := m.filter fun e => e.1 ≠ k

/-- A key that was erased has nothing. -/
@[simp] theorem get_erase_self (m : InsertionMap κ ν) (k : κ) : (m.erase k).get k = none := by
  rw [erase, get_filter, Option.filter_eq_none_iff]
  intro v _
  simp

/-- The others have what they had. -/
theorem get_erase_other (m : InsertionMap κ ν) {k k' : κ} (h : k ≠ k') :
    (m.erase k').get k = m.get k := by
  rw [erase, get_filter]
  simp only [ne_eq, h, not_false_eq_true, decide_true]
  cases m.get k <;> rfl

/-- To erase a key that is there makes the map smaller. -/
theorem length_erase_lt {m : InsertionMap κ ν} {e : κ × ν} (he : e ∈ m.entries) :
    (m.erase e.1).entries.length < m.entries.length := by
  rw [erase, filter, List.length_filter_lt_length_iff_exists]
  exact ⟨e, he, by simp⟩

end InsertionMap
