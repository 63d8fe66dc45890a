import Mathlib.Algebra.BigOperators.Group.Finset.Basic
import Mathlib.Algebra.BigOperators.Ring.Finset
import Mathlib.Algebra.Order.BigOperators.Group.Finset
import OpenMasu.InsertionMap

/-!
# The latest row of each key

Rows arrive in an order; a table shows the last row of each key.  When the rows
are split by a second attribute and each part is shown on its own, the parts
together show at least as much as the whole: a row that is last on its part may
be overtaken by a row of another part.

* `lastOf`, `latest` — the last row under a key, and the rows shown;
* `sum_latest` — a sum over the rows shown, key by key;
* `sum_parts_eq_iff` — the sums over the parts add up exactly where the
  overtaken rows weigh nothing.
-/

namespace LatestRows

variable {ρ κ δ : Type} [DecidableEq κ] [DecidableEq δ] (key : ρ → κ)

/-- The last row under a key. -/
def lastOf (k : κ) (rows : List ρ) : Option ρ := (rows.filter (fun r => key r = k)).getLast?

/-- The rows shown: the last of each key. -/
def latest (rows : List ρ) : List ρ := (InsertionMap.ofList (rows.map (fun r => (key r, r)))).values

variable {key}

theorem key_of_lastOf {k : κ} {rows : List ρ} {r : ρ} (h : lastOf key k rows = some r) :
    r ∈ rows ∧ key r = k := by
  have hmem := List.mem_of_getLast? h
  rw [List.mem_filter, decide_eq_true_iff] at hmem
  exact hmem

theorem lastOf_eq_none {k : κ} {rows : List ρ} :
    lastOf key k rows = none ↔ k ∉ rows.map key := by
  rw [lastOf, List.getLast?_eq_none_iff, List.filter_eq_nil_iff, List.mem_map]
  simp only [decide_eq_true_iff, not_exists, not_and]

/-- The last row of a key is the last of any part it is in. -/
theorem lastOf_filter {k : κ} {rows : List ρ} {r : ρ} {p : ρ → Bool}
    (h : lastOf key k rows = some r) (hp : p r = true) :
    lastOf key k (rows.filter p) = some r := by
  rw [lastOf, List.filter_comm]
  obtain ⟨front, hfront⟩ := List.getLast?_eq_some_iff.mp h
  rw [hfront, List.filter_append, List.filter_cons_of_pos hp, List.filter_nil,
    List.getLast?_concat]

theorem get_rows (k : κ) (rows : List ρ) :
    (InsertionMap.ofList (rows.map (fun r => (key r, r)))).get k = lastOf key k rows := by
  rw [InsertionMap.get_ofList_eq_getLast?, List.filter_map, List.getLast?_map, Option.map_map]
  exact Option.map_id'

theorem mem_entries_of_get {m : InsertionMap κ ρ} {k : κ} {r : ρ} (h : m.get k = some r) :
    (k, r) ∈ m.entries := by
  obtain ⟨e, he, rfl⟩ := Option.map_eq_some_iff.mp h
  have hkey : e.1 = k := by simpa using List.find?_some he
  rw [← hkey]
  exact List.mem_of_find?_eq_some he

theorem keys_rows (k : κ) (rows : List ρ) :
    k ∈ (InsertionMap.ofList (rows.map (fun r => (key r, r)))).entries.map Prod.fst ↔
      k ∈ rows.map key := by
  have hrow : k ∈ rows.map key ↔
      ((InsertionMap.ofList (rows.map (fun r => (key r, r)))).get k).isSome := by
    rw [InsertionMap.get_ofList_isSome, List.map_map]
    exact Iff.rfl
  rw [hrow, Option.isSome_iff_exists, List.mem_map]
  constructor
  · intro ⟨e, he, hk⟩
    exact ⟨e.2, hk ▸ InsertionMap.get_of_mem he⟩
  · intro ⟨r, hr⟩
    exact ⟨(k, r), mem_entries_of_get hr, rfl⟩

/-- A row is shown if and only if it is the last of its key. -/
theorem mem_latest {rows : List ρ} {r : ρ} :
    r ∈ latest key rows ↔ lastOf key (key r) rows = some r := by
  rw [latest, InsertionMap.values, List.mem_map]
  constructor
  · rintro ⟨e, he, hr⟩
    have hget := InsertionMap.get_of_mem he
    rw [get_rows, hr] at hget
    rw [(key_of_lastOf hget).2]
    exact hget
  · intro h
    rw [← get_rows] at h
    exact ⟨(key r, r), mem_entries_of_get h, rfl⟩

section Sums

variable {M : Type} [AddCommMonoid M]

/-- What the last row of a key weighs; a key without rows weighs nothing. -/
def weightOf (key : ρ → κ) (w : ρ → M) (rows : List ρ) (k : κ) : M := (lastOf key k rows).elim 0 w

/-- A sum over the rows shown, key by key. -/
theorem sum_latest (w : ρ → M) (rows : List ρ) :
    ((latest key rows).map w).sum = ∑ k ∈ (rows.map key).toFinset, weightOf key w rows k := by
  let m := InsertionMap.ofList (rows.map (fun r => (key r, r)))
  have hkeys : (m.entries.map Prod.fst).toFinset = (rows.map key).toFinset := by
    ext k
    rw [List.mem_toFinset, List.mem_toFinset]
    exact keys_rows k rows
  have hweight : m.entries.map (fun e => w e.2)
      = (m.entries.map Prod.fst).map (weightOf key w rows) := by
    rw [List.map_map]
    refine List.map_congr_left fun e he => ?_
    have hget := InsertionMap.get_of_mem he
    rw [get_rows] at hget
    simp only [Function.comp, weightOf, hget, Option.elim_some]
  calc ((latest key rows).map w).sum
      = (m.entries.map (fun e => w e.2)).sum := by rw [latest, InsertionMap.values, List.map_map]; rfl
    _ = ((m.entries.map Prod.fst).map (weightOf key w rows)).sum := by rw [hweight]
    _ = ∑ k ∈ (m.entries.map Prod.fst).toFinset, weightOf key w rows k :=
        (List.sum_toFinset _ m.nodup).symm
    _ = _ := by rw [hkeys]

/-- A sum over the rows shown of a part, over the keys of the whole. -/
theorem sum_latest_filter (w : ρ → M) (rows : List ρ) (p : ρ → Bool) :
    ((latest key (rows.filter p)).map w).sum
      = ∑ k ∈ (rows.map key).toFinset, weightOf key w (rows.filter p) k := by
  rw [sum_latest]
  refine Finset.sum_subset ?_ fun k _ hk => ?_
  · intro k hk
    rw [List.mem_toFinset] at hk ⊢
    exact (List.filter_sublist.map key).subset hk
  · rw [List.mem_toFinset] at hk
    rw [weightOf, lastOf_eq_none.mpr hk, Option.elim_none]

end Sums

variable (part : ρ → δ)

/-- What the last row of a key weighs on one part. -/
theorem weight_eq_sum_parts_iff {w : ρ → ℕ} {rows : List ρ} {k : κ} {r : ρ}
    (hr : lastOf key k rows = some r) :
    weightOf key w rows k
        = ∑ d ∈ (rows.map part).toFinset, weightOf key w (rows.filter (fun x => part x = d)) k ↔
      ∀ d ≠ part r, weightOf key w (rows.filter (fun x => part x = d)) k = 0 := by
  have hmem : part r ∈ (rows.map part).toFinset :=
    List.mem_toFinset.mpr (List.mem_map_of_mem (key_of_lastOf hr).1)
  have hown : weightOf key w (rows.filter (fun x => part x = part r)) k = weightOf key w rows k := by
    rw [weightOf, weightOf, lastOf_filter hr (decide_eq_true rfl), hr]
  rw [← Finset.add_sum_erase _ _ hmem, hown, left_eq_add, Finset.sum_eq_zero_iff]
  constructor
  · intro h d hd
    by_cases hdate : d ∈ (rows.map part).toFinset
    · exact h d (Finset.mem_erase.mpr ⟨hd, hdate⟩)
    · have hnone : lastOf key k (rows.filter (fun x => part x = d)) = none := by
        rw [lastOf_eq_none]
        intro hk
        obtain ⟨x, hx, -⟩ := List.mem_map.mp hk
        rw [List.mem_filter, decide_eq_true_iff] at hx
        exact hdate (List.mem_toFinset.mpr (List.mem_map.mpr ⟨x, hx.1, hx.2⟩))
      rw [weightOf, hnone, Option.elim_none]
  · intro h d hd
    exact h d (Finset.ne_of_mem_erase hd)

/-- **Parts add up.**  The sums over the parts make the sum over the whole if
and only if a row that is last on its part, and overtaken on the whole, weighs
nothing. -/
theorem sum_parts_eq_iff {w : ρ → ℕ} {rows : List ρ} :
    ((latest key rows).map w).sum = ∑ d ∈ (rows.map part).toFinset,
        ((latest key (rows.filter (fun x => part x = d))).map w).sum ↔
      ∀ r ∈ rows, r ∈ latest key (rows.filter (fun x => part x = part r)) →
        r ∉ latest key rows → w r = 0 := by
  have hlast : ∀ k ∈ (rows.map key).toFinset, ∃ r, lastOf key k rows = some r := by
    intro k hk
    rw [List.mem_toFinset] at hk
    exact Option.ne_none_iff_exists'.mp fun hnone => lastOf_eq_none.mp hnone hk
  have hle : ∀ k ∈ (rows.map key).toFinset, weightOf key w rows k ≤
      ∑ d ∈ (rows.map part).toFinset, weightOf key w (rows.filter (fun x => part x = d)) k := by
    intro k hk
    obtain ⟨r, hr⟩ := hlast k hk
    have hown : weightOf key w (rows.filter (fun x => part x = part r)) k
        = weightOf key w rows k := by
      rw [weightOf, weightOf, lastOf_filter hr (decide_eq_true rfl), hr]
    rw [← hown]
    exact Finset.single_le_sum
      (f := fun d => weightOf key w (rows.filter (fun x => part x = d)) k)
      (fun _ _ => Nat.zero_le _)
      (List.mem_toFinset.mpr (List.mem_map_of_mem (key_of_lastOf hr).1))
  simp only [sum_latest_filter, sum_latest w rows]
  rw [Finset.sum_comm, Finset.sum_eq_sum_iff_of_le hle]
  constructor
  · intro h r hr hpart hwhole
    have hk : key r ∈ (rows.map key).toFinset := List.mem_toFinset.mpr (List.mem_map_of_mem hr)
    obtain ⟨last, hlast⟩ := hlast _ hk
    have hzero := (weight_eq_sum_parts_iff part hlast).mp (h _ hk)
    by_cases hsame : part r = part last
    · have hlastPart := lastOf_filter (p := fun x => part x = part r) hlast
        (decide_eq_true hsame.symm)
      rw [mem_latest.mp hpart] at hlastPart
      cases hlastPart
      exact absurd (mem_latest.mpr hlast) hwhole
    · have hweight := hzero (part r) hsame
      rwa [weightOf, mem_latest.mp hpart, Option.elim_some] at hweight
  · intro h k hk
    obtain ⟨last, hlast⟩ := hlast k hk
    refine (weight_eq_sum_parts_iff part hlast).mpr fun d hd => ?_
    cases hr : lastOf key k (rows.filter (fun x => part x = d)) with
    | none => rw [weightOf, hr, Option.elim_none]
    | some r =>
        obtain ⟨hmem, rfl⟩ := key_of_lastOf hr
        rw [List.mem_filter, decide_eq_true_iff] at hmem
        obtain ⟨hmem, rfl⟩ := hmem
        rw [weightOf, hr, Option.elim_some]
        refine h r hmem (mem_latest.mpr hr) fun hwhole => hd ?_
        rw [mem_latest.mp hwhole] at hlast
        cases hlast
        rfl

end LatestRows
