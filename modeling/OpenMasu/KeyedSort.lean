import Mathlib.Data.List.Sort
import Mathlib.Data.List.Lex

/-!
# Stable sorting by a key

A list is sorted by comparing a key of its elements in a linear order.  The
sort is stable, so the result is determined by the list alone: elements with
equal keys keep their order.  What a program built on such sorts needs is how
the sort commutes with the other list operations:

* `perm_sortOn`, `mem_sortOn` — the sort rearranges, nothing more;
* `pairwise_sortOn` — the result is ordered by the key;
* `filter_sortOn` — selecting before or after sorting is the same, ties
  included;
* `map_sortOn` — a map that keeps the key commutes with the sort;
* `sortOn_of_pairwise` — an ordered list is left alone;
* `sortOn_eq_of_perm` — the order before the sort does not matter to a key that
  tells the elements apart.
-/

namespace KeyedSort

variable {α β κ : Type} [LinearOrder κ]

/-- Stable sort of a list by a key of its elements. -/
def sortOn (key : α → κ) (l : List α) : List α :=
  l.insertionSort (fun a b => key a ≤ key b)

variable (key : α → κ)

instance total_key : Std.Total (fun a b : α => key a ≤ key b) :=
  ⟨fun a b => le_total (key a) (key b)⟩

instance trans_key : IsTrans α (fun a b : α => key a ≤ key b) :=
  ⟨fun _ _ _ => le_trans⟩

@[simp] theorem sortOn_nil : sortOn key ([] : List α) = [] := rfl

@[simp] theorem sortOn_singleton (a : α) : sortOn key [a] = [a] := rfl

/-- The sort rearranges the list. -/
theorem perm_sortOn (l : List α) : (sortOn key l).Perm l :=
  List.perm_insertionSort _ l

@[simp] theorem mem_sortOn {a : α} {l : List α} : a ∈ sortOn key l ↔ a ∈ l :=
  List.mem_insertionSort _

@[simp] theorem length_sortOn (l : List α) : (sortOn key l).length = l.length :=
  List.length_insertionSort _ l

/-- The result is ordered by the key. -/
theorem pairwise_sortOn (l : List α) :
    (sortOn key l).Pairwise (fun a b => key a ≤ key b) :=
  List.pairwise_insertionSort _ l

/-- An ordered list is left alone. -/
theorem sortOn_of_pairwise {l : List α}
    (h : l.Pairwise (fun a b => key a ≤ key b)) : sortOn key l = l :=
  h.insertionSort_eq

/-- **The sort forgets the order.**  Lists with the same elements are sorted
alike, when the key tells the elements apart. -/
theorem sortOn_eq_of_perm {l l' : List α} (h : l.Perm l')
    (hkey : ∀ a ∈ l, ∀ b ∈ l, key a = key b → a = b) : sortOn key l = sortOn key l' := by
  have hperm : (sortOn key l).Perm (sortOn key l') :=
    (perm_sortOn key l).trans (h.trans (perm_sortOn key l').symm)
  refine List.Perm.eq_of_pairwise (fun a b ha hb hab hba => ?_)
    (pairwise_sortOn key l) (pairwise_sortOn key l') hperm
  have ha' : a ∈ l := (mem_sortOn key).mp ha
  have hb' : b ∈ l := h.mem_iff.mpr ((mem_sortOn key).mp hb)
  exact hkey a ha' b hb' (le_antisymm hab hba)

/-- Sorting twice is sorting once. -/
@[simp] theorem sortOn_sortOn (l : List α) :
    sortOn key (sortOn key l) = sortOn key l :=
  sortOn_of_pairwise key (pairwise_sortOn key l)

private theorem insert_of_le {a b : α} (l : List α) (h : key a ≤ key b) :
    (b :: l).orderedInsert (fun a b => key a ≤ key b) a = a :: b :: l := by
  rw [List.orderedInsert_cons, if_pos h]

private theorem insert_of_not_le {a b : α} (l : List α) (h : ¬ key a ≤ key b) :
    (b :: l).orderedInsert (fun a b => key a ≤ key b) a
      = b :: l.orderedInsert (fun a b => key a ≤ key b) a := by
  rw [List.orderedInsert_cons, if_neg h]

private theorem filter_orderedInsert_of_pos {p : α → Bool} {a : α}
    (ha : p a = true) :
    ∀ {l : List α}, l.Pairwise (fun a b => key a ≤ key b) →
      (l.orderedInsert (fun a b => key a ≤ key b) a).filter p
        = (l.filter p).orderedInsert (fun a b => key a ≤ key b) a := by
  intro l
  induction l with
  | nil => intro _; simp [ha]
  | cons b l ih =>
      intro hsorted
      obtain ⟨hb, hl⟩ := List.pairwise_cons.mp hsorted
      by_cases hle : key a ≤ key b
      · -- everything behind `b` is at least `b`, hence at least `a`
        have hall : ∀ c ∈ (b :: l).filter p, key a ≤ key c := by
          intro c hc
          rcases List.mem_cons.mp (List.mem_of_mem_filter hc) with rfl | hc
          · exact hle
          · exact hle.trans (hb c hc)
        rw [insert_of_le key l hle, List.filter_cons_of_pos ha]
        cases hf : (b :: l).filter p with
        | nil => rfl
        | cons c rest =>
            exact (insert_of_le key rest
              (hall c (by rw [hf]; exact List.mem_cons_self))).symm
      · rw [insert_of_not_le key l hle]
        by_cases hpb : p b = true
        · rw [List.filter_cons_of_pos hpb, List.filter_cons_of_pos hpb,
            insert_of_not_le key _ hle, ih hl]
        · rw [List.filter_cons_of_neg hpb, List.filter_cons_of_neg hpb, ih hl]

private theorem filter_orderedInsert_of_neg {p : α → Bool} {a : α}
    (ha : ¬ p a = true) (l : List α) :
    (l.orderedInsert (fun a b => key a ≤ key b) a).filter p = l.filter p := by
  induction l with
  | nil => simp [ha]
  | cons b l ih =>
      by_cases hle : key a ≤ key b
      · rw [insert_of_le key l hle, List.filter_cons_of_neg ha]
      · rw [insert_of_not_le key l hle, List.filter_cons, List.filter_cons, ih]

/-- **Selection commutes with the sort.**  Stability makes this an equality of
lists, not only of multisets. -/
theorem filter_sortOn (p : α → Bool) (l : List α) :
    (sortOn key l).filter p = sortOn key (l.filter p) := by
  induction l with
  | nil => rfl
  | cons a l ih =>
      have hcons : sortOn key (a :: l)
          = (sortOn key l).orderedInsert (fun a b => key a ≤ key b) a := rfl
      rw [hcons]
      by_cases ha : p a = true
      · rw [filter_orderedInsert_of_pos key ha (pairwise_sortOn key l), ih,
          List.filter_cons_of_pos ha]
        rfl
      · rw [filter_orderedInsert_of_neg key ha, ih, List.filter_cons_of_neg ha]

/-- A map that carries one key to the other commutes with the sort. -/
theorem map_sortOn (f : α → β) (key' : β → κ) (l : List α) :
    (sortOn (fun a => key' (f a)) l).map f = sortOn key' (l.map f) :=
  List.map_insertionSort _ _ f l (fun _ _ _ _ => Iff.rfl)

end KeyedSort
