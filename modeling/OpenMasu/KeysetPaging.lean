import Mathlib.Data.List.Basic
import Mathlib.Order.Lattice

/-!
# Paging by key

Rows ordered by a key are read in pages: one row more than the page holds is
asked for, and if it is there the last row of the page gives the cursor of the
next one, which starts behind the key of that row.

* `page` — the rows of a page, and the row of the next cursor;
* `Traversal` — from page to page until there is no cursor;
* `IsBoundary` — a row that ends a page and is not the last one;
* `filter_behind` — what lies behind a row of an ordered list;
* `Follows.traversal_iff` — the pages are the rows exactly if the cursor of every
  boundary is accepted.
-/

namespace KeysetPaging

variable {α κ τ : Type}

/-- The rows shown, and the last of them if more follow. -/
def page (limit : Nat) (rows : List α) : List α × Option α :=
  let probed := rows.take (limit + 1)
  let shown := probed.take limit
  (shown, if limit < probed.length then shown.getLast? else none)

/-- Page after page; a request without an answer has no traversal. -/
inductive Traversal (fetch : Option τ → Option (List α × Option τ)) :
    Option τ → List (List α) → Prop where
  | last {after : Option τ} {rows : List α} (h : fetch after = some (rows, none)) :
      Traversal fetch after [rows]
  | next {after : Option τ} {rows : List α} {cursor : τ} {pages : List (List α)}
      (h : fetch after = some (rows, some cursor)) (rest : Traversal fetch (some cursor) pages) :
      Traversal fetch after (rows :: pages)

/-- A row that ends a page with another one behind it. -/
def IsBoundary (limit : Nat) (rows : List α) (r : α) : Prop :=
  ∃ i, limit ∣ i + 1 ∧ i + 1 < rows.length ∧ rows[i]? = some r

variable {limit : Nat} {rows shown rest : List α} {r : α}

theorem page_of_le (h : rows.length ≤ limit) : page limit rows = (rows, none) := by
  have htake : rows.take (limit + 1) = rows := List.take_of_length_le (by omega)
  rw [page, htake, List.take_of_length_le h, if_neg (by omega)]

theorem page_of_lt (h : limit < rows.length) :
    page limit rows = (rows.take limit, (rows.take limit).getLast?) := by
  have htake : (rows.take (limit + 1)).take limit = rows.take limit := by
    rw [List.take_take, Nat.min_eq_left (Nat.le_succ limit)]
  have hlength : limit < (rows.take (limit + 1)).length := by
    rw [List.length_take]
    omega
  rw [page, htake, if_pos hlength]

theorem not_isBoundary (h : rows.length ≤ limit) : ¬ IsBoundary limit rows r := by
  rintro ⟨i, hdvd, hlt, -⟩
  have hle := Nat.le_of_dvd (Nat.succ_pos i) hdvd
  omega

/-- The boundaries of a list are the end of its first page and the boundaries
behind it. -/
theorem isBoundary_iff (hlimit : 0 < limit) (h : limit < rows.length) :
    IsBoundary limit rows r ↔
      (rows.take limit).getLast? = some r ∨ IsBoundary limit (rows.drop limit) r := by
  have hlast : (rows.take limit).getLast? = rows[limit - 1]? := by
    rw [List.getLast?_eq_getElem?, List.length_take, Nat.min_eq_left (Nat.le_of_lt h),
      List.getElem?_take_of_lt (by omega)]
  rw [hlast]
  constructor
  · rintro ⟨i, hdvd, hlt, hr⟩
    have hle := Nat.le_of_dvd (Nat.succ_pos i) hdvd
    by_cases hfirst : i + 1 = limit
    · exact .inl (by rwa [show limit - 1 = i by omega])
    · refine .inr ⟨i - limit, ?_, ?_, ?_⟩
      · rw [show i - limit + 1 = i + 1 - limit by omega]
        exact Nat.dvd_sub hdvd (Nat.dvd_refl limit)
      · rw [List.length_drop]
        omega
      · rw [List.getElem?_drop, show limit + (i - limit) = i by omega]
        exact hr
  · rintro (hr | ⟨i, hdvd, hlt, hr⟩)
    · exact ⟨limit - 1, ⟨1, by omega⟩, by omega, hr⟩
    · rw [List.length_drop] at hlt
      rw [List.getElem?_drop] at hr
      exact ⟨limit + i, (Nat.dvd_add_right (Nat.dvd_refl limit)).mpr hdvd, by omega, hr⟩

/-- Behind a row of an ordered list lie the rows that follow it. -/
theorem filter_behind [LinearOrder κ] {key : α → κ} {front : List α}
    (hsorted : (front ++ r :: rest).Pairwise fun a b => key a < key b) :
    (front ++ r :: rest).filter (fun a => key r < key a) = rest := by
  obtain ⟨-, hrest, hfront⟩ := List.pairwise_append.mp hsorted
  obtain ⟨hbehind, -⟩ := List.pairwise_cons.mp hrest
  rw [List.filter_append, List.filter_cons_of_neg (by simp), List.filter_eq_nil_iff.mpr,
    List.filter_eq_self.mpr, List.nil_append]
  · exact fun a ha => decide_eq_true (hbehind a ha)
  · exact fun a ha => by simpa using (hfront a ha r List.mem_cons_self).le

section Traversal

variable [LinearOrder κ] {key : α → κ} {encode : α → τ} {valid : α → Prop}
  {fetch : Option τ → Option (List α × Option τ)} {sorted : List α} {after : Option τ}

/-- A page as it is answered, with the cursor of its row. -/
def answer (encode : α → τ) (p : List α × Option α) : List α × Option τ := (p.1, p.2.map encode)

/-- A cursor is answered by the page behind its row, if it is accepted. -/
structure Follows (limit : Nat) (key : α → κ) (encode : α → τ) (valid : α → Prop)
    (fetch : Option τ → Option (List α × Option τ)) (sorted : List α) : Prop where
  ordered : sorted.Pairwise fun a b => key a < key b
  accepted : ∀ r ∈ sorted, valid r → fetch (some (encode r)) =
    some (answer encode (page limit (sorted.filter fun a => key r < key a)))
  refused : ∀ r ∈ sorted, ¬ valid r → fetch (some (encode r)) = none

/-- The page behind the first page of a suffix. -/
theorem Follows.next (h : Follows limit key encode valid fetch sorted) {front : List α}
    (hsuffix : sorted = front ++ rows) (hlast : (rows.take limit).getLast? = some r)
    (hvalid : valid r) :
    fetch (some (encode r)) = some (answer encode (page limit (rows.drop limit))) := by
  obtain ⟨shown, hshown⟩ := List.getLast?_eq_some_iff.mp hlast
  have hsplit : sorted = (front ++ shown) ++ r :: rows.drop limit := by
    calc sorted = front ++ (rows.take limit ++ rows.drop limit) := by
          rw [hsuffix, List.take_append_drop]
      _ = (front ++ shown) ++ r :: rows.drop limit := by
          rw [hshown]
          simp only [List.append_assoc, List.singleton_append]
  have hfilter : sorted.filter (fun a => key r < key a) = rows.drop limit := by
    have hordered := h.ordered
    rw [hsplit] at hordered ⊢
    exact filter_behind hordered
  rw [h.accepted r (hsplit ▸ List.mem_append_right _ List.mem_cons_self) hvalid, hfilter]

/-- Where every boundary is accepted the pages run to the end. -/
theorem Follows.exists_traversal (h : Follows limit key encode valid fetch sorted)
    (hlimit : 0 < limit) {front : List α} (hsuffix : sorted = front ++ rows)
    (hfetch : fetch after = some (answer encode (page limit rows)))
    (hvalid : ∀ r, IsBoundary limit rows r → valid r) :
    ∃ pages, Traversal fetch after pages ∧ pages.flatten = rows := by
  induction hlength : rows.length using Nat.strongRecOn generalizing rows front after with
  | ind length ih =>
      by_cases hmore : limit < rows.length
      · have hne : rows.take limit ≠ [] := by
          rw [ne_eq, List.take_eq_nil_iff, not_or, ← List.length_eq_zero_iff]
          omega
        have hlast := List.getLast?_eq_some_getLast hne
        have hboundary := fun r => (isBoundary_iff (r := r) hlimit hmore).mpr
        have hnext := h.next hsuffix hlast (hvalid _ (hboundary _ (.inl hlast)))
        have hsuffix' : sorted = (front ++ rows.take limit) ++ rows.drop limit := by
          rw [hsuffix, List.append_assoc, List.take_append_drop]
        obtain ⟨pages, htraversal, hpages⟩ := ih (rows.drop limit).length
          (by rw [List.length_drop]; omega) hsuffix' hnext
          (fun r hr => hvalid r (hboundary r (.inr hr))) rfl
        refine ⟨rows.take limit :: pages, .next ?_ htraversal, ?_⟩
        · rw [hfetch, page_of_lt hmore, answer, hlast]
          rfl
        · rw [List.flatten_cons, hpages, List.take_append_drop]
      · refine ⟨[rows], .last ?_, List.append_nil _⟩
        rw [hfetch, page_of_le (Nat.le_of_not_lt hmore), answer]
        rfl

/-- A traversal has been answered. -/
theorem Traversal.answered {pages : List (List α)} (h : Traversal fetch after pages) :
    fetch after ≠ none := by
  cases h with
  | last h => rw [h]; nofun
  | next h _ => rw [h]; nofun

/-- The pages run to the end only where every boundary is accepted. -/
theorem Follows.valid_of_traversal (h : Follows limit key encode valid fetch sorted)
    (hlimit : 0 < limit) {pages : List (List α)} (htraversal : Traversal fetch after pages)
    {front : List α} (hsuffix : sorted = front ++ rows)
    (hfetch : fetch after = some (answer encode (page limit rows))) (hr : IsBoundary limit rows r) :
    valid r := by
  induction htraversal generalizing rows front with
  | last hlast =>
      by_cases hmore : limit < rows.length
      · have hne : rows.take limit ≠ [] := by
          rw [ne_eq, List.take_eq_nil_iff, not_or, ← List.length_eq_zero_iff]
          omega
        rw [hfetch, page_of_lt hmore, answer, List.getLast?_eq_some_getLast hne] at hlast
        cases hlast
      · exact absurd hr (not_isBoundary (Nat.le_of_not_lt hmore))
  | next hnext htail ih =>
      by_cases hmore : limit < rows.length
      · obtain ⟨last, hlast⟩ : ∃ last, (rows.take limit).getLast? = some last := by
          rw [← Option.isSome_iff_exists, List.getLast?_isSome, ne_eq, List.take_eq_nil_iff, not_or,
            ← List.length_eq_zero_iff]
          omega
        rw [hfetch, page_of_lt hmore, answer, hlast] at hnext
        cases hnext
        have hmem : last ∈ sorted := by
          rw [hsuffix]
          exact List.mem_append_right _ (List.mem_of_mem_take (List.mem_of_getLast? hlast))
        have hvalid : valid last := by
          by_contra hrefused
          exact htail.answered (h.refused last hmem hrefused)
        rcases (isBoundary_iff hlimit hmore).mp hr with hfirst | hbehind
        · cases hlast.symm.trans hfirst
          exact hvalid
        · have hrest : sorted = (front ++ rows.take limit) ++ rows.drop limit := by
            rw [hsuffix, List.append_assoc, List.take_append_drop]
          exact ih hrest (h.next hsuffix hlast hvalid) hbehind
      · exact absurd hr (not_isBoundary (Nat.le_of_not_lt hmore))

/-- The pages are the rows, each once and in order, exactly if the cursor of
every boundary is accepted. -/
theorem Follows.traversal_iff (h : Follows limit key encode valid fetch sorted)
    (hlimit : 0 < limit) (hfirst : fetch none = some (answer encode (page limit sorted))) :
    (∃ pages, Traversal fetch none pages ∧ pages.flatten = sorted) ↔
      ∀ r, IsBoundary limit sorted r → valid r := by
  have hsuffix : sorted = [] ++ sorted := rfl
  constructor
  · rintro ⟨pages, htraversal, -⟩ r hr
    exact h.valid_of_traversal hlimit htraversal hsuffix hfirst hr
  · exact h.exists_traversal hlimit hsuffix hfirst

end Traversal

end KeysetPaging
