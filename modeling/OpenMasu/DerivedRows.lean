import OpenMasu.Supersession

/-!
# Rows derived from first rows

A table is filled in two goes: first rows, and rows that supersede one of
those each, about the same subject.  First rows may name a row as well, their
base.  Every subject has one head exactly when no first row is derived from
twice, no two first rows and what is derived from them share an id, and a base
hits neither a subject nor a row that has been derived from.

* `Derives`, `FirstRows` — the two goes;
* `OneChain` — what is wanted of the table;
* `DerivesApart` — when it is had;
* `oneChain_iff` — the equivalence.
-/

namespace Supersession

variable {α ι κ δ : Type} (t : Table α ι κ) (first : List α) (parent row : δ → α)
  (derived : List δ) (subjects : κ → Prop)

/-- Derived rows supersede first rows, about their subjects. -/
structure Derives : Prop where
  mem : ∀ d ∈ derived, parent d ∈ first
  target : ∀ d ∈ derived, t.target (row d) = some (t.id (parent d))
  subject : ∀ d ∈ derived, t.subject (row d) = t.subject (parent d)
  differs : ∀ d ∈ derived, t.id (row d) ≠ t.id (parent d)

/-- No two first rows are the same or have one base, and each of the subjects
has one of them. -/
structure FirstRows : Prop where
  nodup : first.Nodup
  bases : ∀ s ∈ first, ∀ s' ∈ first, ∀ x, t.target s = some x → t.target s' = some x → s = s'
  hasRow : ∀ k, subjects k → ∃ p ∈ first, t.subject p = some k
  oneRow : ∀ k, subjects k → ∀ p ∈ first, ∀ p' ∈ first, t.subject p = some k →
    t.subject p' = some k → p = p'

/-- All ids are distinct, no row is superseded twice, and each of the subjects
has one head. -/
structure OneChain (rows : List α) : Prop where
  ids : (rows.map t.id).Nodup
  once : ∀ p ∈ rows, ∀ s ∈ rows, ∀ s' ∈ rows, t.target s = some (t.id p) →
    t.target s' = some (t.id p) → s = s'
  head : ∀ k, subjects k → ∃ h, IsHead t rows h ∧ t.subject h = some k ∧
    ∀ h', IsHead t rows h' → t.subject h' = some k → h' = h

/-- The id is that of a first row, or of a row derived from it. -/
def IsForm (p : α) (x : ι) : Prop :=
  x = t.id p ∨ ∃ d ∈ derived, parent d = p ∧ x = t.id (row d)

/-- **The condition.**  No first row is derived from twice, the forms of two
first rows are distinct, and a base is neither the id of a row about one of the
subjects nor of a row that is derived from. -/
structure DerivesApart : Prop where
  parents : (derived.map parent).Nodup
  forms : ∀ p ∈ first, ∀ q ∈ first, ∀ x, IsForm t parent row derived p x →
    IsForm t parent row derived q x → p = q
  bases : ∀ s ∈ first, ∀ x, t.target s = some x → ∀ p ∈ first,
    IsForm t parent row derived p x →
      (∀ k, subjects k → t.subject p ≠ some k) ∧ (x = t.id p → ∀ d ∈ derived, parent d ≠ p)

variable {t first parent row derived subjects}

theorem mem_rows {r : α} : r ∈ first ++ derived.map row ↔
    r ∈ first ∨ ∃ d ∈ derived, row d = r := by
  rw [List.mem_append, List.mem_map]

theorem parent_eq_of_parents (hparents : (derived.map parent).Nodup) {d d' : δ}
    (hd : d ∈ derived) (hd' : d' ∈ derived) (h : parent d = parent d') : d = d' :=
  List.inj_on_of_nodup_map hparents hd hd' h

theorem isHead_perm {rows rows' : List α} (h : rows.Perm rows') {r : α} :
    IsHead t rows r ↔ IsHead t rows' r := by
  unfold IsHead
  simp only [h.mem_iff]

/-- The order of the rows does not matter. -/
theorem oneChain_perm {rows rows' : List α} (h : rows.Perm rows') :
    OneChain t subjects rows ↔ OneChain t subjects rows' := by
  constructor
  · rintro ⟨hids, honce, hhead⟩
    simp only [isHead_perm h] at hhead
    simp only [h.mem_iff] at honce
    exact ⟨(h.map t.id).nodup_iff.mp hids, honce, hhead⟩
  · rintro ⟨hids, honce, hhead⟩
    simp only [← isHead_perm h] at hhead
    simp only [← h.mem_iff] at honce
    exact ⟨(h.map t.id).nodup_iff.mpr hids, honce, hhead⟩

section Chains

variable (hderives : Derives t first parent row derived)

include hderives

/-- The ids of rows derived apart are distinct. -/
theorem DerivesApart.nodup_ids (h : DerivesApart t first parent row derived subjects)
    (hfirst : first.Nodup) : ((first ++ derived.map row).map t.id).Nodup := by
  rw [List.map_append, List.map_map]
  refine List.nodup_append.mpr ⟨?_, ?_, ?_⟩
  · refine hfirst.map_on fun p hp q hq hid => h.forms p hp q hq _ (.inl rfl) (.inl hid)
  · refine List.Nodup.map_on (fun d hd d' hd' hid => ?_) h.parents.of_map
    have hparent := h.forms _ (hderives.mem d hd) _ (hderives.mem d' hd') _
      (.inr ⟨d, hd, rfl, rfl⟩) (.inr ⟨d', hd', rfl, hid⟩)
    exact parent_eq_of_parents h.parents hd hd' hparent
  · intro x hx y hy hxy
    obtain ⟨p, hp, rfl⟩ := List.mem_map.mp hx
    obtain ⟨d, hd, rfl⟩ := List.mem_map.mp hy
    have hparent := h.forms p hp _ (hderives.mem d hd) _ (.inl rfl) (.inr ⟨d, hd, rfl, hxy⟩)
    exact hderives.differs d hd (hparent ▸ hxy.symm)

/-- No row is superseded by two that are derived apart. -/
theorem DerivesApart.once (h : DerivesApart t first parent row derived subjects)
    (hfirst : FirstRows t first subjects) {p s s' : α} (hs : s ∈ first ++ derived.map row)
    (hs' : s' ∈ first ++ derived.map row)
    (hnamed : t.target s = some (t.id p)) (hnamed' : t.target s' = some (t.id p)) : s = s' := by
  -- a base is no row that is derived from
  have hmixed : ∀ s ∈ first, ∀ d ∈ derived, t.target s = some (t.id p) →
      t.target (row d) ≠ some (t.id p) := by
    intro s hs d hd hbase htarget
    have hid : t.id p = t.id (parent d) :=
      Option.some.inj (htarget.symm.trans (hderives.target d hd))
    exact (h.bases s hs _ hbase (parent d) (hderives.mem d hd) (.inl hid)).2 hid d hd rfl
  rcases mem_rows.mp hs with hs | ⟨d, hd, rfl⟩
  · rcases mem_rows.mp hs' with hs' | ⟨d', hd', rfl⟩
    · exact hfirst.bases s hs s' hs' _ hnamed hnamed'
    · exact absurd hnamed' (hmixed s hs d' hd' hnamed)
  · rcases mem_rows.mp hs' with hs' | ⟨d', hd', rfl⟩
    · exact absurd hnamed (hmixed s' hs' d hd hnamed')
    · have hid : t.id (parent d) = t.id (parent d') := by
        rw [hderives.target d hd] at hnamed
        rw [hderives.target d' hd'] at hnamed'
        exact (Option.some.inj hnamed).trans (Option.some.inj hnamed').symm
      have hparent := h.forms _ (hderives.mem d hd) _ (hderives.mem d' hd') _ (.inl rfl) (.inl hid)
      rw [parent_eq_of_parents h.parents hd hd' hparent]

/-- What supersedes a form of a subject's first row is derived from that row,
and supersedes the row itself. -/
theorem DerivesApart.exists_of_named (h : DerivesApart t first parent row derived subjects)
    {p : α} (hp : p ∈ first) {k : κ} (hk : subjects k) (hpk : t.subject p = some k) {x : ι}
    (hx : IsForm t parent row derived p x) {s : α} (hs : s ∈ first ++ derived.map row)
    (hnamed : t.target s = some x) :
    ∃ d ∈ derived, parent d = p ∧ x = t.id p ∧ row d = s := by
  rcases mem_rows.mp hs with hs | ⟨d, hd, rfl⟩
  · exact absurd hpk ((h.bases s hs x hnamed p hp hx).1 k hk)
  · have hid : t.id (parent d) = x := Option.some.inj ((hderives.target d hd).symm.trans hnamed)
    have hparent := h.forms _ (hderives.mem d hd) p hp x (.inl hid.symm) hx
    exact ⟨d, hd, hparent, hparent ▸ hid.symm, rfl⟩

/-- A row derived for a subject is its head. -/
theorem DerivesApart.isHead_row (h : DerivesApart t first parent row derived subjects) {d : δ}
    (hd : d ∈ derived) {k : κ} (hk : subjects k) (hdk : t.subject (parent d) = some k) :
    IsHead t (first ++ derived.map row) (row d) := by
  refine ⟨mem_rows.mpr (.inr ⟨d, hd, rfl⟩), fun s hs hnamed => ?_⟩
  obtain ⟨-, -, -, hid, -⟩ := h.exists_of_named hderives (hderives.mem d hd) hk hdk
    (.inr ⟨d, hd, rfl, rfl⟩) hs hnamed
  exact hderives.differs d hd hid

/-- The rows about a subject: its first row and what is derived from it. -/
theorem first_or_derived (hfirst : FirstRows t first subjects) {p r : α} (hp : p ∈ first) {k : κ}
    (hk : subjects k) (hpk : t.subject p = some k) (hr : r ∈ first ++ derived.map row)
    (hrk : t.subject r = some k) : r = p ∨ ∃ d ∈ derived, parent d = p ∧ row d = r := by
  rcases mem_rows.mp hr with hr | ⟨d, hd, rfl⟩
  · exact .inl (hfirst.oneRow k hk r hr p hp hrk hpk)
  · refine .inr ⟨d, hd, ?_, rfl⟩
    exact hfirst.oneRow k hk _ (hderives.mem d hd) p hp
      ((hderives.subject d hd).symm.trans hrk) hpk

/-- Every subject has one head. -/
theorem DerivesApart.head (h : DerivesApart t first parent row derived subjects)
    (hfirst : FirstRows t first subjects) {k : κ} (hk : subjects k) :
    ∃ r, IsHead t (first ++ derived.map row) r ∧ t.subject r = some k ∧
      ∀ r', IsHead t (first ++ derived.map row) r' → t.subject r' = some k → r' = r := by
  obtain ⟨p, hp, hpk⟩ := hfirst.hasRow k hk
  by_cases hd : ∃ d ∈ derived, parent d = p
  · obtain ⟨d, hd, hparent⟩ := hd
    have hdk : t.subject (parent d) = some k := hparent ▸ hpk
    refine ⟨row d, h.isHead_row hderives hd hk hdk, (hderives.subject d hd).trans hdk, ?_⟩
    rintro r ⟨hr, hhead⟩ hrk
    rcases first_or_derived hderives hfirst hp hk hpk hr hrk with rfl | ⟨d', hd', hparent', rfl⟩
    · refine absurd ?_ (hhead (row d) (mem_rows.mpr (.inr ⟨d, hd, rfl⟩)))
      rw [hderives.target d hd, hparent]
    · rw [parent_eq_of_parents h.parents hd' hd (hparent'.trans hparent.symm)]
  · refine ⟨p, ⟨mem_rows.mpr (.inl hp), fun s hs hnamed => ?_⟩, hpk, ?_⟩
    · obtain ⟨d, hmem, hparent, -⟩ := h.exists_of_named hderives hp hk hpk (.inl rfl) hs hnamed
      exact hd ⟨d, hmem, hparent⟩
    · rintro r ⟨hr, -⟩ hrk
      rcases first_or_derived hderives hfirst hp hk hpk hr hrk with rfl | ⟨d', hd', hparent', -⟩
      · rfl
      · exact absurd ⟨d', hd', hparent'⟩ hd

/-- Where no row is superseded twice, no first row is derived from twice. -/
theorem OneChain.parents (h : OneChain t subjects (first ++ derived.map row)) :
    (derived.map parent).Nodup := by
  have hrows : (derived.map (fun d => t.id (row d))).Nodup := by
    have hids := h.ids
    rw [List.map_append, List.map_map] at hids
    exact (List.nodup_append.mp hids).2.1
  refine List.Nodup.map_on (fun d hd d' hd' hparent => ?_) hrows.of_map
  refine List.inj_on_of_nodup_map hrows hd hd' (congrArg t.id ?_)
  have htarget := hderives.target d hd
  have htarget' := hderives.target d' hd'
  rw [← hparent] at htarget'
  exact h.once (parent d) (mem_rows.mpr (.inl (hderives.mem d hd))) _
    (mem_rows.mpr (.inr ⟨d, hd, rfl⟩)) _ (mem_rows.mpr (.inr ⟨d', hd', rfl⟩)) htarget htarget'

omit hderives in
/-- No derived row is a first row, where all ids are distinct. -/
theorem OneChain.row_not_mem (h : OneChain t subjects (first ++ derived.map row)) {d : δ}
    (hd : d ∈ derived) : row d ∉ first := by
  intro hmem
  have hids := h.ids
  rw [List.map_append] at hids
  exact (List.nodup_append.mp hids).2.2 _ (List.mem_map_of_mem hmem) _
    (List.mem_map_of_mem (List.mem_map_of_mem hd)) rfl

/-- Where all ids are distinct, so are the forms of the first rows. -/
theorem OneChain.forms (h : OneChain t subjects (first ++ derived.map row)) {p q : α}
    (hp : p ∈ first) (hq : q ∈ first) {x : ι} (hx : IsForm t parent row derived p x)
    (hx' : IsForm t parent row derived q x) : p = q := by
  have hsame : ∀ r ∈ first ++ derived.map row, ∀ r' ∈ first ++ derived.map row,
      t.id r = t.id r' → r = r' := fun r hr r' hr' hid => List.inj_on_of_nodup_map h.ids hr hr' hid
  rcases hx with rfl | ⟨d, hd, rfl, rfl⟩
  · rcases hx' with hid | ⟨d', hd', rfl, hid⟩
    · exact hsame p (mem_rows.mpr (.inl hp)) q (mem_rows.mpr (.inl hq)) hid
    · have heq := hsame p (mem_rows.mpr (.inl hp)) _ (mem_rows.mpr (.inr ⟨d', hd', rfl⟩)) hid
      exact absurd (heq ▸ hp) (h.row_not_mem hd')
  · rcases hx' with hid | ⟨d', hd', rfl, hid⟩
    · have heq := hsame q (mem_rows.mpr (.inl hq)) _ (mem_rows.mpr (.inr ⟨d, hd, rfl⟩)) hid.symm
      exact absurd (heq ▸ hq) (h.row_not_mem hd)
    · have heq := hsame _ (mem_rows.mpr (.inr ⟨d, hd, rfl⟩)) _ (mem_rows.mpr (.inr ⟨d', hd', rfl⟩)) hid
      have htarget := hderives.target d hd
      rw [heq, hderives.target d' hd'] at htarget
      exact hsame _ (mem_rows.mpr (.inl hp)) _ (mem_rows.mpr (.inl hq))
        (Option.some.inj htarget).symm

/-- Where no row is superseded twice, a base is no row that is derived
from. -/
theorem OneChain.base_not_parent (h : OneChain t subjects (first ++ derived.map row)) {s : α}
    (hs : s ∈ first) {d : δ} (hd : d ∈ derived) : t.target s ≠ some (t.id (parent d)) := by
  intro hbase
  have heq := h.once (parent d) (mem_rows.mpr (.inl (hderives.mem d hd))) s
    (mem_rows.mpr (.inl hs)) _ (mem_rows.mpr (.inr ⟨d, hd, rfl⟩)) hbase (hderives.target d hd)
  exact h.row_not_mem hd (heq ▸ hs)

/-- Where a subject has a head, no base hits a row about it. -/
theorem OneChain.base_not_subject (h : OneChain t subjects (first ++ derived.map row))
    (hfirst : FirstRows t first subjects) {s p : α} (hs : s ∈ first) (hp : p ∈ first) {x : ι}
    (hbase : t.target s = some x) (hx : IsForm t parent row derived p x) {k : κ}
    (hk : subjects k) : t.subject p ≠ some k := by
  intro hpk
  obtain ⟨r, ⟨hr, hhead⟩, hrk, -⟩ := h.head k hk
  have hsrow : s ∈ first ++ derived.map row := mem_rows.mpr (.inl hs)
  have hcases := first_or_derived hderives hfirst hp hk hpk hr hrk
  rcases hx with rfl | ⟨d, hd, hparent, rfl⟩
  · rcases hcases with rfl | ⟨d', hd', hparent', -⟩
    · exact hhead s hsrow hbase
    · exact h.base_not_parent hderives hs hd' (hparent' ▸ hbase)
  · rcases hcases with rfl | ⟨d', hd', hparent', rfl⟩
    · refine hhead (row d) (mem_rows.mpr (.inr ⟨d, hd, rfl⟩)) ?_
      rw [hderives.target d hd, hparent]
    · have hsame := parent_eq_of_parents (h.parents hderives) hd hd' (hparent.trans hparent'.symm)
      exact hhead s hsrow (hsame ▸ hbase)

/-- **One chain a subject.**  The table is as wanted exactly when its rows are
derived apart. -/
theorem oneChain_iff (hfirst : FirstRows t first subjects) :
    OneChain t subjects (first ++ derived.map row) ↔
      DerivesApart t first parent row derived subjects := by
  constructor
  · intro h
    refine ⟨h.parents hderives, fun p hp q hq x hx hx' => h.forms hderives hp hq hx hx', ?_⟩
    intro s hs x hbase p hp hx
    refine ⟨fun k hk => h.base_not_subject hderives hfirst hs hp hbase hx hk, ?_⟩
    rintro rfl d hd rfl
    exact h.base_not_parent hderives hs hd hbase
  · intro h
    exact ⟨h.nodup_ids hderives hfirst.nodup,
      fun p _ s hs s' hs' => h.once hderives hfirst hs hs',
      fun k hk => h.head hderives hfirst hk⟩

end Chains

end Supersession
