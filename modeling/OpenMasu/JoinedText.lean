import Mathlib.Data.List.Basic

/-!
# Texts joined by a separator

Texts joined by a separator can be taken apart again where it is known how
often the separator occurs in each of them.

* `join` — the texts with the separator between them;
* `append_cons_inj_of_count` — two texts cut at a separator;
* `eq_of_join_eq` — two joined lists whose texts hold as many separators;
* `splitOn_join`, `join_eq_iff` — two joined lists are the same text when their
  parts are the same;
* `toList_intercalate` — strings joined by one character.
-/

namespace JoinedText

variable {α : Type}

/-- The texts with the separator between them. -/
def join (separator : α) : List (List α) → List α
  | [] => []
  | [text] => text
  | text :: next :: rest => text ++ separator :: join separator (next :: rest)

variable [DecidableEq α]

/-- A text in front of a separator is determined by how often the separator
occurs in it. -/
theorem append_cons_inj_of_count {c : α} {s t r r' : List α}
    (h : s ++ c :: r = t ++ c :: r') (hcount : s.count c = t.count c) : s = t ∧ r = r' := by
  induction s generalizing t with
  | nil =>
      cases t with
      | nil => exact ⟨rfl, (List.cons.inj h).2⟩
      | cons x t =>
          obtain ⟨rfl, -⟩ := List.cons.inj h
          simp at hcount
  | cons x s ih =>
      cases t with
      | nil =>
          obtain ⟨rfl, -⟩ := List.cons.inj h
          simp at hcount
      | cons y t =>
          obtain ⟨rfl, hrest⟩ := List.cons.inj h
          have hless : s.count c = t.count c := by
            rw [List.count_cons, List.count_cons] at hcount
            omega
          obtain ⟨rfl, hr⟩ := ih hrest hless
          exact ⟨rfl, hr⟩

/-- Joined texts that hold as many separators are the same texts. -/
theorem eq_of_join_eq {c : α} {texts texts' : List (List α)}
    (h : join c texts = join c texts')
    (hcount : texts.map (List.count c) = texts'.map (List.count c)) : texts = texts' := by
  induction texts generalizing texts' with
  | nil =>
      cases texts' with
      | nil => rfl
      | cons => cases hcount
  | cons text rest ih =>
      cases texts' with
      | nil => cases hcount
      | cons text' rest' =>
          rw [List.map_cons, List.map_cons] at hcount
          obtain ⟨hfirst, hothers⟩ := List.cons.inj hcount
          cases rest with
          | nil =>
              cases rest' with
              | nil =>
                  have heq : text = text' := h
                  rw [heq]
              | cons => cases hothers
          | cons next rest =>
              cases rest' with
              | nil => cases hothers
              | cons next' rest' =>
                  obtain ⟨rfl, hrest⟩ := append_cons_inj_of_count h hfirst
                  rw [ih hrest hothers]

/-- The parts of a joined text are the parts of its texts. -/
theorem splitOn_join {c : α} {texts : List (List α)} (h : texts ≠ []) :
    (join c texts).splitOn c = texts.flatMap (List.splitOn c) := by
  induction texts with
  | nil => exact absurd rfl h
  | cons text rest ih =>
      cases rest with
      | nil => simp [join]
      | cons next rest =>
          rw [join, List.splitOn_append_cons_self, ih (List.cons_ne_nil _ _)]
          rfl

/-- Joined lists are the same text exactly when their parts are the same. -/
theorem join_eq_iff {c : α} {texts texts' : List (List α)} (h : texts ≠ []) (h' : texts' ≠ []) :
    join c texts = join c texts' ↔
      texts.flatMap (List.splitOn c) = texts'.flatMap (List.splitOn c) := by
  rw [← splitOn_join h, ← splitOn_join h']
  constructor
  · intro heq
    rw [heq]
  · intro heq
    have hjoined : List.intercalate [c] ((join c texts).splitOn c) = join c texts :=
      List.intercalate_splitOn c
    rw [← hjoined, heq, List.intercalate_splitOn]

/-- Texts without the separator are told apart by their joined text. -/
theorem eq_of_join_eq_of_notMem {c : α} {texts texts' : List (List α)}
    (h : join c texts = join c texts') (hlength : texts.length = texts'.length)
    (htexts : ∀ t ∈ texts, c ∉ t) (htexts' : ∀ t ∈ texts', c ∉ t) : texts = texts' := by
  apply eq_of_join_eq h
  have hzero : ∀ {l : List (List α)}, (∀ t ∈ l, c ∉ t) →
      l.map (List.count c) = List.replicate l.length 0 := by
    intro l hl
    rw [List.eq_replicate_iff]
    refine ⟨List.length_map _, ?_⟩
    intro n hn
    obtain ⟨t, ht, rfl⟩ := List.mem_map.mp hn
    exact List.count_eq_zero_of_not_mem (hl t ht)
  rw [hzero htexts, hzero htexts', hlength]

/-- Strings joined by a separator of one character. -/
theorem toList_intercalate {s : String} {c : Char} (hs : s.toList = [c]) (texts : List String) :
    (s.intercalate texts).toList = join c (texts.map String.toList) := by
  induction texts with
  | nil => rfl
  | cons t rest ih =>
      cases rest with
      | nil => rw [String.intercalate_singleton, List.map_singleton, join]
      | cons u rest =>
          rw [String.intercalate_cons_cons, String.toList_append, String.toList_append, hs, ih,
            List.append_assoc]
          rfl

end JoinedText
