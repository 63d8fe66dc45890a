import Mathlib.Data.List.Basic
import Mathlib.Data.List.Induction
import Mathlib.Data.List.Nodup
import Mathlib.Data.List.Pairwise

/-!
# Append-only tables and runs of steps

A table with a primary key takes a row only when no row with its key is there
yet; rows are never changed.  A run applies one step after another, each to
the state the one before it left.

* `insertOnce` — insert unless the key is taken; `mem_insertOnce`,
  `mem_insertOnce_of_mem`, `nodup_insertOnce` say what such a table holds;
* `insertAll` — several rows one after another; `insertAll_eq_append`,
  `insertAll_of_taken`, `first_of_mem_insertAll` say what they append;
* `insertUnless` — insert unless some row of the table clashes with it, where
  the table has several unique constraints;
* `StepsMeet`, `invariant_of_steps`, `invariant_of_history` — a property that
  every step under a condition preserves holds after every run whose steps all
  meet it.
-/

namespace AppendOnly

section Table

variable {α κ : Type} [DecidableEq κ] (key : α → κ)

/-- Insert a row, unless one with its key is there. -/
def insertOnce (row : α) (rows : List α) : List α :=
  if key row ∈ rows.map key then rows else rows ++ [row]

variable {key} {row r : α} {rows : List α}

/-- A row of the table was there before, or is the new one under a new key. -/
theorem mem_insertOnce (h : r ∈ insertOnce key row rows) :
    r ∈ rows ∨ (r = row ∧ key row ∉ rows.map key) := by
  unfold insertOnce at h
  split at h
  · exact .inl h
  · case isFalse hnew =>
      rcases List.mem_append.mp h with h | h
      · exact .inl h
      · exact .inr ⟨List.mem_singleton.mp h, hnew⟩

/-- What is appended is the row, or nothing. -/
theorem insertOnce_eq_append (key : α → κ) (row : α) (rows : List α) :
    ∃ new, insertOnce key row rows = rows ++ new ∧ ∀ r ∈ new, r = row := by
  unfold insertOnce
  split
  · exact ⟨[], (List.append_nil rows).symm, nofun⟩
  · exact ⟨[row], rfl, fun r hr => List.mem_singleton.mp hr⟩

/-- No row is lost. -/
theorem mem_insertOnce_of_mem (h : r ∈ rows) : r ∈ insertOnce key row rows := by
  unfold insertOnce
  split
  · exact h
  · exact List.mem_append_left _ h

/-- After the insertion the key is taken. -/
theorem key_mem_insertOnce (key : α → κ) (row : α) (rows : List α) :
    key row ∈ (insertOnce key row rows).map key := by
  unfold insertOnce
  split
  · case isTrue h => exact h
  · simp

/-- A row under a free key is there. -/
theorem mem_insertOnce_self (h : key row ∉ rows.map key) : row ∈ insertOnce key row rows := by
  unfold insertOnce
  rw [if_neg h]
  exact List.mem_append_right _ List.mem_cons_self

/-- The keys stay distinct. -/
theorem nodup_insertOnce (h : (rows.map key).Nodup) :
    ((insertOnce key row rows).map key).Nodup := by
  unfold insertOnce
  split
  · exact h
  · case isFalse hnew =>
      rw [List.map_append]
      refine h.append (List.nodup_singleton _) ?_
      intro k hk hk'
      obtain rfl : k = key row := by simpa using hk'
      exact hnew hk

/-- Insert rows one after another. -/
def insertAll (key : α → κ) (new rows : List α) : List α :=
  new.foldl (fun rows r => insertOnce key r rows) rows

@[simp] theorem insertAll_nil (key : α → κ) (rows : List α) : insertAll key [] rows = rows := rfl

@[simp] theorem insertAll_cons (key : α → κ) (r : α) (new rows : List α) :
    insertAll key (r :: new) rows = insertAll key new (insertOnce key r rows) := rfl

/-- What several insertions append: rows of theirs, under free keys. -/
theorem insertAll_eq_append (key : α → κ) (new rows : List α) :
    ∃ added, insertAll key new rows = rows ++ added ∧ (added.map key).Nodup ∧
      ∀ r ∈ added, r ∈ new ∧ key r ∉ rows.map key := by
  induction new generalizing rows with
  | nil => exact ⟨[], (List.append_nil rows).symm, List.nodup_nil, nofun⟩
  | cons n new ih =>
      rw [insertAll_cons]
      unfold insertOnce
      split
      · obtain ⟨added, hadded, hnodup, hmem⟩ := ih rows
        exact ⟨added, hadded, hnodup, fun r hr =>
          ⟨List.mem_cons_of_mem _ (hmem r hr).1, (hmem r hr).2⟩⟩
      · case isFalse hfree =>
          obtain ⟨added, hadded, hnodup, hmem⟩ := ih (rows ++ [n])
          refine ⟨n :: added, ?_, ?_, ?_⟩
          · rw [hadded, List.append_assoc]
            rfl
          · refine List.nodup_cons.mpr ⟨fun hn => ?_, hnodup⟩
            obtain ⟨r, hr, hkey⟩ := List.mem_map.mp hn
            refine (hmem r hr).2 ?_
            rw [List.map_append, hkey]
            exact List.mem_append_right _ List.mem_cons_self
          · intro r hr
            rcases List.mem_cons.mp hr with rfl | hr
            · exact ⟨List.mem_cons_self, hfree⟩
            · refine ⟨List.mem_cons_of_mem _ (hmem r hr).1, fun hold => (hmem r hr).2 ?_⟩
              rw [List.map_append]
              exact List.mem_append_left _ hold

/-- Several insertions lose no row. -/
theorem mem_insertAll_of_mem {new : List α} (h : r ∈ rows) : r ∈ insertAll key new rows := by
  obtain ⟨added, hadded, -⟩ := insertAll_eq_append key new rows
  rw [hadded]
  exact List.mem_append_left _ h

/-- A row behind several insertions was there, or is new under a key that was
free. -/
theorem mem_insertAll {new : List α} (h : r ∈ insertAll key new rows) :
    r ∈ rows ∨ (r ∈ new ∧ key r ∉ rows.map key) := by
  obtain ⟨added, hadded, -, hmem⟩ := insertAll_eq_append key new rows
  rw [hadded] at h
  rcases List.mem_append.mp h with h | h
  · exact .inl h
  · exact .inr (hmem r h)

/-- After the insertions every key is taken. -/
theorem key_mem_insertAll (key : α → κ) (rows : List α) {new : List α} (h : r ∈ new) :
    key r ∈ (insertAll key new rows).map key := by
  induction new generalizing rows with
  | nil => cases h
  | cons n new ih =>
      rcases List.mem_cons.mp h with rfl | h
      · obtain ⟨s, hs, hkey⟩ := List.mem_map.mp (key_mem_insertOnce key r rows)
        have hkept : s ∈ insertAll key new (insertOnce key r rows) := mem_insertAll_of_mem hs
        exact List.mem_map.mpr ⟨s, hkept, hkey⟩
      · exact ih _ h

/-- Rows whose keys are taken change nothing. -/
theorem insertAll_of_taken {new : List α} (h : ∀ r ∈ new, key r ∈ rows.map key) :
    insertAll key new rows = rows := by
  induction new with
  | nil => rfl
  | cons n new ih =>
      rw [insertAll_cons, insertOnce, if_pos (h n List.mem_cons_self)]
      exact ih fun r hr => h r (List.mem_cons_of_mem _ hr)

/-- Under a free key the first of the new rows is there. -/
theorem first_of_mem_insertAll {new : List α} (h : r ∈ insertAll key new rows) :
    r ∈ rows ∨ (key r ∉ rows.map key ∧ new.find? (fun s => key s = key r) = some r) := by
  induction new generalizing rows with
  | nil => exact .inl h
  | cons n new ih =>
      rcases ih h with h | ⟨hfree, hfirst⟩
      · refine (mem_insertOnce h).imp_right fun ⟨hn, hfree⟩ => ?_
        subst hn
        exact ⟨hfree, List.find?_cons_of_pos (by simp)⟩
      · have hother : key n ≠ key r := fun hkey =>
          hfree (hkey ▸ key_mem_insertOnce key n rows)
        refine .inr ⟨fun hold => ?_, ?_⟩
        · obtain ⟨s, hs, hkey⟩ := List.mem_map.mp hold
          exact hfree (List.mem_map.mpr ⟨s, mem_insertOnce_of_mem hs, hkey⟩)
        · rw [List.find?_cons_of_neg (by simpa using hother)]
          exact hfirst

/-- Several insertions keep the keys distinct. -/
theorem nodup_insertAll {new : List α} (h : (rows.map key).Nodup) :
    ((insertAll key new rows).map key).Nodup := by
  induction new generalizing rows with
  | nil => exact h
  | cons n new ih => exact ih (nodup_insertOnce h)

end Table

section Conflicts

variable {α : Type} (clash : α → α → Bool)

/-- Insert a row, unless it clashes with one that is there. -/
def insertUnless (rows : List α) (row : α) : List α :=
  if rows.any (clash row) then rows else rows ++ [row]

/-- No two rows of the table clash. -/
def Apart (rows : List α) : Prop := rows.Pairwise fun a b => clash a b = false

variable {clash} {rows new : List α} {row r : α}

/-- A row behind an insertion was there or is the new one. -/
theorem mem_insertUnless (h : r ∈ insertUnless clash rows row) : r ∈ rows ∨ r = row := by
  unfold insertUnless at h
  split at h
  · exact .inl h
  · rcases List.mem_append.mp h with h | h
    · exact .inl h
    · exact .inr (List.mem_singleton.mp h)

/-- The insertion loses no row. -/
theorem mem_insertUnless_of_mem (h : r ∈ rows) : r ∈ insertUnless clash rows row := by
  unfold insertUnless
  split
  · exact h
  · exact List.mem_append_left _ h

/-- The row is there afterwards, or one it clashes with. -/
theorem insertUnless_holds (rows : List α) (row : α) :
    ∃ s ∈ insertUnless clash rows row, s = row ∨ clash row s = true := by
  unfold insertUnless
  split
  · case isTrue h =>
      obtain ⟨s, hs, hclash⟩ := List.any_eq_true.mp h
      exact ⟨s, hs, .inr hclash⟩
  · exact ⟨row, List.mem_append_right _ List.mem_cons_self, .inl rfl⟩

/-- Rows that do not clash stay so, since a row that clashes with one of them
is left out. -/
theorem Apart.insertUnless (hsymm : ∀ a b, clash a b = clash b a) (h : Apart clash rows)
    (row : α) : Apart clash (insertUnless clash rows row) := by
  unfold AppendOnly.insertUnless
  split
  · exact h
  · case isFalse hfree =>
      refine List.pairwise_append.mpr ⟨h, List.pairwise_singleton _ _, ?_⟩
      intro a ha b hb
      rw [List.mem_singleton.mp hb, hsymm]
      by_contra hclash
      exact hfree (List.any_eq_true.mpr ⟨a, ha, by simpa using hclash⟩)

/-- Two rows that clash are one row. -/
theorem Apart.eq_of_clash (hsymm : ∀ a b, clash a b = clash b a) (h : Apart clash rows) {s : α}
    (hr : r ∈ rows) (hs : s ∈ rows) (hclash : clash r s = true) : r = s := by
  by_contra hne
  have : Std.Symm fun a b => clash a b = false := ⟨fun a b hab => by rw [hsymm, hab]⟩
  have hfree : clash r s = false := List.Pairwise.forall h hr hs hne
  rw [hclash] at hfree
  cases hfree

/-- A row behind several insertions was there or is one of the new ones. -/
theorem mem_foldl_insertUnless (h : r ∈ new.foldl (insertUnless clash) rows) :
    r ∈ rows ∨ r ∈ new := by
  induction new generalizing rows with
  | nil => exact .inl h
  | cons n new ih =>
      rcases ih h with h | h
      · rcases mem_insertUnless h with h | rfl
        · exact .inl h
        · exact .inr List.mem_cons_self
      · exact .inr (List.mem_cons_of_mem _ h)

/-- Several insertions lose no row. -/
theorem mem_foldl_insertUnless_of_mem (h : r ∈ rows) :
    r ∈ new.foldl (insertUnless clash) rows := by
  induction new generalizing rows with
  | nil => exact h
  | cons n new ih => exact ih (mem_insertUnless_of_mem h)

/-- Every row is there after the insertions, or one it clashes with. -/
theorem foldl_insertUnless_holds (rows : List α) (h : r ∈ new) :
    ∃ s ∈ new.foldl (insertUnless clash) rows, s = r ∨ clash r s = true := by
  induction new generalizing rows with
  | nil => cases h
  | cons n new ih =>
      rcases List.mem_cons.mp h with rfl | h
      · obtain ⟨s, hs, hholds⟩ :
            ∃ s ∈ insertUnless clash rows r, s = r ∨ clash r s = true := insertUnless_holds rows r
        have hkept : s ∈ new.foldl (insertUnless clash) (insertUnless clash rows r) :=
          mem_foldl_insertUnless_of_mem hs
        exact ⟨s, hkept, hholds⟩
      · exact ih _ h

/-- Several insertions keep rows from clashing. -/
theorem Apart.foldl_insertUnless (hsymm : ∀ a b, clash a b = clash b a) (h : Apart clash rows)
    (new : List α) : Apart clash (new.foldl (AppendOnly.insertUnless clash) rows) := by
  induction new generalizing rows with
  | nil => exact h
  | cons n new ih => exact ih (h.insertUnless hsymm n)

end Conflicts

section Latest

variable {α : Type} (isLater : α → α → Bool)

/-- The later of a row and the best so far, which stays in a tie. -/
def keepLater (best : Option α) (row : α) : Option α :=
  match best with
  | none => some row
  | some b => if isLater row b then some row else some b

/-- The latest of some rows. -/
def latest (rows : List α) : Option α := rows.foldl (keepLater isLater) none

variable {isLater}

@[simp] theorem latest_nil : latest isLater ([] : List α) = none := rfl

/-- A row more is compared with the latest before it. -/
@[simp] theorem latest_concat (rows : List α) (row : α) :
    latest isLater (rows ++ [row]) = keepLater isLater (latest isLater rows) row := by
  rw [latest, List.foldl_append]
  rfl

/-- The latest row is one of the rows. -/
theorem mem_of_latest {rows : List α} {row : α} (h : latest isLater rows = some row) :
    row ∈ rows := by
  induction rows using List.reverseRecOn with
  | nil => cases h
  | append_singleton rest last ih =>
      rw [latest_concat] at h
      unfold keepLater at h
      split at h
      · cases h
        simp
      · case h_2 best hbest =>
          split at h
          · cases h
            simp
          · cases h
            exact List.mem_append_left _ (ih hbest)

/-- Orders that agree on the rows find the same latest row. -/
theorem latest_congr {isLater' : α → α → Bool} {rows : List α}
    (h : rows.Pairwise fun a b => isLater b a = isLater' b a) :
    latest isLater rows = latest isLater' rows := by
  induction rows using List.reverseRecOn with
  | nil => rfl
  | append_singleton rest last ih =>
      obtain ⟨hrest, -, hlast⟩ := List.pairwise_append.mp h
      rw [latest_concat, latest_concat, ← ih hrest]
      unfold keepLater
      split
      · rfl
      · case h_2 best hbest => rw [hlast best (mem_of_latest hbest) last List.mem_cons_self]

/-- The latest row is none only where there are no rows. -/
theorem latest_ne_none {rows : List α} (hrows : rows ≠ []) : latest isLater rows ≠ none := by
  induction rows using List.reverseRecOn with
  | nil => exact absurd rfl hrows
  | append_singleton rest last _ =>
      rw [latest_concat]
      unfold keepLater
      split
      · nofun
      · split <;> nofun

/-- No row is later than the latest. -/
theorem not_later_of_latest
    (htrans : ∀ a b c, isLater a b = true → isLater b c = true → isLater a c = true)
    (hirrefl : ∀ a, isLater a a = false) {rows : List α} {row : α}
    (h : latest isLater rows = some row) : ∀ r ∈ rows, isLater r row = false := by
  induction rows using List.reverseRecOn generalizing row with
  | nil => cases h
  | append_singleton rest last ih =>
      rw [latest_concat] at h
      unfold keepLater at h
      intro r hr
      cases hbest : latest isLater rest with
      | none =>
          rw [hbest] at h
          cases h
          have hrest : rest = [] := by
            by_contra hne
            exact latest_ne_none hne hbest
          rw [hrest, List.nil_append, List.mem_singleton] at hr
          rw [hr]
          exact hirrefl last
      | some best =>
          rw [hbest] at h
          dsimp only at h
          rcases List.mem_append.mp hr with hr | hr
          · have hold := ih hbest r hr
            split at h
            · case isTrue hlast =>
                cases h
                by_contra hlater
                rw [htrans r last best (by simpa using hlater) hlast] at hold
                cases hold
            · cases h
              exact hold
          · rw [List.mem_singleton.mp hr]
            split at h
            · cases h
              exact hirrefl last
            · case isFalse hlast =>
                cases h
                simpa using hlast

end Latest

section Runs

variable {σ ε : Type} (step : σ → ε → σ)

/-- Every step of the run meets the condition in the state it is taken in. -/
def StepsMeet (cond : σ → ε → Prop) : σ → List ε → Prop
  | _, [] => True
  | s, e :: rest => cond s e ∧ StepsMeet cond (step s e) rest

variable {step} {cond : σ → ε → Prop} {Inv : σ → Prop}

/-- **Run rule.**  What every step under the condition preserves holds after
every run that meets it. -/
theorem invariant_of_steps (hstep : ∀ s e, Inv s → cond s e → Inv (step s e))
    {s : σ} {events : List ε} (hmeet : StepsMeet step cond s events) (hs : Inv s) :
    Inv (events.foldl step s) := by
  induction events generalizing s with
  | nil => exact hs
  | cons e rest ih => exact ih hmeet.2 (hstep s e hs hmeet.1)

/-- **Run rule with a history.**  What every step under the condition
preserves, about the steps taken so far and the state they led to. -/
theorem invariant_of_history {HInv : List ε → σ → Prop}
    (hstep : ∀ taken s e, HInv taken s → cond s e → HInv (taken ++ [e]) (step s e))
    {s : σ} {taken events : List ε} (hmeet : StepsMeet step cond s events)
    (hs : HInv taken s) : HInv (taken ++ events) (events.foldl step s) := by
  induction events generalizing s taken with
  | nil =>
      rw [List.append_nil]
      exact hs
  | cons e rest ih =>
      have hnext := ih hmeet.2 (hstep taken s e hs hmeet.1)
      rw [List.append_assoc] at hnext
      exact hnext

/-- A run that meets the condition meets it up to every point. -/
theorem StepsMeet.of_append {s : σ} {before after : List ε}
    (h : StepsMeet step cond s (before ++ after)) : StepsMeet step cond s before := by
  induction before generalizing s with
  | nil => trivial
  | cons e rest ih => exact ⟨h.1, ih h.2⟩

/-- A run that meets the condition meets it from every point on. -/
theorem StepsMeet.from_append {s : σ} {before after : List ε}
    (h : StepsMeet step cond s (before ++ after)) :
    StepsMeet step cond (before.foldl step s) after := by
  induction before generalizing s with
  | nil => exact h
  | cons e rest ih => exact ih h.2

end Runs

end AppendOnly
