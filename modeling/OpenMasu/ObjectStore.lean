import Mathlib.Data.List.Basic

/-!
# A store of objects under references

What can be read is a list of references.  Purging a reference makes its
object unreadable and leaves the others alone; it cannot be undone.

* `purge`, `purgeAll` — one reference, and one after another;
* `mem_purgeAll` — what is still readable;
* `purgeAll_keeps_iff` — when purging loses nothing.
-/

namespace ObjectStore

variable {ρ : Type} [DecidableEq ρ]

/-- The object of a reference is gone. -/
def purge (readable : List ρ) (ref : ρ) : List ρ := readable.filter (fun r => r ≠ ref)

/-- One reference after another. -/
def purgeAll (readable refs : List ρ) : List ρ := refs.foldl purge readable

variable {readable refs : List ρ} {r ref : ρ}

@[simp] theorem mem_purge : r ∈ purge readable ref ↔ r ∈ readable ∧ r ≠ ref := by
  simp [purge]

/-- What is readable behind the purges was readable and is none of them. -/
@[simp] theorem mem_purgeAll : r ∈ purgeAll readable refs ↔ r ∈ readable ∧ r ∉ refs := by
  induction refs generalizing readable with
  | nil => simp [purgeAll]
  | cons ref rest ih =>
      have hstep : purgeAll readable (ref :: rest) = purgeAll (purge readable ref) rest := rfl
      rw [hstep, ih, mem_purge, List.mem_cons, not_or, and_assoc]

/-- Nothing readable is lost exactly when no purged reference was readable. -/
theorem purgeAll_keeps_iff :
    (∀ r ∈ readable, r ∈ purgeAll readable refs) ↔ ∀ r ∈ refs, r ∉ readable := by
  constructor
  · intro h r hr hread
    exact (mem_purgeAll.mp (h r hread)).2 hr
  · intro h r hread
    exact mem_purgeAll.mpr ⟨hread, fun hr => h r hr hread⟩

end ObjectStore
