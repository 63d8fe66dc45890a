import Mathlib.Data.List.Basic
import Mathlib.Order.Lattice

/-!
# Tables whose rows expire

A table keeps one row a key, and a row may be deleted from its expiry on.  A
key is held until a time when some row of it expires only later; whatever is
deleted and inserted up to that time, it stays held.

* `dropExpired` — some of the expired rows are deleted;
* `insertNew` — a row is inserted unless its key is taken;
* `Holds` — the key is taken, and will be until the time.
-/

namespace ExpiringTable

variable {ρ κ τ : Type*} [LinearOrder τ] [DecidableEq κ] (key : ρ → κ) (expiresAt : ρ → τ)

omit [DecidableEq κ] in
/-- Deletes those of the expired rows that are chosen. -/
def dropExpired (now : τ) (chosen : ρ → Bool) (rows : List ρ) : List ρ :=
  rows.filter (fun r => !(decide (expiresAt r ≤ now) && chosen r))

omit [LinearOrder τ] in
/-- Inserts a row unless its key is taken. -/
def insertNew (r : ρ) (rows : List ρ) : List ρ :=
  if key r ∈ rows.map key then rows else rows ++ [r]

/-- Some row of the key expires only after the time. -/
def Holds (rows : List ρ) (k : κ) (time : τ) : Prop :=
  ∃ r ∈ rows, key r = k ∧ time < expiresAt r

variable {key expiresAt}

omit [DecidableEq κ] in
theorem mem_dropExpired_iff {now : τ} {chosen : ρ → Bool} {rows : List ρ} {r : ρ} :
    r ∈ dropExpired expiresAt now chosen rows ↔
      r ∈ rows ∧ ¬ (expiresAt r ≤ now ∧ chosen r = true) := by
  rw [dropExpired, List.mem_filter, Bool.not_eq_true', Bool.and_eq_false_iff]
  simp only [decide_eq_false_iff_not, Bool.not_eq_true, not_and_or]

omit [DecidableEq κ] in
theorem mem_of_mem_dropExpired {now : τ} {chosen : ρ → Bool} {rows : List ρ} {r : ρ}
    (h : r ∈ dropExpired expiresAt now chosen rows) : r ∈ rows :=
  (mem_dropExpired_iff.mp h).1

omit [LinearOrder τ] in
theorem mem_insertNew_of_mem {r s : ρ} {rows : List ρ} (h : s ∈ rows) :
    s ∈ insertNew key r rows := by
  unfold insertNew
  split
  · exact h
  · exact List.mem_append_left _ h

omit [LinearOrder τ] in
theorem mem_insertNew {r s : ρ} {rows : List ρ} (h : s ∈ insertNew key r rows) :
    s ∈ rows ∨ s = r := by
  unfold insertNew at h
  split at h
  · exact .inl h
  · rcases List.mem_append.mp h with h | h
    · exact .inl h
    · exact .inr (List.mem_singleton.mp h)

omit [LinearOrder τ] in
theorem mem_insertNew_self {r : ρ} {rows : List ρ} (h : key r ∉ rows.map key) :
    r ∈ insertNew key r rows := by
  rw [insertNew, if_neg h]
  exact List.mem_append_right _ List.mem_cons_self

omit [DecidableEq κ] in
/-- A held key is taken. -/
theorem Holds.key_mem {rows : List ρ} {k : κ} {time : τ} (h : Holds key expiresAt rows k time) :
    k ∈ rows.map key := by
  obtain ⟨r, hr, rfl, -⟩ := h
  exact List.mem_map_of_mem hr

omit [DecidableEq κ] in
/-- Deleting what has expired by the time does not touch a held key. -/
theorem Holds.dropExpired {rows : List ρ} {k : κ} {now time : τ} {chosen : ρ → Bool}
    (hnow : now ≤ time) (h : Holds key expiresAt rows k time) :
    Holds key expiresAt (dropExpired expiresAt now chosen rows) k time := by
  obtain ⟨r, hr, hkey, htime⟩ := h
  refine ⟨r, mem_dropExpired_iff.mpr ⟨hr, ?_⟩, hkey, htime⟩
  rintro ⟨hexpired, -⟩
  exact absurd (lt_of_lt_of_le htime hexpired) (not_lt_of_ge hnow)

theorem Holds.insertNew {rows : List ρ} {k : κ} {time : τ} {r : ρ}
    (h : Holds key expiresAt rows k time) : Holds key expiresAt (insertNew key r rows) k time := by
  obtain ⟨s, hs, hkey, htime⟩ := h
  exact ⟨s, mem_insertNew_of_mem hs, hkey, htime⟩

end ExpiringTable
