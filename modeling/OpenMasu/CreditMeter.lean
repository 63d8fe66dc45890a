import Mathlib.Algebra.Order.Field.Basic
import Mathlib.Tactic.Linarith
import Mathlib.Tactic.Ring

/-!
# Limits on a rate, by credit

A machine answers requests that come at times which do not decrease.  What it
may still grant is its credit: it grows with time at most at a rate, never
above a cap, and every grant takes one unit of it.  A lapse is a request that
may restore the credit to the cap for nothing.

* `Machine`, `Machine.outcomes` — the machine and the answers of a run;
* `Metered` — a credit that pays for the grants;
* `Metered.grants_le` — the grants of a run that starts with a given credit;
* `Metered.grants_window` — the grants within a window of time.
-/

namespace CreditMeter

variable {σ ι K : Type*} [Field K] [LinearOrder K] [IsStrictOrderedRing K]

/-- The answer to one request. -/
structure Outcome (K : Type*) where
  time : K
  granted : Bool
  lapsed : Bool

/-- Requests come at a time and change the state. -/
structure Machine (σ ι K : Type*) where
  time : ι → K
  step : σ → ι → σ
  grants : σ → ι → Bool
  lapses : σ → ι → Bool

variable (m : Machine σ ι K)

/-- The answers of a run. -/
def Machine.outcomes : σ → List ι → List (Outcome K)
  | _, [] => []
  | s, i :: rest => ⟨m.time i, m.grants s i, m.lapses s i⟩ :: Machine.outcomes (m.step s i) rest

def granted (outcomes : List (Outcome K)) : Nat := outcomes.countP (·.granted)

def lapsed (outcomes : List (Outcome K)) : Nat := outcomes.countP (·.lapsed)

/-- The answers within a window of time. -/
def window (t T : K) (outcomes : List (Outcome K)) : List (Outcome K) :=
  outcomes.filter fun o => t ≤ o.time ∧ o.time ≤ t + T

/-- The answers after the first grant. -/
def afterGrant (outcomes : List (Outcome K)) : List (Outcome K) :=
  (outcomes.dropWhile fun o => !o.granted).tail

/-- A credit at each time that pays for every grant. -/
structure Metered (cap rate : K) (credit : σ → K → K) : Prop where
  rate_nonneg : 0 ≤ rate
  nonneg : ∀ s t, 0 ≤ credit s t
  le_cap : ∀ s t, credit s t ≤ cap
  grows : ∀ s {t t'}, t ≤ t' → credit s t' ≤ credit s t + rate * (t' - t)
  pays : ∀ s i, credit (m.step s i) (m.time i) + (if m.grants s i then 1 else 0)
    ≤ credit s (m.time i) + if m.lapses s i then cap else 0
  opens : ∀ s i, m.grants s i → credit (m.step s i) (m.time i) + 1 ≤ cap

variable {m} {cap rate : K} {credit : σ → K → K} {s : σ} {requests : List ι} {t T : K}

omit [IsStrictOrderedRing K] in
theorem window_eq_nil (hlate : ∀ i ∈ requests, t + T < m.time i) :
    window t T (m.outcomes s requests) = [] := by
  induction requests generalizing s with
  | nil => rfl
  | cons i rest ih =>
      have hi := hlate i List.mem_cons_self
      have hrest := ih (s := m.step s i) fun j hj => hlate j (List.mem_cons_of_mem i hj)
      rw [Machine.outcomes, window, List.filter_cons_of_neg]
      · exact hrest
      · simp only [decide_eq_true_eq, not_and, not_le]
        exact fun _ => hi

omit [IsStrictOrderedRing K] in
theorem window_cons {i : ι} (hstart : t ≤ m.time i) (hend : m.time i ≤ t + T) :
    window t T (m.outcomes s (i :: requests)) =
      ⟨m.time i, m.grants s i, m.lapses s i⟩ :: window t T (m.outcomes (m.step s i) requests) :=
  List.filter_cons_of_pos (decide_eq_true ⟨hstart, hend⟩)

omit [LinearOrder K] [IsStrictOrderedRing K] in
theorem granted_cons (o : Outcome K) (l : List (Outcome K)) :
    (granted (o :: l) : K) = granted l + if o.granted then 1 else 0 := by
  rw [granted, List.countP_cons]
  push_cast
  rfl

omit [LinearOrder K] [IsStrictOrderedRing K] in
theorem mul_lapsed_cons (o : Outcome K) (l : List (Outcome K)) :
    cap * lapsed (o :: l) = cap * lapsed l + if o.lapsed then cap else 0 := by
  rw [lapsed, List.countP_cons]
  push_cast
  rw [mul_add, mul_ite, mul_one, mul_zero]
  rfl

/-- Within the window the credit at its start, what the rate adds, and the
lapses pay for the grants. -/
theorem Metered.grants_le (h : Metered m cap rate credit)
    (hsorted : requests.Pairwise fun i j => m.time i ≤ m.time j) {now : K} (hstart : t ≤ now)
    (hend : now ≤ t + T) (hlater : ∀ i ∈ requests, now ≤ m.time i) :
    (granted (window t T (m.outcomes s requests)) : K) ≤ credit s now + rate * (t + T - now) +
      cap * lapsed (window t T (m.outcomes s requests)) := by
  have hnothing : (0 : K) ≤ credit s now + rate * (t + T - now) :=
    add_nonneg (h.nonneg s now) (mul_nonneg h.rate_nonneg (sub_nonneg.mpr hend))
  induction requests generalizing s now with
  | nil =>
      simp only [Machine.outcomes, window, List.filter_nil, granted, lapsed, List.countP_nil,
        Nat.cast_zero, mul_zero]
      linarith
  | cons i rest ih =>
      obtain ⟨hhead, htail⟩ := List.pairwise_cons.mp hsorted
      have hnow : now ≤ m.time i := hlater i List.mem_cons_self
      by_cases hin : m.time i ≤ t + T
      · have hrest := ih (s := m.step s i) htail (hstart.trans hnow) hin hhead
          (add_nonneg (h.nonneg _ _) (mul_nonneg h.rate_nonneg (sub_nonneg.mpr hin)))
        rw [window_cons (hstart.trans hnow) hin, granted_cons, mul_lapsed_cons]
        have hpays := h.pays s i
        have hgrows := h.grows s hnow
        have hrate : rate * (t + T - now) =
            rate * (t + T - m.time i) + rate * (m.time i - now) := by ring
        dsimp only
        linarith
      · rw [window_eq_nil (T := T) fun j hj => ?_]
        · simp only [granted, lapsed, List.countP_nil, Nat.cast_zero, mul_zero]
          linarith
        · rcases List.mem_cons.mp hj with rfl | hj
          · exact not_le.mp hin
          · exact (not_le.mp hin).trans_le (hhead j hj)

/-- A window has the grants of one full credit, of the rate, and of the lapses
behind its first grant. -/
theorem Metered.grants_window (h : Metered m cap rate credit)
    (hsorted : requests.Pairwise fun i j => m.time i ≤ m.time j) (hT : 0 ≤ T) :
    (granted (window t T (m.outcomes s requests)) : K) ≤
      cap * (1 + lapsed (afterGrant (window t T (m.outcomes s requests)))) + rate * T := by
  have hcap : 0 ≤ cap := (h.nonneg s t).trans (h.le_cap s t)
  have hnothing : 0 ≤ cap * (1 + lapsed ([] : List (Outcome K))) + rate * T :=
    add_nonneg (mul_nonneg hcap (by positivity)) (mul_nonneg h.rate_nonneg hT)
  induction requests generalizing s with
  | nil => exact Nat.cast_zero.trans_le hnothing
  | cons i rest ih =>
      obtain ⟨hhead, htail⟩ := List.pairwise_cons.mp hsorted
      by_cases hstart : t ≤ m.time i
      · by_cases hend : m.time i ≤ t + T
        · rw [window_cons hstart hend, granted_cons]
          cases hgrants : m.grants s i with
          | false =>
              simp only [Bool.false_eq_true, if_false, add_zero]
              exact ih htail
          | true =>
              -- the first grant: what follows is paid by the credit it leaves
              have hrest := h.grants_le (s := m.step s i) htail hstart hend hhead
              have hopens := h.opens s i hgrants
              have hlate : rate * (t + T - m.time i) ≤ rate * T :=
                mul_le_mul_of_nonneg_left (by linarith) h.rate_nonneg
              simp only [if_true, afterGrant, List.dropWhile_cons, Bool.not_true,
                Bool.false_eq_true, if_false, List.tail_cons]
              linarith
        · rw [window_eq_nil (T := T) fun j hj => ?_]
          · exact Nat.cast_zero.trans_le hnothing
          · rcases List.mem_cons.mp hj with rfl | hj
            · exact not_le.mp hend
            · exact (not_le.mp hend).trans_le (hhead j hj)
      · have hskip : window t T (m.outcomes s (i :: rest)) =
            window t T (m.outcomes (m.step s i) rest) :=
          List.filter_cons_of_neg fun hin => hstart (of_decide_eq_true hin).1
        rw [hskip]
        exact ih htail

end CreditMeter
