import Mathlib.Data.List.Induction

/-!
# Runs of a transition system and what happened in them

A transition system has states it may start in and steps that carry an event;
which steps a state allows and in which order several parties take theirs is
left open.  A run is known by the list of its events.

* `Run`, `Run.invariant` — what the start establishes and every step keeps, of
  the events so far and the state they led to;
* `Path`, `Run.split` — a run in two parts passes through a state between them;
* `Run.stable` — what every step keeps holds from where it first holds;
* `Run.foldlM` — events that a step function allows one after another are a
  run, which can so be evaluated;
* `Since` — something happened, and nothing that ends it happened later;
* `Saw` — some event of the run found a state in which it meant something.
-/

/-- States with a start and steps that carry an event. -/
structure TransitionSystem (σ ε : Type) where
  start : σ → Prop
  step : σ → ε → σ → Prop

namespace TransitionSystem

variable {σ ε : Type} (T : TransitionSystem σ ε)

/-- A run from a start, by its events and the state it ends in. -/
inductive Run : List ε → σ → Prop
  | start {s : σ} : T.start s → Run [] s
  | snoc {es : List ε} {s : σ} {e : ε} {s' : σ} :
      Run es s → T.step s e s' → Run (es ++ [e]) s'

/-- Steps from one state to another, by their events. -/
inductive Path (s : σ) : List ε → σ → Prop
  | nil : Path s [] s
  | snoc {es : List ε} {m : σ} {e : ε} {s' : σ} :
      Path s es m → T.step m e s' → Path s (es ++ [e]) s'

variable {T} {es es' : List ε} {s s' : σ} {e : ε}

/-- **Run rule.**  What holds at a start and is kept by every step of a run,
about the events so far and the state they led to. -/
theorem Run.invariant {I : List ε → σ → Prop} (hstart : ∀ s, T.start s → I [] s)
    (hstep : ∀ es s e s', T.Run es s → I es s → T.step s e s' → I (es ++ [e]) s')
    (h : T.Run es s) : I es s := by
  induction h with
  | start hs => exact hstart _ hs
  | snoc hrun hs ih => exact hstep _ _ _ _ hrun ih hs

/-- The last step of a run. -/
theorem Run.last (h : T.Run (es ++ [e]) s') : ∃ s, T.Run es s ∧ T.step s e s' := by
  generalize hall : es ++ [e] = all at h
  cases h with
  | start hs => exact absurd hall (List.append_ne_nil_of_right_ne_nil _ (List.cons_ne_nil _ _))
  | snoc hrun hs =>
      obtain ⟨rfl, hlast⟩ := List.append_inj' hall rfl
      obtain rfl := List.singleton_inj.mp hlast
      exact ⟨_, hrun, hs⟩

/-- A run in two parts passes through a state between them. -/
theorem Run.split (h : T.Run (es ++ es') s') : ∃ s, T.Run es s ∧ T.Path s es' s' := by
  induction es' using List.reverseRecOn generalizing s' with
  | nil => exact ⟨s', by simpa using h, .nil⟩
  | append_singleton front e ih =>
      rw [← List.append_assoc] at h
      obtain ⟨m, hrun, hstep⟩ := h.last
      obtain ⟨s, hs, hpath⟩ := ih hrun
      exact ⟨s, hs, hpath.snoc hstep⟩

/-- A step in the middle of a run. -/
theorem Run.middle (h : T.Run (es ++ e :: es') s') :
    ∃ m m', T.Run es m ∧ T.step m e m' ∧ T.Path m' es' s' := by
  rw [List.append_cons] at h
  obtain ⟨m', hrun, hpath⟩ := h.split
  obtain ⟨m, hm, hstep⟩ := hrun.last
  exact ⟨m, m', hm, hstep, hpath⟩

/-- A run goes on along every path from where it ends. -/
theorem Run.append (h : T.Run es s) (hpath : T.Path s es' s') : T.Run (es ++ es') s' := by
  induction hpath with
  | nil => simpa using h
  | snoc _ hstep ih =>
      rw [← List.append_assoc]
      exact ih.snoc hstep

/-- **Stability.**  What every later step of a run keeps holds at its end if it
holds at some point. -/
theorem Run.stable {Q : σ → Prop}
    (hstep : ∀ es s e s', T.Run es s → Q s → T.step s e s' → Q s') (h : T.Run es s)
    (hpath : T.Path s es' s') (hs : Q s) : Q s' := by
  induction hpath with
  | nil => exact hs
  | snoc hfront hlast ih => exact hstep _ _ _ _ (h.append hfront) ih hlast

/-- Events that a step function allows one after another continue a run. -/
theorem Run.foldlM {next : σ → ε → Option σ}
    (hnext : ∀ s e s', next s e = some s' → T.step s e s') (h : T.Run es s)
    (hs : es'.foldlM next s = some s') : T.Run (es ++ es') s' := by
  induction es' generalizing es s with
  | nil =>
      cases hs
      rwa [List.append_nil]
  | cons e rest ih =>
      rw [List.foldlM_cons] at hs
      obtain ⟨m, hm, hrest⟩ := Option.bind_eq_some_iff.mp hs
      rw [List.append_cons]
      exact ih (h.snoc (hnext s e m hm)) hrest

section PastTime

/-- It happened, and nothing that ends it happened later. -/
def Since (began ended : ε → Prop) (es : List ε) : Prop :=
  ∃ before e after, es = before ++ e :: after ∧ began e ∧ ∀ x ∈ after, ¬ ended x

variable {began ended : ε → Prop}

/-- What begins with the last event has begun since. -/
theorem Since.last (h : began e) : Since began ended (es ++ [e]) := ⟨es, e, [], rfl, h, nofun⟩

/-- It goes on over an event that does not end it. -/
theorem Since.snoc (h : Since began ended es) (he : ¬ ended e) :
    Since began ended (es ++ [e]) := by
  obtain ⟨before, b, after, rfl, hb, hafter⟩ := h
  refine ⟨before, b, after ++ [e], by simp, hb, fun x hx => ?_⟩
  rcases List.mem_append.mp hx with hx | hx
  · exact hafter x hx
  · exact List.mem_singleton.mp hx ▸ he

/-- It holds of what begins no later and ends no earlier. -/
theorem Since.mono {began' ended' : ε → Prop} (h : Since began ended es)
    (hbegan : ∀ e ∈ es, began e → began' e) (hended : ∀ e ∈ es, ended' e → ended e) :
    Since began' ended' es := by
  obtain ⟨before, b, after, rfl, hb, hafter⟩ := h
  refine ⟨before, b, after, rfl, hbegan b (by simp) hb, fun x hx hx' => hafter x hx ?_⟩
  exact hended x (by simp [hx]) hx'

/-- Where the key of an event occurs once, what began with that event has not
been ended after it. -/
theorem Since.not_ended {κ : Type} {f : ε → Option κ} {k : κ} {x y : List ε} {i : ε}
    (h : Since began ended es) (hbegan : ∀ e, began e → f e = some k)
    (hnodup : (es.filterMap f).Nodup) (hes : es = x ++ i :: y) (hi : f i = some k) :
    began i ∧ ∀ e ∈ y, ¬ ended e := by
  obtain ⟨before, b, after, rfl, hb, hafter⟩ := h
  have hfb := hbegan b hb
  rcases List.append_eq_append_iff.mp hes with ⟨c, rfl, hc⟩ | ⟨c, rfl, hc⟩
  · cases c with
    | nil =>
        obtain ⟨rfl, rfl⟩ := List.cons.inj hc
        exact ⟨hb, hafter⟩
    | cons e c =>
        obtain ⟨rfl, rfl⟩ := List.cons.inj hc
        simp [hfb, hi, List.filterMap_append, List.nodup_append] at hnodup
  · cases c with
    | nil =>
        obtain ⟨rfl, rfl⟩ := List.cons.inj hc
        exact ⟨hb, hafter⟩
    | cons e c =>
        obtain ⟨rfl, rfl⟩ := List.cons.inj hc
        simp [hfb, hi, List.filterMap_append, List.nodup_append] at hnodup

variable (T)

/-- Some event on the way to a state found a state in which it meant
something. -/
def Saw (W : List ε → σ → ε → Prop) (es : List ε) (s' : σ) : Prop :=
  ∃ before e after s, es = before ++ e :: after ∧ T.Run before s ∧ W before s e ∧
    T.Path s (e :: after) s'

variable {T} {W : List ε → σ → ε → Prop}

/-- The last step of a run was seen. -/
theorem Saw.last (hrun : T.Run es s) (hstep : T.step s e s') (h : W es s e) :
    T.Saw W (es ++ [e]) s' :=
  ⟨es, e, [], s, rfl, hrun, h, Path.nil.snoc hstep⟩

/-- What a run saw is seen after one more step. -/
theorem Saw.snoc (h : T.Saw W es s) (hstep : T.step s e s') : T.Saw W (es ++ [e]) s' := by
  obtain ⟨before, w, after, m, rfl, hrun, hw, hpath⟩ := h
  exact ⟨before, w, after ++ [e], m, by simp, hrun, hw, hpath.snoc hstep⟩

/-- What saw a stronger condition saw a weaker one. -/
theorem Saw.mono {W' : List ε → σ → ε → Prop} (h : T.Saw W es s)
    (hmono : ∀ es s e, W es s e → W' es s e) : T.Saw W' es s := by
  obtain ⟨before, w, after, m, hes, hrun, hw, hpath⟩ := h
  exact ⟨before, w, after, m, hes, hrun, hmono _ _ _ hw, hpath⟩

end PastTime

end TransitionSystem
