import Mathlib.Logic.Basic

/-!
# Tasks over a durable store

A device runs tasks one after another on one executor.  A task reads and
writes the store of the device one operation at a time and asks the world in
between; from other threads calls are submitted and the store is changed; and
the process can die between any two operations, which leaves the store and
forgets the tasks.

* `Program` — a task: operations on the store, questions to the world;
* `Device`, `Process.step`, `Process.run` — a device and its runs;
* `Safe` — every state a task passes through is good, and so is what a death
  leaves, whatever is changed from outside;
* `safe_bind`, `safe_op`, `safe_query` — one rule for each construct;
* `Assurance.run` — safe tasks make safe runs.
-/

namespace DurableTasks

/-- What a task can do: operations on the store, and questions to the world. -/
structure Interface (σ : Type) where
  Op : Type
  Result : Op → Type
  exec : (o : Op) → σ → Result o × σ
  Query : Type
  Answer : Query → Type

section Programs

variable {σ : Type} {α β : Type}

/-- A task. -/
inductive Program (I : Interface σ) (α : Type) : Type
  | done (a : α)
  | act (o : I.Op) (next : I.Result o → Program I α)
  | ask (q : I.Query) (next : I.Answer q → Program I α)
  | crash

namespace Program

variable {I : Interface σ}

def bind : Program I α → (α → Program I β) → Program I β
  | done a, k => k a
  | act o next, k => act o fun r => bind (next r) k
  | ask q next, k => ask q fun r => bind (next r) k
  | crash, _ => crash

instance : Monad (Program I) where
  pure := done
  bind := bind

/-- One operation. -/
def op (o : I.Op) : Program I (I.Result o) := act o done

/-- One question. -/
def query (q : I.Query) : Program I (I.Answer q) := ask q done

/-- A task that is only run on a condition. -/
def onlyIf (c : Bool) (p : Program I Unit) : Program I Unit := if c then p else done ()

end Program

end Programs

section Devices

/-- A device: what a call does on the thread of its caller and whether it
submits a task, the tasks, what else changes the store, and what is left of it
when the process starts anew. -/
structure Device (σ : Type) extends Interface σ where
  Call : Type
  submit : Call → σ → Bool × σ
  task : Call → Program toInterface Unit
  Outside : Type
  outside : Outside → σ → σ
  restart : σ → σ

variable {σ : Type}

/-- The process of a device. -/
structure Process (D : Device σ) where
  store : σ
  queued : List D.Call
  running : Option (Program D.toInterface Unit)

inductive Event (D : Device σ)
  | call (c : D.Call)
  | begin
  | advance (answer : (q : D.Query) → D.Answer q)
  | outside (e : D.Outside)
  | death

variable {D : Device σ}

/-- One step of a process. -/
def Process.step (p : Process D) : Event D → Option (Process D)
  | .call c =>
      let (submitted, store) := D.submit c p.store
      some { p with store := store, queued := if submitted then p.queued ++ [c] else p.queued }
  | .begin =>
      match p.running, p.queued with
      | none, c :: rest => some ⟨p.store, rest, some (D.task c)⟩
      | _, _ => none
  | .advance answer =>
      match p.running with
      | some (.done _) => some { p with running := none }
      | some (.act o next) =>
          some { p with store := (D.exec o p.store).2, running := some (next (D.exec o p.store).1) }
      | some (.ask q next) => some { p with running := some (next (answer q)) }
      | some .crash => none
      | none => none
  | .outside e => some { p with store := D.outside e p.store }
  | .death => some ⟨D.restart p.store, [], none⟩

/-- A run of steps. -/
def Process.run (p : Process D) : List (Event D) → Option (Process D)
  | [] => some p
  | e :: events => (p.step e).bind fun next => next.run events

/-- A process that has just started. -/
def Process.start (D : Device σ) (s : σ) : Process D := ⟨s, [], none⟩

/-- A condition on the steps of a process. -/
structure Policy (D : Device σ) where
  begins : D.Call → σ → Prop
  permits : D.Op → σ → Prop
  answers : (q : D.Query) → D.Answer q → σ → Prop
  outside : D.Outside → σ → Prop
  death : σ → Prop

/-- The step meets the condition. -/
def Policy.Admits (P : Policy D) (p : Process D) : Event D → Prop
  | .call _ => True
  | .begin => ∀ c rest, p.queued = c :: rest → P.begins c p.store
  | .advance answer =>
      match p.running with
      | some (.act o _) => P.permits o p.store
      | some (.ask q _) => P.answers q (answer q) p.store
      | _ => True
  | .outside e => P.outside e p.store
  | .death => P.death p.store

/-- Every step of the run meets the condition. -/
def Policy.AdmitsRun (P : Policy D) : Process D → List (Event D) → Prop
  | _, [] => True
  | p, e :: events => P.Admits p e ∧ ∀ next, p.step e = some next → P.AdmitsRun next events

/-- A run is admitted event by event. -/
theorem Policy.admitsRun_cons {P : Policy D} {p next : Process D} {e : Event D}
    {events : List (Event D)} (he : P.Admits p e) (hstep : p.step e = some next)
    (hrest : P.AdmitsRun next events) : P.AdmitsRun p (e :: events) :=
  ⟨he, fun _ h => Option.some.inj (hstep.symm.trans h) ▸ hrest⟩

end Devices

section Safety

variable {σ : Type} {α β : Type} {D : Device σ}

/-- What is assumed of changes from outside, and what holds throughout. -/
structure Surroundings (P : Policy D) where
  rely : σ → σ → Prop
  always : σ → Prop
  refl : ∀ s, rely s s
  trans : ∀ {s t u}, rely s t → rely t u → rely s u

variable {P : Policy D} (S : Surroundings P)

/-- Every state the task passes through is good, and it ends in `post`. -/
def Safe (post : α → σ → Prop) : Program D.toInterface α → σ → Prop
  | .done a, s => ∀ t, S.rely s t → S.always t ∧ post a t
  | .act o next, s => ∀ t, S.rely s t → S.always t ∧
      (P.permits o t → Safe post (next (D.exec o t).1) (D.exec o t).2)
  | .ask q next, s => ∀ t, S.rely s t → S.always t ∧
      ∀ a, P.answers q a t → Safe post (next a) t
  | .crash, s => ∀ t, S.rely s t → S.always t

variable {S} {post : α → σ → Prop}

/-- A change from outside leaves the rest of a task safe. -/
theorem safe_of_rely {p : Program D.toInterface α} {s t : σ} (h : Safe S post p s)
    (hrely : S.rely s t) : Safe S post p t := by
  cases p with
  | done a =>
      intro u hu
      exact h u (S.trans hrely hu)
  | act o next =>
      intro u hu
      exact h u (S.trans hrely hu)
  | ask q next =>
      intro u hu
      exact h u (S.trans hrely hu)
  | crash =>
      intro u hu
      exact h u (S.trans hrely hu)

/-- A safe program starts in an allowed state. -/
theorem always_of_safe {p : Program D.toInterface α} {s : σ} (h : Safe S post p s) : S.always s := by
  cases p with
  | done a => exact (h s (S.refl s)).1
  | act o next => exact (h s (S.refl s)).1
  | ask q next => exact (h s (S.refl s)).1
  | crash => exact h s (S.refl s)

/-- One task after another. -/
theorem safe_bind {p : Program D.toInterface β} {k : β → Program D.toInterface α} {s : σ}
    (h : Safe S (fun b => Safe S post (k b)) p s) : Safe S post (p >>= k) s := by
  induction p generalizing s with
  | done b => exact (h s (S.refl s)).2
  | act o next ih =>
      intro t ht
      obtain ⟨halways, hnext⟩ := h t ht
      exact ⟨halways, fun hpermits => ih _ (hnext hpermits)⟩
  | ask q next ih =>
      intro t ht
      obtain ⟨halways, hnext⟩ := h t ht
      exact ⟨halways, fun a ha => ih a (hnext a ha)⟩
  | crash => exact h

/-- A weaker postcondition holds too. -/
theorem safe_mono {post' : α → σ → Prop} {p : Program D.toInterface α} {s : σ}
    (h : Safe S post p s) (hpost : ∀ a t, post a t → post' a t) : Safe S post' p s := by
  induction p generalizing s with
  | done a =>
      intro t ht
      obtain ⟨halways, ha⟩ := h t ht
      exact ⟨halways, hpost a t ha⟩
  | act o next ih =>
      intro t ht
      obtain ⟨halways, hnext⟩ := h t ht
      exact ⟨halways, fun hpermits => ih _ (hnext hpermits)⟩
  | ask q next ih =>
      intro t ht
      obtain ⟨halways, hnext⟩ := h t ht
      exact ⟨halways, fun a ha => ih a (hnext a ha)⟩
  | crash => exact h

/-- An assertion that changes from outside leave true. -/
structure Stable (S : Surroundings P) (Q : σ → Prop) : Prop where
  always : ∀ {s}, Q s → S.always s
  rely : ∀ {s t}, Q s → S.rely s t → Q t

/-- What the others keep can be added to a stable assertion. -/
theorem Stable.and {Q R : σ → Prop} (hQ : Stable S Q) (hR : ∀ {s t}, R s → S.rely s t → R t) :
    Stable S fun s => Q s ∧ R s where
  always := fun h => hQ.always h.1
  rely := fun h hrely => ⟨hQ.rely h.1 hrely, hR h.2 hrely⟩

variable {Q : σ → Prop}

/-- A program that ends is safe where the assertion the others keep gives its
postcondition. -/
theorem safe_done (hQ : Stable S Q) (a : α) {s : σ} (hs : Q s) (hpost : ∀ t, Q t → post a t) :
    Safe S post (pure a) s := by
  intro t ht
  have hQt := hQ.rely hs ht
  exact ⟨hQ.always hQt, hpost t hQt⟩

/-- A program that crashes is safe wherever the assertion holds. -/
theorem safe_crash (hQ : Stable S Q) {s : σ} (hs : Q s) :
    Safe S post (.crash : Program D.toInterface α) s :=
  fun _ ht => hQ.always (hQ.rely hs ht)

/-- A safe task, then a rest that is safe wherever the task ends. -/
theorem safe_seq {mid : β → σ → Prop} {p : Program D.toInterface β}
    {k : β → Program D.toInterface α} {s : σ} (hp : Safe S mid p s)
    (hk : ∀ b t, mid b t → Safe S post (k b) t) : Safe S post (p >>= k) s :=
  safe_bind (safe_mono hp hk)

/-- An operation, then the rest. -/
theorem safe_op (hQ : Stable S Q) {o : D.Op} {k : D.Result o → Program D.toInterface α} {s : σ}
    (hs : Q s)
    (h : ∀ t, Q t → P.permits o t → Safe S post (k (D.exec o t).1) (D.exec o t).2) :
    Safe S post (Program.op o >>= k) s := by
  intro t ht
  have hQt := hQ.rely hs ht
  exact ⟨hQ.always hQt, h t hQt⟩

/-- A question, then the rest. -/
theorem safe_query (hQ : Stable S Q) {q : D.Query} {k : D.Answer q → Program D.toInterface α}
    {s : σ} (hs : Q s) (h : ∀ t a, Q t → P.answers q a t → Safe S post (k a) t) :
    Safe S post (Program.query q >>= k) s := by
  intro t ht
  have hQt := hQ.rely hs ht
  exact ⟨hQ.always hQt, fun a => h t a hQt⟩

/-- A conditional program is safe where its body is, and where skipping it is.
-/
theorem safe_onlyIf (hQ : Stable S Q) {c : Bool} {p : Program D.toInterface Unit}
    {post : Unit → σ → Prop} {s : σ} (hs : Q s) (hrun : c = true → Safe S post p s)
    (hskip : c = false → ∀ t, Q t → post () t) : Safe S post (Program.onlyIf c p) s := by
  cases c with
  | true => exact hrun rfl
  | false => exact safe_done hQ () hs (hskip rfl)

/-- Every operation of the task is no more than a change from outside. -/
def Quiet (S : Surroundings P) : Program D.toInterface α → Prop
  | .done _ => True
  | .act o next => ∀ s, S.always s → S.rely s (D.exec o s).2 ∧ Quiet S (next (D.exec o s).1)
  | .ask _ next => ∀ a, Quiet S (next a)
  | .crash => True

/-- A quiet task leaves an assertion true that changes from outside do. -/
theorem safe_of_quiet {p : Program D.toInterface α} (hp : Quiet S p) (hQ : Stable S Q) {s : σ}
    (hs : Q s) : Safe S (fun _ => Q) p s := by
  induction p generalizing s with
  | done a => exact safe_done hQ a hs fun _ ht => ht
  | act o next ih =>
      refine safe_op hQ hs fun t ht _ => ?_
      obtain ⟨hrely, hnext⟩ := hp t (hQ.always ht)
      exact ih _ hnext (hQ.rely ht hrely)
  | ask q next ih => exact safe_query hQ hs fun t a ht _ => ih a (hp a) ht
  | crash => exact safe_crash hQ hs

end Safety

section Runs

variable {σ : Type} {D : Device σ} {P : Policy D}

/-- The tasks of the device are safe, from any state between two tasks. -/
structure Assurance (S : Surroundings P) where
  between : σ → Prop
  stable : Stable S between
  submit_rely : ∀ c s, S.always s → S.rely s (D.submit c s).2
  outside_rely : ∀ e s, S.always s → P.outside e s → S.rely s (D.outside e s)
  task : ∀ c s, between s → P.begins c s → Safe S (fun _ => between) (D.task c) s
  restart : ∀ s, S.always s → P.death s → between (D.restart s)

variable {S : Surroundings P} (A : Assurance S)

/-- A process in which all goes well. -/
def Assurance.Sound (p : Process D) : Prop :=
  match p.running with
  | none => A.between p.store
  | some rest => Safe S (fun _ => A.between) rest p.store

/-- What the others do keeps a process sound. -/
theorem Assurance.sound_rely {p : Process D} (h : A.Sound p) {t : σ} (hrely : S.rely p.store t)
    (queued : List D.Call) : A.Sound ⟨t, queued, p.running⟩ := by
  rcases p with ⟨store, old, running⟩
  cases running with
  | none => exact A.stable.rely h hrely
  | some rest => exact safe_of_rely h hrely

/-- A sound process is in an allowed state. -/
theorem Assurance.always {p : Process D} (h : A.Sound p) : S.always p.store := by
  rcases p with ⟨store, queued, running⟩
  cases running with
  | none => exact A.stable.always h
  | some rest => exact always_of_safe h

/-- One step that meets the condition. -/
theorem Assurance.step {p next : Process D} {e : Event D} (h : A.Sound p) (he : P.Admits p e)
    (hstep : p.step e = some next) : A.Sound next := by
  have halways := A.always h
  cases e with
  | call c =>
      cases hstep
      exact A.sound_rely h (A.submit_rely c p.store halways) _
  | begin =>
      rcases p with ⟨store, queued, running⟩
      cases running with
      | some rest => cases queued <;> cases hstep
      | none =>
          cases queued with
          | nil => cases hstep
          | cons c rest =>
              cases hstep
              exact A.task c store h (he c rest rfl)
  | advance answer =>
      rcases p with ⟨store, queued, running⟩
      cases running with
      | none => cases hstep
      | some rest =>
          cases rest with
          | done a =>
              cases hstep
              exact (h store (S.refl store)).2
          | act o next =>
              cases hstep
              exact (h store (S.refl store)).2 he
          | ask q next =>
              cases hstep
              exact (h store (S.refl store)).2 (answer q) he
          | crash => cases hstep
  | outside e =>
      cases hstep
      exact A.sound_rely h (A.outside_rely e p.store halways he) _
  | death =>
      cases hstep
      exact A.restart p.store halways he

/-- **Runs.**  A run whose steps all meet the condition stays good, whatever
other processes do between its steps. -/
theorem Assurance.run {p last : Process D} {events : List (Event D)} (h : A.Sound p)
    (hadmits : P.AdmitsRun p events) (hrun : p.run events = some last) : A.Sound last := by
  induction events generalizing p with
  | nil =>
      cases hrun
      exact h
  | cons e events ih =>
      rw [Process.run, Option.bind_eq_some_iff] at hrun
      obtain ⟨next, hstep, hrest⟩ := hrun
      exact ih (A.step h hadmits.1 hstep) (hadmits.2 next hstep) hrest

end Runs

end DurableTasks
