import Mathlib.Data.List.Forall2
import Mathlib.Data.List.Perm.Basic
import Mathlib.Tactic.Cases

/-!
# List operations whose step may fail

The list operations of a language with exceptions run a callback on one
element after another and stop at the first failure.  Written by recursion on
the list they are total functions into `Except`:

* `traverse` — the images of all elements, or the first failure;
* `select` — the elements a fallible test admits;
* `search` — the first element a fallible test admits;
* `accumulate` — a fold with a fallible step;
* `forEach` — a check of every element.

`bind_eq_ok` takes a successful sequence apart.

The lemmas describe the successful outcomes (`traverse_eq_ok`) and those in
another order (`traverse_perm`), say when a selection is the total one
(`select_of_total`), and compare two runs (`traverse_congr`, `Agree.bind`).
-/

namespace PartialList

variable {α β γ ε ε' : Type}

/-- A sequence of two computations succeeds when both do. -/
theorem bind_eq_ok {x : Except ε α} {f : α → Except ε β} {b : β} :
    (x >>= f) = .ok b ↔ ∃ a, x = .ok a ∧ f a = .ok b := by
  cases x <;> simp [bind, Except.bind]

/-- A pure computation succeeds with its value. -/
theorem pure_eq_ok {a b : α} : (pure a : Except ε α) = .ok b ↔ a = b := by
  simp [pure, Except.pure]

/-- The images of all elements, or the first failure. -/
def traverse (f : α → Except ε β) : List α → Except ε (List β)
  | [] => .ok []
  | a :: rest => do
      let b ← f a
      let bs ← traverse f rest
      return b :: bs

/-- The elements admitted by a test that may fail. -/
def select (p : α → Except ε Bool) : List α → Except ε (List α)
  | [] => .ok []
  | a :: rest => do
      let keep ← p a
      let kept ← select p rest
      return if keep then a :: kept else kept

/-- The first element admitted by a test that may fail; later elements are
not tested. -/
def search (p : α → Except ε Bool) : List α → Except ε (Option α)
  | [] => .ok none
  | a :: rest => do
      if ← p a then return some a else search p rest

/-- A fold whose step may fail. -/
def accumulate (f : β → α → Except ε β) : β → List α → Except ε β
  | b, [] => .ok b
  | b, a :: rest => do accumulate f (← f b a) rest

/-- A check of every element, up to the first failure. -/
def forEach (f : α → Except ε Unit) : List α → Except ε Unit
  | [] => .ok ()
  | a :: rest => do
      f a
      forEach f rest

section Steps

variable {a : α} {rest : List α}

/-- The first failure ends a traversal. -/
theorem traverse_cons {f : α → Except ε β} : traverse f (a :: rest) = (do
    let b ← f a
    let bs ← traverse f rest
    return b :: bs) := rfl

/-- So it does with a selection. -/
theorem select_cons {p : α → Except ε Bool} : select p (a :: rest) = (do
    let keep ← p a
    let kept ← select p rest
    return if keep then a :: kept else kept) := rfl

/-- So it does with an accumulation. -/
theorem accumulate_cons {f : β → α → Except ε β} {b : β} :
    accumulate f b (a :: rest) = (do accumulate f (← f b a) rest) := rfl

/-- So it does with a loop. -/
theorem forEach_cons {f : α → Except ε Unit} : forEach f (a :: rest) = (do
    f a
    forEach f rest) := rfl

end Steps

/-- The checks pass exactly when each of them does. -/
theorem forEach_eq_ok {f : α → Except ε Unit} {l : List α} :
    forEach f l = .ok () ↔ ∀ a ∈ l, f a = .ok () := by
  induction l with
  | nil => simp [forEach]
  | cons a rest ih =>
      cases ha : f a with
      | error e =>
          simp only [forEach_cons, ha, List.forall_mem_cons]
          constructor
          · intro h; cases h
          · rintro ⟨h, _⟩; cases h
      | ok u =>
          simp only [List.forall_mem_cons, ← ih, forEach_cons, ha]
          exact ⟨fun h => ⟨trivial, h⟩, fun h => h.2⟩

/-- The checks pass in every order. -/
theorem forEach_perm {f : α → Except ε Unit} {l l' : List α} (h : l.Perm l') :
    forEach f l = .ok () ↔ forEach f l' = .ok () := by
  simp only [forEach_eq_ok, h.mem_iff]

@[simp] theorem traverse_nil (f : α → Except ε β) : traverse f [] = .ok [] := rfl

/-- A traversal succeeds exactly when every step does, and then returns the
images in order. -/
theorem traverse_eq_ok {f : α → Except ε β} {l : List α} {bs : List β} :
    traverse f l = .ok bs ↔ List.Forall₂ (fun a b => f a = .ok b) l bs := by
  induction l generalizing bs with
  | nil => cases bs <;> simp [traverse]
  | cons a rest ih =>
      cases ha : f a with
      | error e =>
          simp only [traverse_cons, ha]
          constructor
          · intro h; cases h
          · intro h
            cases h with
            | cons hab _ => rw [ha] at hab; cases hab
      | ok b =>
          cases hr : traverse f rest with
          | error e =>
              simp only [traverse_cons, ha, hr]
              constructor
              · intro h; cases h
              · intro h
                cases h with
                | cons _ htail => rw [ih.mpr htail] at hr; cases hr
          | ok tail =>
              simp only [traverse_cons, ha, hr]
              constructor
              · intro h
                cases h
                exact .cons ha (ih.mp hr)
              · intro h
                cases h with
                | cons hab htail =>
                    rw [ha] at hab
                    rw [ih.mpr htail] at hr
                    cases hab
                    cases hr
                    rfl

/-- The results of a traversal are those of its elements, place by place. -/
theorem forall₂_of_traverse {f : α → Except ε β} {l : List α} {bs : List β}
    (h : traverse f l = .ok bs) : List.Forall₂ (fun a b => f a = .ok b) l bs :=
  Iff.mp traverse_eq_ok h

/-- Every image of a successful traversal comes from an element. -/
theorem exists_of_mem_traverse {f : α → Except ε β} {l : List α} {bs : List β}
    (h : traverse f l = .ok bs) {b : β} (hb : b ∈ bs) :
    ∃ a ∈ l, f a = .ok b := by
  have hrel := forall₂_of_traverse h
  clear h
  induction hrel with
  | nil => cases hb
  | @cons a c rest tail hac _ ih =>
      rcases List.mem_cons.mp hb with rfl | hb
      · exact ⟨a, List.mem_cons_self, hac⟩
      · obtain ⟨a', ha', hfa'⟩ := ih hb
        exact ⟨a', List.mem_cons_of_mem _ ha', hfa'⟩

/-- Every element of a successful traversal has its image in the result. -/
theorem ok_of_mem_traverse {f : α → Except ε β} {l : List α} {bs : List β}
    (h : traverse f l = .ok bs) {a : α} (ha : a ∈ l) :
    ∃ b ∈ bs, f a = .ok b := by
  have hrel := forall₂_of_traverse h
  clear h
  induction hrel with
  | nil => cases ha
  | @cons a' c rest tail hac _ ih =>
      rcases List.mem_cons.mp ha with rfl | ha
      · exact ⟨c, List.mem_cons_self, hac⟩
      · obtain ⟨b, hb, hfb⟩ := ih ha
        exact ⟨b, List.mem_cons_of_mem _ hb, hfb⟩

/-- A traversal whose steps all succeed does, and carries what they establish
over to the images. -/
theorem exists_traverse {f : α → Except ε β} {p : α → β → Prop} {l : List α}
    (h : ∀ a ∈ l, ∃ b, f a = .ok b ∧ p a b) :
    ∃ bs, traverse f l = .ok bs ∧ ∀ b ∈ bs, ∃ a ∈ l, p a b := by
  induction l with
  | nil => exact ⟨[], rfl, fun b hb => absurd hb List.not_mem_nil⟩
  | cons a rest ih =>
      obtain ⟨b, hb, hp⟩ := h a List.mem_cons_self
      obtain ⟨bs, hbs, hall⟩ := ih fun a' ha' => h a' (List.mem_cons_of_mem _ ha')
      refine ⟨b :: bs, ?_, fun b' hb' => ?_⟩
      · rw [traverse_cons, hb, hbs]
        rfl
      · rcases List.mem_cons.mp hb' with rfl | hb'
        · exact ⟨a, List.mem_cons_self, hp⟩
        · obtain ⟨a', ha', hp'⟩ := hall b' hb'
          exact ⟨a', List.mem_cons_of_mem _ ha', hp'⟩

/-- What every step carries over to its image, the traversal carries over to
the images in order. -/
theorem map_of_traverse {f : α → Except ε β} {l : List α} {bs : List β}
    (h : traverse f l = .ok bs) {tag : α → γ} {tag' : β → γ}
    (htag : ∀ a ∈ l, ∀ b, f a = .ok b → tag' b = tag a) : bs.map tag' = l.map tag := by
  have hrel := forall₂_of_traverse h
  clear h
  induction hrel with
  | nil => rfl
  | @cons a b rest tail hab _ ih =>
      have ih := ih (fun a' ha' => htag a' (List.mem_cons_of_mem _ ha'))
      rw [List.map_cons, List.map_cons, ih, htag a List.mem_cons_self b hab]

/-- A traversal keeps the length. -/
theorem length_traverse {f : α → Except ε β} {l : List α} {bs : List β}
    (h : traverse f l = .ok bs) : bs.length = l.length :=
  (forall₂_of_traverse h).length_eq.symm

/-- A pair of an element's tag and an image at one place belongs to one
element. -/
theorem exists_of_mem_zip_traverse {f : α → Except ε β} {l : List α} {bs : List β}
    (h : traverse f l = .ok bs) {tag : α → γ} {t : γ} {b : β}
    (hmem : (t, b) ∈ (l.map tag).zip bs) : ∃ a ∈ l, tag a = t ∧ f a = .ok b := by
  have hrel := forall₂_of_traverse h
  clear h
  induction hrel with
  | nil => cases hmem
  | @cons a c rest tail hac _ ih =>
      rcases List.mem_cons.mp hmem with heq | hmem
      · cases heq
        exact ⟨a, List.mem_cons_self, rfl, hac⟩
      · obtain ⟨a', ha', htag, hfa'⟩ := ih hmem
        exact ⟨a', List.mem_cons_of_mem _ ha', htag, hfa'⟩

/-- The images of the elements in another order are the images in that
order. -/
theorem traverse_perm {f : α → Except ε β} {l l' : List α} (h : l.Perm l') {bs : List β}
    (hbs : traverse f l = .ok bs) : ∃ bs', traverse f l' = .ok bs' ∧ bs.Perm bs' := by
  obtain ⟨bs', hrel, hperm⟩ := List.perm_comp_forall₂ h.symm (forall₂_of_traverse hbs)
  exact ⟨bs', traverse_eq_ok.mpr hrel, hperm.symm⟩

/-- Steps that agree on the elements make equal traversals. -/
theorem traverse_congr {f g : α → Except ε β} {l : List α}
    (h : ∀ a ∈ l, f a = g a) : traverse f l = traverse g l := by
  induction l with
  | nil => rfl
  | cons a rest ih =>
      simp only [traverse_cons, h a List.mem_cons_self,
        ih (fun a' ha' => h a' (List.mem_cons_of_mem _ ha'))]

/-- The images of the selected elements are the images with the selected
property, when the property is carried along. -/
theorem traverse_filter {f : α → Except ε β} {l : List α} {bs : List β}
    (h : traverse f l = .ok bs) {p : α → Bool} {q : β → Bool}
    (hpq : ∀ a ∈ l, ∀ b, f a = .ok b → q b = p a) :
    traverse f (l.filter p) = .ok (bs.filter q) := by
  have hrel := forall₂_of_traverse h
  clear h
  rw [traverse_eq_ok]
  induction hrel with
  | nil => exact .nil
  | @cons a b rest tail hab htail ih =>
      have hq := hpq a List.mem_cons_self b hab
      have ih := ih (fun a' ha' => hpq a' (List.mem_cons_of_mem _ ha'))
      by_cases hp : p a = true
      · rw [List.filter_cons_of_pos hp, List.filter_cons_of_pos (hq.trans hp)]
        exact .cons hab ih
      · rw [List.filter_cons_of_neg hp, List.filter_cons_of_neg (by rw [hq]; exact hp)]
        exact ih

/-- Selecting tagged images is tagging the images of the selected. -/
theorem zip_filter_traverse {f : α → Except ε β} {l : List α} {bs : List β}
    (h : traverse f l = .ok bs) (tag : α → γ) {p : α → Bool} {q : β → Bool}
    (hpq : ∀ a ∈ l, ∀ b, f a = .ok b → q b = p a) :
    ((l.map tag).zip bs).filter (fun e => q e.2)
      = ((l.filter p).map tag).zip (bs.filter q) := by
  have hrel := forall₂_of_traverse h
  clear h
  induction hrel with
  | nil => rfl
  | @cons a b rest tail hab _ ih =>
      have hq := hpq a List.mem_cons_self b hab
      have ih := ih (fun a' ha' => hpq a' (List.mem_cons_of_mem _ ha'))
      by_cases hp : p a = true
      · simp [hp, hq, ih]
      · simp [hp, hq, ih]

/-- Selecting from concatenated images is concatenating the images of the
selected elements, when an image is kept or dropped as a whole. -/
theorem flatten_filter_traverse {f : α → Except ε (List β)} {l : List α} {bs : List (List β)}
    (h : traverse f l = .ok bs) {p : α → Bool} {q : β → Bool}
    (hpq : ∀ a ∈ l, ∀ b, f a = .ok b → ∀ x ∈ b, q x = p a) :
    ∃ cs, traverse f (l.filter p) = .ok cs ∧ bs.flatten.filter q = cs.flatten := by
  have hrel := forall₂_of_traverse h
  clear h
  simp only [traverse_eq_ok]
  induction hrel with
  | nil => exact ⟨[], .nil, rfl⟩
  | @cons a b rest tail hab _ ih =>
      obtain ⟨cs, hcs, heq⟩ := ih (fun a' ha' => hpq a' (List.mem_cons_of_mem _ ha'))
      have hb := hpq a List.mem_cons_self b hab
      rw [List.flatten_cons, List.filter_append, heq]
      by_cases hp : p a = true
      · refine ⟨b :: cs, ?_, ?_⟩
        · rw [List.filter_cons_of_pos hp]
          exact .cons hab hcs
        · rw [List.filter_eq_self.mpr (fun x hx => (hb x hx).trans hp), List.flatten_cons]
      · refine ⟨cs, ?_, ?_⟩
        · rwa [List.filter_cons_of_neg hp]
        · rw [List.filter_eq_nil_iff.mpr (fun x hx => by simp [hb x hx, hp]), List.nil_append]

/-- Two traversals whose images agree under a test agree on what the test
selects. -/
theorem map_filter_of_traverse {f g : α → Except ε β} {l : List α} {bs cs : List β}
    (hf : traverse f l = .ok bs) (hg : traverse g l = .ok cs) {p : β → Bool} {F : β → γ}
    (h : ∀ a ∈ l, ∀ b c, f a = .ok b → g a = .ok c → p b = p c ∧ (p b = true → F b = F c)) :
    (bs.filter p).map F = (cs.filter p).map F := by
  have hrel := forall₂_of_traverse hf
  clear hf
  induction hrel generalizing cs with
  | nil =>
      cases hg
      rfl
  | @cons a b rest tail hab _ ih =>
      simp only [traverse_cons, bind_eq_ok, pure_eq_ok] at hg
      obtain ⟨c, hac, tail', htail, rfl⟩ := hg
      obtain ⟨hp, hF⟩ := h a List.mem_cons_self b c hab hac
      have hrest := ih htail (fun a' ha' => h a' (List.mem_cons_of_mem _ ha'))
      cases hb : p b with
      | true =>
          rw [List.filter_cons_of_pos hb, List.filter_cons_of_pos (hp ▸ hb), List.map_cons,
            List.map_cons, hrest, hF hb]
      | false =>
          rw [List.filter_cons_of_neg (by simp [hb]),
            List.filter_cons_of_neg (by simp [← hp, hb]), hrest]

/-- Selecting by a test that never fails is the filter. -/
theorem select_of_total {p : α → Except ε Bool} {q : α → Bool} {l : List α}
    (h : ∀ a ∈ l, p a = .ok (q a)) : select p l = .ok (l.filter q) := by
  induction l with
  | nil => rfl
  | cons a rest ih =>
      simp only [select_cons, h a List.mem_cons_self,
        ih (fun a' ha' => h a' (List.mem_cons_of_mem _ ha')), List.filter_cons]
      cases q a <;> rfl

/-- Tests that agree on the elements select the same. -/
theorem select_congr {p q : α → Except ε Bool} {l : List α}
    (h : ∀ a ∈ l, p a = q a) : select p l = select q l := by
  induction l with
  | nil => rfl
  | cons a rest ih =>
      simp only [select_cons, h a List.mem_cons_self,
        ih (fun a' ha' => h a' (List.mem_cons_of_mem _ ha'))]

/-- Dropping elements that a test rejects does not change a selection. -/
theorem select_filter {p : α → Except ε Bool} {q : α → Bool} {l : List α}
    (h : ∀ a ∈ l, q a = false → p a = .ok false) : select p (l.filter q) = select p l := by
  induction l with
  | nil => rfl
  | cons a rest ih =>
      have hrest := ih (fun a' ha' => h a' (List.mem_cons_of_mem _ ha'))
      cases hq : q a with
      | true => rw [List.filter_cons_of_pos hq, select_cons, select_cons, hrest]
      | false =>
          rw [List.filter_cons_of_neg (by simp [hq]), hrest, select_cons,
            h a List.mem_cons_self hq]
          cases select p rest <;> rfl

/-- Two computations agree when both fail or both return the same value. -/
def Agree : Except ε α → Except ε' α → Prop
  | .ok a, .ok b => a = b
  | .error _, .error _ => True
  | _, _ => False

/-- A computation agrees with itself. -/
theorem Agree.refl (x : Except ε α) : Agree x x := by
  cases x <;> simp [Agree]

/-- Agreement is carried through a common continuation. -/
theorem Agree.bind {x : Except ε α} {y : Except ε' α}
    {f : α → Except ε β} {g : α → Except ε' β} (h : Agree x y)
    (hfg : ∀ a, x = .ok a → y = .ok a → Agree (f a) (g a)) :
    Agree (x >>= f) (y >>= g) := by
  cases x with
  | error e =>
      cases y with
      | error e' => trivial
      | ok b => cases h
  | ok a =>
      cases y with
      | error e' => cases h
      | ok b =>
          obtain rfl : a = b := h
          exact hfg a rfl rfl

/-- Every result of a traversal in `Option` is the image of an element. -/
theorem exists_of_mem_mapM {f : α → Option β} {l : List α} {bs : List β}
    (h : l.mapM f = some bs) {b : β} (hb : b ∈ bs) : ∃ a ∈ l, f a = some b := by
  induction l generalizing bs with
  | nil =>
      rw [List.mapM_nil] at h
      cases h
      cases hb
  | cons a rest ih =>
      rw [List.mapM_cons] at h
      obtain ⟨first, hfirst, h⟩ := Option.bind_eq_some_iff.mp h
      obtain ⟨others, hothers, h⟩ := Option.bind_eq_some_iff.mp h
      cases h
      rcases List.mem_cons.mp hb with rfl | hb
      · exact ⟨a, List.mem_cons_self, hfirst⟩
      · obtain ⟨a', ha', hf⟩ := ih hothers hb
        exact ⟨a', List.mem_cons_of_mem _ ha', hf⟩

end PartialList
