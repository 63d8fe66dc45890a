import Mathlib.Logic.Relation
import OpenMasu.AppendOnly

/-!
# Rows that supersede rows

The rows of an append-only table have an id; a row can name the row it
supersedes, and rows are about subjects.  What a subject stands for now is its
head: the row no other supersedes.

* `Table`, `IsHead` — the table and its heads;
* `Chained`, `Fits` — every subject has one head, and the rows that keep it
  so; `Chained.insertOnce` is the step;
* `Dominated`, `Respects` — what no row excluded before may become, and the
  rows that keep it so; `Dominated.insertOnce` is the step;
* `not_credits_of_latest` — what the latest row of a subject cannot be;
* `Grown`, `IsChain`, `Grown.isChain` — tables in which every row superseded
  a head when it came, and what its rows form.
-/

namespace Supersession

open AppendOnly (insertOnce latest)

/-- How rows are identified, which row they supersede and what they are
about. -/
structure Table (α ι κ : Type) where
  id : α → ι
  target : α → Option ι
  subject : α → Option κ

variable {α ι κ : Type} (t : Table α ι κ)

/-- No row supersedes the row. -/
def IsHead (rows : List α) (r : α) : Prop := r ∈ rows ∧ ∀ s ∈ rows, t.target s ≠ some (t.id r)

/-- Rows supersede rows about the same subject, and every subject has one
head. -/
structure Chained (rows : List α) : Prop where
  nodup : (rows.map t.id).Nodup
  refers : ∀ s ∈ rows, ∀ x, t.target s = some x →
    ∃ r ∈ rows, t.id r = x ∧ t.subject r = t.subject s
  hasHead : ∀ r ∈ rows, ∀ k, t.subject r = some k → ∃ h, IsHead t rows h ∧ t.subject h = some k
  oneHead : ∀ h h' k, IsHead t rows h → IsHead t rows h' → t.subject h = some k →
    t.subject h' = some k → h = h'

/-- The row is the first about its subject, or supersedes the head. -/
structure Fits (rows : List α) (r : α) : Prop where
  fresh : t.id r ∉ rows.map t.id
  first : t.target r = none → ∀ k, t.subject r = some k → ∀ s ∈ rows, t.subject s ≠ some k
  next : ∀ x, t.target r = some x → ∃ p ∈ rows, t.id p = x ∧ t.subject p = t.subject r ∧
    ∀ k, t.subject r = some k → IsHead t rows p

variable {t} {rows : List α} {r : α}

/-- No rows form chains. -/
theorem chained_nil : Chained t ([] : List α) where
  nodup := List.nodup_nil
  refers _ hs := nomatch hs
  hasHead _ hr := nomatch hr
  oneHead _ _ _ hh := nomatch hh.1

section Append

variable (hchained : Chained t rows) (hfits : Fits t rows r)

include hchained hfits

/-- A row that fits does not supersede itself, and no row supersedes it. -/
theorem target_ne_id : t.target r ≠ some (t.id r) ∧ ∀ s ∈ rows, t.target s ≠ some (t.id r) := by
  constructor
  · intro hself
    obtain ⟨p, hp, hid, -⟩ := hfits.next _ hself
    exact hfits.fresh (hid ▸ List.mem_map_of_mem hp)
  · intro s hs hnamed
    obtain ⟨p, hp, hid, -⟩ := hchained.refers s hs _ hnamed
    exact hfits.fresh (hid ▸ List.mem_map_of_mem hp)

/-- The heads of a table with one row more: the row, and the heads it does
not supersede. -/
theorem isHead_append_iff (h : α) : IsHead t (rows ++ [r]) h ↔
    h = r ∨ (IsHead t rows h ∧ t.target r ≠ some (t.id h)) := by
  obtain ⟨hself, hnamed⟩ := target_ne_id hchained hfits
  constructor
  · rintro ⟨hmem, hhead⟩
    rcases List.mem_append.mp hmem with hmem | hmem
    · exact .inr ⟨⟨hmem, fun s hs => hhead s (List.mem_append_left _ hs)⟩,
        hhead r (List.mem_append_right _ List.mem_cons_self)⟩
    · exact .inl (List.mem_singleton.mp hmem)
  · rintro (rfl | ⟨⟨hmem, hhead⟩, htarget⟩)
    · refine ⟨List.mem_append_right _ List.mem_cons_self, fun s hs => ?_⟩
      rcases List.mem_append.mp hs with hs | hs
      · exact hnamed s hs
      · rw [List.mem_singleton.mp hs]
        exact hself
    · refine ⟨List.mem_append_left _ hmem, fun s hs => ?_⟩
      rcases List.mem_append.mp hs with hs | hs
      · exact hhead s hs
      · rw [List.mem_singleton.mp hs]
        exact htarget

/-- A head with the subject of the row is the one it supersedes. -/
theorem target_of_isHead {h : α} {k : κ} (hhead : IsHead t rows h) (hk : t.subject r = some k)
    (hsame : t.subject h = some k) : t.target r = some (t.id h) := by
  cases htarget : t.target r with
  | none => exact absurd hsame (hfits.first htarget k hk h hhead.1)
  | some x =>
      obtain ⟨p, hp, hid, hsubject, hphead⟩ := hfits.next x htarget
      have heq : p = h :=
        hchained.oneHead p h k (hphead k hk) hhead (hsubject.trans hk) hsame
      rw [← hid, heq]

/-- **Step.**  A row that fits keeps the chains: it is new, and what it
supersedes is a head. -/
theorem Chained.append : Chained t (rows ++ [r]) := by
  have hheads := isHead_append_iff hchained hfits
  refine ⟨?_, ?_, ?_, ?_⟩
  · rw [List.map_append]
    refine hchained.nodup.append (List.nodup_singleton _) ?_
    intro x hx hx'
    obtain rfl : x = t.id r := by simpa using hx'
    exact hfits.fresh hx
  · intro s hs x hx
    rcases List.mem_append.mp hs with hs | hs
    · obtain ⟨p, hp, hid⟩ := hchained.refers s hs x hx
      exact ⟨p, List.mem_append_left _ hp, hid⟩
    · rw [List.mem_singleton.mp hs] at hx ⊢
      obtain ⟨p, hp, hid, hsubject, -⟩ := hfits.next x hx
      exact ⟨p, List.mem_append_left _ hp, hid, hsubject⟩
  · intro s hs k hk
    by_cases hown : t.subject r = some k
    · exact ⟨r, (hheads r).mpr (.inl rfl), hown⟩
    · rcases List.mem_append.mp hs with hs | hs
      · obtain ⟨h, hh, hsubject⟩ := hchained.hasHead s hs k hk
        refine ⟨h, (hheads h).mpr (.inr ⟨hh, fun htarget => hown ?_⟩), hsubject⟩
        -- the row would be about the subject of the head it supersedes
        obtain ⟨p, hp, hid, hpsubject, -⟩ := hfits.next _ htarget
        have heq : p = h := List.inj_on_of_nodup_map hchained.nodup hp hh.1 hid
        rw [← hpsubject, heq, hsubject]
      · rw [List.mem_singleton.mp hs] at hk
        exact absurd hk hown
  · intro h h' k hh hh' hk hk'
    rcases (hheads h).mp hh with rfl | ⟨hold, hne⟩
    · rcases (hheads h').mp hh' with rfl | ⟨hold', hne'⟩
      · rfl
      · exact absurd (target_of_isHead hchained hfits hold' hk hk') hne'
    · rcases (hheads h').mp hh' with rfl | ⟨hold', hne'⟩
      · exact absurd (target_of_isHead hchained hfits hold hk' hk) hne
      · exact hchained.oneHead h h' k hold hold' hk hk'

end Append

section Dominance

variable (t) (later : α → α → Prop) (excludes credits : α → Prop)

/-- A subject that was excluded is not credited by a row behind the exclusion,
nor by its head. -/
structure Dominated (rows : List α) : Prop where
  later : ∀ e ∈ rows, ∀ n ∈ rows, ∀ k, excludes e → credits n → t.subject e = some k →
    t.subject n = some k → later e n
  heads : ∀ e ∈ rows, ∀ h, IsHead t rows h → ∀ k, excludes e → t.subject e = some k →
    t.subject h = some k → ¬ credits h

/-- The row does not credit an excluded subject, and excludes its subject
behind every credit. -/
structure Respects (rows : List α) (r : α) : Prop where
  excluded : ∀ e ∈ rows, ∀ k, excludes e → t.subject e = some k → t.subject r = some k →
    ¬ credits r
  excluding : ∀ k, excludes r → t.subject r = some k →
    ¬ credits r ∧ ∀ n ∈ rows, credits n → t.subject n = some k → later r n

variable {t later excludes credits}

/-- In no rows everything is dominated. -/
theorem dominated_nil : Dominated t later excludes credits [] where
  later _ he := nomatch he
  heads _ he := nomatch he

/-- **Step.**  A row that fits and respects the exclusions keeps them dominant:
behind an exclusion it does not credit. -/
theorem Dominated.append (hdominated : Dominated t later excludes credits rows)
    (hchained : Chained t rows) (hfits : Fits t rows r)
    (hrespects : Respects t later excludes credits rows r) :
    Dominated t later excludes credits (rows ++ [r]) := by
  constructor
  · intro e he n hn k hexcludes hcredits hk hk'
    rcases List.mem_append.mp he with he | he
    · rcases List.mem_append.mp hn with hn | hn
      · exact hdominated.later e he n hn k hexcludes hcredits hk hk'
      · rw [List.mem_singleton.mp hn] at hcredits hk'
        exact absurd hcredits (hrespects.excluded e he k hexcludes hk hk')
    · rw [List.mem_singleton.mp he] at hexcludes hk ⊢
      obtain ⟨hnot, hlater⟩ := hrespects.excluding k hexcludes hk
      rcases List.mem_append.mp hn with hn | hn
      · exact hlater n hn hcredits hk'
      · rw [List.mem_singleton.mp hn] at hcredits
        exact absurd hcredits hnot
  · intro e he h hh k hexcludes hk hk'
    rcases List.mem_append.mp he with he | he
    · rcases (isHead_append_iff hchained hfits h).mp hh with heq | ⟨hold, -⟩
      · rw [heq] at hk' ⊢
        exact hrespects.excluded e he k hexcludes hk hk'
      · exact hdominated.heads e he h hold k hexcludes hk hk'
    · -- the head of the subject is the excluding row itself
      rw [List.mem_singleton.mp he] at hexcludes hk
      have hown : IsHead t (rows ++ [r]) r :=
        (isHead_append_iff hchained hfits r).mpr (.inl rfl)
      have heq : h = r := (hchained.append hfits).oneHead h r k hh hown hk' hk
      rw [heq]
      exact (hrespects.excluding k hexcludes hk).1

end Dominance

section Insert

variable [DecidableEq ι] {later : α → α → Prop} {excludes credits : α → Prop}

/-- **Insertion.**  A row that fits and respects the exclusions, where its id
is not taken, keeps the chains and the exclusions. -/
theorem kept_by_insertOnce
    (h : Chained t rows ∧ Dominated t later excludes credits rows)
    (hrow : t.id r ∉ rows.map t.id → Fits t rows r ∧ Respects t later excludes credits rows r) :
    Chained t (insertOnce t.id r rows) ∧
      Dominated t later excludes credits (insertOnce t.id r rows) := by
  unfold insertOnce
  split
  · exact h
  · case isFalse hfresh =>
      obtain ⟨hfits, hrespects⟩ := hrow hfresh
      exact ⟨h.1.append hfits, h.2.append h.1 hfits hrespects⟩

/-- **Several insertions.**  Heads of different rows can each be superseded by
a row that says the same of its subject. -/
theorem kept_by_supersedeAll (replace : α → α) (priors : List α)
    (h : Chained t rows ∧ Dominated t later excludes credits rows)
    (hnodup : (priors.map t.id).Nodup)
    (hheads : ∀ p ∈ priors, p ∈ rows ∧ ∀ k, t.subject p = some k → IsHead t rows p)
    (htarget : ∀ p ∈ priors, t.target (replace p) = some (t.id p))
    (hsubject : ∀ p ∈ priors, t.subject (replace p) = t.subject p)
    (hcredits : ∀ p ∈ priors, credits (replace p) → credits p)
    (hexcludes : ∀ p ∈ priors, ¬ excludes (replace p)) :
    Chained t (priors.foldl (fun rows p => insertOnce t.id (replace p) rows) rows) ∧
      Dominated t later excludes credits
        (priors.foldl (fun rows p => insertOnce t.id (replace p) rows) rows) := by
  induction priors generalizing rows with
  | nil => exact h
  | cons p rest ih =>
      obtain ⟨hp, hphead⟩ := hheads p List.mem_cons_self
      have hptarget := htarget p List.mem_cons_self
      have hpsubject := hsubject p List.mem_cons_self
      rw [List.map_cons, List.nodup_cons] at hnodup
      have hrow : t.id (replace p) ∉ rows.map t.id →
          Fits t rows (replace p) ∧ Respects t later excludes credits rows (replace p) := by
        intro hfresh
        refine ⟨⟨hfresh, fun hnone => ?_, fun x hx => ?_⟩, fun e he k hexcl hk hk' hcred => ?_,
          fun _ hexcl => absurd hexcl (hexcludes p List.mem_cons_self)⟩
        · rw [hptarget] at hnone
          cases hnone
        · rw [hptarget] at hx
          exact ⟨p, hp, Option.some.inj hx, hpsubject.symm, fun k hk => hphead k (hpsubject ▸ hk)⟩
        · rw [hpsubject] at hk'
          exact h.2.heads e he p (hphead k hk') k hexcl hk hk' (hcredits p List.mem_cons_self hcred)
      rw [List.foldl_cons]
      refine ih (kept_by_insertOnce h hrow) hnodup.2 (fun q hq => ?_)
        (fun q hq => htarget q (List.mem_cons_of_mem _ hq))
        (fun q hq => hsubject q (List.mem_cons_of_mem _ hq))
        (fun q hq => hcredits q (List.mem_cons_of_mem _ hq))
        (fun q hq => hexcludes q (List.mem_cons_of_mem _ hq))
      -- the other rows stay heads, since their ids are others
      obtain ⟨hqmem, hqhead⟩ := hheads q (List.mem_cons_of_mem _ hq)
      refine ⟨AppendOnly.mem_insertOnce_of_mem hqmem, fun k hk => ?_⟩
      unfold insertOnce
      split
      · exact hqhead k hk
      · case isFalse hfresh =>
          refine (isHead_append_iff h.1 (hrow hfresh).1 q).mpr (.inr ⟨hqhead k hk, ?_⟩)
          rw [hptarget]
          intro heq
          exact hnodup.1 (List.mem_map.mpr ⟨q, hq, (Option.some.inj heq).symm⟩)

end Insert

/-- **Selection.**  The latest of some rows about an excluded subject, the
exclusion among them, does not credit it. -/
theorem not_credits_of_latest {isLater : α → α → Bool} {excludes credits : α → Prop}
    (htrans : ∀ a b c, isLater a b = true → isLater b c = true → isLater a c = true)
    (hirrefl : ∀ a, isLater a a = false)
    (hdominated : Dominated t (fun a b => isLater a b = true) excludes credits rows)
    {some_ : List α} {e n : α} {k : κ} (hsub : some_ ⊆ rows)
    (hsome : ∀ s ∈ some_, t.subject s = some k) (he : e ∈ some_) (hexcludes : excludes e)
    (hn : latest isLater some_ = some n) : ¬ credits n := by
  intro hcredits
  have hmem := AppendOnly.mem_of_latest hn
  have hlater := hdominated.later e (hsub he) n (hsub hmem) k hexcludes hcredits (hsome e he)
    (hsome n hmem)
  rw [AppendOnly.not_later_of_latest htrans hirrefl hn e he] at hlater
  cases hlater

section Growth

open Relation (ReflTransGen TransGen)

variable (t)

/-- The row is new, and what it supersedes is a head. -/
structure Extends (rows : List α) (r : α) : Prop where
  fresh : t.id r ∉ rows.map t.id
  next : ∀ x, t.target r = some x → ∃ p, IsHead t rows p ∧ t.id p = x

/-- Every row extended the rows before it. -/
inductive Grown : List α → Prop
  | nil : Grown []
  | append {rows : List α} {r : α} (h : Grown rows) (hr : Extends t rows r) : Grown (rows ++ [r])

/-- A row is superseded by another. -/
def SupersededBy (rows : List α) (a b : α) : Prop :=
  a ∈ rows ∧ b ∈ rows ∧ t.target b = some (t.id a)

/-- Every row is superseded by at most one, none by itself in the end, and
each original row leads to one head. -/
structure IsChain (rows : List α) : Prop where
  injective : ∀ r ∈ rows, ∀ s ∈ rows, ∀ x, t.target r = some x → t.target s = some x → r = s
  acyclic : ∀ r, ¬TransGen (SupersededBy t rows) r r
  oneHead : ∀ r ∈ rows, t.target r = none →
    ∃ h, (IsHead t rows h ∧ ReflTransGen (SupersededBy t rows) r h) ∧
      ∀ h', IsHead t rows h' ∧ ReflTransGen (SupersededBy t rows) r h' → h' = h

variable {t}

/-- Rows grown one by one have different ids. -/
theorem Grown.nodup (h : Grown t rows) : (rows.map t.id).Nodup := by
  induction h with
  | nil => exact List.nodup_nil
  | @append rows r _ hr ih =>
      rw [List.map_append]
      refine ih.append (List.nodup_singleton _) ?_
      intro x hx hx'
      obtain rfl : x = t.id r := by simpa using hx'
      exact hr.fresh hx

/-- What a row supersedes is a row. -/
theorem Grown.refers (h : Grown t rows) {s : α} (hs : s ∈ rows) {x : ι}
    (hx : t.target s = some x) : x ∈ rows.map t.id := by
  induction h with
  | nil => cases hs
  | @append rows r _ hr ih =>
      rw [List.map_append, List.mem_append]
      rcases List.mem_append.mp hs with hs | hs
      · exact .inl (ih hs)
      · rw [List.mem_singleton.mp hs] at hx
        obtain ⟨p, hp, rfl⟩ := hr.next x hx
        exact .inl (List.mem_map_of_mem hp.1)

/-- No row supersedes a new one. -/
theorem Extends.isHead (h : Grown t rows) (hr : Extends t rows r) : IsHead t (rows ++ [r]) r := by
  refine ⟨List.mem_append_right _ List.mem_cons_self, fun s hs htarget => ?_⟩
  rcases List.mem_append.mp hs with hs | hs
  · exact hr.fresh (h.refers hs htarget)
  · rw [List.mem_singleton.mp hs] at htarget
    obtain ⟨p, hp, hid⟩ := hr.next _ htarget
    exact hr.fresh (hid ▸ List.mem_map_of_mem hp.1)

/-- The heads the new row does not supersede stay heads. -/
theorem IsHead.append {h : α} (hhead : IsHead t rows h) (hne : t.target r ≠ some (t.id h)) :
    IsHead t (rows ++ [r]) h := by
  refine ⟨List.mem_append_left _ hhead.1, fun s hs => ?_⟩
  rcases List.mem_append.mp hs with hs | hs
  · exact hhead.2 s hs
  · rw [List.mem_singleton.mp hs]
    exact hne

/-- No two of them supersede the same row. -/
theorem Grown.injective (h : Grown t rows) {r s : α} (hr : r ∈ rows) (hs : s ∈ rows) {x : ι}
    (hx : t.target r = some x) (hx' : t.target s = some x) : r = s := by
  induction h with
  | nil => cases hr
  | @append rows new _ hnew ih =>
      -- no row before the new one supersedes its target
      have hfree : ∀ s ∈ rows, ∀ x, t.target new = some x → t.target s ≠ some x := by
        intro s hs x hx
        obtain ⟨p, hp, rfl⟩ := hnew.next x hx
        exact hp.2 s hs
      rcases List.mem_append.mp hr with hr | hr <;> rcases List.mem_append.mp hs with hs | hs
      · exact ih hr hs
      · rw [List.mem_singleton.mp hs] at hx'
        exact absurd hx (hfree r hr x hx')
      · rw [List.mem_singleton.mp hr] at hx
        exact absurd hx' (hfree s hs x hx)
      · rw [List.mem_singleton.mp hr, List.mem_singleton.mp hs]

/-- A row comes before the one that supersedes it. -/
theorem Grown.idxOf_lt [DecidableEq ι] (h : Grown t rows) {b : α} (hb : b ∈ rows) {x : ι}
    (htarget : t.target b = some x) : (rows.map t.id).idxOf x < (rows.map t.id).idxOf (t.id b) := by
  induction h with
  | nil => cases hb
  | @append rows new hgrown hnew ih =>
      rw [List.map_append]
      rcases List.mem_append.mp hb with hb | hb
      · rw [List.idxOf_append_of_mem (hgrown.refers hb htarget),
          List.idxOf_append_of_mem (List.mem_map_of_mem hb)]
        exact ih hb
      · rw [List.mem_singleton.mp hb] at htarget ⊢
        obtain ⟨p, hp, rfl⟩ := hnew.next _ htarget
        have hmem : t.id p ∈ rows.map t.id := List.mem_map_of_mem hp.1
        rw [List.idxOf_append_of_mem hmem, List.idxOf_append_of_notMem hnew.fresh]
        exact Nat.lt_add_right _ (List.idxOf_lt_length_iff.mpr hmem)

/-- None of them supersedes itself through others. -/
theorem Grown.acyclic (h : Grown t rows) (r : α) : ¬TransGen (SupersededBy t rows) r r := by
  classical
  have hlt : ∀ a b, TransGen (SupersededBy t rows) a b →
      (rows.map t.id).idxOf (t.id a) < (rows.map t.id).idxOf (t.id b) := by
    intro a b hab
    induction hab with
    | single hstep => exact h.idxOf_lt hstep.2.1 hstep.2.2
    | tail _ hstep ih => exact Nat.lt_trans ih (h.idxOf_lt hstep.2.1 hstep.2.2)
  exact fun hcycle => Nat.lt_irrefl _ (hlt r r hcycle)

/-- A row superseded stays superseded. -/
theorem SupersededBy.append {a b : α} (hab : SupersededBy t rows a b) :
    SupersededBy t (rows ++ [r]) a b :=
  ⟨List.mem_append_left _ hab.1, List.mem_append_left _ hab.2.1, hab.2.2⟩

/-- Every row leads to a head. -/
theorem Grown.hasHead (h : Grown t rows) {s : α} (hs : s ∈ rows) :
    ∃ h, IsHead t rows h ∧ ReflTransGen (SupersededBy t rows) s h := by
  induction h with
  | nil => cases hs
  | @append rows new hgrown hnew ih =>
      rcases List.mem_append.mp hs with hs | hs
      · obtain ⟨head, hhead, hleads⟩ := ih hs
        have hleads' : ReflTransGen (SupersededBy t (rows ++ [new])) s head :=
          hleads.lift id (fun _ _ hab => SupersededBy.append hab)
        by_cases htarget : t.target new = some (t.id head)
        · refine ⟨new, hnew.isHead hgrown, hleads'.tail ⟨?_, ?_, htarget⟩⟩
          · exact List.mem_append_left _ hhead.1
          · exact List.mem_append_right _ List.mem_cons_self
        · exact ⟨head, hhead.append htarget, hleads'⟩
      · rw [List.mem_singleton.mp hs]
        exact ⟨new, hnew.isHead hgrown, .refl⟩

/-- A row that leads to two heads leads to one. -/
theorem Grown.head_unique (h : Grown t rows) {s a b : α}
    (ha : IsHead t rows a ∧ ReflTransGen (SupersededBy t rows) s a)
    (hb : IsHead t rows b ∧ ReflTransGen (SupersededBy t rows) s b) : a = b := by
  have hunique : Relator.RightUnique (SupersededBy t rows) := by
    intro x y z hy hz
    exact h.injective hy.2.1 hz.2.1 hy.2.2 hz.2.2
  have hends : ∀ {x y : α}, IsHead t rows x → ReflTransGen (SupersededBy t rows) x y → x = y := by
    intro x y hx hxy
    rcases hxy.cases_head with hsame | ⟨z, hz, -⟩
    · exact hsame
    · exact absurd hz.2.2 (hx.2 z hz.2.1)
  rcases ReflTransGen.total_of_right_unique hunique ha.2 hb.2 with hab | hba
  · exact hends ha.1 hab
  · exact (hends hb.1 hba).symm

/-- **Chains.**  The rows of a grown table form chains: no two supersede one,
none supersedes itself, and each original has one head. -/
theorem Grown.isChain (h : Grown t rows) : IsChain t rows where
  injective _ hr _ hs _ hx hx' := h.injective hr hs hx hx'
  acyclic := h.acyclic
  oneHead r hr _ := by
    obtain ⟨head, hhead⟩ := h.hasHead hr
    exact ⟨head, hhead, fun h' hh' => h.head_unique hh' hhead⟩

end Growth

end Supersession
