import Mathlib.Data.List.TakeDrop
import OpenMasu.Canonical
import OpenMasu.Traces

/-!
# Database migrations

A deployment brings the database up to its release before it starts: it takes
an advisory lock, reads which versions are recorded, and applies the files of
its directory in the order of their names, each with its record in one
transaction.  A recorded version is skipped if its checksum is the file's, and
stops the run otherwise.  Any number of deployments of any releases do so at
once, and each may stop at any point.

* `migrationSystem` — the deployments, their lock and the recorded versions;
* `MigrationsLaw` — the schema is what the recorded sources build in their
  order, every version is recorded once, and a run that succeeds has found or
  recorded every file it has;
* `ReleaseLaw` — deployments of one release record its files in their order,
  whatever is interrupted, and the inventory of the database is theirs;
* `migrationsLaw`, `releaseLaw` — the laws.
-/

namespace OpenMasu

open KeyedSort

/-- `replaceAll("\r\n", "\n")`. -/
def joinNewlines : List Char → List Char
  | '\r' :: '\n' :: rest => '\n' :: joinNewlines rest
  | c :: rest => c :: joinNewlines rest
  | [] => []

/-- The text with its pairs of carriage return and line feed joined. -/
def normalizeNewlines (text : String) : String := String.ofList (joinNewlines text.toList)

/-- A file of the directory. -/
structure MigrationFile where
  name : String
  source : String
  deriving DecidableEq

/-- A character that the pattern allows behind the version. -/
def isMigrationNameChar (c : Char) : Bool :=
  ('a' ≤ c && c ≤ 'z') || ('0' ≤ c && c ≤ '9') || c = '_'

/-- The version in a name that `migrationPattern` accepts. -/
def migrationVersion (name : String) : Option String :=
  let (version, rest) := name.toList.span Char.isDigit
  let body := rest.drop 1
  let stem := body.take (body.length - ".sql".length)
  if 3 ≤ version.length ∧ rest.head? = some '_' ∧ body = stem ++ ".sql".toList ∧ stem ≠ [] ∧
      stem.all isMigrationNameChar then some (String.ofList version)
  else none

/-- A row of `public.schema_migrations`. -/
structure AppliedMigration where
  version : String
  name : String
  checksum : String
  deriving DecidableEq

/-- A file of the directory under the pattern, with its version. -/
structure Migration where
  version : String
  name : String
  source : String
  deriving DecidableEq

/-- The migrations of a directory in the order of their names; a source is
read with its newlines joined. -/
def migrationFiles (directory : List MigrationFile) : List Migration :=
  sortOn (fun m : Migration => codeUnits m.name) (directory.filterMap fun f =>
    (migrationVersion f.name).map fun version => ⟨version, f.name, normalizeNewlines f.source⟩)

/-- What stops a deployment. -/
inductive MigrationError where
  | checksumChanged (name : String)
  | migrationFailed (name : String)
  deriving DecidableEq

section Deployments

variable {Schema : Type} (sha256 : String → String) (exec : Schema → String → Option Schema)

/-- The digest of a source, whose newlines are joined once more. -/
def migrationChecksum (source : String) : String := sha256 (normalizeNewlines source)

/-- The row a migration is recorded by. -/
def Migration.row (m : Migration) : AppliedMigration :=
  ⟨m.version, m.name, migrationChecksum sha256 m.source⟩

/-- The schema, and the table of what was applied. -/
structure MigrationDatabase (Schema : Type) where
  schema : Schema
  rows : List AppliedMigration

/-- Where a deployment stands: before the lock, under it, in the loop with the
rows it read and the files that remain, or at an end. -/
inductive DeploymentState where
  | waiting
  | locked
  | applying (applied : List AppliedMigration) (remaining : List Migration)
  | succeeded
  | failed (error : MigrationError)
  | stopped
  deriving DecidableEq

/-- The deployment holds the lock. -/
def DeploymentState.HoldsLock : DeploymentState → Prop
  | locked | applying _ _ => True
  | _ => False

/-- The digest recorded for a version when the deployment read the table. -/
def appliedChecksum (applied : List AppliedMigration) (version : String) : Option String :=
  (applied.find? fun row => row.version = version).map AppliedMigration.checksum

/-- The transaction of a migration; none when the source or its record fails,
and the transaction is rolled back. -/
def MigrationDatabase.apply (db : MigrationDatabase Schema) (m : Migration) :
    Option (MigrationDatabase Schema) :=
  match exec db.schema m.source with
  | none => none
  | some schema =>
      if db.rows.any (fun row => row.version = m.version) then none
      else some ⟨schema, db.rows ++ [m.row sha256]⟩

/-- One turn of the loop over the files. -/
def migrationTurn (db : MigrationDatabase Schema) (applied : List AppliedMigration)
    (m : Migration) (rest : List Migration) : MigrationDatabase Schema × DeploymentState :=
  match appliedChecksum applied m.version with
  | some existing =>
      if existing ≠ migrationChecksum sha256 m.source then (db, .failed (.checksumChanged m.name))
      else (db, .applying applied rest)
  | none =>
      match db.apply sha256 exec m with
      | some db' => (db', .applying applied rest)
      | none => (db, .failed (.migrationFailed m.name))

/-- The database, who holds the lock, and where every deployment stands. -/
structure MigrationState (Schema : Type) where
  db : MigrationDatabase Schema
  lock : Option Nat
  deployments : Nat → DeploymentState

/-- The steps of a deployment, by its number. -/
inductive MigrationEvent where
  | acquire (p : Nat)
  | read (p : Nat)
  | turn (p : Nat)
  | finish (p : Nat)
  | stop (p : Nat)

/-- A deployment in its new state; it keeps the lock only while it works under
it. -/
def MigrationState.enter (s : MigrationState Schema) (p : Nat) (d : DeploymentState) :
    MigrationState Schema :=
  { s with
    lock := match d with
      | .locked | .applying _ _ => some p
      | _ => if s.lock = some p then none else s.lock
    deployments := Function.update s.deployments p d }

/-- One step of a deployment, each with its own directory. -/
inductive MigrationStep (directory : Nat → List MigrationFile) :
    MigrationState Schema → MigrationEvent → MigrationState Schema → Prop
  | acquire {s : MigrationState Schema} {p : Nat} : s.deployments p = .waiting → s.lock = none →
      MigrationStep directory s (.acquire p) (s.enter p .locked)
  | read {s : MigrationState Schema} {p : Nat} : s.deployments p = .locked →
      MigrationStep directory s (.read p)
        (s.enter p (.applying s.db.rows (migrationFiles (directory p))))
  | turn {s : MigrationState Schema} {p : Nat} {applied m rest} :
      s.deployments p = .applying applied (m :: rest) →
      MigrationStep directory s (.turn p)
        ({ s with db := (migrationTurn sha256 exec s.db applied m rest).1 }.enter p
          (migrationTurn sha256 exec s.db applied m rest).2)
  | finish {s : MigrationState Schema} {p : Nat} {applied} :
      s.deployments p = .applying applied [] →
      MigrationStep directory s (.finish p) (s.enter p .succeeded)
  /-- The process stops or loses its connection; the database releases the
  lock and rolls back what was not committed. -/
  | stop {s : MigrationState Schema} {p : Nat} :
      MigrationStep directory s (.stop p) (s.enter p .stopped)

/-- The deployments over a database in which nothing is recorded. -/
def migrationSystem (directory : Nat → List MigrationFile) (initial : Schema) :
    TransitionSystem (MigrationState Schema) MigrationEvent where
  start s := s = ⟨⟨initial, []⟩, none, fun _ => .waiting⟩
  step := MigrationStep sha256 exec directory

/-- The second half of `schema-snapshot --check`: the recorded names and
digests, ordered by version, against the files. -/
def inventoryMatches (rows : List AppliedMigration) (directory : List MigrationFile) : Bool :=
  (sortOn (fun row : AppliedMigration => codeUnits row.version) rows).map
      (fun row => (row.name, row.checksum)) =
    (migrationFiles directory).map fun m => (m.name, sha256 m.source)

end Deployments

section Laws

variable {Schema : Type} (sha256 : String → String) (exec : Schema → String → Option Schema)

/-- What holds of any deployments over one database. -/
structure MigrationsLaw (directory : Nat → List MigrationFile) (initial : Schema) : Prop where
  /-- The schema is built by the recorded sources, each a file of a deployment
  under the digest of its row. -/
  built (events : List MigrationEvent) (s : MigrationState Schema) :
    (migrationSystem sha256 exec directory initial).Run events s →
    ∃ ms : List Migration, s.db.rows = ms.map (Migration.row sha256) ∧
      (∀ m ∈ ms, ∃ p, m ∈ migrationFiles (directory p)) ∧
      (ms.map Migration.source).foldlM exec initial = some s.db.schema
  once (events : List MigrationEvent) (s : MigrationState Schema) :
    (migrationSystem sha256 exec directory initial).Run events s →
    (s.db.rows.map AppliedMigration.version).Nodup
  /-- At most one deployment is at work. -/
  exclusive (events : List MigrationEvent) (s : MigrationState Schema) :
    (migrationSystem sha256 exec directory initial).Run events s →
    ∀ p q, (s.deployments p).HoldsLock → (s.deployments q).HoldsLock → p = q
  /-- Every file of a deployment that succeeded is recorded under its digest. -/
  complete (events : List MigrationEvent) (s : MigrationState Schema) :
    (migrationSystem sha256 exec directory initial).Run events s →
    ∀ p, s.deployments p = .succeeded → ∀ m ∈ migrationFiles (directory p),
      ∃ row ∈ s.db.rows, row.version = m.version ∧ row.checksum = migrationChecksum sha256 m.source
  /-- No later step takes a row back or changes it. -/
  kept (before after : List MigrationEvent) (s s' : MigrationState Schema) :
    (migrationSystem sha256 exec directory initial).Run before s →
    (migrationSystem sha256 exec directory initial).Path s after s' → s.db.rows <+: s'.db.rows
  /-- Where a recorded version has another digest than the file of a
  deployment, that deployment never succeeds. -/
  refused (before after : List MigrationEvent) (s s' : MigrationState Schema) :
    (migrationSystem sha256 exec directory initial).Run before s →
    (migrationSystem sha256 exec directory initial).Path s after s' →
    ∀ row ∈ s.db.rows, ∀ p, ∀ m ∈ migrationFiles (directory p), row.version = m.version →
      row.checksum ≠ migrationChecksum sha256 m.source → s'.deployments p ≠ .succeeded

/-- What holds of deployments of one release, whose files have a version
each. -/
structure ReleaseLaw (files : List MigrationFile) (initial : Schema) : Prop where
  /-- The recorded migrations are the first ones of the release. -/
  inOrder (events : List MigrationEvent) (s : MigrationState Schema) :
    (migrationSystem sha256 exec (fun _ => files) initial).Run events s →
    ∃ done, done <+: migrationFiles files ∧ s.db.rows = done.map (Migration.row sha256) ∧
      (done.map Migration.source).foldlM exec initial = some s.db.schema
  /-- One success, and they are all. -/
  whole (events : List MigrationEvent) (s : MigrationState Schema) :
    (migrationSystem sha256 exec (fun _ => files) initial).Run events s →
    ∀ p, s.deployments p = .succeeded →
      s.db.rows = (migrationFiles files).map (Migration.row sha256)
  /-- Then the inventory matches the directory, as long as its versions are of
  one length, just where joining the newlines once more changes no digest. -/
  inventory (events : List MigrationEvent) (s : MigrationState Schema) :
    (migrationSystem sha256 exec (fun _ => files) initial).Run events s →
    ∀ p, s.deployments p = .succeeded →
      (∀ m ∈ migrationFiles files, ∀ m' ∈ migrationFiles files,
        (codeUnits m.version).length = (codeUnits m'.version).length) →
      (inventoryMatches sha256 s.db.rows files = true ↔
        ∀ m ∈ migrationFiles files, sha256 (normalizeNewlines m.source) = sha256 m.source)

end Laws

section Invariant

variable {Schema : Type} {sha256 : String → String} {exec : Schema → String → Option Schema}
  {directory : Nat → List MigrationFile} {initial : Schema} {s s' : MigrationState Schema}
  {events : List MigrationEvent} {e : MigrationEvent} {p q : Nat}

/-- The row records the migration. -/
def Records (sha256 : String → String) (rows : List AppliedMigration) (m : Migration) : Prop :=
  ∃ row ∈ rows, row.version = m.version ∧ row.checksum = migrationChecksum sha256 m.source

/-- What a deployment knows of the database. -/
def DeploymentState.Agrees (sha256 : String → String) (rows : List AppliedMigration)
    (files : List Migration) : DeploymentState → Prop
  | .applying applied remaining => (∀ row ∈ applied, row ∈ rows) ∧
      ∃ done, files = done ++ remaining ∧ ∀ m ∈ done, Records sha256 rows m
  | .succeeded => ∀ m ∈ files, Records sha256 rows m
  | _ => True

/-- What holds in every state of a run, of any deployments. -/
structure MigrationInvariant (sha256 : String → String) (exec : Schema → String → Option Schema)
    (directory : Nat → List MigrationFile) (initial : Schema) (s : MigrationState Schema) :
    Prop where
  built : ∃ ms : List Migration, s.db.rows = ms.map (Migration.row sha256) ∧
    (∀ m ∈ ms, ∃ p, m ∈ migrationFiles (directory p)) ∧
    (ms.map Migration.source).foldlM exec initial = some s.db.schema
  once : (s.db.rows.map AppliedMigration.version).Nodup
  lock : ∀ p, (s.deployments p).HoldsLock → s.lock = some p
  agrees : ∀ p, (s.deployments p).Agrees sha256 s.db.rows (migrationFiles (directory p))

/-- What is recorded stays recorded as rows are appended. -/
theorem Records.mono {rows rows' : List AppliedMigration} {m : Migration}
    (h : Records sha256 rows m) (hrows : rows <+: rows') : Records sha256 rows' m := by
  obtain ⟨row, hrow, hrecords⟩ := h
  exact ⟨row, hrows.subset hrow, hrecords⟩

/-- What a deployment knows of the table stays true as rows are appended. -/
theorem DeploymentState.Agrees.mono {rows rows' : List AppliedMigration} {files : List Migration}
    {d : DeploymentState} (h : d.Agrees sha256 rows files) (hrows : rows <+: rows') :
    d.Agrees sha256 rows' files := by
  cases d with
  | applying applied remaining =>
      obtain ⟨happlied, done, hfiles, hdone⟩ := h
      exact ⟨fun row hrow => hrows.subset (happlied row hrow), done, hfiles,
        fun m hm => (hdone m hm).mono hrows⟩
  | succeeded => exact fun m hm => (h m hm).mono hrows
  | waiting | locked | failed | stopped => trivial

/-- What the transaction of a migration does. -/
theorem apply_eq_some {db db' : MigrationDatabase Schema} {m : Migration}
    (h : db.apply sha256 exec m = some db') :
    db'.rows = db.rows ++ [m.row sha256] ∧ exec db.schema m.source = some db'.schema ∧
      m.version ∉ db.rows.map AppliedMigration.version := by
  unfold MigrationDatabase.apply at h
  split at h
  · cases h
  · case h_2 schema hexec =>
      split at h
      · cases h
      · case isFalse hfree =>
          cases h
          refine ⟨rfl, hexec, fun hmem => hfree ?_⟩
          obtain ⟨row, hrow, hversion⟩ := List.mem_map.mp hmem
          exact List.any_eq_true.mpr ⟨row, hrow, decide_eq_true hversion⟩

/-- A turn of the loop skips a migration that is recorded, fails without a
trace, or commits the migration. -/
theorem migrationTurn_cases (db : MigrationDatabase Schema) (applied : List AppliedMigration)
    (m : Migration) (rest : List Migration) :
    ((migrationTurn sha256 exec db applied m rest) = (db, .applying applied rest) ∧
        appliedChecksum applied m.version = some (migrationChecksum sha256 m.source)) ∨
      (∃ error, migrationTurn sha256 exec db applied m rest = (db, .failed error)) ∨
      ∃ db', migrationTurn sha256 exec db applied m rest = (db', .applying applied rest) ∧
        appliedChecksum applied m.version = none ∧ db.apply sha256 exec m = some db' := by
  unfold migrationTurn
  cases happlied : appliedChecksum applied m.version with
  | some existing =>
      dsimp only
      split
      · exact .inr (.inl ⟨_, rfl⟩)
      · case isFalse hsame => exact .inl ⟨rfl, congrArg some (not_not.mp hsame)⟩
  | none =>
      dsimp only
      cases happly : db.apply sha256 exec m with
      | none => exact .inr (.inl ⟨_, rfl⟩)
      | some db' => exact .inr (.inr ⟨db', rfl, rfl, rfl⟩)

/-- A version that was read with the digest of a file is recorded. -/
theorem records_of_appliedChecksum {applied : List AppliedMigration} {m : Migration}
    (h : appliedChecksum applied m.version = some (migrationChecksum sha256 m.source)) :
    Records sha256 applied m := by
  obtain ⟨row, hrow, hchecksum⟩ := Option.map_eq_some_iff.mp h
  have hversion := List.find?_some hrow
  exact ⟨row, List.mem_of_find?_eq_some hrow, of_decide_eq_true hversion, hchecksum⟩

/-- A deployment is in the state it enters. -/
theorem enter_self (s : MigrationState Schema) (p : Nat) (d : DeploymentState) :
    (s.enter p d).deployments p = d := by
  simp only [MigrationState.enter, Function.update_self]

/-- The others stay where they are. -/
theorem enter_other (d : DeploymentState) (h : q ≠ p) :
    (s.enter p d).deployments q = s.deployments q := by
  simp only [MigrationState.enter, Function.update_of_ne h]

/-- The other deployments and the lock when one enters a state: whoever holds
the lock may work, and nobody else. -/
theorem lock_enter {d : DeploymentState} (hinv : ∀ p, (s.deployments p).HoldsLock → s.lock = some p)
    (hfree : d.HoldsLock → s.lock = none ∨ s.lock = some p) :
    ∀ q, ((s.enter p d).deployments q).HoldsLock → (s.enter p d).lock = some q := by
  intro q hq
  by_cases hqp : q = p
  · subst hqp
    rw [enter_self] at hq
    cases d with
    | locked | applying => rfl
    | waiting | succeeded | failed | stopped => cases hq
  · rw [enter_other d hqp] at hq
    have hlock := hinv q hq
    have hother : s.lock ≠ some p := fun h => hqp (Option.some.inj (hlock.symm.trans h))
    cases d with
    | locked | applying =>
        rcases hfree trivial with h | h
        · rw [h] at hlock
          cases hlock
        · exact absurd h hother
    | waiting | succeeded | failed | stopped =>
        change (if s.lock = some p then none else s.lock) = some q
        rw [if_neg hother, hlock]

/-- A deployment enters a state over rows that were only added to. -/
theorem MigrationInvariant.enter {db : MigrationDatabase Schema} {d : DeploymentState}
    (hinv : MigrationInvariant sha256 exec directory initial s) (hrows : s.db.rows <+: db.rows)
    (hbuilt : ∃ ms : List Migration, db.rows = ms.map (Migration.row sha256) ∧
      (∀ m ∈ ms, ∃ p, m ∈ migrationFiles (directory p)) ∧
      (ms.map Migration.source).foldlM exec initial = some db.schema)
    (honce : (db.rows.map AppliedMigration.version).Nodup)
    (hfree : d.HoldsLock → s.lock = none ∨ s.lock = some p)
    (hagrees : d.Agrees sha256 db.rows (migrationFiles (directory p))) :
    MigrationInvariant sha256 exec directory initial ({ s with db := db }.enter p d) where
  built := hbuilt
  once := honce
  lock := lock_enter hinv.lock hfree
  agrees q := by
    by_cases hqp : q = p
    · subst hqp
      rw [enter_self]
      exact hagrees
    · rw [enter_other d hqp]
      exact (hinv.agrees q).mono hrows

/-- **Step lemma.**  The step of any deployment keeps the invariant and the
rows. -/
theorem MigrationInvariant.step (hinv : MigrationInvariant sha256 exec directory initial s)
    (hstep : MigrationStep sha256 exec directory s e s') :
    MigrationInvariant sha256 exec directory initial s' ∧ s.db.rows <+: s'.db.rows := by
  have hsame {p : Nat} {d : DeploymentState} (hfree : d.HoldsLock → s.lock = none ∨ s.lock = some p)
      (hagrees : d.Agrees sha256 s.db.rows (migrationFiles (directory p))) :
      MigrationInvariant sha256 exec directory initial (s.enter p d) ∧
        s.db.rows <+: (s.enter p d).db.rows :=
    ⟨hinv.enter List.prefix_rfl hinv.built hinv.once hfree hagrees, List.prefix_rfl⟩
  cases hstep with
  | acquire hwaiting hlock => exact hsame (fun _ => .inl hlock) trivial
  | @read p hlocked =>
      have hlock : s.lock = some p := hinv.lock p (hlocked ▸ trivial)
      exact hsame (fun _ => .inr hlock) ⟨fun _ hrow => hrow, [], rfl, nofun⟩
  | @turn p applied m rest happlying =>
      have hlock : s.lock = some p := hinv.lock p (happlying ▸ trivial)
      obtain ⟨happlied, done, hfiles, hdone⟩ := happlying ▸ hinv.agrees p
      have hnext {rows : List AppliedMigration} (hrows : s.db.rows <+: rows)
          (hm : Records sha256 rows m) :
          (DeploymentState.applying applied rest).Agrees sha256 rows
            (migrationFiles (directory p)) := by
        refine ⟨fun row hrow => hrows.subset (happlied row hrow), done ++ [m], by simp [hfiles],
          fun m' hm' => ?_⟩
        rcases List.mem_append.mp hm' with hm' | hm'
        · exact (hdone m' hm').mono hrows
        · exact List.mem_singleton.mp hm' ▸ hm
      rcases migrationTurn_cases s.db applied m rest with
        ⟨heq, hchecksum⟩ | ⟨error, heq⟩ | ⟨db', heq, -, happly⟩
      · rw [heq]
        obtain ⟨row, hrow, hrecords⟩ := records_of_appliedChecksum hchecksum
        exact hsame (fun _ => .inr hlock) (hnext List.prefix_rfl ⟨row, happlied row hrow, hrecords⟩)
      · rw [heq]
        exact hsame nofun trivial
      · rw [heq]
        obtain ⟨hrows, hexec, hfree⟩ := apply_eq_some happly
        obtain ⟨ms, hms, hfrom, hfold⟩ := hinv.built
        have hprefix : s.db.rows <+: db'.rows := hrows ▸ List.prefix_append _ _
        refine ⟨hinv.enter hprefix ⟨ms ++ [m], ?_, fun m' hm' => ?_, ?_⟩ ?_ (fun _ => .inr hlock)
          (hnext hprefix ⟨m.row sha256, by simp [hrows], rfl, rfl⟩), hprefix⟩
        · rw [hrows, hms, List.map_append, List.map_singleton]
        · rcases List.mem_append.mp hm' with hm' | hm'
          · exact hfrom m' hm'
          · rw [List.mem_singleton.mp hm']
            exact ⟨p, by simp [hfiles]⟩
        · rw [List.map_append, List.foldlM_append, hfold]
          simpa using hexec
        · rw [hrows, List.map_append]
          exact hinv.once.append (List.nodup_singleton _) (by simpa [Migration.row] using hfree)
  | @finish p applied happlying =>
      obtain ⟨-, done, hfiles, hdone⟩ := happlying ▸ hinv.agrees p
      refine hsame nofun fun m hm => hdone m ?_
      rwa [hfiles, List.append_nil] at hm
  | stop => exact hsame nofun trivial

/-- **Run lemma.**  The invariant holds in every state of every run, by
induction on the history. -/
theorem migrationInvariant
    (h : (migrationSystem sha256 exec directory initial).Run events s) :
    MigrationInvariant sha256 exec directory initial s := by
  refine h.invariant (I := fun _ => MigrationInvariant sha256 exec directory initial)
    (fun s hs => ?_) ?_
  · obtain rfl : s = ⟨⟨initial, []⟩, none, fun _ => .waiting⟩ := hs
    exact ⟨⟨[], rfl, nofun, rfl⟩, List.nodup_nil, nofun, fun _ => trivial⟩
  · intro _ s e s' _ hinv hstep
    exact (hinv.step hstep).1

/-- Later steps only append rows. -/
theorem rows_kept {later : List MigrationEvent}
    (hrun : (migrationSystem sha256 exec directory initial).Run events s)
    (hpath : (migrationSystem sha256 exec directory initial).Path s later s') :
    s.db.rows <+: s'.db.rows := by
  refine hrun.stable (Q := fun m => s.db.rows <+: m.db.rows) ?_ hpath List.prefix_rfl
  intro _ m e m' hm hrows hstep
  exact hrows.trans ((migrationInvariant hm).step hstep).2

/-- **Migrations.**  Deployments of any releases, stopped at any point, leave a
schema that the recorded sources build in their order; every version is
recorded once and for good, and a deployment that succeeds has every file it
knows recorded under its digest. -/
theorem migrationsLaw (sha256 : String → String) (exec : Schema → String → Option Schema)
    (directory : Nat → List MigrationFile) (initial : Schema) :
    MigrationsLaw sha256 exec directory initial where
  built _ _ hrun := (migrationInvariant hrun).built
  once _ _ hrun := (migrationInvariant hrun).once
  exclusive _ _ hrun p q hp hq := by
    have hinv := migrationInvariant hrun
    exact Option.some.inj ((hinv.lock p hp).symm.trans (hinv.lock q hq))
  complete _ s hrun p hp := by
    have hagrees := (migrationInvariant hrun).agrees p
    rw [hp] at hagrees
    exact hagrees
  kept _ _ _ _ hrun hpath := rows_kept hrun hpath
  refused before after s s' hrun hpath row hrow p m hm hversion hchecksum hsucceeded := by
    have hinv := migrationInvariant (hrun.append hpath)
    have hagrees := hinv.agrees p
    rw [hsucceeded] at hagrees
    obtain ⟨row', hrow', hversion', hchecksum'⟩ := hagrees m hm
    have hsame : row = row' := List.inj_on_of_nodup_map hinv.once
      ((rows_kept hrun hpath).subset hrow) hrow' (hversion.trans hversion'.symm)
    exact hchecksum (hsame ▸ hchecksum')

end Invariant

section Release

variable {Schema : Type} {sha256 : String → String} {exec : Schema → String → Option Schema}
  {files : List MigrationFile} {ms : List Migration} {initial : Schema}
  {s s' : MigrationState Schema} {events : List MigrationEvent} {e : MigrationEvent}

/-- The first migrations of a release are recorded and built the schema. -/
def Built (sha256 : String → String) (exec : Schema → String → Option Schema)
    (ms : List Migration) (initial : Schema) (db : MigrationDatabase Schema) (k : Nat) : Prop :=
  db.rows = (ms.take k).map (Migration.row sha256) ∧
    ((ms.take k).map Migration.source).foldlM exec initial = some db.schema

/-- A deployment at work has read the first migrations, and has gone past some
of the release; the longer of the two is recorded. -/
structure ReleaseInvariant (sha256 : String → String) (exec : Schema → String → Option Schema)
    (ms : List Migration) (initial : Schema) (s : MigrationState Schema) : Prop where
  built : ∃ k, Built sha256 exec ms initial s.db k
  applying : ∀ p applied remaining, s.deployments p = .applying applied remaining → ∃ a d,
    applied = (ms.take a).map (Migration.row sha256) ∧ remaining = ms.drop d ∧
      Built sha256 exec ms initial s.db (max a d)

/-- The migration a deployment is at was recorded when it read the table just
if it is one of the first. -/
theorem appliedChecksum_take (hversions : (ms.map Migration.version).Nodup) {m : Migration}
    {rest : List Migration} {a d : Nat} (hdrop : m :: rest = ms.drop d) :
    (appliedChecksum ((ms.take a).map (Migration.row sha256)) m.version).isSome = true ↔ d < a := by
  have hd : d < ms.length := by
    by_contra hlong
    rw [List.drop_eq_nil_of_le (Nat.le_of_not_lt hlong)] at hdrop
    cases hdrop
  have hm : ms[d] = m := by
    have := List.drop_eq_getElem_cons hd
    rw [← hdrop] at this
    exact (List.cons.inj this).1.symm
  rw [appliedChecksum, Option.isSome_map, List.find?_isSome]
  constructor
  · rintro ⟨row, hrow, hversion⟩
    obtain ⟨m', hm', rfl⟩ := List.mem_map.mp hrow
    obtain ⟨i, hi, hmi⟩ := List.mem_iff_getElem.mp hm'
    rw [List.length_take, Nat.lt_min] at hi
    rw [List.getElem_take] at hmi
    have hsame : ms[i].version = ms[d].version := by
      rw [hmi, hm]
      exact of_decide_eq_true hversion
    have hi' : i < (ms.map Migration.version).length := by simpa using hi.2
    have hd' : d < (ms.map Migration.version).length := by simpa using hd
    have hget : (ms.map Migration.version)[i] = (ms.map Migration.version)[d] := by
      simpa using hsame
    have hid : i = d := hversions.getElem_inj_iff.mp hget
    exact hid ▸ hi.1
  · intro hlt
    have hmem : m ∈ ms.take a := by
      rw [← hm]
      exact List.mem_take_iff_getElem.mpr ⟨d, Nat.lt_min.mpr ⟨hlt, hd⟩, rfl⟩
    exact ⟨m.row sha256, List.mem_map_of_mem hmem, decide_eq_true rfl⟩

/-- The first of the remaining files is the next one of all. -/
theorem getElem_of_drop {m : Migration} {rest : List Migration} {d : Nat}
    (hdrop : m :: rest = ms.drop d) :
    ms.take (d + 1) = ms.take d ++ [m] ∧ rest = ms.drop (d + 1) := by
  constructor
  · rw [List.take_add, ← hdrop]
    rfl
  · rw [← List.drop_drop, ← hdrop]
    rfl

/-- The transaction of the next migration. -/
theorem Built.apply {db db' : MigrationDatabase Schema} {m : Migration} {rest : List Migration}
    {d : Nat} (hbuilt : Built sha256 exec ms initial db d) (hdrop : m :: rest = ms.drop d)
    (happly : db.apply sha256 exec m = some db') :
    Built sha256 exec ms initial db' (d + 1) := by
  obtain ⟨hrows, hexec, -⟩ := apply_eq_some happly
  rw [Built, (getElem_of_drop hdrop).1]
  constructor
  · rw [hrows, hbuilt.1, List.map_append, List.map_singleton]
  · rw [List.map_append, List.foldlM_append, hbuilt.2]
    simpa using hexec

/-- The release when a deployment enters a state. -/
theorem ReleaseInvariant.enter {db : MigrationDatabase Schema} {p : Nat} {d : DeploymentState}
    (hbuilt : ∃ k, Built sha256 exec ms initial db k)
    (hothers : ∀ q, q ≠ p → ∀ applied remaining, s.deployments q = .applying applied remaining →
      ∃ a d, applied = (ms.take a).map (Migration.row sha256) ∧ remaining = ms.drop d ∧
        Built sha256 exec ms initial db (max a d))
    (hself : ∀ applied remaining, d = .applying applied remaining → ∃ a d,
      applied = (ms.take a).map (Migration.row sha256) ∧ remaining = ms.drop d ∧
        Built sha256 exec ms initial db (max a d)) :
    ReleaseInvariant sha256 exec ms initial ({ s with db := db }.enter p d) where
  built := hbuilt
  applying q applied remaining hq := by
    by_cases hqp : q = p
    · subst hqp
      rw [enter_self] at hq
      exact hself applied remaining hq
    · rw [enter_other d hqp] at hq
      exact hothers q hqp applied remaining hq

/-- **Step lemma** of the deployments of one release: under the lock a
deployment appends the next file of the release, or finds all recorded. -/
theorem ReleaseInvariant.step (hversions : ((migrationFiles files).map Migration.version).Nodup)
    (hlock : ∀ p, (s.deployments p).HoldsLock → s.lock = some p)
    (hinv : ReleaseInvariant sha256 exec (migrationFiles files) initial s)
    (hstep : MigrationStep sha256 exec (fun _ => files) s e s') :
    ReleaseInvariant sha256 exec (migrationFiles files) initial s' := by
  have hsame {p : Nat} {d : DeploymentState} (hd : ∀ applied remaining,
      d ≠ .applying applied remaining) :
      ReleaseInvariant sha256 exec (migrationFiles files) initial (s.enter p d) :=
    .enter hinv.built (fun q _ => hinv.applying q)
      fun applied remaining h => absurd h (hd applied remaining)
  cases hstep with
  | acquire | finish | stop => exact hsame nofun
  | read =>
      obtain ⟨k, hk⟩ := hinv.built
      refine .enter ⟨k, hk⟩ (fun q _ => hinv.applying q) fun applied remaining h => ?_
      cases h
      exact ⟨k, 0, hk.1, rfl, (Nat.max_zero k).symm ▸ hk⟩
  | @turn p applied m rest happlying =>
      obtain ⟨a, d, rfl, hdrop, hbuilt⟩ := hinv.applying p _ _ happlying
      have hrest := (getElem_of_drop hdrop).2
      rcases migrationTurn_cases s.db ((migrationFiles files |>.take a).map (Migration.row sha256))
        m rest with ⟨heq, hchecksum⟩ | ⟨error, heq⟩ | ⟨db', heq, hnone, happly⟩
      · rw [heq]
        have hda : d < a := (appliedChecksum_take hversions hdrop).mp
          (Option.isSome_iff_exists.mpr ⟨_, hchecksum⟩)
        refine .enter ⟨_, hbuilt⟩ (fun q _ => hinv.applying q) fun applied remaining h => ?_
        cases h
        refine ⟨a, d + 1, rfl, hrest, ?_⟩
        rwa [Nat.max_eq_left hda, ← Nat.max_eq_left hda.le]
      · rw [heq]
        exact hsame nofun
      · rw [heq]
        have had : a ≤ d := by
          have hread : (appliedChecksum (((migrationFiles files).take a).map
              (Migration.row sha256)) m.version).isSome = true ↔ d < a :=
            appliedChecksum_take hversions hdrop
          rw [← Nat.not_lt, ← hread, hnone]
          exact Bool.false_ne_true
        rw [Nat.max_eq_right had] at hbuilt
        have hnext := hbuilt.apply hdrop happly
        refine .enter ⟨_, hnext⟩ (fun q hqp applied remaining hq => ?_) fun _ _ h => ?_
        · -- the lock is with the deployment that commits
          have hp := hlock p (happlying ▸ trivial)
          have hq := hlock q (hq ▸ trivial)
          exact absurd (Option.some.inj (hq.symm.trans hp)) hqp
        · cases h
          refine ⟨a, d + 1, rfl, hrest, ?_⟩
          rwa [Nat.max_eq_right (had.trans (Nat.le_succ d))]

/-- **Run lemma.**  Deployments of one release keep its invariant. -/
theorem releaseInvariant (hversions : ((migrationFiles files).map Migration.version).Nodup)
    (h : (migrationSystem sha256 exec (fun _ => files) initial).Run events s) :
    ReleaseInvariant sha256 exec (migrationFiles files) initial s := by
  refine h.invariant
    (I := fun _ => ReleaseInvariant sha256 exec (migrationFiles files) initial)
    (fun s hs => ?_) ?_
  · obtain rfl : s = ⟨⟨initial, []⟩, none, fun _ => .waiting⟩ := hs
    exact ⟨⟨0, rfl, rfl⟩, nofun⟩
  · intro _ s e s' hrun hinv hstep
    exact hinv.step hversions (migrationInvariant hrun).lock hstep

/-- The first migrations are all of them once each is recorded. -/
theorem take_of_records (hversions : (ms.map Migration.version).Nodup) {k : Nat}
    (hall : ∀ m ∈ ms, Records sha256 ((ms.take k).map (Migration.row sha256)) m) :
    ms.take k = ms := by
  refine List.take_of_length_le ?_
  by_contra hshort
  have hk : k < ms.length := Nat.lt_of_not_le hshort
  obtain ⟨row, hrow, hversion, -⟩ := hall ms[k] (List.getElem_mem hk)
  have hdrop : ms[k] :: ms.drop (k + 1) = ms.drop k := (List.drop_eq_getElem_cons hk).symm
  have hread : (appliedChecksum ((ms.take k).map (Migration.row sha256)) ms[k].version).isSome := by
    rw [appliedChecksum, Option.isSome_map, List.find?_isSome]
    exact ⟨row, hrow, decide_eq_true hversion⟩
  exact Nat.lt_irrefl k ((appliedChecksum_take hversions hdrop).mp hread)

/-- Behind a success all files are recorded, and nothing else. -/
theorem rows_of_succeeded (hversions : ((migrationFiles files).map Migration.version).Nodup)
    (h : (migrationSystem sha256 exec (fun _ => files) initial).Run events s) {p : Nat}
    (hp : s.deployments p = .succeeded) :
    s.db.rows = (migrationFiles files).map (Migration.row sha256) := by
  obtain ⟨k, hrows, -⟩ := (releaseInvariant hversions h).built
  have hall := (migrationInvariant h).agrees p
  rw [hp, hrows] at hall
  rw [hrows]
  rw [take_of_records hversions hall]

/-- The name of a migration begins with its version. -/
theorem name_of_mem {m : Migration} (h : m ∈ migrationFiles files) :
    ∃ rest, codeUnits m.name = codeUnits m.version ++ rest := by
  obtain ⟨f, -, hf⟩ := List.mem_filterMap.mp ((mem_sortOn _).mp h)
  obtain ⟨version, hversion, rfl⟩ := Option.map_eq_some_iff.mp hf
  simp only [migrationVersion, List.span_eq_takeWhile_dropWhile] at hversion
  split at hversion
  · cases hversion
    refine ⟨(f.name.toList.dropWhile Char.isDigit).flatMap charUnits, ?_⟩
    rw [codeUnits, codeUnits, String.toList_ofList, ← List.flatMap_append,
      List.takeWhile_append_dropWhile]
  · cases hversion

/-- What stands behind texts of one length does not undo their order. -/
theorem append_lt_append {a b : List Nat} (hlength : a.length = b.length) (r r' : List Nat)
    (h : a < b) : a ++ r < b ++ r' := by
  induction a generalizing b with
  | nil => exact absurd h ((List.length_eq_zero_iff.mp hlength.symm) ▸ lt_irrefl _)
  | cons x a ih =>
      cases b with
      | nil => cases hlength
      | cons y b =>
          rcases List.cons_lt_cons_iff.mp h with hxy | ⟨hxy, hrest⟩
          · exact List.cons_lt_cons_iff.mpr (.inl hxy)
          · exact List.cons_lt_cons_iff.mpr (.inr ⟨hxy, ih (Nat.succ.inj hlength) hrest⟩)

/-- Versions of one length are in the order of the names of their files. -/
theorem sortOn_rows (hlengths : ∀ m ∈ migrationFiles files, ∀ m' ∈ migrationFiles files,
      (codeUnits m.version).length = (codeUnits m'.version).length) :
    sortOn (fun row : AppliedMigration => codeUnits row.version)
        ((migrationFiles files).map (Migration.row sha256)) =
      (migrationFiles files).map (Migration.row sha256) := by
  refine sortOn_of_pairwise _ (List.pairwise_map.mpr ?_)
  refine (pairwise_sortOn _ _).imp_of_mem fun {m m'} hm hm' hle => ?_
  obtain ⟨rest, hname⟩ := name_of_mem hm
  obtain ⟨rest', hname'⟩ := name_of_mem hm'
  rw [hname, hname'] at hle
  exact le_of_not_gt fun hlt => absurd hle
    (not_le_of_gt (append_lt_append (hlengths m' hm' m hm) rest' rest hlt))

/-- **A release.**  Deployments of one release, interrupted anywhere and in any
number, record its migrations in their order and nothing else; once one
succeeds they are all there, and the inventory of the database is that of the
directory. -/
theorem releaseLaw (sha256 : String → String) (exec : Schema → String → Option Schema)
    (files : List MigrationFile) (initial : Schema)
    (hversions : ((migrationFiles files).map Migration.version).Nodup) :
    ReleaseLaw sha256 exec files initial where
  inOrder _ s hrun := by
    obtain ⟨k, hrows, hexec⟩ := (releaseInvariant hversions hrun).built
    exact ⟨_, List.take_prefix _ _, hrows, hexec⟩
  whole _ _ hrun _ hp := rows_of_succeeded hversions hrun hp
  inventory _ s hrun p hp hlengths := by
    rw [inventoryMatches, rows_of_succeeded hversions hrun hp, sortOn_rows hlengths,
      decide_eq_true_iff, List.map_map, List.map_inj_left]
    simp [Migration.row, migrationChecksum]

end Release

section Stopped

/-- The state behind an event, where it can happen. -/
def MigrationState.next {Schema : Type} (sha256 : String → String)
    (exec : Schema → String → Option Schema) (directory : Nat → List MigrationFile)
    (s : MigrationState Schema) : MigrationEvent → Option (MigrationState Schema)
  | .acquire p =>
      match s.deployments p, s.lock with
      | .waiting, none => some (s.enter p .locked)
      | _, _ => none
  | .read p =>
      match s.deployments p with
      | .locked => some (s.enter p (.applying s.db.rows (migrationFiles (directory p))))
      | _ => none
  | .turn p =>
      match s.deployments p with
      | .applying applied (m :: rest) =>
          some ({ s with db := (migrationTurn sha256 exec s.db applied m rest).1 }.enter p
            (migrationTurn sha256 exec s.db applied m rest).2)
      | _ => none
  | .finish p =>
      match s.deployments p with
      | .applying _ [] => some (s.enter p .succeeded)
      | _ => none
  | .stop p => some (s.enter p .stopped)

/-- The step function takes only steps of the system. -/
theorem migrationStep_of_next {Schema : Type} {sha256 : String → String}
    {exec : Schema → String → Option Schema} {directory : Nat → List MigrationFile}
    (s : MigrationState Schema) (e : MigrationEvent) (s' : MigrationState Schema)
    (h : s.next sha256 exec directory e = some s') : MigrationStep sha256 exec directory s e s' := by
  cases e with
  | acquire p =>
      rw [MigrationState.next] at h
      split at h
      · rename_i hwaiting hlock
        cases h
        exact .acquire hwaiting hlock
      · cases h
  | read p =>
      rw [MigrationState.next] at h
      split at h
      · rename_i hlocked
        cases h
        exact .read hlocked
      · cases h
  | turn p =>
      rw [MigrationState.next] at h
      split at h
      · rename_i applied m rest happlying
        cases h
        exact .turn happlying
      · cases h
  | finish p =>
      rw [MigrationState.next] at h
      split at h
      · rename_i applied happlying
        cases h
        exact .finish happlying
      · cases h
  | stop p =>
      cases h
      exact .stop

/-- Two files, the second of which changes what the first creates. -/
def twoFiles : List MigrationFile := [⟨"001_api.sql", "CREATE"⟩, ⟨"002_keys.sql", "ALTER"⟩]

/-- A source is appended to the schema. -/
def appendSource (schema : List String) (source : String) : Option (List String) :=
  some (schema ++ [source])

/-- A deployment stops behind its first file, another one finishes. -/
def stoppedRun : List MigrationEvent :=
  [.acquire 0, .read 0, .turn 0, .stop 0, .acquire 1, .read 1, .turn 1, .turn 1, .finish 1]

/-- The run happens: its first deployment stops, the second succeeds. -/
theorem stoppedRun_succeeds : ∃ s,
    (migrationSystem id appendSource (fun _ => twoFiles) []).Run stoppedRun s ∧
      s.deployments 0 = .stopped ∧ s.deployments 1 = .succeeded := by
  have hnext : (stoppedRun.foldlM (MigrationState.next id appendSource (fun _ => twoFiles))
      ⟨⟨[], []⟩, none, fun _ => .waiting⟩).any
        (fun s => s.deployments 0 = .stopped ∧ s.deployments 1 = .succeeded) = true := by
    decide +kernel
  obtain ⟨s, hs, hboth⟩ := (Option.any_eq_true _ _).mp hnext
  exact ⟨s, (TransitionSystem.Run.start rfl).foldlM migrationStep_of_next hs,
    of_decide_eq_true hboth⟩

/-- Behind the run every file is recorded under its digest. -/
theorem stoppedRun_complete : ∃ s,
    (migrationSystem id appendSource (fun _ => twoFiles) []).Run stoppedRun s ∧
      s.deployments 0 = .stopped ∧ ∀ m ∈ migrationFiles twoFiles,
        ∃ row ∈ s.db.rows, row.version = m.version ∧
          row.checksum = migrationChecksum id m.source := by
  obtain ⟨s, hrun, hstopped, hsucceeded⟩ := stoppedRun_succeeds
  refine ⟨s, hrun, hstopped, ?_⟩
  exact (migrationsLaw id appendSource (fun _ => twoFiles) []).complete stoppedRun s hrun 1 hsucceeded

/-- Its release is recorded in the order of its names, and nothing else. -/
theorem releaseLaw_two : ReleaseLaw id appendSource twoFiles [] ∧ ∃ s,
    (migrationSystem id appendSource (fun _ => twoFiles) []).Run stoppedRun s ∧
      s.db.rows = (migrationFiles twoFiles).map (Migration.row id) := by
  have hlaw := releaseLaw id appendSource twoFiles [] (by decide +kernel)
  obtain ⟨s, hrun, -, hsucceeded⟩ := stoppedRun_succeeds
  exact ⟨hlaw, s, hrun, hlaw.whole stoppedRun s hrun 1 hsucceeded⟩

end Stopped

end OpenMasu
