import Mathlib.Logic.Equiv.List
import OpenMasu.AppendOnly
import OpenMasu.EventSchemas
import OpenMasu.Evaluate
import OpenMasu.SqlCohort

/-!
# Cost reports

A cost report is imported row by row.  The artifact of a row carries a digest
of its dimensions, which is also the key under which the ledger finds the
current report, and an id cut from a second digest.

* `costArtifact`, `persistCostImport` — what a row becomes, and the import;
* `presentDimensions` — the dimensions `costRecords` reads back;
* `importedCost_rejected` — the evaluator takes no imported row;
* `costImport_iff` — when every row is kept and current.
-/

namespace OpenMasu

open AppendOnly (Apart insertUnless latest)
open PartialList (bind_eq_ok)

section Artifacts

variable [Digest]

/-- A `CostInput`; an optional field is absent, null or a text. -/
structure CostInput where
  tenantId : String
  appId : String
  network : String
  campaignId : Option (Option String) := none
  adGroupId : Option (Option String) := none
  country : Option (Option String) := none
  date : CalendarDate
  amountUnscaled : String
  amountScale : Int
  currency : String
  source : String
  asOf : Timestamp
  deriving DecidableEq

/-- A text or null. -/
def nullable (value : Option String) : Json := value.elim .null .str

instance : Encode CostInput := ⟨fun row => .object [
  member "tenant_id" row.tenantId,
  member "app_id" row.appId,
  member "network" row.network,
  ("campaign_id", row.campaignId.map nullable),
  ("ad_group_id", row.adGroupId.map nullable),
  ("country", row.country.map nullable),
  member "date" row.date,
  member "amount_unscaled" row.amountUnscaled,
  ("amount_scale", some (Json.int row.amountScale)),
  member "currency" row.currency,
  member "source" row.source,
  member "as_of" row.asOf]⟩

/-- The columns of a cost record that hold the row: its dimensions, money and
times, `?? null` applied. -/
structure CostColumns where
  tenantId : String
  appId : String
  network : String
  campaignId : Option String
  adGroupId : Option String
  country : Option String
  costDate : CalendarDate
  spendUnscaled : String
  spendScale : Int
  currency : String
  source : String
  asOf : Timestamp
  deriving DecidableEq

/-- What a record says of a cost: its columns but the source. -/
def CostColumns.reported (c : CostColumns) : CostColumns :=
  { c with source := "" }

/-- The columns a row of the file names. -/
def CostInput.columns (row : CostInput) : CostColumns where
  tenantId := row.tenantId
  appId := row.appId
  network := row.network
  campaignId := row.campaignId.join
  adGroupId := row.adGroupId.join
  country := row.country.join
  costDate := row.date
  spendUnscaled := row.amountUnscaled
  spendScale := row.amountScale
  currency := row.currency
  source := row.source
  asOf := row.asOf

/-- `dimensionObject`: the dimensions in the order of their names. -/
def dimensionObject (c : CostColumns) : List (String × Json) := [
  ("ad_group_id", nullable c.adGroupId),
  ("app_id", .str c.appId),
  ("campaign_id", nullable c.campaignId),
  ("country", nullable c.country),
  ("date", .str c.costDate.text),
  ("network", .str c.network),
  ("tenant_id", .str c.tenantId)]

/-- The `cost_record_id`; the scale of the amount is no part of it. -/
def costRecordId (c : CostColumns) : String :=
  "cost:" ++ String.ofList ((sha256 (.arr [.obj (dimensionObject c), .str c.asOf.text,
    .str c.spendUnscaled, .str c.currency])).toList.take 48)

/-- The `dimension_digest`, stored as `cost_key_digest`. -/
def dimensionDigest (c : CostColumns) : String := sha256 (.obj (dimensionObject c))

/-- Neither digest reads the source. -/
theorem costRecordId_reported (c : CostColumns) : costRecordId c.reported = costRecordId c := rfl

/-- The digest of the dimensions is over the columns a report counts by. -/
theorem dimensionDigest_reported (c : CostColumns) :
    dimensionDigest c.reported = dimensionDigest c := rfl

omit [Digest] in
/-- Columns that are reported alike are of one app and one time. -/
theorem CostColumns.eq_of_reported {c c' : CostColumns} (h : c.reported = c'.reported) :
    c.tenantId = c'.tenantId ∧ c.appId = c'.appId ∧ c.asOf = c'.asOf := by
  simp only [CostColumns.reported, CostColumns.mk.injEq] at h
  exact ⟨h.1, h.2.1, h.2.2.2.2.2.2.2.2.2.2.2⟩

/-- A member that is left out where the text is empty. -/
def truthyMember (name : String) (value : Option String) : String × Option Json :=
  (name, (value.filter (· ≠ "")).map .str)

/-- `costArtifact`; the currency is one the import has checked, so
`toUpperCase` meets ASCII letters only. -/
def costArtifact (c : CostColumns) (reportSnapshotDigest : String) : List (String × Option Json) := [
  member "contract_version" contractVersion,
  member "cost_record_id" (costRecordId c),
  member "tenant_id" c.tenantId,
  member "app_id" c.appId,
  member "network" c.network,
  ("campaign_id", some (nullable c.campaignId)),
  truthyMember "ad_group_id" c.adGroupId,
  truthyMember "country" c.country,
  member "date" c.costDate,
  member "amount_unscaled" c.spendUnscaled,
  ("amount_scale", some (Json.int c.spendScale)),
  member "currency" c.currency.toUpper,
  member "source" c.source,
  member "as_of" c.asOf,
  member "report_snapshot_digest" reportSnapshotDigest,
  member "dimension_digest" (dimensionDigest c)]

end Artifacts

section Import

variable [Digest]

/-- A row of `ledger.cost_records`. -/
structure CostRecordRow where
  costRecordId : String
  columns : CostColumns
  reportSnapshotDigest : String
  costKeyDigest : String
  artifact : List (String × Option Json)

namespace CostRecordRow

/-- `PRIMARY KEY (cost_record_id)` or `UNIQUE (tenant_id, app_id,
cost_key_digest, as_of)` keeps one of the two rows out. -/
def clash (r s : CostRecordRow) : Bool :=
  r.costRecordId = s.costRecordId ||
    (r.columns.tenantId = s.columns.tenantId && r.columns.appId = s.columns.appId &&
      r.costKeyDigest = s.costKeyDigest && r.columns.asOf = s.columns.asOf)

end CostRecordRow

/-- The record an imported row becomes. -/
def costRecordRow (reportDigest : String) (row : CostInput) : CostRecordRow where
  costRecordId := costRecordId row.columns
  columns := row.columns
  reportSnapshotDigest := reportDigest
  costKeyDigest := dimensionDigest row.columns
  artifact := costArtifact row.columns reportDigest

/-- `^[A-Z]{n}$` -/
def isUpperText (n : Nat) (s : String) : Bool := s.toList.length = n && s.toList.all Char.isUpper

/-- The columns of the table take the row. -/
def columnsFit (c : CostColumns) : Bool :=
  isIdText c.tenantId.toList && isIdText c.appId.toList && c.country.all (isUpperText 2) &&
    (checkDate (some c.costDate)).isOk && -2147483648 ≤ c.spendScale && c.spendScale ≤ 2147483647

/-- One row of the report. -/
def persistCostRow (reportDigest : String) (table : List CostRecordRow) (row : CostInput) :
    Except Failure (List CostRecordRow) :=
  if !isUpperText 3 row.currency ||
      !(row.amountUnscaled ≠ "" && row.amountUnscaled.toList.all Char.isDigit) then
    .error (.error "cost money representation is invalid")
  else if !columnsFit row.columns then
    .error (.error "a column of ledger.cost_records rejects the row")
  else .ok (insertUnless CostRecordRow.clash table (costRecordRow reportDigest row))

/-- A `CostImportResult`, with the table behind the call. -/
structure CostImportResult where
  table : List CostRecordRow
  inserted : Nat
  current : Nat

/-- The current keys of an app. -/
def currentCostKeys (table : List CostRecordRow) (tenantId appId : String) : List String :=
  ((table.filter fun r => r.columns.tenantId = tenantId && r.columns.appId = appId).map
    (·.costKeyDigest)).dedup

/-- `persistCostImport`: one transaction, so that an error stores nothing. -/
def persistCostImport (table : List CostRecordRow) (sourceId : String) (rows : List CostInput) :
    Except Failure CostImportResult :=
  match rows with
  | [] => .error (.error "cost import requires at least one row")
  | scope :: _ =>
      if !rows.all (fun row => row.tenantId = scope.tenantId && row.appId = scope.appId) then
        .error (.error "a cost import cannot mix tenant or app scopes")
      else if !isIdText sourceId.toList then
        .error (.error "a column of control.import_runs rejects the source")
      else do
        let reportDigest := sha256 (toJson rows)
        let table' ← rows.foldlM (persistCostRow reportDigest) table
        -- Rows are only ever appended, so the counts of the insertions add up to this.
        return {
          table := table'
          inserted := table'.length - table.length
          current := (currentCostKeys table' scope.tenantId scope.appId).length }

/-- A call of `persistCostImport`. -/
structure CostImport where
  sourceId : String
  rows : List CostInput

/-- The table behind a call. -/
def CostImport.table (table : List CostRecordRow) (call : CostImport) : List CostRecordRow :=
  match persistCostImport table call.sourceId call.rows with
  | .ok result => result.table
  | .error _ => table

/-- The records of a call's rows, where the call does not throw. -/
def CostImport.records (table : List CostRecordRow) (call : CostImport) : List CostRecordRow :=
  match persistCostImport table call.sourceId call.rows with
  | .ok _ => call.rows.map (costRecordRow (sha256 (toJson call.rows)))
  | .error _ => []

/-- The table behind several calls. -/
def importCosts (table : List CostRecordRow) (calls : List CostImport) : List CostRecordRow :=
  calls.foldl CostImport.table table

/-- The rows of the calls that did not throw. -/
def importedCosts (table : List CostRecordRow) : List CostImport → List CostRecordRow
  | [] => []
  | call :: calls => call.records table ++ importedCosts (call.table table) calls

/-- The row that `ORDER BY as_of DESC` and a tie-break over the ids put first
among those of a key at a watermark. -/
def currentCostRow (ties : String → String → Bool) (table : List CostRecordRow)
    (tenantId appId key : String) (watermark : Timestamp) : Option CostRecordRow :=
  latest (fun a b => !isBefore a.columns.asOf b.columns.asOf ||
      (a.columns.asOf = b.columns.asOf && ties a.costRecordId b.costRecordId))
    (table.filter fun r => r.columns.tenantId = tenantId && r.columns.appId = appId &&
      r.costKeyDigest = key && isBefore r.columns.asOf watermark)

end Import

section Runs

variable [Digest] {table t₀ : List CostRecordRow} {calls : List CostImport} {r s : CostRecordRow}

omit [Digest] in
/-- Two rows clash on their id, or on app, key and time. -/
theorem CostRecordRow.clash_iff : r.clash s = true ↔ r.costRecordId = s.costRecordId ∨
    (r.columns.tenantId = s.columns.tenantId ∧ r.columns.appId = s.columns.appId ∧
      r.costKeyDigest = s.costKeyDigest ∧ r.columns.asOf = s.columns.asOf) := by
  simp only [CostRecordRow.clash, Bool.or_eq_true, Bool.and_eq_true, decide_eq_true_eq, and_assoc]

omit [Digest] in
/-- It does not matter which of two rows comes first. -/
theorem CostRecordRow.clash_comm (r s : CostRecordRow) : r.clash s = s.clash r := by
  rw [Bool.eq_iff_iff, CostRecordRow.clash_iff, CostRecordRow.clash_iff]
  constructor
  · rintro (h | ⟨h1, h2, h3, h4⟩)
    · exact .inl h.symm
    · exact .inr ⟨h1.symm, h2.symm, h3.symm, h4.symm⟩
  · rintro (h | ⟨h1, h2, h3, h4⟩)
    · exact .inl h.symm
    · exact .inr ⟨h1.symm, h2.symm, h3.symm, h4.symm⟩

omit [Digest] in
/-- Whether two records clash depends on their ids, keys and what they
report. -/
theorem CostRecordRow.clash_congr {r' s' : CostRecordRow} (hid : r'.costRecordId = r.costRecordId)
    (hreported : r'.columns.reported = r.columns.reported)
    (hkey : r'.costKeyDigest = r.costKeyDigest) (hid' : s'.costRecordId = s.costRecordId)
    (hreported' : s'.columns.reported = s.columns.reported)
    (hkey' : s'.costKeyDigest = s.costKeyDigest) : r'.clash s' = r.clash s := by
  obtain ⟨htenant, happ, htime⟩ := CostColumns.eq_of_reported hreported
  obtain ⟨htenant', happ', htime'⟩ := CostColumns.eq_of_reported hreported'
  rw [CostRecordRow.clash, CostRecordRow.clash, hid, hkey, hid', hkey', htenant, happ, htime,
    htenant', happ', htime']

/-- A row of the file is inserted, unless it clashes with a row that is there.
-/
theorem persistCostRow_eq_ok {digest : String} {row : CostInput} {table' : List CostRecordRow}
    (h : persistCostRow digest table row = .ok table') :
    table' = insertUnless CostRecordRow.clash table (costRecordRow digest row) := by
  unfold persistCostRow at h
  split at h
  · cases h
  · split at h
    · cases h
    · exact (Except.ok.inj h).symm

/-- So are the rows of a file, one after another. -/
theorem foldlM_persistCostRow {digest : String} {rows : List CostInput}
    {table' : List CostRecordRow} (h : rows.foldlM (persistCostRow digest) table = .ok table') :
    table' = (rows.map (costRecordRow digest)).foldl (insertUnless CostRecordRow.clash) table := by
  induction rows generalizing table with
  | nil => exact (Except.ok.inj h).symm
  | cons row rows ih =>
      rw [List.foldlM_cons, bind_eq_ok] at h
      obtain ⟨next, hrow, hrows⟩ := h
      have hnext := persistCostRow_eq_ok hrow
      subst hnext
      exact ih hrows

/-- An import that returns has inserted the rows of its file under the digest
of the file. -/
theorem persistCostImport_eq_ok {sourceId : String} {rows : List CostInput}
    {result : CostImportResult} (h : persistCostImport table sourceId rows = .ok result) :
    result.table = (rows.map (costRecordRow (sha256 (toJson rows)))).foldl
      (insertUnless CostRecordRow.clash) table := by
  unfold persistCostImport at h
  split at h
  · cases h
  · split at h
    · cases h
    · split at h
      · cases h
      · rw [bind_eq_ok] at h
        obtain ⟨table', hrows, hresult⟩ := h
        have htable := foldlM_persistCostRow hrows
        cases hresult
        exact htable

/-- A call inserts its records; a call that throws has none. -/
theorem CostImport.table_eq (table : List CostRecordRow) (call : CostImport) :
    call.table table = (call.records table).foldl (insertUnless CostRecordRow.clash) table := by
  unfold CostImport.table CostImport.records
  cases hcall : persistCostImport table call.sourceId call.rows with
  | ok result => exact persistCostImport_eq_ok hcall
  | error e => rfl

/-- The calls insert their records one after another. -/
theorem importCosts_eq (table : List CostRecordRow) (calls : List CostImport) :
    importCosts table calls =
      (importedCosts table calls).foldl (insertUnless CostRecordRow.clash) table := by
  induction calls generalizing table with
  | nil => rfl
  | cons call calls ih =>
      rw [importedCosts, List.foldl_append, ← CostImport.table_eq]
      exact ih _

/-- An imported record is made from a row. -/
theorem exists_of_mem_importedCosts (h : r ∈ importedCosts table calls) :
    ∃ digest row, r = costRecordRow digest row := by
  induction calls generalizing table with
  | nil => cases h
  | cons call calls ih =>
      rcases List.mem_append.mp h with h | h
      · unfold CostImport.records at h
        split at h
        · obtain ⟨row, -, rfl⟩ := List.mem_map.mp h
          exact ⟨_, row, rfl⟩
        · cases h
      · exact ih h

end Runs

section Current

variable [Digest] {ties : String → String → Bool} {table t₀ : List CostRecordRow} {calls : List CostImport}

omit [Digest] in
/-- Of two times one is before the other or the same. -/
theorem isBefore_total (a b : Timestamp) : isBefore a b = true ∨ isBefore b a = true := by
  simp only [isBefore, decide_eq_true_eq]
  exact le_total _ _

omit [Digest] in
/-- The order of times is transitive. -/
theorem isBefore_trans {a b c : Timestamp} (h : isBefore a b = true) (h' : isBefore b c = true) :
    isBefore a c = true := by
  simp only [isBefore, decide_eq_true_eq] at h h' ⊢
  exact h.trans h'

omit [Digest] in
/-- And antisymmetric: the texts are canonical. -/
theorem isBefore_antisymm {a b : Timestamp} (h : isBefore a b = true) (h' : isBefore b a = true) :
    a = b := by
  simp only [isBefore, decide_eq_true_eq] at h h'
  exact Timestamp.text_injective (codeUnits_injective (le_antisymm h h'))

/-- The record is under the key and visible at the watermark. -/
def CostRecordRow.IsUnder (r : CostRecordRow) (tenantId appId key : String)
    (watermark : Timestamp) : Prop :=
  r.columns.tenantId = tenantId ∧ r.columns.appId = appId ∧ r.costKeyDigest = key ∧
    isBefore r.columns.asOf watermark = true

omit [Digest] in
/-- The rows that a query looks at. -/
theorem mem_filter_isUnder {tenantId appId key : String} {watermark : Timestamp}
    {s : CostRecordRow} : s ∈ table.filter (fun r => r.columns.tenantId = tenantId &&
      r.columns.appId = appId && r.costKeyDigest = key && isBefore r.columns.asOf watermark) ↔
      s ∈ table ∧ s.IsUnder tenantId appId key watermark := by
  simp only [List.mem_filter, CostRecordRow.IsUnder, Bool.and_eq_true, decide_eq_true_eq,
    and_assoc]

omit [Digest] in
/-- What a query finds is a row of the table, under its key and its watermark.
-/
theorem mem_of_currentCostRow {tenantId appId key : String} {watermark : Timestamp}
    {c : CostRecordRow} (h : currentCostRow ties table tenantId appId key watermark = some c) :
    c ∈ table ∧ c.IsUnder tenantId appId key watermark :=
  mem_filter_isUnder.mp (AppendOnly.mem_of_latest h)

omit [Digest] in
/-- The current record of a key is its last one: no two share a time. -/
theorem exists_currentCostRow (hapart : Apart CostRecordRow.clash table)
    {tenantId appId key : String} {watermark : Timestamp} {r : CostRecordRow} (hr : r ∈ table)
    (hunder : r.IsUnder tenantId appId key watermark) :
    ∃ c, currentCostRow ties table tenantId appId key watermark = some c ∧ c ∈ table ∧
      c.IsUnder tenantId appId key watermark ∧
      isBefore r.columns.asOf c.columns.asOf = true := by
  have hmem : ∀ s, s ∈ table.filter (fun r => r.columns.tenantId = tenantId &&
      r.columns.appId = appId && r.costKeyDigest = key && isBefore r.columns.asOf watermark) ↔
      s ∈ table ∧ s.IsUnder tenantId appId key watermark := fun s => mem_filter_isUnder
  unfold currentCostRow
  generalize hrows : table.filter _ = rows at hmem ⊢
  have hrows_apart : Apart CostRecordRow.clash rows := by
    rw [← hrows]
    exact hapart.sublist List.filter_sublist
  -- Two records of the key are of different times, so that the ids never decide.
  have hagree : rows.Pairwise fun a b =>
      (!isBefore b.columns.asOf a.columns.asOf ||
        (b.columns.asOf = a.columns.asOf && ties b.costRecordId a.costRecordId)) =
      !isBefore b.columns.asOf a.columns.asOf := by
    refine (List.Pairwise.and_mem.mp hrows_apart).imp ?_
    rintro a b ⟨ha, hb, hclash⟩
    obtain ⟨-, hta, hpa, hka, -⟩ := (hmem a).mp ha
    obtain ⟨-, htb, hpb, hkb, -⟩ := (hmem b).mp hb
    have hne : ¬ b.columns.asOf = a.columns.asOf := by
      intro heq
      have : a.clash b = true := CostRecordRow.clash_iff.mpr
        (.inr ⟨hta.trans htb.symm, hpa.trans hpb.symm, hka.trans hkb.symm, heq.symm⟩)
      rw [hclash] at this
      cases this
    simp [hne]
  rw [AppendOnly.latest_congr hagree]
  · cases hlatest : latest (fun a b : CostRecordRow => !isBefore a.columns.asOf b.columns.asOf)
        rows with
    | none =>
        have hne : rows ≠ [] := List.ne_nil_of_mem ((hmem r).mpr ⟨hr, hunder⟩)
        exact absurd hlatest (AppendOnly.latest_ne_none hne)
    | some c =>
        obtain ⟨hc, hcunder⟩ := (hmem c).mp (AppendOnly.mem_of_latest hlatest)
        refine ⟨c, rfl, hc, hcunder, ?_⟩
        have hlater := AppendOnly.not_later_of_latest ?_ ?_ hlatest r ((hmem r).mpr ⟨hr, hunder⟩)
        · simpa using hlater
        · intro a b d hab hbd
          simp only [Bool.not_eq_true'] at hab hbd ⊢
          by_contra had
          rw [Bool.not_eq_false] at had
          have hda := (isBefore_total b.columns.asOf a.columns.asOf).resolve_right (by simp [hab])
          have := isBefore_trans hda had
          rw [hbd] at this
          cases this
        · intro a
          simp [isBefore]

/-- A ledger state: its constraints hold, and a row under the key digest of its
own columns has their id. -/
structure LedgerCosts (table : List CostRecordRow) : Prop where
  apart : Apart CostRecordRow.clash table
  ids : ∀ s ∈ table, s.costKeyDigest = dimensionDigest s.columns →
    s.costRecordId = costRecordId s.columns

/-- No row is lost: each has a record of its dimensions, date, time, amount and
currency, and of all rows of a key, stored before or imported since, the last
one at a watermark is the current one. -/
structure CostsKept (ties : String → String → Bool) (t₀ : List CostRecordRow)
    (calls : List CostImport) : Prop where
  kept : ∀ r ∈ importedCosts t₀ calls, ∃ s ∈ importCosts t₀ calls,
    s.columns.reported = r.columns.reported
  current : ∀ r ∈ t₀ ++ importedCosts t₀ calls, ∀ watermark,
    isBefore r.columns.asOf watermark = true →
    (∀ s ∈ t₀ ++ importedCosts t₀ calls,
      s.IsUnder r.columns.tenantId r.columns.appId r.costKeyDigest watermark →
      isBefore s.columns.asOf r.columns.asOf = true) →
    ∃ c, currentCostRow ties (importCosts t₀ calls) r.columns.tenantId r.columns.appId
      r.costKeyDigest watermark = some c ∧ c.columns.reported = r.columns.reported

/-- An imported record has the id and the key of its columns. -/
theorem ids_of_mem_importedCosts {r : CostRecordRow} (h : r ∈ importedCosts t₀ calls) :
    r.costRecordId = costRecordId r.columns ∧ r.costKeyDigest = dimensionDigest r.columns := by
  obtain ⟨digest, row, rfl⟩ := exists_of_mem_importedCosts h
  exact ⟨rfl, rfl⟩

/-- Every row of the table was there before or is in one of the files. -/
theorem mem_of_mem_importCosts {r : CostRecordRow} (h : r ∈ importCosts t₀ calls) :
    r ∈ t₀ ++ importedCosts t₀ calls := by
  rw [importCosts_eq] at h
  exact List.mem_append.mpr (AppendOnly.mem_foldl_insertUnless h)

/-- A row that was there stays. -/
theorem mem_importCosts_of_mem {r : CostRecordRow} (h : r ∈ t₀) : r ∈ importCosts t₀ calls := by
  rw [importCosts_eq]
  exact AppendOnly.mem_foldl_insertUnless_of_mem h

namespace LedgerCosts

/-- The rows of the table never clash. -/
theorem apart_importCosts (h : LedgerCosts t₀) :
    Apart CostRecordRow.clash (importCosts t₀ calls) := by
  rw [importCosts_eq]
  exact h.apart.foldl_insertUnless CostRecordRow.clash_comm _

/-- Of a stored and an imported record, what they report and the key give the
id. -/
theorem id_eq (h : LedgerCosts t₀) {r s : CostRecordRow} (hr : r ∈ importedCosts t₀ calls)
    (hs : s ∈ t₀ ++ importedCosts t₀ calls) (hreported : s.columns.reported = r.columns.reported)
    (hkey : s.costKeyDigest = r.costKeyDigest) : s.costRecordId = r.costRecordId := by
  obtain ⟨hrid, hrkey⟩ := ids_of_mem_importedCosts hr
  have hid : costRecordId s.columns = costRecordId r.columns := by
    rw [← costRecordId_reported, hreported, costRecordId_reported]
  have hdigest : dimensionDigest s.columns = dimensionDigest r.columns := by
    rw [← dimensionDigest_reported, hreported, dimensionDigest_reported]
  rw [hrid, ← hid]
  rcases List.mem_append.mp hs with hs | hs
  · refine h.ids s hs ?_
    rw [hkey, hrkey, hdigest]
  · exact (ids_of_mem_importedCosts hs).1

end LedgerCosts

/-- At its own time a row is the last of its key. -/
theorem CostsKept.stored (h : CostsKept ties t₀ calls) {r : CostRecordRow}
    (hr : r ∈ t₀ ++ importedCosts t₀ calls) : ∃ c ∈ importCosts t₀ calls,
      c.columns.reported = r.columns.reported ∧ c.costKeyDigest = r.costKeyDigest := by
  have hself : isBefore r.columns.asOf r.columns.asOf = true := by simp [isBefore]
  obtain ⟨c, hc, hreported⟩ := h.current r hr r.columns.asOf hself fun s _ hs => hs.2.2.2
  obtain ⟨hmem, -, -, hkey, -⟩ := mem_of_currentCostRow hc
  exact ⟨c, hmem, hreported, hkey⟩

/-- **Cost rows are kept exactly where none clashes with a different row.**
Over any run of reports, each row of a report that was stored is found with its
columns, and the current cost of a key is the latest imported for it, if and
only if no row that differs in what is kept shares an id or a key and time. -/
theorem costImport_iff (ties : String → String → Bool) (h : LedgerCosts t₀)
    (calls : List CostImport) :
    CostsKept ties t₀ calls ↔
      ∀ r ∈ importedCosts t₀ calls, ∀ s ∈ t₀ ++ importedCosts t₀ calls, r.clash s = true →
        s.columns.reported = r.columns.reported ∧ s.costKeyDigest = r.costKeyDigest := by
  have hapart : Apart CostRecordRow.clash (importCosts t₀ calls) := h.apart_importCosts
  constructor
  · intro hkept r hr s hs hclash
    obtain ⟨c, hc, hreported, hkey⟩ := hkept.stored (List.mem_append_right _ hr)
    have hcid := h.id_eq hr (mem_of_mem_importCosts hc) hreported hkey
    -- The other row has a record of its own, under its id.
    obtain ⟨d, hd, hdreported, hdkey, hdid⟩ : ∃ d ∈ importCosts t₀ calls,
        d.columns.reported = s.columns.reported ∧
        d.costKeyDigest = s.costKeyDigest ∧ d.costRecordId = s.costRecordId := by
      rcases List.mem_append.mp hs with hold | hnew
      · exact ⟨s, mem_importCosts_of_mem hold, rfl, rfl, rfl⟩
      · obtain ⟨d, hd, hdreported, hdkey⟩ := hkept.stored hs
        exact ⟨d, hd, hdreported, hdkey,
          h.id_eq hnew (mem_of_mem_importCosts hd) hdreported hdkey⟩
    have hboth : c.clash d = true := by
      rw [CostRecordRow.clash_congr hcid hreported hkey hdid hdreported hdkey]
      exact hclash
    have heq := hapart.eq_of_clash CostRecordRow.clash_comm hc hd hboth
    rw [← hdreported, ← hdkey, ← hreported, ← hkey, heq]
    exact ⟨rfl, rfl⟩
  · intro hcond
    have hstored : ∀ r ∈ t₀ ++ importedCosts t₀ calls, ∃ s ∈ importCosts t₀ calls,
        s.columns.reported = r.columns.reported ∧ s.costKeyDigest = r.costKeyDigest := by
      intro r hr
      rcases List.mem_append.mp hr with hold | hnew
      · exact ⟨r, mem_importCosts_of_mem hold, rfl, rfl⟩
      · obtain ⟨s, hs, hholds⟩ : ∃ s ∈ (importedCosts t₀ calls).foldl
            (insertUnless CostRecordRow.clash) t₀, s = r ∨ r.clash s = true :=
          AppendOnly.foldl_insertUnless_holds t₀ hnew
        rw [← importCosts_eq] at hs
        rcases hholds with rfl | hclash
        · exact ⟨s, hs, rfl, rfl⟩
        · exact ⟨s, hs, hcond r hnew s (mem_of_mem_importCosts hs) hclash⟩
    refine ⟨fun r hr => ?_, fun r hr watermark hvisible hlast => ?_⟩
    · obtain ⟨s, hs, hreported, -⟩ := hstored r (List.mem_append_right _ hr)
      exact ⟨s, hs, hreported⟩
    · obtain ⟨s, hs, hreported, hkey⟩ := hstored r hr
      obtain ⟨htenant, happ, hasOf⟩ := CostColumns.eq_of_reported hreported
      have hsunder : s.IsUnder r.columns.tenantId r.columns.appId r.costKeyDigest watermark :=
        ⟨htenant, happ, hkey, hasOf ▸ hvisible⟩
      obtain ⟨c, hcurrent, hc, hcunder, hafter⟩ :=
        @exists_currentCostRow ties _ hapart _ _ _ _ s hs hsunder
      have hbefore := hlast c (mem_of_mem_importCosts hc) hcunder
      rw [← hasOf] at hbefore
      have hclash : c.clash s = true := CostRecordRow.clash_iff.mpr (.inr
        ⟨hcunder.1.trans hsunder.1.symm, hcunder.2.1.trans hsunder.2.1.symm,
          hcunder.2.2.1.trans hsunder.2.2.1.symm, isBefore_antisymm hbefore hafter⟩)
      have heq := hapart.eq_of_clash CostRecordRow.clash_comm hc hs hclash
      exact ⟨c, hcurrent, heq ▸ hreported⟩

end Current

section Rejected

variable [Digest]

/-- Objects with different member names have different digests. -/
def DigestTellsNames : Prop := ∀ a b : List (String × Json), sha256 (.obj a) = sha256 (.obj b) →
  ∀ name, name ∈ a.map Prod.fst ↔ name ∈ b.map Prod.fst

/-- The dimensions `costRecords` takes from a record: the members that are
there, null included. -/
def presentDimensions (record : List (String × Option Json)) : List (String × Json) :=
  ["network", "campaign_id", "ad_group_id", "country"].filterMap fun field =>
    (record.lookup field).join.map fun value => (field, value)

/-- The record passes the check of `costRecords`. -/
def ReadsBack (record : List (String × Option Json)) : Prop :=
  (record.lookup "dimension_digest").join = some (.str (sha256 (.obj (presentDimensions record))))

variable {table : List CostRecordRow} {calls : List CostImport}

omit [Digest] in
/-- The check reads four members, and the date is none of them. -/
theorem date_not_mem_presentDimensions (record : List (String × Option Json)) :
    "date" ∉ (presentDimensions record).map Prod.fst := by
  intro h
  obtain ⟨m, hm, hname⟩ := List.mem_map.mp h
  obtain ⟨field, hfield, hvalue⟩ := List.mem_filterMap.mp hm
  obtain ⟨value, -, rfl⟩ := Option.map_eq_some_iff.mp hvalue
  simp only at hname
  subst hname
  simp at hfield

/-- The digest of a row's dimensions is that of no object without a date. -/
theorem dimensionDigest_ne (hsha : DigestTellsNames) (c : CostColumns)
    {members : List (String × Json)} (hdate : "date" ∉ members.map Prod.fst) :
    dimensionDigest c ≠ sha256 (.obj members) := by
  intro h
  have hnames := hsha _ _ h "date"
  exact hdate (hnames.mp (by simp [dimensionObject]))

/-- The artifact of a row names the digest of its dimensions. -/
theorem lookup_dimension_digest (c : CostColumns) (report : String) :
    (costArtifact c report).lookup "dimension_digest" = some (some (.str (dimensionDigest c))) := by
  rfl

omit [Digest] in
/-- Objects that are equal have the same last member. -/
theorem last_member_eq {front front' : List (String × Option Json)} {name name' : String}
    {value value' : Json} (h : Json.object (front ++ [(name, some value)]) =
      Json.object (front' ++ [(name', some value')])) : value = value' := by
  simp only [Json.object, Json.obj.injEq, List.filterMap_append, List.filterMap_cons,
    List.filterMap_nil, Option.map_some] at h
  have hlast := List.append_inj_right' h rfl
  simp only [List.cons.injEq, Prod.mk.injEq] at hlast
  exact hlast.1.2

/-- A typed record with the artifact's members has its digest. -/
theorem dimensionDigest_of_toJson {c : CostColumns} {report : String} {record : CostRecord}
    (h : toJson record = Json.object (costArtifact c report)) :
    record.dimensionDigest = dimensionDigest c := by
  have hartifact : costArtifact c report = (costArtifact c report).dropLast ++
      [member "dimension_digest" (dimensionDigest c)] := rfl
  have hrecord : ∃ front, toJson record =
      Json.object (front ++ [member "dimension_digest" record.dimensionDigest]) := by
    refine ⟨[member "contract_version" contractVersion, member "cost_record_id" record.costRecordId,
      member "tenant_id" record.tenantId, member "app_id" record.appId,
      member "network" record.network, member "campaign_id" record.campaignId,
      optional "ad_group_id" record.adGroupId, optional "country" record.country,
      member "date" record.date] ++ record.money.members ++ [member "source" record.source,
      member "as_of" record.asOf,
      member "report_snapshot_digest" record.reportSnapshotDigest], ?_⟩
    rfl
  obtain ⟨front, hfront⟩ := hrecord
  rw [hfront, hartifact] at h
  exact Json.str.inj (last_member_eq h)

/-- **The evaluator takes no imported row.**  The importer digests the names of
a row with its tenant, app and date, and the evaluator expects the digest of
the given names alone; so the artifact of every stored row is refused. -/
theorem importedCost_rejected (hsha : DigestTellsNames) (table : List CostRecordRow)
    (calls : List CostImport) (s : CostRecordRow) (hs : s ∈ importedCosts table calls) :
    ¬ ReadsBack s.artifact ∧ ∀ input : EvaluatorInput,
      (∃ record ∈ input.costRecords, toJson record = Json.object s.artifact) →
      (∀ costs, costRecords input ≠ .ok costs) ∧
      (∀ all decisions lifecycle attributions excluded runs,
        metricRuns input all decisions lifecycle attributions excluded = .ok runs → runs = []) ∧
      ∀ factory out, evaluate input factory ≠ .ok out := by
  obtain ⟨report, row, rfl⟩ := exists_of_mem_importedCosts hs
  constructor
  · intro hreads
    have hdigest : (costArtifact row.columns report).lookup "dimension_digest" = _ :=
      lookup_dimension_digest row.columns report
    simp only [ReadsBack, costRecordRow, hdigest, Option.join_some, Option.some.injEq,
      Json.str.injEq] at hreads
    exact dimensionDigest_ne hsha _ (date_not_mem_presentDimensions _) hreads
  · rintro input ⟨record, hrecord, hjson⟩
    have hdigest := dimensionDigest_of_toJson hjson
    have hcheck : ∀ costs, costRecords input ≠ .ok costs := by
      intro costs hcosts
      simp only [costRecords, bind_eq_ok] at hcosts
      obtain ⟨_, hall, -⟩ := hcosts
      have hone := PartialList.forEach_eq_ok.mp hall record hrecord
      unfold checkCostRecord at hone
      split at hone
      · case isTrue hequal =>
          rw [hdigest] at hequal
          refine dimensionDigest_ne hsha _ ?_ hequal
          cases record.adGroupId <;> cases record.country <;> simp [member, optional]
      · cases hone
    refine ⟨hcheck, ?_, ?_⟩
    · intro all decisions lifecycle attributions excluded runs hruns
      unfold metricRuns at hruns
      split at hruns
      · exact (Except.ok.inj hruns).symm
      · simp only [bind_eq_ok] at hruns
        obtain ⟨_, -, costs, hcosts, -⟩ := hruns
        exact absurd hcosts (hcheck costs)
    · intro factory out hout
      simp only [evaluate, bind_eq_ok] at hout
      obtain ⟨_, -, _, -, _, -, _, -, _, -, costs, hcosts, -⟩ := hout
      exact absurd hcosts (hcheck costs)

end Rejected

section Examples

/-- A digest that spells the names of an object's members in unary: it tells
them apart. -/
@[reducible] def namesDigest : Digest := ⟨fun
  | .obj members => String.ofList
      (List.replicate (Encodable.encode (members.map fun m => codeUnits m.1)) '1')
  | _ => "0"⟩

/-- A digest that keeps the names tells them apart. -/
theorem namesDigest_tellsNames : @DigestTellsNames namesDigest := by
  intro a b h name
  have hchars := congrArg List.length (String.ofList_injective h)
  rw [List.length_replicate, List.length_replicate] at hchars
  have hunits : a.map (fun m => codeUnits m.1) = b.map fun m => codeUnits m.1 :=
    Encodable.encode_injective hchars
  have hnames : a.map Prod.fst = b.map Prod.fst := by
    refine codeUnits_injective.list_map ?_
    simpa only [List.map_map, Function.comp_def] using hunits
  rw [hnames]

/-- A row of a report. -/
def sampleCost (amountUnscaled : String) (amountScale : Int) : CostInput where
  tenantId := "shop"
  appId := "app"
  network := "search"
  campaignId := some (some "spring")
  date := ⟨2026, 8, 18⟩
  amountUnscaled := amountUnscaled
  amountScale := amountScale
  currency := "USD"
  source := "imported_reported"
  asOf := ⟨2026, 8, 19, 0, 0, 0, 0⟩

/-- A report that is stored, and its record rejected. -/
theorem sampleCost_rejected : ∃ s : CostRecordRow,
    s ∈ @importedCosts namesDigest [] [⟨"ads", [sampleCost "1250000" 6]⟩] ∧
      ¬ @ReadsBack namesDigest s.artifact := by
  let calls : List CostImport := [⟨"ads", [sampleCost "1250000" 6]⟩]
  obtain ⟨s, hs⟩ : ∃ s, s ∈ @importedCosts namesDigest [] calls := ⟨_, List.mem_cons_self⟩
  exact ⟨s, hs, (@importedCost_rejected namesDigest namesDigest_tellsNames [] calls s hs).1⟩

attribute [local instance] checksumDigest

/-- The first report of a table is stored, and its artifact does not pass. -/
theorem storedCost_not_readsBack :
    (persistCostImport [] "ads" [sampleCost "1250000" 6]).toOption.map (·.inserted) = some 1 ∧
      ¬ ReadsBack (costArtifact (sampleCost "1250000" 6).columns "report") := by
  refine ⟨by decide +kernel, ?_⟩
  intro h
  have hdigest : (costArtifact (sampleCost "1250000" 6).columns "report").lookup
      "dimension_digest" = _ := lookup_dimension_digest _ _
  simp only [ReadsBack, hdigest, Option.join_some, Option.some.injEq, Json.str.injEq] at h
  exact absurd h (by decide +kernel)

/-- A row of a campaign's report of a day. -/
def campaignReport (campaign : String) (day : Fin 100) (amountUnscaled : String) : CostInput :=
  { sampleCost amountUnscaled 6 with
    campaignId := some (some campaign)
    asOf := ⟨2026, 8, day, 0, 0, 0, 0⟩ }

/-- A table with a row of either of two campaigns, one of them from another
source. -/
def storedCosts : List CostRecordRow := [
  costRecordRow "report" { campaignReport "spring" 19 "1250000" with source := "fixture" },
  costRecordRow "report" (campaignReport "summer" 19 "700000")]

/-- A report that repeats one of the rows and revises it, and a later report
that revises both. -/
def revisedCosts : List CostImport := [
  ⟨"ads", [campaignReport "spring" 19 "1250000", campaignReport "spring" 20 "1300000"]⟩,
  ⟨"ads", [campaignReport "summer" 21 "750000", campaignReport "spring" 21 "1250000"]⟩]

set_option maxRecDepth 4000 in
/-- The reports are imported, and no row clashes with a different one. -/
theorem revisedCosts_apart :
    (importedCosts storedCosts revisedCosts).length = 4 ∧
    (importCosts storedCosts revisedCosts).length = 5 ∧
    (∀ r ∈ importedCosts storedCosts revisedCosts,
      ∀ s ∈ storedCosts ++ importedCosts storedCosts revisedCosts, r.clash s = true →
        s.columns.reported = r.columns.reported ∧ s.costKeyDigest = r.costKeyDigest) ∧
    storedCosts.Pairwise (fun r s => r.clash s = false) ∧
    ∀ s ∈ storedCosts, s.costKeyDigest = dimensionDigest s.columns →
      s.costRecordId = costRecordId s.columns := by
  decide +kernel

/-- Two reports over a table, with revisions of its keys, are kept. -/
theorem revisedCosts_kept : CostsKept (fun _ _ => false) storedCosts revisedCosts := by
  obtain ⟨-, -, hcond, hapart, hids⟩ := revisedCosts_apart
  exact (costImport_iff (fun _ _ => false) ⟨hapart, hids⟩ revisedCosts).mpr hcond

/-- Of two rows of one key and time the second is lost: its id is another one,
but the key is taken, and the insertion passes over it. -/
theorem twoCosts_not_kept : ¬ CostsKept (fun _ _ => false) []
    [⟨"ads", [sampleCost "1250000" 6, sampleCost "2500000" 6]⟩] := by
  intro h
  have himported : (sampleCost "2500000" 6).columns ∈ (importedCosts [] [⟨"ads",
      [sampleCost "1250000" 6, sampleCost "2500000" 6]⟩]).map (·.columns) := by
    decide +kernel
  obtain ⟨r, hr, hcolumns⟩ := List.mem_map.mp himported
  obtain ⟨s, hs, hsame⟩ := h.kept r hr
  have htable : (importCosts [] [⟨"ads", [sampleCost "1250000" 6,
      sampleCost "2500000" 6]⟩]).map (·.columns.reported) =
        [(sampleCost "1250000" 6).columns.reported] := by
    decide +kernel
  have hmem : (sampleCost "2500000" 6).columns.reported ∈
      [(sampleCost "1250000" 6).columns.reported] := by
    rw [← htable, ← hcolumns, ← hsame]
    exact List.mem_map_of_mem hs
  exact absurd hmem (by decide)

end Examples

end OpenMasu
