import OpenMasu.Canonical
import OpenMasu.EvaluatorInput
import OpenMasu.EventSchemas
import OpenMasu.KeyedSort
import OpenMasu.KeysetPaging
import OpenMasu.PartialList
import OpenMasu.SdkRequestAuth

/-!
# Paging through a metric report

A report is a query over the metric runs of an app.  Its filters are read from
the parameters of the request; the runs are ordered by metric name, grouping
digest and run id, and a page that is not the last carries a cursor of these
three, which the next request sends back.  The writer of the runs builds their
ids from a prefix and the metric name, the reader of the cursor accepts an
identifier of at most 128 characters.

* `parseMetricQuery` — the parameters of a request;
* `parseCursor`, `encodeMetricCursor` — the cursor;
* `metricReport` — one page;
* `parseMetricQuery_after` — a cursor changes nothing but where a page starts;
* `report_pages_iff` — the reports that can be read to their end;
* `long_run_id_stops_paging` — one that cannot.
-/

namespace OpenMasu

open KeysetPaging

section Query

structure ReportQueryError where
  code : String
  deriving DecidableEq

structure MetricCursor where
  metricName : String
  groupingDigest : String
  metricRunId : String
  deriving DecidableEq

/-- A metric query; `grouping` holds the dimensions that are set. -/
structure ReportQuery where
  tenantId : String
  appId : String
  metricNames : List String
  metricDefinitionVersion : Option String
  grouping : List (Dimension × String)
  dateFrom : Option String
  dateTo : Option String
  watermarkAtMost : Option String
  differenceReasonCode : Option String
  latest : Bool
  limit : Nat
  after : Option MetricCursor
  deriving DecidableEq

structure ParsedReportQuery where
  query : ReportQuery
  format : String
  exports : Bool
  deriving DecidableEq

/-- Functions of the runtime: what `Number` makes of a text, and the JSON text
of a cursor in `base64url`. -/
structure ReportFunctions where
  safeInteger : String → Option Int
  cursorText : MetricCursor → String
  cursorJson : String → Option Json

structure ReportConfig where
  tenantId : String
  appId : String
  maximumRows : Nat := 1000
  maximumExportRows : Nat := 200000

/-- The search parameters of a request. -/
abbrev SearchParams := List (String × String)

def getAll (params : SearchParams) (key : String) : List String :=
  (params.filter (fun p => p.1 = key)).map Prod.snd

/-- A parameter that may come once. -/
def one (params : SearchParams) (key : String) : Except ReportQueryError (Option String) :=
  match getAll params key with
  | [] => .ok none
  | [value] => .ok (some value)
  | _ => .error ⟨"duplicate_filter"⟩

def check (holds : Bool) (code : String) : Except ReportQueryError Unit :=
  if holds then .ok () else .error ⟨code⟩

/-- `groupingDimensionAllowlist`. -/
def groupingDimensions : List Dimension := [.campaignId, .network, .country, .cohortDate,
  .metricDate, .attributionStatus, .appleConversionBucket]

def groupingKey (d : Dimension) : String := "grouping_" ++ d.text

def transportKeys : List String := ["app_id", "metric_name", "metric_definition_version",
  "date_from", "date_to", "watermark_at_most", "difference_reason_code", "supersession", "limit",
  "after", "format", "export"] ++ groupingDimensions.map groupingKey

def identifyingKeys : List String :=
  ["installation_id", "click_id", "record_id", "payload", "payload_ref"].map ("grouping_" ++ ·)

/-- A key of the request is one that is known. -/
def checkKey (param : String × String) : Except ReportQueryError Unit :=
  if param.1 ∈ transportKeys then .ok ()
  else if param.1 ∈ identifyingKeys then .error ⟨"identifying_grouping"⟩
  else .error ⟨"unknown_filter"⟩

def isLower (c : Char) : Bool := 'a' ≤ c && c ≤ 'z'

/-- `metricNamePattern`, and `differenceReasonPattern`. -/
def isMetricName (s : String) : Bool :=
  match s.toList with
  | [] => false
  | first :: rest => isLower first && 2 ≤ rest.length && rest.length ≤ 127 &&
      rest.all (fun c => isLower c || ('0' ≤ c && c ≤ '9') || c = '_')

/-- The values of `apple_conversion_bucket`. -/
def conversionBuckets : List String :=
  (List.range 64).map (fun n => "fine:" ++ n.repr) ++ ["coarse:low", "coarse:medium", "coarse:high"]

/-- `canonicalTimestamp`: a text of the form that `Date` reads and writes back.
It reads no leap second. -/
def canonicalTimestamp (value : String) : Bool :=
  isDateTimeText value.toList && readDigits ((value.toList.drop 17).take 2) < 60

/-- `canonicalDate`. -/
def canonicalDate (value : String) : Bool :=
  fitsForm "0000-00-00".toList value.toList && canonicalTimestamp (value ++ "T00:00:00.000Z")

example : canonicalDate "2024-02-29" = true ∧ canonicalDate "2026-02-29" = false := by decide +kernel

/-- `validateGrouping`. -/
def validGrouping (d : Dimension) (value : String) : Bool :=
  match d with
  | .country => matchesClass (fun c => 'A' ≤ c && c ≤ 'Z') 2 2 value
  | .cohortDate | .metricDate => canonicalDate value
  | .attributionStatus => value ∈ ["organic", "non_organic", "unattributed"]
  | .appleConversionBucket => value ∈ conversionBuckets
  | .campaignId | .network => isKeyId value

/-- The value of a dimension, checked. -/
def readDimension (params : SearchParams) (d : Dimension) :
    Except ReportQueryError (List (Dimension × String)) := do
  match ← one params (groupingKey d) with
  | none => .ok []
  | some value =>
      if validGrouping d value then .ok [(d, value)] else .error ⟨"grouping_value_invalid"⟩

def aggregateMetricNames : List String :=
  ["skan_attributed_installs", "skan_conversion_value_distribution", "aak_attributed_installs"]

/-- The dimensions fit the selected series. -/
def seriesFits (metricNames : List String) (grouping : List (Dimension × String)) : Bool :=
  let aggregate := metricNames.filter (· ∈ aggregateMetricNames)
  let deterministic := metricNames.filter (· ∉ aggregateMetricNames)
  let has (d : Dimension) : Bool := d ∈ grouping.map Prod.fst
  !(!aggregate.isEmpty &&
      [Dimension.campaignId, .network, .country, .cohortDate, .attributionStatus].any has) &&
    !(has .appleConversionBucket &&
      !(aggregate = ["skan_conversion_value_distribution"] && deterministic.isEmpty))

variable (F : ReportFunctions)

/-- `parseCursor`. -/
def parseCursor (encoded : String) : Except ReportQueryError MetricCursor :=
  match F.cursorJson encoded with
  | some (.obj members) =>
      let keys := KeyedSort.sortOn codeUnits (members.map Prod.fst)
      if ",".intercalate keys ≠ "groupingDigest,metricName,metricRunId" then
        .error ⟨"cursor_invalid"⟩
      else match members.lookup "metricName", members.lookup "groupingDigest",
          members.lookup "metricRunId" with
        | some (.str metricName), some (.str groupingDigest), some (.str metricRunId) =>
            if isMetricName metricName && isSignature groupingDigest && isKeyId metricRunId then
              .ok ⟨metricName, groupingDigest, metricRunId⟩
            else .error ⟨"cursor_invalid"⟩
        | _, _, _ => .error ⟨"cursor_invalid"⟩
  | _ => .error ⟨"cursor_invalid"⟩

/-- `encodeMetricCursor`. -/
def encodeMetricCursor (cursor : MetricCursor) : String := F.cursorText cursor

/-- The object whose text a cursor is. -/
def MetricCursor.json (cursor : MetricCursor) : Json := .obj [
  ("metricName", .str cursor.metricName),
  ("groupingDigest", .str cursor.groupingDigest),
  ("metricRunId", .str cursor.metricRunId)]

/-- `parseMetricQuery`, all but the cursor. -/
def parseFilters (config : ReportConfig) (params : SearchParams) :
    Except ReportQueryError ParsedReportQuery := do
  PartialList.forEach checkKey params
  let requestedAppId ← one params "app_id"
  check (requestedAppId.all (· = config.appId)) "app_scope_mismatch"
  let format := (← one params "format").getD "json"
  check (format = "json" || format = "csv") "unsupported_format"
  let exportValue := (← one params "export").getD "false"
  check (exportValue = "true" || exportValue = "false") "export_invalid"
  let exports : Bool := exportValue = "true"
  check (!exports || format = "csv") "export_requires_csv"
  let metricNames := KeyedSort.sortOn codeUnits (getAll params "metric_name").dedup
  check (metricNames.all isMetricName) "metric_name_invalid"
  let version ← one params "metric_definition_version"
  check (version.all fun v => 1 ≤ (codeUnits v).length && (codeUnits v).length ≤ 64)
    "metric_definition_version_invalid"
  let grouping := (← PartialList.traverse (readDimension params) groupingDimensions).flatten
  check (seriesFits metricNames grouping) "metric_series_mismatch"
  let dateFrom ← one params "date_from"
  let dateTo ← one params "date_to"
  check (dateFrom.all canonicalDate && dateTo.all canonicalDate) "date_invalid"
  check (!(dateFrom.any fun d => dateTo.any fun e => codeUnits e ≤ codeUnits d))
    "date_range_invalid"
  let watermarkAtMost ← one params "watermark_at_most"
  check (watermarkAtMost.all canonicalTimestamp) "watermark_invalid"
  let differenceReasonCode ← one params "difference_reason_code"
  check (differenceReasonCode.all isMetricName) "difference_reason_invalid"
  let supersession := (← one params "supersession").getD "latest"
  check (supersession = "latest" || supersession = "all") "supersession_invalid"
  let limitMaximum := if exports then config.maximumExportRows else config.maximumRows
  let limitDefault := if exports then config.maximumExportRows else 200
  let limit := (← one params "limit").elim (some (limitDefault : Int)) F.safeInteger
  check (limit.any fun n => 1 ≤ n && n ≤ (limitMaximum : Int)) "limit_invalid"
  return {
    format := format
    exports := exports
    query := {
      tenantId := config.tenantId
      appId := config.appId
      metricNames := metricNames
      metricDefinitionVersion := version
      grouping := grouping
      dateFrom := dateFrom
      dateTo := dateTo
      watermarkAtMost := watermarkAtMost
      differenceReasonCode := differenceReasonCode
      latest := supersession = "latest"
      limit := (limit.getD 0).toNat
      after := none } }

/-- `parseMetricQuery`. -/
def parseMetricQuery (config : ReportConfig) (params : SearchParams) :
    Except ReportQueryError ParsedReportQuery := do
  let parsed ← parseFilters F config params
  let afterValue ← one params "after"
  let after ← afterValue.elim (.ok none) fun text => (parseCursor F text).map some
  return { parsed with query := { parsed.query with after := after } }

end Query

section Report

/-- A row of `ledger.metric_runs`. -/
structure MetricRunRow where
  metricRunId : String
  tenantId : String
  appId : String
  metricName : String
  metricDefinitionVersion : String
  grouping : Dimension → Option String
  groupingDigest : String
  groupingDigest_hex : isSignature groupingDigest
  inputReceivedAtWatermark : String
  supersedesMetricRunId : Option String
  artifact : Json

/-- The table, with its primary key. -/
structure MetricRunTable where
  rows : List MetricRunRow
  primaryKey : (rows.map MetricRunRow.metricRunId).Nodup

variable (F : ReportFunctions) (textLe : String → String → Bool) (table : MetricRunTable)

/-- `runDateExpression`. -/
def MetricRunRow.runDate (r : MetricRunRow) : Option String :=
  ((r.grouping .metricDate).filter (· ≠ "")).or ((r.grouping .cohortDate).filter (· ≠ ""))

/-- Another run of the app replaces the row. -/
def MetricRunTable.isSuperseded (r : MetricRunRow) : Bool :=
  table.rows.any fun replacement => replacement.tenantId = r.tenantId &&
    replacement.appId = r.appId && replacement.supersedesMetricRunId = some r.metricRunId

/-- The predicates of `buildMetricQuery`, but for the cursor; `textLe` is the
order of the database's own collation. -/
def matchesQuery (q : ReportQuery) (r : MetricRunRow) : Bool :=
  r.tenantId = q.tenantId && r.appId = q.appId &&
    (q.metricNames.isEmpty || r.metricName ∈ q.metricNames) &&
    q.metricDefinitionVersion.all (· = r.metricDefinitionVersion) &&
    q.grouping.all (fun d => r.grouping d.1 = some d.2) &&
    q.dateFrom.all (fun d => r.runDate.any (textLe d)) &&
    q.dateTo.all (fun d => r.runDate.any (fun date => !textLe d date)) &&
    q.watermarkAtMost.all (textLe r.inputReceivedAtWatermark) &&
    (!q.latest || !table.isSuperseded r)

/-- The order of collation "C": by the bytes of the UTF-8 text, which is by
code points. -/
def byteKey (s : String) : List Nat := s.toList.map Char.toNat

def MetricCursor.key (c : MetricCursor) : List (List Nat) :=
  [byteKey c.metricName, byteKey c.groupingDigest, byteKey c.metricRunId]

def MetricRunRow.cursor (r : MetricRunRow) : MetricCursor :=
  ⟨r.metricName, r.groupingDigest, r.metricRunId⟩

def MetricRunRow.key (r : MetricRunRow) : List (List Nat) := r.cursor.key

/-- The runs a query is about, in the order of the report. -/
def matchingRuns (q : ReportQuery) : List MetricRunRow :=
  KeyedSort.sortOn MetricRunRow.key (table.rows.filter (matchesQuery textLe table q))

structure MetricReportPage where
  data : List MetricRunRow
  nextCursor : Option String

/-- `metricReport`: one row more than the page holds is asked for. -/
def metricReport (q : ReportQuery) : MetricReportPage :=
  let found := KeyedSort.sortOn MetricRunRow.key (table.rows.filter fun r =>
    matchesQuery textLe table q r && q.after.all fun cursor => cursor.key < r.key)
  let result := found.take (q.limit + 1)
  let rows := result.take q.limit
  let hasNext := q.limit < result.length
  { data := rows
    nextCursor := if hasNext then rows.getLast?.map fun last => encodeMetricCursor F last.cursor
      else none }

/-- A request for a report with a cursor, if any; none where it fails. -/
def requestPage (config : ReportConfig) (params : SearchParams) (after : Option String) :
    Option (List MetricRunRow × Option String) :=
  match parseMetricQuery F config (params ++ (after.map fun text => ("after", text)).toList) with
  | .ok parsed =>
      let report := metricReport F textLe table parsed.query
      some (report.data, report.nextCursor)
  | .error _ => none

end Report

section Parsing

variable {F : ReportFunctions} {config : ReportConfig} {params : SearchParams}

/-- A cursor changes no other parameter. -/
theorem getAll_append_of_ne {key text : String} (h : key ≠ "after") :
    getAll (params ++ [("after", text)]) key = getAll params key := by
  rw [getAll, List.filter_append, List.filter_cons_of_neg (by simpa using h.symm)]
  simp [getAll]

/-- Nor does it change a parameter that may be given once. -/
theorem one_append_of_ne {key text : String} (h : key ≠ "after") :
    one (params ++ [("after", text)]) key = one params key := by
  rw [one, one, getAll_append_of_ne h]

/-- A cursor changes no dimension. -/
theorem readDimension_append {text : String} (d : Dimension) :
    readDimension (params ++ [("after", text)]) d = readDimension params d := by
  have hkey : groupingKey d ≠ "after" := by
    cases d <;> decide
  rw [readDimension, readDimension, one_append_of_ne hkey]

/-- A query with a cursor has allowed keys where it has without. -/
theorem forEach_checkKey_append {text : String} :
    PartialList.forEach checkKey (params ++ [("after", text)]) =
      PartialList.forEach checkKey params := by
  induction params with
  | nil => rfl
  | cons p params ih =>
      rw [List.cons_append, PartialList.forEach_cons, PartialList.forEach_cons, ih]

/-- So the filters of every page are those of the first. -/
theorem parseFilters_append {text : String} :
    parseFilters F config (params ++ [("after", text)]) = parseFilters F config params := by
  have hdimension : readDimension (params ++ [("after", text)]) = readDimension params :=
    funext readDimension_append
  simp (disch := decide) only [parseFilters, forEach_checkKey_append, one_append_of_ne,
    getAll_append_of_ne, hdimension]

/-- A cursor changes nothing but where a page starts. -/
theorem parseMetricQuery_after {parsed : ParsedReportQuery} (text : String)
    (h : parseMetricQuery F config params = .ok parsed) (hafter : getAll params "after" = []) :
    parsed.query.after = none ∧ parseMetricQuery F config (params ++ [("after", text)]) =
      (parseCursor F text).map fun cursor =>
        { parsed with query := { parsed.query with after := some cursor } } := by
  have hnone : one params "after" = .ok none := by rw [one, hafter]
  have hsome : one (params ++ [("after", text)]) "after" = .ok (some text) := by
    have hall : getAll (params ++ [("after", text)]) "after" = [text] := by
      have happend : getAll (params ++ [("after", text)]) "after" =
          getAll params "after" ++ getAll [("after", text)] "after" := by
        rw [getAll, List.filter_append, List.map_append]
        rfl
      rw [happend, hafter]
      rfl
    rw [one, hall]
  unfold parseMetricQuery at h ⊢
  rw [parseFilters_append, hsome]
  cases hfilters : parseFilters F config params with
  | error e =>
      rw [hfilters] at h
      cases h
  | ok filters =>
      rw [hfilters, hnone] at h
      cases h
      refine ⟨rfl, ?_⟩
      cases hcursor : parseCursor F text with
      | error e => simp only [bind, Except.bind, Option.elim_some, hcursor, Except.map]
      | ok cursor =>
          simp only [bind, Except.bind, Option.elim_some, hcursor, Except.map]
          rfl

end Parsing

section Pages

variable {F : ReportFunctions} {textLe : String → String → Bool} {table : MetricRunTable}
  {config : ReportConfig} {params : SearchParams} {q : ReportQuery} {r : MetricRunRow}

/-- Texts with the same bytes are equal. -/
theorem byteKey_injective : Function.Injective byteKey := by
  intro s t h
  exact String.toList_inj.mp (List.map_injective_iff.mpr (fun _ _ => Char.toNat_inj.mp) h)

/-- A check that passes holds. -/
theorem check_eq_ok {holds : Bool} {code : String} {u : Unit} (h : check holds code = .ok u) :
    holds = true := by
  unfold check at h
  split at h
  · assumption
  · cases h

/-- An accepted query asks for at least one row. -/
theorem limit_pos {parsed : ParsedReportQuery}
    (h : parseMetricQuery F config params = .ok parsed) : 0 < parsed.query.limit := by
  unfold parseMetricQuery at h
  simp only [PartialList.bind_eq_ok, PartialList.pure_eq_ok] at h
  obtain ⟨filters, hfilters, _, -, _, -, rfl⟩ := h
  unfold parseFilters at hfilters
  simp only [PartialList.bind_eq_ok, PartialList.pure_eq_ok] at hfilters
  obtain ⟨_, -, _, -, _, -, _, -, _, -, _, -, _, -, _, -, _, -, _, -, _, -, _, -, _, -, _, -, _, -,
    _, -, _, -, _, -, _, -, _, -, _, -, _, -, _, -, limit, -, _, hlimit, rfl⟩ := hfilters
  have hchecked := check_eq_ok hlimit
  obtain ⟨n, hn, hrange⟩ := (Option.any_eq_true _ _).mp hchecked
  rw [Bool.and_eq_true, decide_eq_true_eq] at hrange
  dsimp only
  rw [hn, Option.getD_some]
  exact Int.pos_iff_toNat_pos.mp (by omega)

/-- What the cursor pattern accepts of a row. -/
def CursorReads (r : MetricRunRow) : Prop :=
  isMetricName r.metricName = true ∧ isKeyId r.metricRunId = true

/-- The cursor of a row is read back exactly where the domain admits its
metric's name and its id. -/
theorem parseCursor_cursor (hjson : F.cursorJson (F.cursorText r.cursor) = some r.cursor.json) :
    parseCursor F (encodeMetricCursor F r.cursor) =
      if isMetricName r.metricName && isKeyId r.metricRunId then .ok r.cursor
      else .error ⟨"cursor_invalid"⟩ := by
  have hnames : ",".intercalate (KeyedSort.sortOn codeUnits
      ["metricName", "groupingDigest", "metricRunId"]) =
        "groupingDigest,metricName,metricRunId" := by decide +kernel
  have hkeys : ∀ a b c : Json, ",".intercalate (KeyedSort.sortOn codeUnits
      ([("metricName", a), ("groupingDigest", b), ("metricRunId", c)].map Prod.fst)) =
        "groupingDigest,metricName,metricRunId" := fun _ _ _ => hnames
  have hdigest : isSignature r.cursor.groupingDigest = true := r.groupingDigest_hex
  rw [parseCursor, encodeMetricCursor, hjson, MetricCursor.json]
  dsimp only
  rw [hkeys, if_neg (fun h => h rfl)]
  have hlookup : ∀ a b c : Json, List.lookup "metricName"
      [("metricName", a), ("groupingDigest", b), ("metricRunId", c)] = some a ∧
    List.lookup "groupingDigest"
      [("metricName", a), ("groupingDigest", b), ("metricRunId", c)] = some b ∧
    List.lookup "metricRunId"
      [("metricName", a), ("groupingDigest", b), ("metricRunId", c)] = some c := by
    intro a b c
    exact ⟨rfl, rfl, rfl⟩
  simp only [hlookup, hdigest, Bool.and_true]
  rfl

/-- The rows of a report are told apart by their keys, and ordered. -/
theorem matchingRuns_pairwise :
    (matchingRuns textLe table q).Pairwise fun a b => a.key < b.key := by
  have hperm : (matchingRuns textLe table q).Perm
      (table.rows.filter (matchesQuery textLe table q)) := KeyedSort.perm_sortOn _ _
  have hids : ((matchingRuns textLe table q).map MetricRunRow.metricRunId).Nodup :=
    (hperm.map _).nodup_iff.mpr ((List.filter_sublist.map _).nodup table.primaryKey)
  refine (KeyedSort.pairwise_sortOn MetricRunRow.key _).imp₂ ?_ (List.pairwise_map.mp hids)
  intro a b hle hne
  refine lt_of_le_of_ne hle fun heq => hne ?_
  simp only [MetricRunRow.key, MetricCursor.key, List.cons.injEq, and_true] at heq
  exact byteKey_injective heq.2.2

/-- The rows of a report are rows of the table. -/
theorem mem_rows_of_matching (h : r ∈ matchingRuns textLe table q) : r ∈ table.rows :=
  List.mem_of_mem_filter ((KeyedSort.perm_sortOn _ _).mem_iff.mp h)

variable (F textLe table q) in
/-- A page of the report is a page of the runs behind its cursor. -/
theorem metricReport_eq (after : Option MetricCursor) :
    ((metricReport F textLe table { q with after := after }).data,
      (metricReport F textLe table { q with after := after }).nextCursor) =
    answer (fun r => encodeMetricCursor F r.cursor) (page q.limit
      ((matchingRuns textLe table q).filter fun r => after.all fun c => c.key < r.key)) := by
  have hfound : KeyedSort.sortOn MetricRunRow.key (table.rows.filter fun r =>
      matchesQuery textLe table q r && after.all fun c => c.key < r.key) =
      (matchingRuns textLe table q).filter fun r => after.all fun c => c.key < r.key := by
    rw [matchingRuns, KeyedSort.filter_sortOn, List.filter_filter]
    simp only [Bool.and_comm]
  have hmatch : matchesQuery textLe table { q with after := after } =
      matchesQuery textLe table q := rfl
  simp only [metricReport, hmatch, hfound, answer, page]
  split <;> rfl

/-- The report of an accepted query without a cursor. -/
structure ReportRequest (F : ReportFunctions) (config : ReportConfig) (params : SearchParams)
    (q : ReportQuery) : Prop where
  parsed : ∃ format exports, parseMetricQuery F config params = .ok ⟨q, format, exports⟩
  noCursor : getAll params "after" = []

/-- The first page. -/
theorem ReportRequest.first (h : ReportRequest F config params q) :
    requestPage F textLe table config params none =
      some (answer (fun r => encodeMetricCursor F r.cursor)
        (page q.limit (matchingRuns textLe table q))) := by
  obtain ⟨format, exports, hparsed⟩ := h.parsed
  have hnone : q.after = none := (parseMetricQuery_after "" hparsed h.noCursor).1
  have hq : q = { q with after := none } := by rw [← hnone]
  have hpage := metricReport_eq F textLe table q none
  rw [requestPage, Option.map_none, Option.toList_none, List.append_nil, hparsed]
  dsimp only
  rw [hq, hpage, ← hq]
  simp only [Option.all_none, List.filter_true]

/-- The page behind a cursor is asked for where the cursor parses. -/
theorem ReportRequest.behind (h : ReportRequest F config params q) (text : String) :
    requestPage F textLe table config params (some text) =
      match parseCursor F text with
      | .ok cursor => some (answer (fun r => encodeMetricCursor F r.cursor) (page q.limit
          ((matchingRuns textLe table q).filter fun r => cursor.key < r.key)))
      | .error _ => none := by
  obtain ⟨format, exports, hparsed⟩ := h.parsed
  rw [requestPage, Option.map_some, Option.toList_some,
    (parseMetricQuery_after text hparsed h.noCursor).2]
  cases parseCursor F text with
  | error e => rfl
  | ok cursor =>
      have hpage := metricReport_eq F textLe table q (some cursor)
      simp only [Except.map, hpage, Option.all_some]

/-- The pages of a report follow its runs. -/
theorem ReportRequest.follows (h : ReportRequest F config params q)
    (hjson : ∀ r ∈ table.rows, F.cursorJson (F.cursorText r.cursor) = some r.cursor.json) :
    Follows q.limit MetricRunRow.key (fun r => encodeMetricCursor F r.cursor) CursorReads
      (requestPage F textLe table config params) (matchingRuns textLe table q) where
  ordered := matchingRuns_pairwise
  accepted r hr hreads := by
    rw [h.behind, parseCursor_cursor (hjson r (mem_rows_of_matching hr)), hreads.1, hreads.2,
      Bool.and_self, if_pos rfl]
    refine congrArg (fun rows => some (answer _ (page q.limit rows))) ?_
    exact List.filter_congr fun _ _ => decide_eq_decide.mpr Iff.rfl
  refused r hr hreads := by
    rw [h.behind, parseCursor_cursor (hjson r (mem_rows_of_matching hr)), if_neg]
    rw [Bool.and_eq_true]
    exact hreads

/-- A report can be read to its end, each run once and in order, and its cursors
read back, exactly if the cursor pattern accepts the run at the end of every page
but the last. -/
theorem report_pages_iff (h : ReportRequest F config params q)
    (hjson : ∀ r ∈ table.rows, F.cursorJson (F.cursorText r.cursor) = some r.cursor.json) :
    ((∃ pages, Traversal (requestPage F textLe table config params) none pages ∧
        pages.flatten = matchingRuns textLe table q) ∧
      ∀ r, IsBoundary q.limit (matchingRuns textLe table q) r →
        parseCursor F (encodeMetricCursor F r.cursor) = .ok r.cursor) ↔
    ∀ r, IsBoundary q.limit (matchingRuns textLe table q) r →
      isMetricName r.metricName = true ∧ isKeyId r.metricRunId = true := by
  obtain ⟨format, exports, hparsed⟩ := h.parsed
  have hfollows : Follows q.limit MetricRunRow.key (fun r => encodeMetricCursor F r.cursor)
      CursorReads (requestPage F textLe table config params) (matchingRuns textLe table q) :=
    h.follows hjson
  have htraversal := hfollows.traversal_iff (limit_pos hparsed) h.first
  constructor
  · rintro ⟨hpages, -⟩
    exact htraversal.mp hpages
  · intro hreads
    refine ⟨htraversal.mpr hreads, fun r hr => ?_⟩
    obtain ⟨hname, hid⟩ := hreads r hr
    obtain ⟨i, -, -, hi⟩ := hr
    have hmem := mem_rows_of_matching (List.mem_of_getElem? hi)
    rw [parseCursor_cursor (hjson r hmem), hname, hid]
    rfl

end Pages

section Samples

/-- A run of the manual date job, of an installation country. -/
def sampleRun (metricName country digest configDigest : String) (h : isSignature digest) :
    MetricRunRow where
  metricRunId := "manual:2026-07-01:" ++ configDigest ++ ":" ++ metricName
  tenantId := "tenant-demo"
  appId := "app-demo"
  metricName := metricName
  metricDefinitionVersion := "1"
  grouping := fun
    | .country => some country
    | .cohortDate => some "2026-07-01"
    | _ => none
  groupingDigest := digest
  groupingDigest_hex := h
  inputReceivedAtWatermark := "2026-07-02T00:00:00.000Z"
  supersedesMetricRunId := none
  artifact := .null

def runUs (metricName : String) : MetricRunRow :=
  sampleRun metricName "US" "0de24d0ff0e36ff1482b9d8b546aa41711052329ab49f0c0ffc280eace03d269"
    "9b21e07c55d84fa0613e7c92" (by decide +kernel)

def runJp (metricName : String) : MetricRunRow :=
  sampleRun metricName "JP" "b90f9dc19eec5f364d451fd112c4b10d908994795cccf1a59d5f34fa7b3509bf"
    "4f0c9a1d27b35e68c1a2d3f4" (by decide +kernel)

/-- A name of 86 characters, as the contract allows. -/
def longMetricName : String :=
  "cohort_revenue_of_installs_from_paid_social_campaigns_excluding_reengaged_test_devices"

def retentionRuns : MetricRunTable where
  rows := [runJp "d1_retention", runUs "d1_retention"]
  primaryKey := by decide +kernel

def longNamedRuns : MetricRunTable where
  rows := [runJp longMetricName, runUs longMetricName]
  primaryKey := by decide +kernel

/-- The texts of the cursors. -/
def sampleCursors : List (MetricCursor × String) := [
  ((runUs "d1_retention").cursor,
    "eyJtZXRyaWNOYW1lIjoiZDFfcmV0ZW50aW9uIiwiZ3JvdXBpbmdEaWdlc3QiOiIwZGUyNGQwZmYwZT" ++
      "M2ZmYxNDgyYjlkOGI1NDZhYTQxNzExMDUyMzI5YWI0OWYwYzBmZmMyODBlYWNlMDNkMjY5IiwibWV0cmljUnVu" ++
      "SWQiOiJtYW51YWw6MjAyNi0wNy0wMTo5YjIxZTA3YzU1ZDg0ZmEwNjEzZTdjOTI6ZDFfcmV0ZW50aW9uIn0"),
  ((runJp "d1_retention").cursor,
    "eyJtZXRyaWNOYW1lIjoiZDFfcmV0ZW50aW9uIiwiZ3JvdXBpbmdEaWdlc3QiOiJiOTBmOWRjMTllZW" ++
      "M1ZjM2NGQ0NTFmZDExMmM0YjEwZDkwODk5NDc5NWNjY2YxYTU5ZDVmMzRmYTdiMzUwOWJmIiwibWV0cmljUnVu" ++
      "SWQiOiJtYW51YWw6MjAyNi0wNy0wMTo0ZjBjOWExZDI3YjM1ZTY4YzFhMmQzZjQ6ZDFfcmV0ZW50aW9uIn0"),
  ((runUs longMetricName).cursor,
    "eyJtZXRyaWNOYW1lIjoiY29ob3J0X3JldmVudWVfb2ZfaW5zdGFsbHNfZnJvbV9wYWlkX3NvY2lhbF" ++
      "9jYW1wYWlnbnNfZXhjbHVkaW5nX3JlZW5nYWdlZF90ZXN0X2RldmljZXMiLCJncm91cGluZ0RpZ2VzdCI6IjBk" ++
      "ZTI0ZDBmZjBlMzZmZjE0ODJiOWQ4YjU0NmFhNDE3MTEwNTIzMjlhYjQ5ZjBjMGZmYzI4MGVhY2UwM2QyNjkiLC" ++
      "JtZXRyaWNSdW5JZCI6Im1hbnVhbDoyMDI2LTA3LTAxOjliMjFlMDdjNTVkODRmYTA2MTNlN2M5Mjpjb2hvcnRf" ++
      "cmV2ZW51ZV9vZl9pbnN0YWxsc19mcm9tX3BhaWRfc29jaWFsX2NhbXBhaWduc19leGNsdWRpbmdfcmVlbmdhZ2" ++
      "VkX3Rlc3RfZGV2aWNlcyJ9")]

def sampleFunctions : ReportFunctions where
  safeInteger s := if s = "1" then some 1 else none
  cursorText c := (sampleCursors.lookup c).getD ""
  cursorJson s := (sampleCursors.find? fun p => p.2 = s).map fun p => p.1.json

def sampleReportConfig : ReportConfig where
  tenantId := "tenant-demo"
  appId := "app-demo"

def sampleQuery : ReportQuery where
  tenantId := "tenant-demo"
  appId := "app-demo"
  metricNames := []
  metricDefinitionVersion := none
  grouping := []
  dateFrom := none
  dateTo := none
  watermarkAtMost := none
  differenceReasonCode := none
  latest := true
  limit := 1
  after := none

def samplePage : MetricRunTable → Option String → Option (List MetricRunRow × Option String) :=
  fun table => requestPage sampleFunctions (fun a b => codeUnits a ≤ codeUnits b) table
    sampleReportConfig [("limit", "1")]

/-- Two runs of a metric with a long name, one on a page: the cursor of the
first page is refused, and the second run is never shown.  The ids of runs may
be longer than what a cursor may hold. -/
theorem long_run_id_stops_paging :
    parseMetricQuery sampleFunctions sampleReportConfig [("limit", "1")] =
      .ok ⟨sampleQuery, "json", false⟩ ∧
    (∃ text, (samplePage longNamedRuns none).bind Prod.snd = some text ∧
      samplePage longNamedRuns (some text) = none) ∧
    ¬ ∃ pages, Traversal (samplePage longNamedRuns) none pages := by
  have hcursor : (samplePage longNamedRuns none).bind Prod.snd =
      some (encodeMetricCursor sampleFunctions (runUs longMetricName).cursor) := by decide +kernel
  have hrefused : samplePage longNamedRuns
      (some (encodeMetricCursor sampleFunctions (runUs longMetricName).cursor)) = none := by
    have hnone : (samplePage longNamedRuns (some (encodeMetricCursor sampleFunctions
        (runUs longMetricName).cursor))).isNone = true := by decide +kernel
    exact Option.isNone_iff_eq_none.mp hnone
  refine ⟨by decide +kernel, ⟨_, hcursor, hrefused⟩, ?_⟩
  rintro ⟨pages, htraversal⟩
  cases htraversal with
  | last hlast =>
      rw [hlast] at hcursor
      cases hcursor
  | next hnext hrest =>
      rw [hnext] at hcursor
      cases hcursor
      exact hrest.answered hrefused

/-- Two runs with shorter ids are both shown. -/
theorem short_run_ids_are_paged :
    ∃ pages, Traversal (samplePage retentionRuns) none pages ∧
      pages.flatten = matchingRuns (fun a b => codeUnits a ≤ codeUnits b) retentionRuns
        sampleQuery := by
  have hrequest : ReportRequest sampleFunctions sampleReportConfig [("limit", "1")] sampleQuery :=
    ⟨⟨"json", false, by decide +kernel⟩, by decide +kernel⟩
  have hjson : ∀ r ∈ retentionRuns.rows,
      sampleFunctions.cursorJson (sampleFunctions.cursorText r.cursor) = some r.cursor.json := by
    intro r hr
    have hfind : (sampleCursors.find? fun p => p.2 = sampleFunctions.cursorText r.cursor).map
        Prod.fst = some r.cursor := by
      simp only [retentionRuns, List.mem_cons, List.not_mem_nil, or_false] at hr
      rcases hr with rfl | rfl <;> decide +kernel
    obtain ⟨p, hp, hcursor⟩ := Option.map_eq_some_iff.mp hfind
    exact Option.map_eq_some_iff.mpr ⟨p, hp, by rw [hcursor]⟩
  have hreads : ∀ r ∈ retentionRuns.rows,
      isMetricName r.metricName = true ∧ isKeyId r.metricRunId = true := by
    intro r hr
    simp only [retentionRuns, List.mem_cons, List.not_mem_nil, or_false] at hr
    rcases hr with rfl | rfl <;> decide +kernel
  refine ((report_pages_iff hrequest hjson).mpr ?_).1
  rintro r ⟨i, -, -, hi⟩
  exact hreads r (mem_rows_of_matching (List.mem_of_getElem? hi))

end Samples

end OpenMasu
