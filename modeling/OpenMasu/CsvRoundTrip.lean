import OpenMasu.DecimalMoney
import OpenMasu.JoinedText

/-!
# Reports as CSV

The reporting writes rows as CSV, and the importer reads CSV with a scanner of
its own.  The scanner reads back the cells of every row that has a text in some
cell; rows of empty cells only it takes for blank lines.

* `csvCell`, `encodeCsv` — the writer;
* `csvScan`, `csvCells`, `parseCsv` — the reader;
* `csvScan_cell`, `csvScan_line`, `csvScan_lines` — what the reader makes of what
  was written;
* `parseCsv_encodeCsv` — the round trip.
-/

namespace OpenMasu

section Writing

/-- A character that makes `csvCell` quote a text. -/
def isCsvSpecial (c : Char) : Bool := c = '"' || c = ',' || c = '\r' || c = '\n'

/-- `text.replaceAll('"', '""')` -/
def doubledQuotes : List Char → List Char
  | [] => []
  | c :: rest => if c = '"' then '"' :: '"' :: doubledQuotes rest else c :: doubledQuotes rest

/-- The text of a cell; none for a missing value or null. -/
def csvText (rendered : Json → List Char) : Option Json → List Char
  | none => []
  | some .null => []
  | some v => rendered v

/-- `csvCell`, of a text. -/
def csvCell (text : List Char) : List Char :=
  if text.any isCsvSpecial then '"' :: (doubledQuotes text ++ ['"']) else text

/-- The texts of a row. -/
def csvTexts (rendered : Json → List Char) (columns : List String) (row : String → Option Json) :
    List (List Char) :=
  columns.map fun column => csvText rendered (row column)

/-- `encodeCsv`; a row is given by what its columns hold. -/
def encodeCsv (rendered : Json → List Char) (rows : List (String → Option Json))
    (columns : List String) : List Char :=
  JoinedText.join '\n' (JoinedText.join ',' (columns.map String.toList) ::
    rows.map fun row => JoinedText.join ',' ((csvTexts rendered columns row).map csvCell)) ++ ['\n']

end Writing

section Reading

/-- What the scanner has read. -/
structure CsvReader where
  rows : List (List (List Char))
  row : List (List Char)
  cell : List Char
  quoted : Bool

/-- A row in which some cell has a text. -/
def hasText (row : List (List Char)) : Bool := row.any fun cell => cell ≠ []

def CsvReader.endCell (r : CsvReader) : CsvReader := { r with row := r.row ++ [r.cell], cell := [] }

def CsvReader.endRow (r : CsvReader) : CsvReader where
  rows := r.rows ++ [r.row ++ [r.cell]].filter hasText
  row := []
  cell := []
  quoted := r.quoted

/-- The loop of `csvCells`. -/
def csvScan (r : CsvReader) : List Char → CsvReader
  | [] => r
  | c :: rest =>
      if c = '"' then
        if r.quoted then
          match rest with
          | '"' :: rest' => csvScan { r with cell := r.cell ++ ['"'] } rest'
          | [] => { r with quoted := false }
          | d :: rest' => csvScan { r with quoted := false } (d :: rest')
        else csvScan { r with quoted := true } rest
      else if c = ',' ∧ r.quoted = false then csvScan r.endCell rest
      else if c = '\r' ∧ r.quoted = false then
        match rest with
        | '\n' :: rest' => csvScan r.endRow rest'
        | [] => r.endRow
        | d :: rest' => csvScan r.endRow (d :: rest')
      else if c = '\n' ∧ r.quoted = false then csvScan r.endRow rest
      else csvScan { r with cell := r.cell ++ [c] } rest

/-- `csvCells` -/
def csvCells (source : List Char) : Except String (List (List (List Char))) :=
  let r := csvScan ⟨[], [], [], false⟩ source
  if r.quoted then .error "CSV contains an unterminated quoted field"
  else .ok r.endRow.rows

/-- The objects that `parseCsv` makes of the rows; the first row has the names. -/
def csvObjects : List (List (List Char)) → Except String (List (List (String × String)))
  | [] => .ok []
  | header :: rows =>
      let names := header.map fun name => String.ofList (NumberText.trimmed name)
      if names.Nodup then
        .ok (rows.map fun values =>
          names.zipIdx.map fun name => (name.1, String.ofList (values.getD name.2 [])))
      else .error "CSV header names must be unique"

/-- `parseCsv` -/
def parseCsv (source : List Char) : Except String (List (List (String × String))) := do
  csvObjects (← csvCells source)

end Reading

section Scanning

variable {r : CsvReader} {c : Char} {rest : List Char}

/-- What the scanner does with one more character. -/
theorem csvScan_cons : csvScan r (c :: rest) =
    if c = '"' then
      if r.quoted then
        if rest.head? = some '"' then csvScan { r with cell := r.cell ++ ['"'] } rest.tail
        else csvScan { r with quoted := false } rest
      else csvScan { r with quoted := true } rest
    else if c = ',' ∧ r.quoted = false then csvScan r.endCell rest
    else if c = '\r' ∧ r.quoted = false then
      csvScan r.endRow (if rest.head? = some '\n' then rest.tail else rest)
    else if c = '\n' ∧ r.quoted = false then csvScan r.endRow rest
    else csvScan { r with cell := r.cell ++ [c] } rest := by
  cases rest with
  | nil => simp [csvScan]
  | cons d rest' =>
      by_cases hquote : d = '"'
      · simp [csvScan, hquote]
      · by_cases hline : d = '\n'
        · simp [csvScan, hline]
        · simp [csvScan, hquote, hline]

/-- A plain character goes into the cell, quoted or not. -/
theorem csvScan_plain (hc : isCsvSpecial c = false) :
    csvScan r (c :: rest) = csvScan { r with cell := r.cell ++ [c] } rest := by
  simp only [isCsvSpecial, Bool.or_eq_false_iff, decide_eq_false_iff_not] at hc
  obtain ⟨⟨⟨hquote, hcomma⟩, hreturn⟩, hline⟩ := hc
  rw [csvScan_cons, if_neg hquote, if_neg (fun h => hcomma h.1), if_neg (fun h => hreturn h.1),
    if_neg (fun h => hline h.1)]

/-- A text without special characters is read as it is. -/
theorem csvScan_text {text : List Char} (r : CsvReader) (rest : List Char)
    (htext : text.any isCsvSpecial = false) :
    csvScan r (text ++ rest) = csvScan { r with cell := r.cell ++ text } rest := by
  induction text generalizing r with
  | nil => simp
  | cons c text ih =>
      rw [List.any_cons, Bool.or_eq_false_iff] at htext
      rw [List.cons_append, csvScan_plain htext.1, ih _ htext.2]
      simp

/-- A quotation mark opens a quoted part. -/
theorem csvScan_open (hr : r.quoted = false) :
    csvScan r ('"' :: rest) = csvScan { r with quoted := true } rest := by
  rw [csvScan_cons, if_pos rfl, hr]
  rfl

/-- Inside it a doubled mark is one mark of the cell. -/
theorem csvScan_doubled (hr : r.quoted = true) :
    csvScan r ('"' :: '"' :: rest) = csvScan { r with cell := r.cell ++ ['"'] } rest := by
  rw [csvScan_cons, if_pos rfl, if_pos hr, if_pos List.head?_cons, List.tail_cons]

/-- A quote that no quote follows ends the quoted part. -/
theorem csvScan_close (hr : r.quoted = true) (hrest : rest.head? ≠ some '"') :
    csvScan r ('"' :: rest) = csvScan { r with quoted := false } rest := by
  rw [csvScan_cons, if_pos rfl, if_pos hr, if_neg hrest]

/-- Inside it every other character goes into the cell. -/
theorem csvScan_inside (hr : r.quoted = true) (hc : c ≠ '"') :
    csvScan r (c :: rest) = csvScan { r with cell := r.cell ++ [c] } rest := by
  have hquoted : ¬r.quoted = false := by simp [hr]
  rw [csvScan_cons, if_neg hc, if_neg (fun h => hquoted h.2), if_neg (fun h => hquoted h.2),
    if_neg (fun h => hquoted h.2)]

/-- A quoted text, with its quotes doubled, up to the closing quote. -/
theorem csvScan_quoted (text : List Char) (r : CsvReader)
    (hr : r.quoted = true) (hrest : rest.head? ≠ some '"') :
    csvScan r (doubledQuotes text ++ '"' :: rest) =
      csvScan { r with cell := r.cell ++ text, quoted := false } rest := by
  induction text generalizing r with
  | nil =>
      rw [doubledQuotes, List.nil_append, csvScan_close hr hrest, List.append_nil]
  | cons c text ih =>
      rw [doubledQuotes]
      by_cases hc : c = '"'
      · rw [if_pos hc, List.cons_append, List.cons_append, csvScan_doubled hr,
          ih { r with cell := r.cell ++ ['"'] } hr, hc]
        simp
      · rw [if_neg hc, List.cons_append, csvScan_inside hr hc,
          ih { r with cell := r.cell ++ [c] } hr]
        simp

/-- A cell that was written is read back. -/
theorem csvScan_cell (text : List Char)
    (hr : r.quoted = false) (hcell : r.cell = []) (hrest : rest.head? ≠ some '"') :
    csvScan r (csvCell text ++ rest) = csvScan { r with cell := text } rest := by
  rw [csvCell]
  split
  · rw [List.cons_append, List.append_assoc, csvScan_open hr]
    have hinside := csvScan_quoted text { r with quoted := true } rfl hrest
    rw [List.cons_append, List.nil_append, hinside, hcell, ← hr]
    rfl
  · case isFalse hplain =>
      rw [csvScan_text r rest (Bool.eq_false_iff.mpr hplain), hcell]
      rfl

/-- Outside it a comma ends the cell. -/
theorem csvScan_comma (hr : r.quoted = false) :
    csvScan r (',' :: rest) = csvScan r.endCell rest := by
  rw [csvScan_cons, if_neg (by decide), if_pos ⟨rfl, hr⟩]

/-- Outside it a line end ends the row. -/
theorem csvScan_newline (hr : r.quoted = false) :
    csvScan r ('\n' :: rest) = csvScan r.endRow rest := by
  rw [csvScan_cons, if_neg (by decide), if_neg (fun h => absurd h.1 (by decide)),
    if_neg (fun h => absurd h.1 (by decide)), if_pos ⟨rfl, hr⟩]

/-- The row that a line of cells makes: a line without cells is one empty
cell. -/
def lineRow (texts : List (List Char)) : List (List Char) := if texts = [] then [[]] else texts

/-- A line that was written is read back, behind the cells read before. -/
theorem csvScan_line (texts : List (List Char)) (rest : List Char) (hr : r.quoted = false)
    (hcell : r.cell = []) :
    csvScan r (JoinedText.join ',' (texts.map csvCell) ++ '\n' :: rest) =
      csvScan { r with rows := r.rows ++ [r.row ++ lineRow texts].filter hasText, row := [] }
        rest := by
  induction texts generalizing r with
  | nil =>
      rw [List.map_nil, JoinedText.join, List.nil_append, csvScan_newline hr, CsvReader.endRow,
        hcell, hr]
      rfl
  | cons text texts ih =>
      cases texts with
      | nil =>
          rw [List.map_cons, List.map_nil, JoinedText.join,
            csvScan_cell text hr hcell (by simp), csvScan_newline (r := { r with cell := text }) hr]
          simp [CsvReader.endRow, lineRow, hcell]
      | cons next more =>
          have hjoin : JoinedText.join ',' ((text :: next :: more).map csvCell) ++ '\n' :: rest =
              csvCell text ++ ',' :: (JoinedText.join ',' ((next :: more).map csvCell) ++
                '\n' :: rest) := by
            simp [JoinedText.join]
          rw [hjoin, csvScan_cell text hr hcell (by simp),
            csvScan_comma (r := { r with cell := text }) hr,
            ih (r := CsvReader.endCell { r with cell := text }) hr rfl]
          simp [CsvReader.endCell, lineRow, hcell]

/-- All lines that were written are read back; those without a text are passed
over. -/
theorem csvScan_lines (lines : List (List (List Char))) (hr : r.quoted = false)
    (hcell : r.cell = []) (hrow : r.row = []) :
    csvScan r ((lines.map fun texts => JoinedText.join ',' (texts.map csvCell) ++ ['\n']).flatten) =
      { r with rows := r.rows ++ (lines.map lineRow).filter hasText } := by
  induction lines generalizing r with
  | nil => simp [csvScan]
  | cons texts lines ih =>
      rw [List.map_cons, List.flatten_cons, List.append_assoc, List.singleton_append,
        csvScan_line texts _ hr hcell, hrow,
        ih (r := { r with rows := r.rows ++ [[] ++ lineRow texts].filter hasText, row := [] }) hr
          hcell rfl]
      simp [List.filter_cons]
      split <;> simp

end Scanning

section RoundTrip

/-- Lines are what a text of lines consists of. -/
theorem join_newline (lines : List (List Char)) (hlines : lines ≠ []) :
    JoinedText.join '\n' lines ++ ['\n'] = (lines.map fun line => line ++ ['\n']).flatten := by
  induction lines with
  | nil => exact absurd rfl hlines
  | cons line lines ih =>
      cases lines with
      | nil => simp [JoinedText.join]
      | cons next more =>
          rw [List.map_cons, List.flatten_cons, ← ih (List.cons_ne_nil _ _)]
          simp [JoinedText.join]

/-- What `csvCells` makes of lines that were written. -/
theorem csvCells_lines (lines : List (List (List Char))) :
    csvCells ((lines.map fun texts => JoinedText.join ',' (texts.map csvCell) ++ ['\n']).flatten) =
      .ok ((lines.map lineRow).filter hasText) := by
  rw [csvCells, csvScan_lines lines rfl rfl rfl]
  simp [CsvReader.endRow, hasText]

/-- A column name that `encodeCsv` can write and `parseCsv` keep. -/
def PlainName (name : String) : Prop :=
  name ≠ "" ∧ NumberText.trimmed name.toList = name.toList ∧
    name.toList.any isCsvSpecial = false

/-- `encodeCsv` writes the header as it writes a row. -/
theorem encodeCsv_eq (rendered : Json → List Char) (rows : List (String → Option Json))
    {columns : List String} (hcolumns : ∀ column ∈ columns, PlainName column) :
    encodeCsv rendered rows columns =
      ((columns.map String.toList :: rows.map (csvTexts rendered columns)).map fun texts =>
        JoinedText.join ',' (texts.map csvCell) ++ ['\n']).flatten := by
  have hheader : (columns.map String.toList).map csvCell = columns.map String.toList := by
    rw [List.map_map]
    refine List.map_congr_left fun column hcolumn => ?_
    rw [Function.comp_apply, csvCell, (hcolumns column hcolumn).2.2]
    rfl
  rw [encodeCsv, join_newline _ (List.cons_ne_nil _ _), List.map_cons, List.map_cons, hheader,
    List.map_map, List.map_map]
  rfl

/-- The row object that `parseCsv` makes of a row that was written. -/
def csvObject (rendered : Json → List Char) (columns : List String) (row : String → Option Json) :
    List (String × String) :=
  columns.map fun column => (column, String.ofList (csvText rendered (row column)))

/-- Cells taken by the places of their columns are the cells of the row. -/
theorem zipIdx_csvTexts (rendered : Json → List Char) (columns : List String)
    (row : String → Option Json) :
    (columns.zipIdx.map fun name =>
      (name.1, String.ofList ((csvTexts rendered columns row).getD name.2 []))) =
        csvObject rendered columns row := by
  apply List.ext_getElem
  · simp [csvObject]
  · intro i hi hi'
    have hbound : i < columns.length := by simpa using hi
    simp [csvObject, csvTexts, List.getD, hbound]

/-- For all rows and all distinct, trimmed, non-empty column names without
comma, quote, CR and LF: reading what was written yields, in order, one object
for each row that has a text in some cell, and each column's value is the text
of the cell. -/
theorem parseCsv_encodeCsv (rendered : Json → List Char) (rows : List (String → Option Json))
    (columns : List String) (hnodup : columns.Nodup)
    (hcolumns : ∀ column ∈ columns, PlainName column) :
    parseCsv (encodeCsv rendered rows columns) =
      .ok ((rows.filter fun row => hasText (csvTexts rendered columns row)).map
        (csvObject rendered columns)) := by
  have hnames : ((columns.map String.toList).map fun name =>
      String.ofList (NumberText.trimmed name)) = columns := by
    rw [List.map_map]
    refine (List.map_congr_left fun column hcolumn => ?_).trans (List.map_id columns)
    rw [Function.comp_apply, (hcolumns column hcolumn).2.1, String.ofList_toList, id]
  have hread : parseCsv (encodeCsv rendered rows columns) = csvObjects
      (((columns.map String.toList :: rows.map (csvTexts rendered columns)).map lineRow).filter
        hasText) := by
    rw [parseCsv, encodeCsv_eq rendered rows hcolumns, csvCells_lines]
    rfl
  rw [hread]
  by_cases hempty : columns = []
  · -- no column: every line is blank
    rw [hempty]
    simp [lineRow, csvTexts, hasText, csvObjects, Function.comp_def]
  · have hline : ∀ row, lineRow (csvTexts rendered columns row) = csvTexts rendered columns row := by
      intro row
      rw [lineRow, if_neg (by simpa [csvTexts] using hempty)]
    have hheader : hasText (columns.map String.toList) = true := by
      obtain ⟨column, hcolumn⟩ := List.exists_mem_of_ne_nil columns hempty
      refine List.any_eq_true.mpr ⟨column.toList, List.mem_map_of_mem hcolumn, ?_⟩
      simpa using (hcolumns column hcolumn).1
    have hlines : (rows.map (csvTexts rendered columns)).map lineRow =
        rows.map (csvTexts rendered columns) := by
      rw [List.map_map]
      exact List.map_congr_left fun row _ => hline row
    rw [List.map_cons, hlines, lineRow, if_neg (by simpa using hempty),
      List.filter_cons_of_pos hheader, csvObjects, hnames, if_pos hnodup, List.filter_map,
      List.map_map]
    congr 1
    exact List.map_congr_left fun row _ => zipIdx_csvTexts rendered columns row

/-- A report on a column `cost`, with a missing value and a text. -/
theorem parseCsv_encodeCsv_cost :
    parseCsv (encodeCsv (fun _ => "1,5".toList)
      [fun _ => none, fun _ => some (.str "1,5")] ["cost"]) = .ok [[("cost", "1,5")]] := by
  have hplain : PlainName "cost" := by
    refine ⟨?_, ?_, ?_⟩ <;> decide
  exact (parseCsv_encodeCsv (fun _ => "1,5".toList) [fun _ => none, fun _ => some (.str "1,5")]
    ["cost"] (by decide) (by simpa using hplain)).trans (by decide)

/-- A row of empty cells is no object, since a blank line is none, and the name
`a,b` is read as two names, since names are not quoted. -/
theorem blank_row_and_comma_name :
    parseCsv (encodeCsv (fun _ => ['x']) [fun _ => none] ["cost"]) ≠
        .ok [csvObject (fun _ => ['x']) ["cost"] fun _ => none] ∧
      parseCsv (encodeCsv (fun _ => ['x']) [fun _ => some (.str "x")] ["a,b"]) ≠
        .ok [csvObject (fun _ => ['x']) ["a,b"] fun _ => some (.str "x")] := by
  constructor <;> decide +kernel

end RoundTrip

end OpenMasu
