import ApiServer.Dbapi.Failure
import ApiServer.Lib.JsonNumber
import Mathlib.Data.List.Forall2

/-!
# A result set and its document

When the columns can be bound and every fetch succeeds, `db_fetch_rs2json` appends a JSON array
that has the rows of the result set as its objects: one member for each column, with the name of
the column as its key and the cell as its value.
-/

namespace ApiServer
open Bytes Json StateRules

/-! ## What the document says -/

/-- The rows in front of `SQL_NO_DATA`. -/
def fetchedRows (rows : List RowAnswer) :
    List RowAnswer := rows.takeWhile (·.fetch.ret != sqlNoData)

/-- The bytes in the buffer of a character column that the indicator counts. -/
def cellBytes (col : ColumnDescriptor) (cell : Cell) : Bytes :=
  let buffer := (cell.text ++ List.replicate (col.allocSize - 1) 0).take (col.allocSize - 1)
  if cell.ind = sqlNoTotal then cstr buffer
  else buffer.take (min (toSize cell.ind) (col.allocSize - 1))

section
variable (fmt17g : Rat → Bytes)

def cellJson (col : ColumnDescriptor) (cell : Cell) : Json :=
  if cell.ind = sqlNullData then .null
  else
    match col.cType with
    | .bit => .bool (cell.bit ≠ 0)
    | .slong | .sbigint => .int cell.int
    | .double => (Json.parse (fastDtoa fmt17g cell.double 64)).getD .null
    | .char =>
      if col.sqlType = .decimal ∨ col.sqlType = .numeric then
        (Json.parse (cellBytes col cell)).getD .null
      else .string (cellBytes col cell)

def rowJson (a : ColumnsAnswer) (row : RowAnswer) : Json :=
  .object ((List.range a.numCols.toNat).map fun i =>
    let col := describeColumn (a.describe.getD i {})
    (col.name.text, cellJson fmt17g col (row.cells.getD i {})))

end

/-! ## What is asked of the driver -/

/-- The columns are described and bound, and the memory for them is there. -/
structure ColumnsAnswer.Bound (a : ColumnsAnswer) : Prop where
  numResultCols : sqlSucceeded a.numResultCols.ret = true
  pos : 0 < a.numCols
  smallint : a.numCols < 2 ^ 15
  describe : ∀ i < a.numCols.toNat, sqlSucceeded (a.describe.getD i {}).ret = true
  bindCol : ∀ i < a.numCols.toNat, sqlSucceeded (a.bindCol.getD i {}).ret = true
  calloc : 256 < a.numCols → a.callocOk = true
  malloc : 1024 * 1024 < arenaSize a.numCols.toNat 0 a.describe → a.mallocOk = true

/-- The name is all there, its key fits `precomputed_key`, and the column is not a double. -/
structure DescribeAnswer.Keyed (a : DescribeAnswer) : Prop where
  nameLen : a.nameLen = a.name.text.length
  key : (34 :: escape a.name.text ++ [34, 58]).length ≤ 255
  cType : (describeColumn a).cType ≠ .double

/-- The indicator is an `SQLLEN`, and the text of a decimal is a JSON number. -/
structure Cell.Numeral (col : ColumnDescriptor) (cell : Cell) : Prop where
  ind : FitsInt64 cell.ind
  decimal : col.sqlType = .decimal ∨ col.sqlType = .numeric → cell.ind ≠ sqlNullData →
    ∃ v, Json.number (cellBytes col cell) = some (v, [])

structure ResultSetAnswer.Delivered (a : ResultSetAnswer) : Prop where
  columns : a.columns.Bound
  keyed : ∀ i < a.columns.numCols.toNat, (a.columns.describe.getD i {}).Keyed
  fetch : ∀ row ∈ fetchedRows a.rows, sqlSucceeded row.fetch.ret = true
  cells : ∀ row ∈ fetchedRows a.rows, ∀ i < a.columns.numCols.toNat,
    Cell.Numeral (describeColumn (a.columns.describe.getD i {})) (row.cells.getD i {})

/-! ## Binding the columns -/

/-- The program reads its answers one by one, and a list that has run out goes on with `d`. -/
theorem forall_getD_succ {p : α → Prop} {l : List α} (h : ∀ i < n + 1, p (l.getD i d)) :
    p (l.headD d) ∧ ∀ i < n, p (l.tail.getD i d) := by
  cases l with
  | nil => exact ⟨h 0 (Nat.succ_pos n), fun i hi => h (i + 1) (Nat.succ_lt_succ hi)⟩
  | cons a l => exact ⟨h 0 (Nat.succ_pos n), fun i hi => h (i + 1) (Nat.succ_lt_succ hi)⟩

theorem callsFailure_eq_none {n : Nat} {answers : List Outcome}
    (h : ∀ i < n, sqlSucceeded (answers.getD i {}).ret = true) : callsFailure n answers = none := by
  induction n generalizing answers with
  | zero => rfl
  | succ n ih =>
    obtain ⟨hhead, htail⟩ := forall_getD_succ (p := fun a : Outcome => sqlSucceeded a.ret = true) h
    rw [callsFailure, Outcome.failure, if_pos hhead, ih htail]
    rfl

theorem describeFailure_eq_none {n : Nat} {answers : List DescribeAnswer}
    (h : ∀ i < n, sqlSucceeded (answers.getD i {}).ret = true) (total : Nat)
    (hroom : total + n * 65600 < 2 ^ 64) : describeFailure n total answers = none := by
  induction n generalizing total answers with
  | zero => rfl
  | succ n ih =>
    obtain ⟨-, hsize⟩ := allocSize_bounds (answers.headD {})
    obtain ⟨hhead, htail⟩ :=
      forall_getD_succ (p := fun a : DescribeAnswer => sqlSucceeded a.ret = true) h
    have hrest := ih htail (total + (describeColumn (answers.headD {})).allocSize) (by omega)
    rw [describeFailure, Outcome.failure, if_pos hhead, hrest]
    exact if_neg (by omega)

theorem le_arenaSize (n total : Nat) (answers : List DescribeAnswer) :
    total + n ≤ arenaSize n total answers := by
  induction n generalizing total answers with
  | zero => exact Nat.le_refl total
  | succ n ih =>
    obtain ⟨hsize, -⟩ := allocSize_bounds (answers.headD {})
    have := ih (total + (describeColumn (answers.headD {})).allocSize) answers.tail
    rw [arenaSize]
    omega

theorem ColumnsAnswer.Bound.columnsFailure (H : ColumnsAnswer.Bound a) :
    columnsFailure a = none := by
  have hpos := H.pos
  have hsmall := H.smallint
  have hdescribe := describeFailure_eq_none H.describe 0 (by omega)
  have hsize := le_arenaSize a.numCols.toNat 0 a.describe
  have halloc : allocFailure a.numCols.toNat a = none := by
    unfold allocFailure
    rw [if_neg (by rintro ⟨h, hc⟩; simp [H.calloc (by omega)] at hc), hdescribe]
    dsimp only [Option.none_or]
    rw [if_neg (by omega), if_neg (by rintro ⟨h, hc⟩; simp [H.malloc h] at hc)]
  unfold ApiServer.columnsFailure
  rw [if_neg (by omega), if_neg (by omega), halloc, callsFailure_eq_none H.bindCol,
    Outcome.failure, if_pos H.numResultCols]
  rfl

theorem describedColumns_ne_nil {a : ColumnsAnswer} (hpos : 0 < a.numCols) :
    describedColumns a.numCols.toNat a.describe ≠ [] := by
  intro h
  have := congrArg List.length h
  rw [length_describedColumns, List.length_nil] at this
  omega

/-! ## Cells -/

theorem charValue_eq (col : ColumnDescriptor) {cell : Cell} (h : FitsInt64 cell.ind)
    (hsize : col.allocSize ≤ 65600) : charValue col cell = cellBytes col cell := by
  obtain ⟨hlow, hhigh⟩ := h
  unfold charValue cellBytes toSize
  dsimp only
  generalize hbuffer : (cell.text ++ List.replicate (col.allocSize - 1) 0).take _ = buffer
  have hlength : buffer.length ≤ col.allocSize - 1 := hbuffer ▸ List.length_take_le ..
  split
  · rfl
  split
  · -- a negative indicator is a huge `size_t`
    exact (List.take_of_length_le (by omega)).symm
  · congr 1
    omega

section
variable (fmt17g : Rat → Bytes)

theorem valueText_cell {a : DescribeAnswer} {cell : Cell} (ha : a.Keyed)
    (hcell : Cell.Numeral (describeColumn a) cell) :
    ValueText 0 (if cell.ind = sqlNullData then bytes "null"
      else cellText fmt17g (describeColumn a) cell) (cellJson fmt17g (describeColumn a) cell) := by
  unfold cellText cellJson
  split
  · exact valueText_null
  next hnull =>
  have hcType := ha.cType
  rw [charValue_eq _ hcell.ind (allocSize_bounds a).2]
  cases h : (describeColumn a).cType with
  | bit => simpa using valueText_bool (cell.bit ≠ 0)
  | slong =>
    dsimp only
    rw [fastItoa_eq cell.int (by decide)]
    exact valueText_int cell.int
  | sbigint =>
    dsimp only
    rw [fastLtoa_eq cell.int (by decide)]
    exact valueText_int cell.int
  | double => exact absurd h hcType
  | char =>
    dsimp only
    split
    · next hdecimal =>
      obtain ⟨v, hv⟩ := hcell.decimal hdecimal hnull
      have htext := valueText_number hv
      have hne : cellBytes (describeColumn a) cell ≠ [] := by
        intro h
        rw [h] at hv
        cases hv
      rw [if_neg hne, parse_valueText htext (Nat.zero_le _)]
      exact htext
    · exact valueText_string (strContent_escape _)

theorem cellJson_eq_null {a : DescribeAnswer} {cell : Cell} (ha : a.Keyed)
    (hcell : Cell.Numeral (describeColumn a) cell) :
    cellJson fmt17g (describeColumn a) cell = .null ↔ cell.ind = sqlNullData := by
  refine ⟨fun h => ?_, fun h => if_pos h⟩
  by_contra hnull
  have hcType := ha.cType
  rw [cellJson, if_neg hnull] at h
  split at h
  · cases h
  · cases h
  · cases h
  · next hdouble => exact hcType hdouble
  · split at h
    · next hdecimal =>
      obtain ⟨v, hv⟩ := hcell.decimal hdecimal hnull
      rw [parse_valueText (valueText_number hv) (Nat.zero_le _)] at h
      cases h
      exact number_ne_null hv
    · cases h

/-! ## Rows -/

/-- The key of a column whose name is all there. -/
theorem columnKey_describeColumn {a : DescribeAnswer} (hlen : a.nameLen = a.name.text.length) :
    columnKey (describeColumn a) =
      (34 :: escape a.name.text ++ [34, 58]).take (if a.evbufferNew then 255 else
        (34 :: escape a.name.text ++ [34, 58]).length) := by
  have hname : nameBytes a.name a.nameLen = a.name.text := by
    simp [nameBytes, hlen]
  have hkey : evbufferAppendEscapedStr [] (nameBytes a.name a.nameLen) ++ bytes ":" =
      34 :: escape a.name.text ++ [34, 58] := by
    rw [hname, evbufferAppendEscapedStr_eq, List.nil_append, List.append_assoc]
    rfl
  change (if (if a.evbufferNew then _ else []) ≠ [] then (if a.evbufferNew then _ else [])
    else 34 :: escape (nameBytes a.name a.nameLen) ++ [34, 58]) = _
  rw [hkey, hname]
  cases a.evbufferNew with
  | true => rfl
  | false => exact List.take_length.symm

theorem columnKey_eq {a : DescribeAnswer} (ha : a.Keyed) :
    columnKey (describeColumn a) = 34 :: escape a.name.text ++ [34, 58] := by
  rw [columnKey_describeColumn ha.nameLen]
  refine List.take_of_length_le ?_
  split
  · exact ha.key
  · exact Nat.le_refl _

/-- The member of a row object. -/
def cellMember (col : ColumnDescriptor) (cell : Cell) : Json.Member where
  key := col.name.text
  keyText := escape col.name.text
  val := cellJson fmt17g col cell
  valText := if cell.ind = sqlNullData then bytes "null" else cellText fmt17g col cell

theorem cellMemberText_eq {a : DescribeAnswer} (ha : a.Keyed) (cell : Cell) :
    cellMemberText fmt17g (describeColumn a) cell =
      (cellMember fmt17g (describeColumn a) cell).text := by
  rw [cellMemberText, columnKey_eq ha, Member.text]
  simp [cellMember, describeColumn]

/-- The members of a row object, column by column. -/
def rowMembers (n : Nat) (answers : List DescribeAnswer) (cells : List Cell) : List Json.Member :=
  (List.range n).map fun i =>
    cellMember fmt17g (describeColumn (answers.getD i {})) (cells.getD i {})

/-- The members of a row, when each column writes the text of one. -/
theorem cellMembersText_eq {n : Nat} {answers : List DescribeAnswer} {cells : List Cell}
    {m : Nat → Json.Member}
    (h : ∀ i < n, cellMemberText fmt17g (describeColumn (answers.getD i {})) (cells.getD i {}) =
      (m i).text) :
    cellMembersText fmt17g (describedColumns n answers) cells = membersText ((List.range n).map m) := by
  induction n generalizing answers cells m with
  | zero => rfl
  | succ n ih =>
    have hhead : cellMemberText fmt17g (describeColumn (answers.headD {})) (cells.headD {}) =
        (m 0).text := by
      have h0 := h 0 (Nat.succ_pos n)
      cases answers <;> cases cells <;> exact h0
    have htail : ∀ i < n, cellMemberText fmt17g (describeColumn (answers.tail.getD i {}))
        (cells.tail.getD i {}) = (m (i + 1)).text := by
      intro i hi
      have hi := h (i + 1) (Nat.succ_lt_succ hi)
      cases answers <;> cases cells <;> exact hi
    rw [describedColumns, cellMembersText, hhead, ih htail, List.range_succ_eq_map, List.map_cons,
      List.map_map]
    cases n with
    | zero => simp [describedColumns, membersText]
    | succ n => simp [describedColumns, List.range_succ_eq_map, membersText, Function.comp_def]

theorem valueText_row {a : ColumnsAnswer} {row : RowAnswer} (hpos : 0 < a.numCols)
    (hkeyed : ∀ i < a.numCols.toNat, (a.describe.getD i {}).Keyed)
    (hcells : ∀ i < a.numCols.toNat,
      Cell.Numeral (describeColumn (a.describe.getD i {})) (row.cells.getD i {})) :
    ValueText 1 (rowText fmt17g (describedColumns a.numCols.toNat a.describe) row.cells)
      (rowJson fmt17g a row) := by
  have hne : rowMembers fmt17g a.numCols.toNat a.describe row.cells ≠ [] := by
    simp only [rowMembers, ne_eq, List.map_eq_nil_iff, List.range_eq_nil]
    omega
  have hsound : ∀ m ∈ rowMembers fmt17g a.numCols.toNat a.describe row.cells, m.Sound 0 := by
    intro m hm
    obtain ⟨i, hi, rfl⟩ := List.mem_map.mp hm
    have hi := List.mem_range.mp hi
    exact ⟨strContent_escape _, valueText_cell fmt17g (hkeyed i hi) (hcells i hi)⟩
  have htext := valueText_object hne hsound
  rw [objectText, rowMembers, List.map_map,
    ← cellMembersText_eq fmt17g fun i hi => cellMemberText_eq fmt17g (hkeyed i hi) _] at htext
  exact htext

theorem fetchedRows_cons (row : RowAnswer) (rows : List RowAnswer) :
    fetchedRows (row :: rows) =
      if row.fetch.ret = sqlNoData then [] else row :: fetchedRows rows := by
  simp [fetchedRows, List.takeWhile_cons]

theorem rowsFailure_eq_none {rows : List RowAnswer}
    (h : ∀ row ∈ fetchedRows rows, sqlSucceeded row.fetch.ret = true) : rowsFailure rows = none := by
  induction rows with
  | nil => rfl
  | cons row rows ih =>
    rw [fetchedRows_cons] at h
    rw [rowsFailure]
    split at h
    · exact if_pos ‹_›
    · obtain ⟨hrow, hrows⟩ := List.forall_mem_cons.mp h
      rw [if_neg ‹_›, Outcome.failure, if_pos hrow, ih hrows]
      rfl

/-- The rows with a comma between two of them. -/
theorem rowsText_eq (cols : List ColumnDescriptor) {rows : List RowAnswer}
    (h : ∀ row ∈ fetchedRows rows, sqlSucceeded row.fetch.ret = true) (firstRow : Bool) :
    rowsText fmt17g cols firstRow rows = (if firstRow ∨ fetchedRows rows = [] then [] else [44]) ++
      elementsText ((fetchedRows rows).map fun row => rowText fmt17g cols row.cells) := by
  induction rows generalizing firstRow with
  | nil => simp [rowsText, fetchedRows, elementsText]
  | cons row rows ih =>
    rw [fetchedRows_cons] at h ⊢
    rw [rowsText]
    split at h
    · next hdone =>
      rw [if_pos hdone, hdone, if_neg (by decide)]
      simp [elementsText]
    · next hdone =>
      obtain ⟨hrow, hrows⟩ := List.forall_mem_cons.mp h
      rw [if_pos hrow, if_neg hdone, ih hrows]
      cases fetchedRows rows <;> simp [elementsText]

/-! ## The document -/

/-- The text that is appended, wherever the staging buffer was flushed in between. -/
def documentText (a : ResultSetAnswer) : Bytes :=
  arrayText ((fetchedRows a.rows).map fun row =>
    rowText fmt17g (describedColumns a.columns.numCols.toNat a.columns.describe) row.cells)

theorem fetchedText_eq {a : ResultSetAnswer} (H : a.Delivered) :
    fetchedText fmt17g true (describedColumns a.columns.numCols.toNat a.columns.describe) a.rows =
      documentText fmt17g a := by
  rw [fetchedText, if_neg (fun h => describedColumns_ne_nil H.columns.pos h.2),
    rowsFailure_eq_none H.fetch, rowsText_eq fmt17g _ H.fetch]
  simp [documentText, arrayText, bytes]

theorem valueText_documentText {a : ResultSetAnswer} (H : a.Delivered) :
    ValueText 2 (documentText fmt17g a)
      (.array ((fetchedRows a.rows).map (rowJson fmt17g a.columns))) := by
  refine valueText_array (d := 1) ?_
  rw [List.forall₂_map_left_iff, List.forall₂_map_right_iff, List.forall₂_same]
  intro row hrow
  exact valueText_row fmt17g H.columns.pos H.keyed (H.cells row hrow)

theorem length_documentText (a : ResultSetAnswer) : 2 ≤ (documentText fmt17g a).length := by
  simp [documentText, arrayText]

end

/-- The bytes appended parse as the array of the rows fetched, and a member is `null` exactly where
the indicator is `SQL_NULL_DATA`. -/
theorem dbFetchRs2json_faithful (fmt17g : Rat → Bytes) (s : Db) (db : DbConnectionId)
    (hstmt : Handle) {a : ResultSetAnswer} (H : a.Delivered) :
    ∃ text, (dbFetchRs2json fmt17g a db hstmt s).1 = true ∧
      (dbFetchRs2json fmt17g a db hstmt s).2.outBuf = s.outBuf ++ text ∧
      Json.parse text = some (.array ((fetchedRows a.rows).map (rowJson fmt17g a.columns))) ∧
      ∀ row ∈ fetchedRows a.rows, ∀ i < a.columns.numCols.toNat,
        cellJson fmt17g (describeColumn (a.columns.describe.getD i {})) (row.cells.getD i {}) = .null ↔
          (row.cells.getD i {}).ind = sqlNullData := by
  have hpos := H.columns.pos
  have hw : Writes _ _ _ false _ _ :=
    fetchResultsetArray_writes fmt17g s db hstmt (.inl rfl) H.columns.columnsFailure
  rw [fetchedText_eq fmt17g H, rowsFailure_eq_none H.fetch, if_neg (by omega)] at hw
  refine ⟨documentText fmt17g a, hw.ok, hw.outBuf_eq,
    parse_valueText (valueText_documentText fmt17g H) (length_documentText fmt17g a), ?_⟩
  intro row hrow i hi
  exact cellJson_eq_null fmt17g (H.keyed i hi) (H.cells row hrow i hi)

/-- Two rows of four columns; the second one has a null and a text of unknown length. -/
def twoRows : ResultSetAnswer where
  columns := {
    numCols := 4
    describe := [
      { name := .store (bytes "id"), nameLen := 2, sqlType := .integer },
      { name := .store (bytes "paid"), nameLen := 4, sqlType := .bit },
      { name := .store (bytes "total"), nameLen := 5, sqlType := .decimal, colSize := 8 },
      { name := .store (bytes "the \"note\""), nameLen := 10, colSize := 4 }] }
  rows := [
    { cells := [
      { ind := 4, int := -12 }, { ind := 1, bit := 1 }, { ind := 5, text := bytes "12.50" },
      { ind := 2, text := bytes "a\nb" }] },
    { cells := [
      { ind := 4, int := 7 }, { ind := 1 }, { ind := sqlNullData },
      { ind := sqlNoTotal, text := bytes "xyz" }] }]

theorem twoRows_column (hi : i < twoRows.columns.numCols.toNat) :
    i = 0 ∨ i = 1 ∨ i = 2 ∨ i = 3 := by
  change i < 4 at hi
  omega

theorem twoRows_delivered : twoRows.Delivered where
  columns := ⟨rfl, by decide, by decide, by decide, by decide, by decide, by decide⟩
  keyed := by
    intro i hi
    obtain rfl | rfl | rfl | rfl := twoRows_column hi
    all_goals exact ⟨by decide, by decide, by decide⟩
  fetch := by decide
  cells := by
    intro row hrow i hi
    obtain rfl | rfl := List.mem_pair.mp hrow
    all_goals
      obtain rfl | rfl | rfl | rfl := twoRows_column hi
      all_goals refine ⟨by decide, fun hdecimal hnull => ?_⟩
    · exact absurd hdecimal (by decide)
    · exact absurd hdecimal (by decide)
    · exact ⟨_, rfl⟩
    · exact absurd hdecimal (by decide)
    · exact absurd hdecimal (by decide)
    · exact absurd hdecimal (by decide)
    · exact absurd rfl hnull
    · exact absurd hdecimal (by decide)

theorem dbFetchRs2json_faithful_twoRows :
    ∃ text, (dbFetchRs2json (fun _ => []) twoRows 0 1 {}).1 = true ∧
      (dbFetchRs2json (fun _ => []) twoRows 0 1 {}).2.outBuf = text ∧
      Json.parse text = some (.array [
        .object [(bytes "id", .int (-12)), (bytes "paid", .bool true),
          (bytes "total", .double (bytes "12.50")), (bytes "the \"note\"", .string (bytes "a\n"))],
        .object [(bytes "id", .int 7), (bytes "paid", .bool false), (bytes "total", .null),
          (bytes "the \"note\"", .string (bytes "xyz"))]]) := by
  obtain ⟨text, hok, hout, hparse, -⟩ :=
    dbFetchRs2json_faithful (fun _ => []) {} 0 1 twoRows_delivered
  exact ⟨text, hok, hout, hparse⟩

end ApiServer
