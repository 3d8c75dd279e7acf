import ApiServer.Dbapi
import ApiServer.Lib.StateRules

/-!
# The text of a row

What the functions that write a row append, wherever the staging buffer has it at the moment.
-/

namespace ApiServer
open Bytes StateRules

section
variable (fmt17g : Rat → Bytes)

def cellText (col : ColumnDescriptor) (cell : Cell) : Bytes :=
  match col.cType with
  | .bit => bytes (if cell.bit ≠ 0 then "true" else "false")
  | .slong => fastItoa cell.int 64
  | .sbigint => fastLtoa cell.int 64
  | .double => fastDtoa fmt17g cell.double 64
  | .char =>
    let value := charValue col cell
    if col.sqlType = .decimal ∨ col.sqlType = .numeric then
      if value = [] then bytes "null" else value
    else 34 :: escape value ++ [34]

def columnKey (col : ColumnDescriptor) : Bytes :=
  if col.precomputedKey ≠ [] then col.precomputedKey
  else 34 :: escape (nameBytes col.name col.nameLen) ++ [34, 58]

def cellMemberText (col : ColumnDescriptor) (cell : Cell) : Bytes :=
  columnKey col ++ if cell.ind = sqlNullData then bytes "null" else cellText fmt17g col cell

def cellMembersText : List ColumnDescriptor → List Cell → Bytes
  | [], _ => []
  | col :: cols, cells =>
    cellMemberText fmt17g col (cells.headD {}) ++ (if cols ≠ [] then [44] else []) ++
      cellMembersText cols cells.tail

def rowText (cols : List ColumnDescriptor) (cells : List Cell) : Bytes :=
  123 :: cellMembersText fmt17g cols cells ++ [125]

/-- The rows up to the first answer of `SQLFetch` that is no success. -/
def rowsText (cols : List ColumnDescriptor) (firstRow : Bool) : List RowAnswer → Bytes
  | [] => []
  | row :: rows =>
    if sqlSucceeded row.fetch.ret then
      (if firstRow then [] else [44]) ++ rowText fmt17g cols row.cells ++ rowsText cols false rows
    else []

variable (jbuf : JsonBuffer)

@[simp] theorem content_appendColValue (col : ColumnDescriptor) (cell : Cell) :
    (appendColValue fmt17g jbuf col cell).content = jbuf.content ++ cellText fmt17g col cell := by
  unfold appendColValue cellText
  cases col.cType with
  | char =>
    dsimp only
    split
    · exact content_add ..
    · exact content_appendEscapedStr ..
  | _ => exact content_add ..

@[simp] theorem content_appendMember (col : ColumnDescriptor) (cell : Cell) :
    (jbufAppendMember fmt17g jbuf col cell).content =
      jbuf.content ++ cellMemberText fmt17g col cell := by
  unfold jbufAppendMember cellMemberText columnKey
  dsimp only
  split <;> split <;> simp

@[simp] theorem content_appendMembers (cols : List ColumnDescriptor) (cells : List Cell) :
    (jbufAppendMembers fmt17g jbuf cols cells).content =
      jbuf.content ++ cellMembersText fmt17g cols cells := by
  induction cols generalizing jbuf cells with
  | nil => simp [jbufAppendMembers, cellMembersText]
  | cons col cols ih =>
    rw [jbufAppendMembers, ih, cellMembersText]
    split <;> simp

@[simp] theorem content_appendRowObject (cols : List ColumnDescriptor) (cells : List Cell) :
    (jbufAppendRowObject fmt17g jbuf cols cells).content =
      jbuf.content ++ rowText fmt17g cols cells := by
  simp [jbufAppendRowObject, rowText]

theorem content_fetchRows (s : Db) (db : DbConnectionId) (hstmt : Handle)
    (cols : List ColumnDescriptor) (firstRow : Bool) (rows : List RowAnswer) :
    (fetchRows fmt17g db hstmt cols firstRow jbuf rows s).1.2.content =
      jbuf.content ++ rowsText fmt17g cols firstRow rows := by
  induction rows generalizing s firstRow jbuf with
  | nil => exact (List.append_nil _).symm
  | cons row rows ih =>
    simp only [fetchRows, rowsText, bind_run, ite_run]
    cases hfetch : sqlSucceeded row.fetch.ret with
    | false =>
      simp only [Bool.not_false, Bool.false_eq_true, if_true, if_false, List.append_nil]
      split <;> rfl
    | true =>
      rw [if_neg (ne_noData_of_succeeded hfetch)]
      simp only [Bool.not_true, Bool.false_eq_true, if_true, if_false, ih, content_appendRowObject]
      cases firstRow <;> simp

end
end ApiServer
