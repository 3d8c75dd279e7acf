import ApiServer.JsonC
import ApiServer.Lib.CBuf

/-!
# ODBC as the program sees it

The driver is what it answers: each call has a return code and leaves diagnostic records behind.
The answers of a conversation are grouped by the place in the program that asks for them, and a
list that has run out answers `SQL_NO_DATA` where rows or results are fetched and `SQL_SUCCESS`
elsewhere.
-/

namespace ApiServer

/-- The databases `DB_0` to `DB_3`. -/
abbrev DbConnectionId := Fin 4

-- The numerals of connections rest on this.
instance instNeZeroConnections : NeZero 4 := ⟨by decide⟩

abbrev Handle := Nat

/-- The handle `server_get_odbc_env` returns. -/
abbrev odbcEnv : Handle := 0

/-! ## Return codes and indicators -/

abbrev sqlSuccessWithInfo : Int := 1
abbrev sqlNoData : Int := 100
abbrev sqlNullData : Int := -1
abbrev sqlNts : Int := -3
abbrev sqlNoTotal : Int := -4

/-- `SQL_SUCCEEDED`. -/
def sqlSucceeded (ret : Int) : Bool := ret == 0 || ret == sqlSuccessWithInfo

theorem ne_noData_of_succeeded {ret : Int} (h : sqlSucceeded ret = true) : ret ≠ sqlNoData := by
  rintro rfl
  cases h

/-! ## Calls -/

inductive FreeStmtOption where
  | close | resetParams | unbind
  deriving DecidableEq

/-- A call with the handle it is made on; an allocation with the handle it yields. -/
inductive OdbcCall where
  | allocDbc (hdbc : Option Handle)
  | setConnectAttr (hdbc : Handle)
  | driverConnect (hdbc : Handle)
  | allocStmt (hdbc : Handle) (hstmt : Option Handle)
  | setStmtAttr (hstmt : Handle)
  | bindParameter (hstmt : Handle) (index : Nat) (ind : Int)
  | execDirect (hstmt : Handle) (query : Bytes)
  | numResultCols (hstmt : Handle)
  | describeCol (hstmt : Handle) (index : Nat)
  | bindCol (hstmt : Handle) (index : Nat)
  | fetch (hstmt : Handle)
  | getData (hstmt : Handle)
  | moreResults (hstmt : Handle)
  | getDiagRec (handle : Handle) (recNumber : Nat)
  | freeStmt (hstmt : Handle) (option : FreeStmtOption)
  | disconnect (hdbc : Handle)
  | freeHandle (handle : Handle)
  deriving DecidableEq

/-! ## Answers -/

structure DiagRec where
  sqlState : CBuf 6
  native : Int
  msg : CBuf 512
  fits : FitsInt native

/-- The answer to a call, and the records `SQLGetDiagRec` then finds. -/
structure Outcome where
  ret : Int := 0
  diags : List DiagRec := []

structure ConnectAnswers where
  allocHandle : Outcome := {}
  driverConnect : Outcome := {}

/-- Up to the execution of a statement. -/
structure PrepareAnswers where
  connect : ConnectAnswers := {}
  allocStmt : Outcome := {}
  bindParameter : List Outcome := []

/-- `SQLGetData`: the indicator after the call, and the array up to the last byte stored. -/
structure DataAnswer extends Outcome where
  indicator : Int := 0
  chunk : Bytes := []

/-- A row of a native JSON document, with the calls that read its column. -/
structure JsonRowAnswer where
  fetch : Outcome := {}
  getData : List DataAnswer := []

inductive SqlType where
  | bit | tinyint | smallint | integer | bigint | real | float | double | decimal | numeric | other
  deriving DecidableEq

/-- The bytes of a name in an array of 128 bytes, which ends with a NUL. -/
structure ColumnName where
  text : Bytes
  fits : text.length ≤ 127

/-- A name as the driver stores it, cut when it is too long. -/
def ColumnName.store (full : Bytes) : ColumnName := ⟨full.take 127, List.length_take_le ..⟩

/-- `SQLDescribeCol`, and whether libevent then has memory for a scratch buffer. -/
structure DescribeAnswer extends Outcome where
  name : ColumnName := .store []
  nameLen : Nat := 0
  sqlType : SqlType := .other
  colSize : Nat := 0
  evbufferNew : Bool := true

/-- The description of a result set. The two flags are the allocations that are needed when the
thread-local arrays are too small. -/
structure ColumnsAnswer where
  numResultCols : Outcome := {}
  numCols : Int := 0
  describe : List DescribeAnswer := []
  callocOk : Bool := true
  mallocOk : Bool := true
  bindCol : List Outcome := []

/-- What the driver leaves in the buffer of a bound column, read with the type it is bound with. -/
structure Cell where
  ind : Int := 0
  bit : UInt8 := 0
  int : Int := 0
  double : Dbl := .fin (.ofRat 0)
  text : Bytes := []

structure RowAnswer where
  fetch : Outcome := {}
  cells : List Cell := []

structure ResultSetAnswer where
  columns : ColumnsAnswer := {}
  rows : List RowAnswer := []

/-- One of several results. `colCount` is what `SQLNumResultCols` stores in front of it. -/
structure ResultAnswer where
  colCount : Option Int := none
  set : ResultSetAnswer := {}

/-- The results of a statement, each but the first behind an answer of `SQLMoreResults`. -/
structure ResultsAnswer where
  first : ResultAnswer := {}
  more : List (Outcome × ResultAnswer) := []

/-- The columns and the row of `db_query_single_row`. -/
structure SingleRowAnswer where
  bindCol : List Outcome := []
  fetch : Outcome := {}

end ApiServer
