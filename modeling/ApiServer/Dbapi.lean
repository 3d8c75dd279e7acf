import ApiServer.Config
import ApiServer.Context
import ApiServer.Dbapi.JsonBuffer
import ApiServer.Numeric
import ApiServer.Odbc.Driver
import Mathlib.Logic.Function.Basic

/-!
# The database layer (`lib/dbapi.c`)

A thread's view: its thread-local variables, the handles it caches for each database, the output
buffer, and the ODBC calls it has made. The answers of the driver are arguments.
-/

namespace ApiServer
open Bytes Function

structure Db where
  tls : ThreadLocals := {}
  hdbc : DbConnectionId → Option Handle := fun _ => none
  hstmt : DbConnectionId → Option Handle := fun _ => none
  alloc : Allocator := .counting
  calls : List OdbcCall := []
  outBuf : Bytes := []

abbrev DbM := StateM Db

def odbc (call : OdbcCall) : DbM Unit := modify fun s => { s with calls := s.calls ++ [call] }

def evbufferAdd (data : Bytes) : DbM Unit := modify fun s => { s with outBuf := s.outBuf ++ data }

def dbError (msg : Bytes) :
    DbM Unit := modify fun s => { s with tls := setThreadError s.tls .error msg }

/-! ## Errors -/

def dbFreeStmtHandle (db : DbConnectionId) : DbM Unit := do
  match (← get).hstmt db with
  | some hstmt =>
    odbc (.freeHandle hstmt)
    modify fun s => { s with hstmt := update s.hstmt db none }
  | none => return

def dbFreeDbcHandle (db : DbConnectionId) : DbM Unit := do
  match (← get).hdbc db with
  | some hdbc =>
    odbc (.disconnect hdbc)
    odbc (.freeHandle hdbc)
    modify fun s => { s with hdbc := update s.hdbc db none }
  | none => return

def dbResetConnection (db : DbConnectionId) : DbM Unit := do
  dbFreeStmtHandle db
  dbFreeDbcHandle db

/-- Drop bracketed tags from the front, as long as one closes. -/
def skipTags : Nat → Bytes → Bytes
  | 0, msg => msg
  | fuel + 1, msg =>
    if msg.head? = some 91 then
      match strchr msg 93 with
      | some endBracket => skipTags fuel ((msg.drop (endBracket + 1)).dropWhile (· == 32))
      | none => msg
    else msg

/-- Each turn of the loop drops a byte at least. -/
def cleanOdbcErrorMessage (msg : Bytes) : Bytes := skipTags msg.length msg

def isDisconnectState (sqlState : Bytes) : Bool :=
  sqlState.take 5 == bytes "08S01" || sqlState.take 5 == bytes "08003"

/-- What a diagnostic record leaves in the thread-local variables. -/
def noteNative (tls : ThreadLocals) (diag : DiagRec) : ThreadLocals :=
  if 50000 ≤ diag.native then
    { tls with
      lastNativeError := diag.native
      lastErrorMsg := .strlcpy 512 (cleanOdbcErrorMessage diag.msg.text) }
  else tls

/-- The loop over `SQLGetDiagRec`: the message, and whether the connection is lost. -/
def diagLoop (handle : Handle) (recNum : Nat) (fullMsg : Bytes) (isDisconnect : Bool) :
    List DiagRec → DbM (Bytes × Bool)
  | [] => do
    odbc (.getDiagRec handle recNum)
    return (fullMsg, isDisconnect)
  | diag :: diags => do
    odbc (.getDiagRec handle recNum)
    modify fun s => { s with tls := noteNative s.tls diag }
    let text := bytes "[" ++ diag.sqlState.text ++ bytes "] " ++ diag.msg.text ++ bytes "; "
    let fullMsg := if fullMsg.length < 1023 then snprintf 1024 (fullMsg ++ text) else fullMsg
    diagLoop handle (recNum + 1) fullMsg (isDisconnect || isDisconnectState diag.sqlState.text) diags

def dbSetError (db : DbConnectionId) (handle : Handle) (diags : List DiagRec) (contextMsg : Bytes) :
    DbM Unit := do
  let (fullMsg, isDisconnect) ← diagLoop handle 1 [] false diags
  if diags ≠ [] then
    dbError (contextMsg ++ bytes " | ODBC Error: " ++ fullMsg)
    if isDisconnect then
      dbError (bytes "Database connection lost. Resetting thread-local connection pool.")
      dbResetConnection db
  else
    dbError (contextMsg ++ bytes " | Unknown ODBC Error")

/-! ## Connections and statements -/

/-- The handle that a successful `SQLAllocHandle` yields. -/
def newHandle : DbM Handle := do
  let s ← get
  return s.alloc.next s.calls

def dbConnect (cfg : Config) (db : DbConnectionId) (a : ConnectAnswers) : DbM (Option Handle) := do
  match (← get).hdbc db with
  | some hdbc => return some hdbc
  | none =>
    if (cfg.odbcConnStrs db).text = [] then
      dbError (bytes "Attempted to connect to unconfigured database DB_" ++ [digitChar db])
      return none
    else if !sqlSucceeded a.allocHandle.ret then
      odbc (.allocDbc none)
      dbSetError db odbcEnv a.allocHandle.diags (bytes "Failed to allocate ODBC connection handle")
      return none
    else
      let hdbc ← newHandle
      odbc (.allocDbc (some hdbc))
      modify fun s => { s with hdbc := update s.hdbc db (some hdbc) }
      odbc (.setConnectAttr hdbc)
      odbc (.setConnectAttr hdbc)
      odbc (.driverConnect hdbc)
      if !sqlSucceeded a.driverConnect.ret then
        dbSetError db hdbc a.driverConnect.diags (bytes "Failed to connect to database")
        dbResetConnection db
        return none
      else return some hdbc

def dbAllocStmt (db : DbConnectionId) (hdbc : Handle) (a : Outcome) : DbM (Option Handle) := do
  match (← get).hstmt db with
  | some hstmt => return some hstmt
  | none =>
    if !sqlSucceeded a.ret then
      odbc (.allocStmt hdbc none)
      dbSetError db hdbc a.diags (bytes "Failed to allocate ODBC statement handle")
      dbResetConnection db
      return none
    else
      let hstmt ← newHandle
      odbc (.allocStmt hdbc (some hstmt))
      odbc (.setStmtAttr hstmt)
      modify fun s => { s with hstmt := update s.hstmt db (some hstmt) }
      return some hstmt

/-- `db_is_valid_stmt`, of a handle that is not null. -/
def dbIsValidStmt (s : Db) (hstmt : Handle) : Bool :=
  (List.finRange 4).any fun db => s.hstmt db == some hstmt

def dbCleanupStmt (hstmt : Option Handle) : DbM Unit := do
  match hstmt with
  | some hstmt =>
    if dbIsValidStmt (← get) hstmt then
      odbc (.freeStmt hstmt .close)
      odbc (.freeStmt hstmt .resetParams)
      odbc (.freeStmt hstmt .unbind)
  | none => return

/-- A parameter of a query; a null pointer is `none`. -/
inductive QueryParam where
  | string (value : Option Bytes)
  | int (value : Option Int)
  | double (value : Option Dbl)
  | null

def QueryParam.ind : QueryParam → Int
  | .string value => if value.all (· == []) then sqlNullData else sqlNts
  | .int value => if value.isSome then 0 else sqlNullData
  | .double value => if value.isSome then 0 else sqlNullData
  | .null => sqlNullData

def dbBindParam (db : DbConnectionId) (hstmt : Handle) (index : Nat) (param : QueryParam)
    (a : Outcome) : DbM Bool := do
  odbc (.bindParameter hstmt index param.ind)
  if !sqlSucceeded a.ret then
    dbSetError db hstmt a.diags (bytes "Failed to bind parameter")
    return false
  else return true

/-- The loop of `db_prepare_and_bind`. -/
def bindParams (db : DbConnectionId) (hstmt : Handle) (index : Nat) :
    List QueryParam → List Outcome → DbM Bool
  | [], _ => return true
  | param :: params, answers => do
    if ← dbBindParam db hstmt index param (answers.headD {}) then
      bindParams db hstmt (index + 1) params answers.tail
    else return false

/-- The statement handle is `none` as long as it has not been stored. -/
def dbPrepareAndBind (cfg : Config) (db : DbConnectionId) (params : List QueryParam)
    (a : PrepareAnswers) : DbM (Bool × Option Handle) := do
  match ← dbConnect cfg db a.connect with
  | none => return (false, none)
  | some hdbc =>
    match ← dbAllocStmt db hdbc a.allocStmt with
    | none => return (false, none)
    | some hstmt => return (← bindParams db hstmt 1 params a.bindParameter, some hstmt)

/-! ## Native JSON documents -/

/-- The bytes of the chunk that are passed on; the array is zero behind what the driver stored. -/
def DataAnswer.payload (a : DataAnswer) : Bytes :=
  let maxPayload : Nat := 4095
  let bytesToWrite :=
    if a.indicator = sqlNoTotal ∨ maxPayload ≤ a.indicator then maxPayload
    else if 0 ≤ a.indicator then a.indicator.toNat
    else (cstr a.chunk).length
  (a.chunk ++ List.replicate maxPayload 0).take bytesToWrite

/-- The loop over `SQLGetData`; the second result is `has_data_written`. -/
def fetchJsonNativeColLoop (db : DbConnectionId) (hstmt : Handle) (hasDataWritten : Bool) :
    List DataAnswer → DbM (Bool × Bool)
  | [] => do
    odbc (.getData hstmt)
    return (true, hasDataWritten)
  | a :: answers => do
    odbc (.getData hstmt)
    if !sqlSucceeded a.ret ∧ a.ret ≠ sqlNoData then
      dbSetError db hstmt a.diags (bytes "SQLGetData failed (code " ++ Json.intText a.ret ++ bytes ")")
      return (false, hasDataWritten)
    else if a.indicator = sqlNullData then
      evbufferAdd (if hasDataWritten then [] else bytes "null")
      return (true, true)
    else
      let payload := if a.ret ≠ sqlNoData then a.payload else []
      evbufferAdd payload
      let hasDataWritten := hasDataWritten || payload != []
      if a.ret = sqlSuccessWithInfo then fetchJsonNativeColLoop db hstmt hasDataWritten answers
      else return (true, hasDataWritten)

/-- The loop over `SQLFetch`. -/
def jsonRows (db : DbConnectionId) (hstmt : Handle) (hasRows hasDataWritten : Bool) :
    List JsonRowAnswer → DbM Bool
  | [] => do
    odbc (.fetch hstmt)
    evbufferAdd (if hasRows then [] else bytes "[]")
    return true
  | row :: rows => do
    odbc (.fetch hstmt)
    if row.fetch.ret = sqlNoData then
      evbufferAdd (if hasRows then [] else bytes "[]")
      return true
    else if !sqlSucceeded row.fetch.ret then
      dbSetError db hstmt row.fetch.diags (bytes "SQLFetch failed")
      return false
    else
      let (ok, hasDataWritten) ← fetchJsonNativeColLoop db hstmt hasDataWritten row.getData
      if !ok then return false
      else jsonRows db hstmt true hasDataWritten rows

def dbFetchJsonNative (rows : List JsonRowAnswer) (db : DbConnectionId) (hstmt : Handle) :
    DbM Bool :=
  jsonRows db hstmt false false rows

/-! ## Result sets -/

inductive CType where
  | bit | slong | sbigint | double | char
  deriving DecidableEq

structure ColumnDescriptor where
  name : ColumnName
  nameLen : Nat
  sqlType : SqlType
  cType : CType
  allocSize : Nat
  /-- Empty when there is none. -/
  precomputedKey : Bytes

/-- `nameLen` bytes from the start of the name; what follows it in memory is zero. -/
def nameBytes (name : ColumnName) (nameLen : Nat) : Bytes :=
  name.text.take nameLen ++ List.replicate (nameLen - name.text.length) 0

def columnType (sqlType : SqlType) (colSize : Nat) : CType × Nat :=
  match sqlType with
  | .bit => (.bit, 1)
  | .tinyint | .smallint | .integer => (.slong, 4)
  | .bigint => (.sbigint, 8)
  | .real | .float | .double => (.double, 8)
  | .decimal | .numeric | .other =>
    (.char, if colSize = 0 ∨ 65536 < colSize then 65536 else colSize + 64)

def describeColumn (a : DescribeAnswer) : ColumnDescriptor :=
  let (cType, allocSize) := columnType a.sqlType a.colSize
  { name := a.name, nameLen := a.nameLen, sqlType := a.sqlType, cType, allocSize
    precomputedKey :=
      if a.evbufferNew then
        (evbufferAppendEscapedStr [] (nameBytes a.name a.nameLen) ++ bytes ":").take 255
      else [] }

/-- The loop over the columns from `index` on; `total` is the size of the arena so far. -/
def setupColumnMetadata (db : DbConnectionId) (hstmt : Handle) :
    (numCols index total : Nat) → List DescribeAnswer → DbM (Option (List ColumnDescriptor × Nat))
  | 0, _, total, _ => return some ([], total)
  | numCols + 1, index, total, answers => do
    let a := answers.headD {}
    odbc (.describeCol hstmt index)
    if !sqlSucceeded a.ret then
      dbSetError db hstmt a.diags (bytes "Failed to describe column.")
      return none
    else
      let col := describeColumn a
      if 2 ^ 64 ≤ total + col.allocSize then
        dbSetError db hstmt a.diags (bytes "Column allocation size overflowed.")
        return none
      else
        match ← setupColumnMetadata db hstmt numCols (index + 1) (total + col.allocSize)
          answers.tail with
        | none => return none
        | some (cols, total) => return some (col :: cols, total)

def allocMetadataCols (db : DbConnectionId) (hstmt : Handle) (numCols : Nat) (a : ColumnsAnswer) :
    DbM (Option (List ColumnDescriptor)) := do
  if 256 < numCols ∧ !a.callocOk then return none
  else
    match ← setupColumnMetadata db hstmt numCols 1 0 a.describe with
    | none => return none
    | some (cols, total) =>
      if total = 0 then return none
      else if 1024 * 1024 < total ∧ !a.mallocOk then return none
      else return some cols

def bindCols (db : DbConnectionId) (hstmt : Handle) :
    (numCols index : Nat) → List Outcome → DbM Bool
  | 0, _, _ => return true
  | numCols + 1, index, answers => do
    let a := answers.headD {}
    odbc (.bindCol hstmt index)
    if !sqlSucceeded a.ret then
      dbSetError db hstmt a.diags (bytes "Failed to bind column.")
      return false
    else bindCols db hstmt numCols (index + 1) answers.tail

/-- The first result is `meta->hstmt`, the second the bound columns unless the call fails. -/
def odbcBindResultsetMetadata (db : DbConnectionId) (hstmt : Handle) (a : ColumnsAnswer) :
    DbM (Option Handle × Option (List ColumnDescriptor)) := do
  odbc (.numResultCols hstmt)
  if !sqlSucceeded a.numResultCols.ret then
    dbSetError db hstmt a.numResultCols.diags (bytes "Failed to retrieve result set column count.")
    return (none, none)
  else if a.numCols = 0 then return (none, some [])
  else if a.numCols < 0 then return (none, none)
  else
    match ← allocMetadataCols db hstmt a.numCols.toNat a with
    | none => return (some hstmt, none)
    | some cols =>
      if ← bindCols db hstmt cols.length 1 a.bindCol then return (some hstmt, some cols)
      else return (some hstmt, none)

def metadataDestroy (hstmt : Option Handle) : DbM Unit := do
  match hstmt with
  | some hstmt => if dbIsValidStmt (← get) hstmt then odbc (.freeStmt hstmt .unbind)
  | none => return

/-- The text of a character column: the array ends with a NUL that the program writes. -/
def charValue (col : ColumnDescriptor) (cell : Cell) : Bytes :=
  let buffer := (cell.text ++ List.replicate (col.allocSize - 1) 0).take (col.allocSize - 1)
  if cell.ind = sqlNoTotal then cstr buffer
  else if cell.ind < 0 ∨ col.allocSize ≤ cell.ind then buffer
  else buffer.take cell.ind.toNat

def appendColValue (fmt17g : Rat → Bytes) (jbuf : JsonBuffer) (col : ColumnDescriptor) (cell : Cell) :
    JsonBuffer :=
  match col.cType with
  | .bit => jbufAdd jbuf (bytes (if cell.bit ≠ 0 then "true" else "false"))
  | .slong => jbufAdd jbuf (fastItoa cell.int 64)
  | .sbigint => jbufAdd jbuf (fastLtoa cell.int 64)
  | .double => jbufAdd jbuf (fastDtoa fmt17g cell.double 64)
  | .char =>
    let value := charValue col cell
    if col.sqlType = .decimal ∨ col.sqlType = .numeric then
      jbufAdd jbuf (if value = [] then bytes "null" else value)
    else jbufAppendEscapedStr jbuf value

/-- One member of a row object. -/
def jbufAppendMember (fmt17g : Rat → Bytes) (jbuf : JsonBuffer) (col : ColumnDescriptor)
    (cell : Cell) : JsonBuffer :=
  let jbuf :=
    if col.precomputedKey ≠ [] then jbufAdd jbuf col.precomputedKey
    else jbufAddChar (jbufAppendEscapedStr jbuf (nameBytes col.name col.nameLen)) 58
  if cell.ind = sqlNullData then jbufAdd jbuf (bytes "null")
  else appendColValue fmt17g jbuf col cell

def jbufAppendMembers (fmt17g : Rat → Bytes) (jbuf : JsonBuffer) :
    List ColumnDescriptor → List Cell → JsonBuffer
  | [], _ => jbuf
  | col :: cols, cells =>
    let jbuf := jbufAppendMember fmt17g jbuf col (cells.headD {})
    let jbuf := if cols ≠ [] then jbufAddChar jbuf 44 else jbuf
    jbufAppendMembers fmt17g jbuf cols cells.tail

def jbufAppendRowObject (fmt17g : Rat → Bytes) (jbuf : JsonBuffer) (cols : List ColumnDescriptor)
    (cells : List Cell) : JsonBuffer :=
  jbufAddChar (jbufAppendMembers fmt17g (jbufAddChar jbuf 123) cols cells) 125

/-- The loop over `SQLFetch` of `fetch_resultset_array`. -/
def fetchRows (fmt17g : Rat → Bytes) (db : DbConnectionId) (hstmt : Handle)
    (cols : List ColumnDescriptor) (firstRow : Bool) (jbuf : JsonBuffer) :
    List RowAnswer → DbM (Bool × JsonBuffer)
  | [] => do
    odbc (.fetch hstmt)
    return (true, jbuf)
  | row :: rows => do
    odbc (.fetch hstmt)
    if row.fetch.ret = sqlNoData then return (true, jbuf)
    else if !sqlSucceeded row.fetch.ret then
      dbSetError db hstmt row.fetch.diags (bytes "SQLFetch failed")
      return (false, jbuf)
    else
      let jbuf := if firstRow then jbuf else jbufAddChar jbuf 44
      fetchRows fmt17g db hstmt cols false (jbufAppendRowObject fmt17g jbuf cols row.cells) rows

/-- `jbuf_flush`, after which the evbuffer is the output buffer again. -/
def jbufFlushOut (jbuf : JsonBuffer) : DbM Unit := modify fun s =>
  { s with outBuf := (jbufFlush jbuf).evbuf }

/-- `fetch_resultset_array` from the staging buffer on, if the columns are bound. -/
def fetchArray (fmt17g : Rat → Bytes) (writeBrackets : Bool) (rows : List RowAnswer)
    (db : DbConnectionId) (hstmt : Handle) : Option (List ColumnDescriptor) → DbM Bool
  | none => return false
  | some cols => do
    let jbuf : JsonBuffer := { evbuf := (← get).outBuf }
    if writeBrackets ∧ cols = [] then
      jbufFlushOut (jbufAdd jbuf (bytes "[]"))
      return true
    else
      let jbuf := if writeBrackets then jbufAdd jbuf (bytes "[") else jbuf
      let (ok, jbuf) ← fetchRows fmt17g db hstmt cols true jbuf rows
      jbufFlushOut (if ok ∧ writeBrackets then jbufAddChar jbuf 93 else jbuf)
      return ok

/-- The metadata is destroyed however the function ends. -/
def fetchResultsetArray (fmt17g : Rat → Bytes) (writeBrackets : Bool) (a : ResultSetAnswer)
    (db : DbConnectionId) (hstmt : Handle) : DbM Bool := do
  let (metaHstmt, cols) ← odbcBindResultsetMetadata db hstmt a.columns
  let ok ← fetchArray fmt17g writeBrackets a.rows db hstmt cols
  metadataDestroy metaHstmt
  return ok

def dbFetchRs2json (fmt17g : Rat → Bytes) (a : ResultSetAnswer) (db : DbConnectionId)
    (hstmt : Handle) : DbM Bool :=
  fetchResultsetArray fmt17g true a db hstmt

/-! ## Several results -/

/-- One turn of the loop up to `SQLMoreResults`; without columns it does nothing. -/
def fetchResult (fmt17g : Rat → Bytes) (db : DbConnectionId) (hstmt : Handle) (rsIndex : Nat)
    (hasResultset : Bool) (colCount : Int) (set : ResultSetAnswer) : DbM Bool := do
  if 0 < colCount then
    evbufferAdd (bytes (if hasResultset then "," else "\x7b"))
    evbufferAdd (bytes "\"r")
    evbufferAdd (fastItoa rsIndex 32)
    evbufferAdd (bytes "\":[")
    if ← fetchResultsetArray fmt17g false set db hstmt then
      evbufferAdd (bytes "]")
      return true
    else return false
  else return true

/-- The loop, with the answers for the result at hand and for those behind it. -/
def fetchResults (fmt17g : Rat → Bytes) (db : DbConnectionId) (hstmt : Handle) (rsIndex : Nat)
    (hasResultset : Bool) (colCount : Int) (set : ResultSetAnswer) :
    List (Outcome × ResultAnswer) → DbM Bool
  | [] => do
    if ← fetchResult fmt17g db hstmt rsIndex hasResultset colCount set then
      odbc (.moreResults hstmt)
      evbufferAdd (bytes (if hasResultset ∨ 0 < colCount then "\x7d" else "[]"))
      return true
    else return false
  | (more, result) :: results => do
    if ← fetchResult fmt17g db hstmt rsIndex hasResultset colCount set then
      odbc (.moreResults hstmt)
      if more.ret = sqlNoData then
        evbufferAdd (bytes (if hasResultset ∨ 0 < colCount then "\x7d" else "[]"))
        return true
      else if !sqlSucceeded more.ret then
        dbSetError db hstmt more.diags (bytes "SQLMoreResults failed")
        return false
      else
        odbc (.numResultCols hstmt)
        fetchResults fmt17g db hstmt (if 0 < colCount then rsIndex + 1 else rsIndex)
          (hasResultset || 0 < colCount) (result.colCount.getD colCount) result.set results
    else return false

def dbFetchJsonmNative (fmt17g : Rat → Bytes) (a : ResultsAnswer) (db : DbConnectionId)
    (hstmt : Handle) : DbM Bool := do
  odbc (.numResultCols hstmt)
  fetchResults fmt17g db hstmt 1 false (a.first.colCount.getD 0) a.first.set a.more

/-! ## Execution -/

/-- The label `check_error`, which a call that has succeeded does not come to. -/
def checkError (ok : Bool) : DbM Unit := modify fun s =>
  if !ok ∧ 50000 ≤ s.tls.lastNativeError then
    { s with
      outBuf := evbufferAppendEscapedStr
        (snprintf 128 (bytes "\x7b\"error-code\":" ++ Json.intText s.tls.lastNativeError ++
          bytes ",\"description\":")) s.tls.lastErrorMsg.text ++ bytes "\x7d" }
  else s

/-- The execution of a statement that `db_prepare_and_bind` has prepared, and the fetch behind it. -/
def executeStmt (db : DbConnectionId) (query : Bytes) (exec : Outcome)
    (fetchCb : DbConnectionId → Handle → DbM Bool) : Bool × Option Handle → DbM Bool
  | (true, some hstmt) => do
    odbc (.execDirect hstmt query)
    if sqlSucceeded exec.ret then fetchCb db hstmt
    else
      dbSetError db hstmt exec.diags (bytes "Failed to execute SQLExecDirect")
      return false
  | _ => return false

/-- The statement is cleaned up however the call ends. -/
def dbExecuteAndFetch (cfg : Config) (db : DbConnectionId) (query : Bytes)
    (params : List QueryParam) (a : PrepareAnswers) (exec : Outcome)
    (fetchCb : DbConnectionId → Handle → DbM Bool) : DbM Bool := do
  modify fun s => { s with tls := { s.tls with lastNativeError := 0, lastErrorMsg := .empty } }
  let prepared ← dbPrepareAndBind cfg db params a
  let ok ← executeStmt db query exec fetchCb prepared
  checkError ok
  dbCleanupStmt prepared.2
  return ok

/-- The answers of the driver to one call of the layer. -/
structure StatementAnswers (α : Type) where
  prepare : PrepareAnswers := {}
  exec : Outcome := {}
  fetch : α

def dbGetJson (cfg : Config) (db : DbConnectionId) (query : Bytes) (params : List QueryParam)
    (a : StatementAnswers (List JsonRowAnswer)) : DbM Bool :=
  dbExecuteAndFetch cfg db query params a.prepare a.exec (dbFetchJsonNative a.fetch)

def dbGetRs2json (fmt17g : Rat → Bytes) (cfg : Config) (db : DbConnectionId) (query : Bytes)
    (params : List QueryParam) (a : StatementAnswers ResultSetAnswer) : DbM Bool :=
  dbExecuteAndFetch cfg db query params a.prepare a.exec (dbFetchRs2json fmt17g a.fetch)

def dbGetRs2jsonM (fmt17g : Rat → Bytes) (cfg : Config) (db : DbConnectionId) (query : Bytes)
    (params : List QueryParam) (a : StatementAnswers ResultsAnswer) : DbM Bool :=
  dbExecuteAndFetch cfg db query params a.prepare a.exec (dbFetchJsonmNative fmt17g a.fetch)

/-! ## Single rows and statements without results -/

/-- The type of an output column; the driver writes to the caller's buffer. -/
inductive ParamType where
  | string | int | double | null
  deriving DecidableEq

/-- The loop over the output columns. -/
def bindOutParams (db : DbConnectionId) (hstmt : Handle) (index : Nat) :
    List ParamType → List Outcome → DbM Bool
  | [], _ => return true
  | type :: types, answers => do
    let a := answers.headD {}
    if type = .null then
      dbSetError db hstmt a.diags (bytes "Unsupported output parameter type")
      return false
    else
      odbc (.bindCol hstmt index)
      if !sqlSucceeded a.ret then
        dbSetError db hstmt a.diags (bytes "Failed to bind output column")
        return false
      else bindOutParams db hstmt (index + 1) types answers.tail

/-- The execution in `db_query_single_row` and `db_exec`, to which `SQL_NO_DATA` is no error. -/
def execQuery (db : DbConnectionId) (hstmt : Handle) (query : Bytes) (a : Outcome) : DbM Bool := do
  odbc (.execDirect hstmt query)
  if !sqlSucceeded a.ret ∧ a.ret ≠ sqlNoData then
    dbSetError db hstmt a.diags (bytes "Failed to execute query")
    return false
  else return true

/-- The fetch of `db_query_single_row`; the second result is `found`. -/
def fetchSingleRow (db : DbConnectionId) (hstmt : Handle) (a : Outcome) : DbM (Bool × Bool) := do
  odbc (.fetch hstmt)
  if a.ret = sqlNoData then return (true, false)
  else if !sqlSucceeded a.ret ∧ a.ret ≠ sqlSuccessWithInfo then
    dbSetError db hstmt a.diags (bytes "Failed to fetch row")
    return (false, false)
  else if a.ret = sqlSuccessWithInfo then
    dbSetError db hstmt a.diags (bytes "Fetch completed with info (possible truncation)")
    return (false, false)
  else return (true, true)

/-- A statement that `db_prepare_and_bind` has prepared, up to its row. -/
def querySingleRow (db : DbConnectionId) (query : Bytes) (outParams : List ParamType)
    (exec : Outcome) (a : SingleRowAnswer) : Bool × Option Handle → DbM (Bool × Bool)
  | (true, some hstmt) => do
    if ← bindOutParams db hstmt 1 outParams a.bindCol then
      if ← execQuery db hstmt query exec then fetchSingleRow db hstmt a.fetch
      else return (false, false)
    else return (false, false)
  | _ => return (false, false)

/-- What it returns, and `found`. -/
def dbQuerySingleRow (cfg : Config) (db : DbConnectionId) (query : Bytes)
    (inParams : List QueryParam) (outParams : List ParamType)
    (a : StatementAnswers SingleRowAnswer) : DbM (Bool × Bool) := do
  let prepared ← dbPrepareAndBind cfg db inParams a.prepare
  let result ← querySingleRow db query outParams a.exec a.fetch prepared
  dbCleanupStmt prepared.2
  return result

def execPrepared (db : DbConnectionId) (query : Bytes) (exec : Outcome) :
    Bool × Option Handle → DbM Bool
  | (true, some hstmt) => execQuery db hstmt query exec
  | _ => return false

/-- A null `query`, or `inCount` parameters at a null pointer, are refused. -/
def dbExec (cfg : Config) (db : DbConnectionId) (query : Option Bytes)
    (inParams : Option (List QueryParam)) (inCount : Nat) (prepare : PrepareAnswers)
    (exec : Outcome) : DbM Bool := do
  match query with
  | none => return false
  | some query =>
    if 0 < inCount ∧ inParams.isNone then return false
    else
      let prepared ← dbPrepareAndBind cfg db ((inParams.getD []).take inCount) prepare
      let ok ← execPrepared db query exec prepared
      dbCleanupStmt prepared.2
      return ok

end ApiServer
