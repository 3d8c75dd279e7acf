import ApiServer.Dbapi
import ApiServer.Lib.StateRules

/-!
# Rules for the layer

Each function of the layer is gone through once, with the assertions left open: one that holds
between the calls of the layer, one that holds while a statement is at work, and one that is left
when a call on it has failed. Whoever shows that the functions that open, use and give up a handle
respect them has them around every call of the layer.
-/

namespace ApiServer
open Bytes Function StateRules

/-! ## Handles -/

/-- The part of the state that is about handles. -/
def Db.pool (s : Db) : (DbConnectionId → Option Handle) × (DbConnectionId → Option Handle) ×
    List OdbcCall :=
  (s.hdbc, s.hstmt, s.calls)

/-- A part of the state in which neither an ODBC call nor a message nor a handle of `db` shows. -/
structure Apart (db : DbConnectionId) (part : Db → γ) : Prop where
  call : ∀ call, Keeps part (odbc call)
  message : ∀ msg, Keeps part (dbError msg)
  setDbc : ∀ hdbc, Keeps part (modify fun s => { s with hdbc := update s.hdbc db hdbc })
  setStmt : ∀ hstmt, Keeps part (modify fun s => { s with hstmt := update s.hstmt db hstmt })

namespace Apart
variable {db : DbConnectionId} {part : Db → γ} (A : Apart db part)
include A

theorem keeps_dbResetConnection : Keeps part (dbResetConnection db) := by
  refine .bind (Keeps.get.bind fun s => ?_) fun _ => Keeps.get.bind fun s => ?_
  · cases s.hstmt db with
    | none => exact .pure _
    | some hstmt => exact (A.call _).bind fun _ => A.setStmt none
  · cases s.hdbc db with
    | none => exact .pure _
    | some hdbc => exact (A.call _).bind fun _ => (A.call _).bind fun _ => A.setDbc none

/-- Only the loop over the records may change the part. -/
theorem dbSetError_run (handle : Handle) (diags : List DiagRec) (msg : Bytes) (s : Db) :
    part (dbSetError db handle diags msg s).2 = part (diagLoop handle 1 [] false diags s).2 := by
  have hrest (r : Bytes × Bool) : Keeps part (if diags ≠ [] then do
      dbError (msg ++ bytes " | ODBC Error: " ++ r.1)
      if r.2 then
        dbError (bytes "Database connection lost. Resetting thread-local connection pool.")
        dbResetConnection db
    else dbError (msg ++ bytes " | Unknown ODBC Error")) :=
    .ite ((A.message _).bind fun _ => .ite
      ((A.message _).bind fun _ => A.keeps_dbResetConnection) (.pure _)) (A.message _)
  exact (hrest _).run _

end Apart

/-! ## A statement at work -/

/-- The calls on a statement in the course of a query. -/
inductive OnStmt (h : Handle) : OdbcCall → Prop
  | bindParameter : OnStmt h (.bindParameter h index ind)
  | execDirect : OnStmt h (.execDirect h query)
  | numResultCols : OnStmt h (.numResultCols h)
  | describeCol : OnStmt h (.describeCol h index)
  | bindCol : OnStmt h (.bindCol h index)
  | fetch : OnStmt h (.fetch h)
  | getData : OnStmt h (.getData h)
  | moreResults : OnStmt h (.moreResults h)

/-- `I true` holds while the statement `h` of `db` is at work, `I false` when a call on it has
failed, and perhaps taken it away. -/
structure StmtRules (db : DbConnectionId) (h : Handle) (I : Bool → Db → Prop) : Prop where
  failed : ∀ {ok s}, I ok s → I false s
  call : ∀ {call}, OnStmt h call → Spec (I true) (odbc call) (fun _ => I true)
  setError : ∀ diags msg, Spec (I true) (dbSetError db h diags msg) (fun _ => I false)
  output : ∀ {ok} {m : DbM Unit}, Keeps Db.pool m → Spec (I ok) m (fun _ => I ok)
  destroy : ∀ {ok}, Spec (I ok) (metadataDestroy (some h)) (fun _ => I ok)

namespace StmtRules
variable {db : DbConnectionId} {h : Handle} {I : Bool → Db → Prop} (R : StmtRules db h I)
include R

/-- A failure ends the program. -/
theorem check {k : DbM α} {Q : α → Db → Prop} {x : α} {c : Prop} [Decidable c]
    {diags : List DiagRec} {msg : Bytes} (hx : ∀ s, I false s → Q x s) (hk : Spec (I true) k Q) :
    Spec (I true) (if c then do
      dbSetError db h diags msg
      return x
    else k) Q :=
  .ite (fun _ => (R.setError ..).bind fun _ => .pure hx) fun _ => hk

omit R in
theorem proceed {k : DbM α} {Q : α → Db → Prop} {x : α} {ok : Bool} (hx : ∀ s, I false s → Q x s)
    (hk : Spec (I true) k Q) : Spec (I ok) (if ok = true then k else pure x) Q := by
  cases ok with
  | true => exact hk
  | false => exact .pure hx

theorem spec_bindParams (index : Nat) (params : List QueryParam) (answers : List Outcome) :
    Spec (I true) (bindParams db h index params answers) I := by
  induction params generalizing index answers with
  | nil => exact .pure fun _ => id
  | cons param params ih =>
    refine .bind ?_ fun ok => proceed (fun _ => id) (ih ..)
    exact (R.call .bindParameter).bind fun _ => R.check (fun _ => id) (.pure fun _ => id)

/-! ### Result sets -/

theorem spec_setupColumnMetadata (numCols index total : Nat) (answers : List DescribeAnswer) :
    Spec (I true) (setupColumnMetadata db h numCols index total answers) (fun r => I r.isSome) := by
  induction numCols generalizing index total answers with
  | zero => exact .pure fun _ => id
  | succ numCols ih =>
    refine (R.call .describeCol).bind fun _ => R.check (fun _ => id) <|
      R.check (fun _ => id) ((ih ..).bind fun r => ?_)
    cases r with
    | none => exact .pure fun _ => id
    | some r => exact .pure fun _ => id

theorem spec_bindCols (numCols index : Nat) (answers : List Outcome) :
    Spec (I true) (bindCols db h numCols index answers) I := by
  induction numCols generalizing index answers with
  | zero => exact .pure fun _ => id
  | succ numCols ih => exact (R.call .bindCol).bind fun _ => R.check (fun _ => id) (ih ..)

theorem spec_allocMetadataCols (numCols : Nat) (a : ColumnsAnswer) :
    Spec (I true) (allocMetadataCols db h numCols a) (fun r => I r.isSome) := by
  refine .ite (fun _ => .pure fun _ => R.failed) fun _ =>
    (R.spec_setupColumnMetadata ..).bind fun r => ?_
  cases r with
  | none => exact .pure fun _ => id
  | some r =>
    exact .ite (fun _ => .pure fun _ => R.failed) fun _ =>
      .ite (fun _ => .pure fun _ => R.failed) fun _ => .pure fun _ => id

theorem spec_odbcBindResultsetMetadata (a : ColumnsAnswer) :
    Spec (I true) (odbcBindResultsetMetadata db h a)
      (fun r s => I r.2.isSome s ∧ ∀ h', r.1 = some h' → h' = h) := by
  refine (R.call .numResultCols).bind fun _ => R.check (fun _ hs => ⟨hs, nofun⟩) <|
    .ite (fun _ => .pure fun _ hs => ⟨hs, nofun⟩) fun _ =>
      .ite (fun _ => .pure fun _ hs => ⟨R.failed hs, nofun⟩) fun _ => ?_
  refine (R.spec_allocMetadataCols ..).bind fun r => ?_
  have hself : ∀ h', some h = some h' → h' = h := fun _ heq => (Option.some.inj heq).symm
  cases r with
  | none => exact .pure fun _ hs => ⟨hs, hself⟩
  | some cols =>
    exact (R.spec_bindCols ..).bind fun _ => proceed (fun _ hs => ⟨hs, hself⟩)
      (.pure fun _ hs => ⟨hs, hself⟩)

theorem spec_metadataDestroy {hstmt : Option Handle} (hself : ∀ h', hstmt = some h' → h' = h)
    {ok : Bool} : Spec (I ok) (metadataDestroy hstmt) (fun _ => I ok) := by
  cases hstmt with
  | none => exact .pure fun _ => id
  | some h' =>
    cases hself h' rfl
    exact R.destroy

theorem spec_fetchRows (fmt17g : Rat → Bytes) (cols : List ColumnDescriptor) (firstRow : Bool)
    (jbuf : JsonBuffer) (rows : List RowAnswer) :
    Spec (I true) (fetchRows fmt17g db h cols firstRow jbuf rows) (fun r => I r.1) := by
  induction rows generalizing firstRow jbuf with
  | nil => exact (R.call .fetch).bind fun _ => .pure fun _ => id
  | cons row rows ih =>
    exact (R.call .fetch).bind fun _ => .ite (fun _ => .pure fun _ => id) fun _ =>
      R.check (fun _ => id) (ih ..)

theorem spec_jbufFlushOut (jbuf : JsonBuffer) {ok : Bool} :
    Spec (I ok) (jbufFlushOut jbuf) (fun _ => I ok) :=
  R.output ⟨fun _ => rfl⟩

theorem spec_fetchArray (fmt17g : Rat → Bytes) (writeBrackets : Bool) (rows : List RowAnswer)
    (cols : Option (List ColumnDescriptor)) :
    Spec (I cols.isSome) (fetchArray fmt17g writeBrackets rows db h cols) I := by
  cases cols with
  | none => exact .pure fun _ => id
  | some cols =>
    refine .get_bind fun s _ => .ite (fun _ => ?_) fun _ => ?_
    · exact (R.spec_jbufFlushOut _).bind fun _ => .pure fun _ => id
    · exact (R.spec_fetchRows ..).bind fun _ => (R.spec_jbufFlushOut _).bind fun _ => .pure fun _ => id

theorem spec_fetchResultsetArray (fmt17g : Rat → Bytes) (writeBrackets : Bool)
    (a : ResultSetAnswer) :
    Spec (I true) (fetchResultsetArray fmt17g writeBrackets a db h) I :=
  (R.spec_odbcBindResultsetMetadata _).bind fun _ => .of_and fun hself =>
    (R.spec_fetchArray ..).bind fun _ => (R.spec_metadataDestroy hself).bind fun _ => .pure fun _ => id

/-! ### Documents and several results -/

theorem spec_evbufferAdd (data : Bytes) {ok : Bool} :
    Spec (I ok) (evbufferAdd data) (fun _ => I ok) :=
  R.output ⟨fun _ => rfl⟩

theorem spec_fetchJsonNativeColLoop (written : Bool) (answers : List DataAnswer) :
    Spec (I true) (fetchJsonNativeColLoop db h written answers) (fun r => I r.1) := by
  induction answers generalizing written with
  | nil => exact (R.call .getData).bind fun _ => .pure fun _ => id
  | cons a answers ih =>
    refine (R.call .getData).bind fun _ => R.check (fun _ => id) <| .ite (fun _ => ?_) fun _ => ?_
    · exact (R.spec_evbufferAdd _).bind fun _ => .pure fun _ => id
    · exact (R.spec_evbufferAdd _).bind fun _ => .ite (fun _ => ih _) fun _ => .pure fun _ => id

theorem spec_jsonRows (hasRows written : Bool) (rows : List JsonRowAnswer) :
    Spec (I true) (jsonRows db h hasRows written rows) I := by
  induction rows generalizing hasRows written with
  | nil =>
    exact (R.call .fetch).bind fun _ => (R.spec_evbufferAdd _).bind fun _ => .pure fun _ => id
  | cons row rows ih =>
    refine (R.call .fetch).bind fun _ => .ite (fun _ => ?_) fun _ =>
      R.check (fun _ => id) ((R.spec_fetchJsonNativeColLoop ..).bind fun r => ?_)
    · exact (R.spec_evbufferAdd _).bind fun _ => .pure fun _ => id
    · obtain ⟨_ | _, written⟩ := r
      · exact .pure fun _ => id
      · exact ih ..

theorem spec_fetchResult (fmt17g : Rat → Bytes) (rsIndex : Nat) (hasResultset : Bool)
    (colCount : Int) (set : ResultSetAnswer) :
    Spec (I true) (fetchResult fmt17g db h rsIndex hasResultset colCount set) I := by
  refine .ite (fun _ => ?_) fun _ => .pure fun _ => id
  refine (R.spec_evbufferAdd _).bind fun _ => (R.spec_evbufferAdd _).bind fun _ =>
    (R.spec_evbufferAdd _).bind fun _ => (R.spec_evbufferAdd _).bind fun _ =>
    (R.spec_fetchResultsetArray ..).bind fun _ => proceed (fun _ => id) ?_
  exact (R.spec_evbufferAdd _).bind fun _ => .pure fun _ => id

theorem spec_fetchResults (fmt17g : Rat → Bytes) (rsIndex : Nat) (hasResultset : Bool)
    (colCount : Int) (set : ResultSetAnswer) (results : List (Outcome × ResultAnswer)) :
    Spec (I true) (fetchResults fmt17g db h rsIndex hasResultset colCount set results) I := by
  induction results generalizing rsIndex hasResultset colCount set with
  | nil =>
    exact (R.spec_fetchResult ..).bind fun _ => proceed (fun _ => id) <|
      (R.call .moreResults).bind fun _ => (R.spec_evbufferAdd _).bind fun _ => .pure fun _ => id
  | cons result results ih =>
    refine (R.spec_fetchResult ..).bind fun _ => proceed (fun _ => id) <|
      (R.call .moreResults).bind fun _ => .ite (fun _ => ?_) fun _ => R.check (fun _ => id) ?_
    · exact (R.spec_evbufferAdd _).bind fun _ => .pure fun _ => id
    · exact (R.call .numResultCols).bind fun _ => ih ..

theorem spec_dbFetchJsonmNative (fmt17g : Rat → Bytes) (a : ResultsAnswer) :
    Spec (I true) (dbFetchJsonmNative fmt17g a db h) I :=
  (R.call .numResultCols).bind fun _ => R.spec_fetchResults ..

/-! ### Single rows and statements without results -/

theorem spec_bindOutParams (index : Nat) (types : List ParamType) (answers : List Outcome) :
    Spec (I true) (bindOutParams db h index types answers) I := by
  induction types generalizing index answers with
  | nil => exact .pure fun _ => id
  | cons type types ih =>
    exact R.check (fun _ => id) ((R.call .bindCol).bind fun _ => R.check (fun _ => id) (ih ..))

theorem spec_execQuery (query : Bytes) (a : Outcome) :
    Spec (I true) (execQuery db h query a) I :=
  (R.call .execDirect).bind fun _ => R.check (fun _ => id) (.pure fun _ => id)

theorem spec_fetchSingleRow (a : Outcome) :
    Spec (I true) (fetchSingleRow db h a) (fun r => I r.1) :=
  (R.call .fetch).bind fun _ => .ite (fun _ => .pure fun _ => id) fun _ =>
    R.check (fun _ => id) (R.check (fun _ => id) (.pure fun _ => id))

end StmtRules

/-! ## Calls of the layer -/

/-- Between the calls of the layer on `db` there is `P`, with a connection `C`, and with a statement
on it `I`. -/
structure LayerRules (db : DbConnectionId) (P : Db → Prop) (C : Handle → Db → Prop)
    (I : Handle → Bool → Db → Prop) : Prop where
  stmt : ∀ h, StmtRules db h (I h)
  output : ∀ {m : DbM Unit}, Keeps Db.pool m → Spec P m (fun _ => P)
  connect : ∀ cfg a, Spec P (dbConnect cfg db a) (fun r s => r.elim (P s) (C · s))
  allocStmt : ∀ c a, Spec (C c) (dbAllocStmt db c a) (fun r s => r.elim (P s) (I · true s))
  cleanup : ∀ {h ok}, Spec (I h ok) (dbCleanupStmt (some h)) (fun _ => P)

/-- What `db_prepare_and_bind` leaves. -/
def Prepared (P : Db → Prop) (I : Handle → Bool → Db → Prop) : Bool × Option Handle → Db → Prop
  | (ok, none), s => ok = false ∧ P s
  | (ok, some h), s => I h ok s

namespace LayerRules
variable {db : DbConnectionId} {P : Db → Prop} {C : Handle → Db → Prop}
  {I : Handle → Bool → Db → Prop} (R : LayerRules db P C I)
include R

theorem spec_dbPrepareAndBind (cfg : Config) (params : List QueryParam) (a : PrepareAnswers) :
    Spec P (dbPrepareAndBind cfg db params a) (Prepared P I) := by
  refine (R.connect ..).bind fun hdbc => ?_
  cases hdbc with
  | none => exact .pure fun s hs => ⟨rfl, hs⟩
  | some hdbc =>
    refine (R.allocStmt ..).bind fun hstmt => ?_
    cases hstmt with
    | none => exact .pure fun s hs => ⟨rfl, hs⟩
    | some h => exact ((R.stmt h).spec_bindParams ..).bind fun ok => .pure fun _ => id

theorem spec_dbCleanupStmt (prepared : Bool × Option Handle) {ok : Bool} :
    Spec (Prepared P I (ok, prepared.2)) (dbCleanupStmt prepared.2) (fun _ => P) := by
  obtain ⟨_, _ | h⟩ := prepared
  · exact .pure fun _ hs => hs.2
  · exact R.cleanup

theorem spec_checkError {r : Bool × Option Handle} {ok : Bool} :
    Spec (Prepared P I r) (checkError ok) (fun _ => Prepared P I r) := by
  have hkeeps : Keeps Db.pool (checkError ok) := .modify fun s => by split <;> rfl
  obtain ⟨_, _ | h⟩ := r
  · exact ⟨fun s hs => ⟨hs.1, (R.output hkeeps).run s hs.2⟩⟩
  · exact (R.stmt h).output hkeeps

/-- What runs on a prepared statement, and fails at once if there is none. -/
theorem prepared_run {m : Bool × Option Handle → DbM α} (f : α → Bool) (r : α)
    (hfails : ∀ prepared, (∀ h, prepared ≠ (true, some h)) → m prepared = pure r) (hr : f r = false)
    (hm : ∀ h, Spec (I h true) (m (true, some h)) (fun r => I h (f r)))
    (prepared : Bool × Option Handle) :
    Spec (Prepared P I prepared) (m prepared) (fun r => Prepared P I (f r, prepared.2)) := by
  by_cases hprepared : ∃ h, prepared = (true, some h)
  · obtain ⟨h, rfl⟩ := hprepared
    exact hm h
  · rw [hfails _ (not_exists.mp hprepared)]
    refine .pure fun s hs => ?_
    obtain ⟨ok, _ | h⟩ := prepared
    · exact ⟨hr, hs.2⟩
    · rw [hr]
      exact (R.stmt h).failed hs

theorem spec_executeStmt (query : Bytes) (exec : Outcome)
    {fetchCb : DbConnectionId → Handle → DbM Bool}
    (hfetch : ∀ h, Spec (I h true) (fetchCb db h) (I h)) (prepared : Bool × Option Handle) :
    Spec (Prepared P I prepared) (executeStmt db query exec fetchCb prepared)
      (fun ok => Prepared P I (ok, prepared.2)) := by
  refine R.prepared_run id false (fun p hp => ?_) rfl (fun h => ?_) prepared
  · rw [executeStmt]
    exact hp
  · exact ((R.stmt h).call .execDirect).bind fun _ => .ite (fun _ => hfetch h) fun _ =>
      ((R.stmt h).setError ..).bind fun _ => .pure fun _ => id

theorem spec_dbExecuteAndFetch (cfg : Config) (query : Bytes) (params : List QueryParam)
    (a : PrepareAnswers) (exec : Outcome) {fetchCb : DbConnectionId → Handle → DbM Bool}
    (hfetch : ∀ h, Spec (I h true) (fetchCb db h) (I h)) :
    Spec P (dbExecuteAndFetch cfg db query params a exec fetchCb) (fun _ => P) :=
  .bind (R.output (.modify fun _ => rfl)) fun _ => (R.spec_dbPrepareAndBind ..).bind fun prepared =>
    (R.spec_executeStmt _ _ hfetch prepared).bind fun _ => R.spec_checkError.bind fun _ =>
      (R.spec_dbCleanupStmt prepared).bind fun _ => .pure fun _ => id

theorem spec_dbGetJson (cfg : Config) (query : Bytes) (params : List QueryParam)
    (a : StatementAnswers (List JsonRowAnswer)) :
    Spec P (dbGetJson cfg db query params a) (fun _ => P) :=
  R.spec_dbExecuteAndFetch _ _ _ _ _ fun h => (R.stmt h).spec_jsonRows ..

theorem spec_dbGetRs2json (fmt17g : Rat → Bytes) (cfg : Config) (query : Bytes)
    (params : List QueryParam) (a : StatementAnswers ResultSetAnswer) :
    Spec P (dbGetRs2json fmt17g cfg db query params a) (fun _ => P) :=
  R.spec_dbExecuteAndFetch _ _ _ _ _ fun h => (R.stmt h).spec_fetchResultsetArray ..

theorem spec_dbGetRs2jsonM (fmt17g : Rat → Bytes) (cfg : Config) (query : Bytes)
    (params : List QueryParam) (a : StatementAnswers ResultsAnswer) :
    Spec P (dbGetRs2jsonM fmt17g cfg db query params a) (fun _ => P) :=
  R.spec_dbExecuteAndFetch _ _ _ _ _ fun h => (R.stmt h).spec_dbFetchJsonmNative ..

theorem spec_querySingleRow (query : Bytes) (outParams : List ParamType) (exec : Outcome)
    (a : SingleRowAnswer) (prepared : Bool × Option Handle) :
    Spec (Prepared P I prepared) (querySingleRow db query outParams exec a prepared)
      (fun r => Prepared P I (r.1, prepared.2)) := by
  refine R.prepared_run Prod.fst (false, false) (fun p hp => ?_) rfl (fun h => ?_) prepared
  · rw [querySingleRow]
    exact hp
  · exact ((R.stmt h).spec_bindOutParams ..).bind fun _ => StmtRules.proceed (fun _ => id) <|
      ((R.stmt h).spec_execQuery ..).bind fun _ => StmtRules.proceed (fun _ => id)
        ((R.stmt h).spec_fetchSingleRow _)

theorem spec_dbQuerySingleRow (cfg : Config) (query : Bytes) (inParams : List QueryParam)
    (outParams : List ParamType) (a : StatementAnswers SingleRowAnswer) :
    Spec P (dbQuerySingleRow cfg db query inParams outParams a) (fun _ => P) :=
  (R.spec_dbPrepareAndBind ..).bind fun prepared => (R.spec_querySingleRow _ _ _ _ prepared).bind
    fun _ => (R.spec_dbCleanupStmt prepared).bind fun _ => .pure fun _ => id

theorem spec_execPrepared (query : Bytes) (exec : Outcome) (prepared : Bool × Option Handle) :
    Spec (Prepared P I prepared) (execPrepared db query exec prepared)
      (fun ok => Prepared P I (ok, prepared.2)) := by
  refine R.prepared_run id false (fun p hp => ?_) rfl (fun h => (R.stmt h).spec_execQuery ..) prepared
  rw [execPrepared]
  exact hp

theorem spec_dbExec (cfg : Config) (query : Option Bytes) (inParams : Option (List QueryParam))
    (inCount : Nat) (prepare : PrepareAnswers) (exec : Outcome) :
    Spec P (dbExec cfg db query inParams inCount prepare exec) (fun _ => P) := by
  cases query with
  | none => exact .pure fun _ => id
  | some query =>
    exact .ite (fun _ => .pure fun _ => id) fun _ => (R.spec_dbPrepareAndBind ..).bind fun prepared =>
      (R.spec_execPrepared _ _ prepared).bind fun _ =>
        (R.spec_dbCleanupStmt prepared).bind fun _ => .pure fun _ => id

end LayerRules
end ApiServer
