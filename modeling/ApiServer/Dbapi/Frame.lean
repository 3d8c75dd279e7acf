import ApiServer.Dbapi.Rules

/-!
# A call on one database leaves the others alone

The handles a thread caches for another database are the same before and after a call of the layer.
-/

namespace ApiServer
open Bytes Function StateRules

/-- The connection and the statement that are cached for a database. -/
def Db.handles (other : DbConnectionId) (s : Db) : Option Handle × Option Handle :=
  (s.hdbc other, s.hstmt other)

section
variable {db other : DbConnectionId}

theorem handles_odbc (call : OdbcCall) : Keeps (Db.handles other) (odbc call) := ⟨fun _ => rfl⟩

theorem handles_newHandle : Keeps (Db.handles other) newHandle := ⟨fun _ => rfl⟩

theorem handles_diagLoop (handle : Handle) (recNum : Nat) (fullMsg : Bytes) (lost : Bool)
    (diags : List DiagRec) : Keeps (Db.handles other) (diagLoop handle recNum fullMsg lost diags) := by
  induction diags generalizing recNum fullMsg lost with
  | nil => exact (handles_odbc _).bind fun _ => .pure _
  | cons diag diags ih =>
    exact (handles_odbc _).bind fun _ => .bind (.modify fun s => by unfold noteNative; split <;> rfl)
      fun _ => ih ..

variable (h : other ≠ db)
include h

theorem handles_apart : Apart db (Db.handles other) where
  call := handles_odbc
  message _ := ⟨fun _ => rfl⟩
  setDbc _ := .modify fun _ => Prod.ext (update_of_ne h ..) rfl
  setStmt _ := .modify fun _ => Prod.ext rfl (update_of_ne h ..)

theorem handles_dbSetError (handle : Handle) (diags : List DiagRec) (msg : Bytes) :
    Keeps (Db.handles other) (dbSetError db handle diags msg) :=
  ⟨fun s => ((handles_apart h).dbSetError_run ..).trans ((handles_diagLoop ..).run s)⟩

theorem handles_dbConnect (cfg : Config) (a : ConnectAnswers) :
    Keeps (Db.handles other) (dbConnect cfg db a) := by
  refine Keeps.get.bind fun s => ?_
  cases s.hdbc db with
  | some hdbc => exact .pure _
  | none =>
    refine .ite (((handles_apart h).message _).bind fun _ => .pure _) (.ite ?_ ?_)
    · exact (handles_odbc _).bind fun _ => (handles_dbSetError h ..).bind fun _ => .pure _
    · refine handles_newHandle.bind fun hdbc => (handles_odbc _).bind fun _ =>
        ((handles_apart h).setDbc _).bind fun _ => (handles_odbc _).bind fun _ =>
        (handles_odbc _).bind fun _ => (handles_odbc _).bind fun _ => .ite ?_ (.pure _)
      exact (handles_dbSetError h ..).bind fun _ =>
        (handles_apart h).keeps_dbResetConnection.bind fun _ => .pure _

theorem handles_dbAllocStmt (hdbc : Handle) (a : Outcome) :
    Keeps (Db.handles other) (dbAllocStmt db hdbc a) := by
  refine Keeps.get.bind fun s => ?_
  cases s.hstmt db with
  | some hstmt => exact .pure _
  | none =>
    refine .ite ?_ ?_
    · exact (handles_odbc _).bind fun _ => (handles_dbSetError h ..).bind fun _ =>
        (handles_apart h).keeps_dbResetConnection.bind fun _ => .pure _
    · exact handles_newHandle.bind fun hstmt => (handles_odbc _).bind fun _ =>
        (handles_odbc _).bind fun _ => ((handles_apart h).setStmt _).bind fun _ => .pure _

theorem handles_layerRules (x : Option Handle × Option Handle) :
    LayerRules db (fun s => s.handles other = x) (fun _ s => s.handles other = x)
      (fun _ _ s => s.handles other = x) where
  stmt hstmt :=
    { failed := id
      call := fun _ => .of_keeps (handles_odbc _) x
      setError := fun _ _ => .of_keeps (handles_dbSetError h ..) x
      output := fun hm => .of_keeps (hm.comp fun p => (p.1 other, p.2.1 other)) x
      destroy := .of_keeps (Keeps.get.bind fun s => .ite (handles_odbc _) (.pure _)) x }
  output hm := .of_keeps (hm.comp fun p => (p.1 other, p.2.1 other)) x
  connect cfg a := (Spec.of_keeps (handles_dbConnect h cfg a) x).conseq (fun _ => id)
    fun r _ hs => by cases r <;> exact hs
  allocStmt hdbc a := (Spec.of_keeps (handles_dbAllocStmt h hdbc a) x).conseq (fun _ => id)
    fun r _ hs => by cases r <;> exact hs
  cleanup := .of_keeps (Keeps.get.bind fun s => .ite ((handles_odbc _).bind fun _ =>
    (handles_odbc _).bind fun _ => handles_odbc _) (.pure _)) x

theorem handles_dbGetRs2json (fmt17g : Rat → Bytes) (cfg : Config) (query : Bytes)
    (params : List QueryParam) (a : StatementAnswers ResultSetAnswer) :
    Keeps (Db.handles other) (dbGetRs2json fmt17g cfg db query params a) :=
  .of_spec fun x => (handles_layerRules h x).spec_dbGetRs2json ..

end
end ApiServer
