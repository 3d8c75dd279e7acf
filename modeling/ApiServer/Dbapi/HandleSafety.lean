import ApiServer.Dbapi.Handles

/-!
# Handles over whole runs

Each function of the layer is left with the statement in use, or with a failure behind which it is
not used any more. Whatever a thread calls and whatever the driver answers, every call is then on a
handle in use, and behind it all cached statements are clean.
-/

namespace ApiServer
open Bytes Function StateRules

section
variable {db : DbConnectionId} {h : Handle} {ok : Bool} {call : OdbcCall}

/-! ## The end of a statement's work -/

theorem exists_of_dbIsValidStmt {s : Db} (h : dbIsValidStmt s h') : ∃ i, s.hstmt i = some h' := by
  simpa [dbIsValidStmt] using h

theorem not_dbIsValidStmt {s : Db} (h : ¬dbIsValidStmt s h') (i : DbConnectionId) :
    s.hstmt i ≠ some h' := by
  simp only [dbIsValidStmt, List.any_eq_true, List.mem_finRange, true_and, beq_iff_eq, not_exists] at h
  exact h i

/-- At the end of a call nothing is left on the statement. -/
theorem holds_dbCleanupStmt :
    Spec (Holds db h ok) (dbCleanupStmt (some h)) (fun _ => Safe none) := by
  refine ⟨fun s ⟨⟨d, hd, H⟩, hh⟩ => ?_⟩
  change Safe none ((if dbIsValidStmt s h then _ else _ : DbM Unit) s).2
  split
  · rename_i hvalid
    obtain ⟨i, hi⟩ := exists_of_dbIsValidStmt hvalid
    obtain ⟨d', hd', H', hclean⟩ := H.cleanup hi
    refine ⟨d', ?_, H'.cleaned fun h' st hdb hst => ?_⟩
    · change Driver.run (((s.calls ++ [_]) ++ [_]) ++ [_]) = _
      rw [Driver.run_concat, Driver.run_concat, Driver.run_concat, hd, Option.bind_some,
        Option.bind_assoc, hd']
    · obtain hh | ⟨-, hnone⟩ := hh
      · cases hh.symm.trans hdb
        exact hclean st hst
      · cases hnone.symm.trans hdb
  · rename_i hinvalid
    refine ⟨d, hd, H.cleaned fun h' st hdb _ => ?_⟩
    obtain hh | ⟨-, hnone⟩ := hh
    · exact absurd hh (not_dbIsValidStmt hinvalid db)
    · cases hnone.symm.trans hdb

/-- A statement that is gone is not asked to release its columns. -/
theorem holds_metadataDestroy :
    Spec (Holds db h ok) (metadataDestroy (some h)) (fun _ => Holds db h ok) := by
  refine ⟨fun s hs => ?_⟩
  change Holds db h ok ((if dbIsValidStmt s h then _ else _ : DbM Unit) s).2
  split
  · rename_i hvalid
    obtain ⟨⟨d, hd, H⟩, hh⟩ := hs
    obtain ⟨i, hi⟩ := exists_of_dbIsValidStmt hvalid
    obtain ⟨d', hd', H'⟩ := H.onStmt (f := fun st => { st with columns := false }) hi
      (fun _ => rfl) fun _ st hst => ⟨hst.1, hst.2.1, rfl⟩
    refine ⟨⟨d', ?_, H'⟩, hh⟩
    change Driver.run (s.calls ++ [_]) = _
    rw [Driver.run_concat, hd]
    exact hd'
  · exact hs

/-! ## Calls of the layer -/

theorem holds_stmtRules : StmtRules db h (Holds db h) where
  failed := Holds.failed
  call := holds_odbc
  setError := holds_dbSetError
  output := holds_keeps
  destroy := holds_metadataDestroy

theorem safe_layerRules :
    LayerRules db (Safe none) (fun c s => Safe none s ∧ s.hdbc db = some c) (Holds db) where
  stmt _ := holds_stmtRules
  output := safe_keeps
  connect cfg a := (safe_dbConnect cfg a).conseq (fun _ => id) fun r s hs => by
    cases r with
    | none => exact hs.1
    | some c => exact ⟨hs.1, hs.2 c rfl⟩
  allocStmt c a := (safe_dbAllocStmt a).conseq (fun _ => id) fun r s hs => by
    cases r with
    | none => exact hs.1
    | some h =>
      obtain ⟨⟨d, hd, H⟩, hh⟩ := hs
      exact ⟨⟨d, hd, H.weaken _⟩, .inl (hh _ rfl)⟩
  cleanup := holds_dbCleanupStmt

end

/-! ## Runs -/

/-- A call of the layer by a thread, with the answers of the driver. `db_alloc_stmt` is given the
connection that `db_connect` has returned for the database. -/
inductive LayerCall where
  | connect (db : DbConnectionId) (a : ConnectAnswers)
  | allocStmt (db : DbConnectionId) (a : Outcome)
  | getJson (db : DbConnectionId) (query : Bytes) (params : List QueryParam) (outBuf : Bytes)
    (a : StatementAnswers (List JsonRowAnswer))
  | getRs2json (db : DbConnectionId) (query : Bytes) (params : List QueryParam) (outBuf : Bytes)
    (a : StatementAnswers ResultSetAnswer)
  | getRs2jsonM (db : DbConnectionId) (query : Bytes) (params : List QueryParam) (outBuf : Bytes)
    (a : StatementAnswers ResultsAnswer)
  | querySingleRow (db : DbConnectionId) (query : Bytes) (inParams : List QueryParam)
    (outParams : List ParamType) (a : StatementAnswers SingleRowAnswer)
  | exec (db : DbConnectionId) (query : Option Bytes) (inParams : Option (List QueryParam))
    (inCount : Nat) (prepare : PrepareAnswers) (a : Outcome)

/-- The output buffer that the caller passes. -/
def setOutBuf (outBuf : Bytes) : DbM Unit := modify fun s => { s with outBuf }

def LayerCall.run (fmt17g : Rat → Bytes) (cfg : Config) : LayerCall → DbM Unit
  | connect db a => discard (dbConnect cfg db a)
  | allocStmt db a => do
    match (← get).hdbc db with
    | some hdbc => discard (dbAllocStmt db hdbc a)
    | none => return
  | getJson db query params outBuf a => do
    setOutBuf outBuf
    discard (dbGetJson cfg db query params a)
  | getRs2json db query params outBuf a => do
    setOutBuf outBuf
    discard (dbGetRs2json fmt17g cfg db query params a)
  | getRs2jsonM db query params outBuf a => do
    setOutBuf outBuf
    discard (dbGetRs2jsonM fmt17g cfg db query params a)
  | querySingleRow db query inParams outParams a =>
    discard (dbQuerySingleRow cfg db query inParams outParams a)
  | exec db query inParams inCount prepare a =>
    discard (dbExec cfg db query inParams inCount prepare a)

/-- The calls of a thread, one after the other. -/
def runLayer (fmt17g : Rat → Bytes) (cfg : Config) (calls : List LayerCall) : DbM Unit :=
  calls.forM (LayerCall.run fmt17g cfg)

theorem safe_discard {m : DbM α} {Q : α → Db → Prop} (hm : Spec (Safe none) m Q)
    (hQ : ∀ r s, Q r s → Safe none s) : Spec (Safe none) (discard m) (fun _ => Safe none) :=
  ⟨fun s hs => hQ _ _ (hm.run s hs)⟩

theorem safe_setOutBuf {outBuf : Bytes} {m : DbM α} (hm : Spec (Safe none) m (fun _ => Safe none)) :
    Spec (Safe none) (do
      setOutBuf outBuf
      discard m) (fun _ => Safe none) :=
  .bind (safe_keeps (.modify fun _ => rfl)) fun _ => safe_discard hm fun _ _ => id

theorem safe_layerCall (fmt17g : Rat → Bytes) (cfg : Config) (call : LayerCall) :
    Spec (Safe none) (call.run fmt17g cfg) (fun _ => Safe none) := by
  cases call with
  | connect db a => exact safe_discard (safe_dbConnect ..) fun _ _ hs => hs.1
  | allocStmt db a =>
    refine safe_of_cached fun hdbc hstmt => .get_bind fun s hs => ?_
    rw [hs.dbcs]
    cases hc : hdbc db with
    | none => exact .pure fun _ => Cached.safe
    | some c => exact ⟨fun s hs => ((safe_dbAllocStmt a).run s ⟨hs.safe, by rw [hs.dbcs, hc]⟩).1⟩
  | getJson => exact safe_setOutBuf (safe_layerRules.spec_dbGetJson ..)
  | getRs2json => exact safe_setOutBuf (safe_layerRules.spec_dbGetRs2json ..)
  | getRs2jsonM => exact safe_setOutBuf (safe_layerRules.spec_dbGetRs2jsonM ..)
  | querySingleRow => exact safe_discard (safe_layerRules.spec_dbQuerySingleRow ..) fun _ _ => id
  | exec => exact safe_discard (safe_layerRules.spec_dbExec ..) fun _ _ => id

theorem safe_runLayer (fmt17g : Rat → Bytes) (cfg : Config) (calls : List LayerCall) :
    Spec (Safe none) (runLayer fmt17g cfg calls) (fun _ => Safe none) := by
  induction calls with
  | nil => exact .pure fun _ => id
  | cons call calls ih => exact (safe_layerCall ..).bind fun _ => ih

/-- A thread begins with empty caches. -/
theorem safe_start (alloc : Allocator) (tls : ThreadLocals) : Safe none { alloc, tls } :=
  ⟨{}, rfl, nofun, nofun, nofun, nofun, nofun⟩

/-- Whatever a thread calls and whatever the driver answers, no call is on a handle that is not in
use, and a cached statement is one of the cached connection. -/
theorem odbc_handles_safe (fmt17g : Rat → Bytes) (cfg : Config) (calls : List LayerCall)
    (alloc : Allocator) (tls : ThreadLocals) :
    let s := (runLayer fmt17g cfg calls { alloc, tls }).2
    ∃ d, Driver.run s.calls = some d ∧ ∀ i h, s.hstmt i = some h →
      ∃ c st, s.hdbc i = some c ∧ d.dbc c = true ∧ d.stmt h = some st ∧ st.hdbc = c := by
  obtain ⟨d, hd, H⟩ := (safe_runLayer fmt17g cfg calls).run _ (safe_start alloc tls)
  refine ⟨d, hd, fun i h hh => ?_⟩
  obtain ⟨st, hst, hc⟩ := H.stmt hh
  exact ⟨st.hdbc, st, hc, H.dbc hc, hst, rfl⟩

/-- Behind every call the cached statements have no cursor and no bindings. -/
theorem odbc_statements_clean (fmt17g : Rat → Bytes) (cfg : Config) (calls : List LayerCall)
    (alloc : Allocator) (tls : ThreadLocals) :
    let s := (runLayer fmt17g cfg calls { alloc, tls }).2
    ∃ d, Driver.run s.calls = some d ∧ ∀ i h, s.hstmt i = some h →
      ∃ st, d.stmt h = some st ∧ st.cursor = false ∧ st.params = false ∧ st.columns = false := by
  obtain ⟨d, hd, H⟩ := (safe_runLayer fmt17g cfg calls).run _ (safe_start alloc tls)
  refine ⟨d, hd, fun i h hh => ?_⟩
  obtain ⟨st, hst, -⟩ := H.stmt hh
  exact ⟨st, hst, H.clean hh hst nofun⟩

end ApiServer
