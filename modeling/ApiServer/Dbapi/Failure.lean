import ApiServer.Dbapi.RowText
import ApiServer.Dbapi.Rules

/-!
# How a conversation with the driver ends

Of all that the database layer touches, a caller sees the output buffer and, through the label
`check_error`, the last native error. A conversation either comes to its end or fails at one call.
Which of the two happens is decided by the answers of the driver, and this module says how: for each
function of the layer there is a function of the answers alone that finds the call that fails.
-/

namespace ApiServer
open Bytes Function StateRules

abbrev Native := Int × CBuf 512

/-- The output buffer and the last native error. -/
def Db.view (s : Db) : Bytes × Native := (s.outBuf, s.tls.lastNativeError, s.tls.lastErrorMsg)

def note (native : Native) (diag : DiagRec) : Native :=
  if 50000 ≤ diag.native then
    (diag.native, .strlcpy 512 (cleanOdbcErrorMessage diag.msg.text))
  else native

/-- Run from `s`, the program writes nothing. It fails if `diags` has records of a call, which may
be none; `ok` reads success off its result. -/
structure Quiet (ok : α → Bool) (m : DbM α) (s : Db) (diags : Option (List DiagRec)) : Prop where
  ok : ok (m s).1 = diags.isNone
  view : (m s).2.view = (s.outBuf, (diags.getD []).foldl note s.view.2)

/-- The call at which a conversation fails: its diagnostic records, and whether a part of the
document has been written by then. -/
structure Failure where
  diags : List DiagRec
  streamed : Bool

/-- One of the records has an error number of the application's own. -/
def Failure.Reported (f : Failure) : Prop := ∃ diag ∈ f.diags, 50000 ≤ diag.native

/-- Run from `s`, the program writes `text` and fails where `f` says, when `before` tells whether a
part of the document has been written in front of it. -/
structure Writes (ok : α → Bool) (m : DbM α) (s : Db) (before : Bool) (text : Bytes)
    (f : Option Failure) : Prop where
  ok : ok (m s).1 = f.isNone
  view : (m s).2.view = (s.outBuf ++ text, (f.elim [] (·.diags)).foldl note s.view.2)
  streamed : ∀ x, f = some x → x.streamed = (before || text != [])

def Ends (ok : α → Bool) (m : DbM α) (s : Db) (before : Bool) (f : Option Failure) : Prop :=
  ∃ text, Writes ok m s before text f

/-! ## Errors -/

theorem view_noteNative (s : Db) (diag : DiagRec) :
    { s with tls := noteNative s.tls diag }.view = (s.outBuf, note s.view.2 diag) := by
  unfold noteNative note Db.view
  split <;> rfl

theorem view_diagLoop (handle : Handle) (recNum : Nat) (fullMsg : Bytes) (lost : Bool)
    (diags : List DiagRec) (s : Db) :
    ((diagLoop handle recNum fullMsg lost diags) s).2.view =
      (s.outBuf, diags.foldl note s.view.2) := by
  induction diags generalizing s recNum fullMsg lost with
  | nil => rfl
  | cons diag diags ih =>
    simp only [diagLoop, bind_run, modify_run]
    rw [ih]
    exact congrArg (fun v : Bytes × Native => (v.1, diags.foldl note v.2)) (view_noteNative _ diag)

theorem keeps_odbc (call : OdbcCall) : Keeps Db.view (odbc call) := ⟨fun _ => rfl⟩

theorem view_apart (db : DbConnectionId) : Apart db Db.view where
  call := keeps_odbc
  message _ := ⟨fun _ => rfl⟩
  setDbc _ := .modify fun _ => rfl
  setStmt _ := .modify fun _ => rfl

theorem view_dbSetError (db : DbConnectionId) (handle : Handle) (diags : List DiagRec) (msg : Bytes)
    (s : Db) :
    ((dbSetError db handle diags msg) s).2.view = (s.outBuf, diags.foldl note s.view.2) :=
  ((view_apart db).dbSetError_run ..).trans (view_diagLoop handle 1 [] false diags s)

/-! ## Rules -/

/-- What is done after a failure: nothing that a caller sees. -/
structure GivesUp (ok : α → Bool) (m : DbM α) : Prop where
  keeps : Keeps Db.view m
  bad : ∀ s, ok (m s).1 = false

theorem GivesUp.pure {ok : α → Bool} (h : ok a = false) : GivesUp ok (Pure.pure a) :=
  ⟨.pure a, fun _ => h⟩

theorem GivesUp.after {ok : α → Bool} {m : DbM β} (hm : Keeps Db.view m) (h : ok a = false) :
    GivesUp ok (m >>= fun _ => Pure.pure a) :=
  ⟨hm.bind fun _ => .pure a, fun _ => h⟩

namespace Quiet
variable {ok : α → Bool} {ok' : β → Bool} {m : DbM α} {s : Db} {diags : Option (List DiagRec)}

theorem success {a : α} (h : ok a = true) : Quiet ok (Pure.pure a) s none := ⟨h, rfl⟩

/-- Give up without an error of the driver. -/
theorem giveUp {a : α} (h : ok a = false) : Quiet ok (Pure.pure a) s (some []) := ⟨h, rfl⟩

theorem setError {k : Unit → DbM α} (hk : ∀ u, GivesUp ok (k u)) :
    Quiet ok (dbSetError db handle recs msg >>= k) s (some recs) := by
  refine ⟨(hk _).bad _, ?_⟩
  rw [bind_run, (hk _).keeps.run, view_dbSetError]
  rfl

theorem bind {k : α → DbM β} (h : Quiet ok m s diags)
    (hfail : ∀ a, ok a = false → GivesUp ok' (k a))
    (hok : diags = none → ok (m s).1 = true → Quiet ok' (k (m s).1) (m s).2 diags') :
    Quiet ok' (m >>= k) s (diags.or diags') := by
  cases diags with
  | none =>
    have h' := hok rfl h.ok
    have hout : (m s).2.outBuf = s.outBuf := congrArg Prod.fst h.view
    exact ⟨h'.ok, by rw [bind_run, h'.view, h.view, hout]; rfl⟩
  | some diags =>
    have hstop := hfail _ h.ok
    exact ⟨hstop.bad _, (hstop.keeps.run _).trans h.view⟩

theorem of_keeps (h : Keeps Db.view m) : Quiet (fun _ => true) m s none :=
  ⟨rfl, h.run s⟩

theorem skip {k : α → DbM β} (hm : Keeps Db.view m) (h : Quiet ok' (k (m s).1) (m s).2 diags) :
    Quiet ok' (m >>= k) s diags :=
  (of_keeps hm).bind nofun fun _ _ => h

theorem writes (h : Quiet ok m s diags) (before : Bool) :
    Writes ok m s before [] (diags.map (⟨·, before⟩)) := by
  refine ⟨?_, ?_, ?_⟩
  · rw [h.ok, Option.isNone_map]
  · rw [h.view, List.append_nil]
    cases diags <;> rfl
  · simp

end Quiet

theorem bne_nil_append (a b : Bytes) : (a != [] || b != []) = (a ++ b != []) := by
  cases a <;> rfl

namespace Writes
variable {ok : α → Bool} {ok' : β → Bool} {m : DbM α} {s : Db} {before : Bool} {f f' : Option Failure}

theorem outBuf_eq (h : Writes ok m s before text f) : (m s).2.outBuf = s.outBuf ++ text :=
  congrArg Prod.fst h.view

theorem seq {k : α → DbM β} (h : Writes ok m s before text none)
    (h' : Writes ok' (k (m s).1) (m s).2 (before || text != []) text' f) :
    Writes ok' (m >>= k) s before (text ++ text') f := by
  refine ⟨h'.ok, h'.view.trans ?_, fun x hx => (h'.streamed x hx).trans ?_⟩
  · rw [h.outBuf_eq, h.view, List.append_assoc]
    rfl
  · rw [Bool.or_assoc, bne_nil_append]

theorem skip {k : α → DbM β} (hm : Keeps Db.view m)
    (h : Writes ok' (k (m s).1) (m s).2 before text f) : Writes ok' (m >>= k) s before text f := by
  refine seq ((Quiet.of_keeps hm).writes before) ?_
  rwa [show (before || ([] : Bytes) != []) = before from Bool.or_false _]

theorem add {data : Bytes} {k : Unit → DbM α}
    (h : Writes ok (k ()) { s with outBuf := s.outBuf ++ data } (before || data != []) text f) :
    Writes ok (evbufferAdd data >>= k) s before (data ++ text) f :=
  have hadd : Writes (fun _ : Unit => true) (evbufferAdd data) s before data none :=
    ⟨rfl, rfl, nofun⟩
  hadd.seq h

/-- What is done behind a conversation and keeps what a caller sees. -/
theorem post {k : α → DbM β} (h : Writes ok m s before text f) (hk : ∀ a, Keeps Db.view (k a))
    (hok : ∀ a s, ok' (k a s).1 = ok a) : Writes ok' (m >>= k) s before text f :=
  ⟨(hok _ _).trans h.ok, ((hk _).run _).trans h.view, h.streamed⟩

end Writes

namespace Ends
variable {ok : α → Bool} {ok' : β → Bool} {m : DbM α} {s : Db} {before : Bool} {f f' : Option Failure}

/-- Behind a failure nothing more is done. -/
theorem stop {k : α → DbM β} (h : Writes ok m s before text (some x))
    (hfail : ∀ a, ok a = false → GivesUp ok' (k a)) :
    Ends ok' (m >>= k) s before (some x) := by
  have hstop := hfail _ h.ok
  exact ⟨text, hstop.bad _, (hstop.keeps.run _).trans h.view, h.streamed⟩

theorem bind {k : α → DbM β} (h : Writes ok m s before text f)
    (hfail : ∀ a, ok a = false → GivesUp ok' (k a))
    (hok : f = none → ok (m s).1 = true →
      Ends ok' (k (m s).1) (m s).2 (before || text != []) f') :
    Ends ok' (m >>= k) s before (f.or f') := by
  cases f with
  | none =>
    obtain ⟨text', h'⟩ := hok rfl h.ok
    exact ⟨text ++ text', h.seq h'⟩
  | some x => exact stop h hfail

/-- In front of what writes stands what does not. -/
theorem after {k : α → DbM β} {diags : Option (List DiagRec)} (h : Quiet ok m s diags)
    (hfail : ∀ a, ok a = false → GivesUp ok' (k a))
    (hok : diags = none → ok (m s).1 = true → Ends ok' (k (m s).1) (m s).2 before f) :
    Ends ok' (m >>= k) s before ((diags.map (⟨·, before⟩)).or f) := by
  refine bind (h.writes before) hfail fun hf h' => ?_
  rw [show (before || ([] : Bytes) != []) = before from Bool.or_false _]
  exact hok (Option.map_eq_none_iff.mp hf) h'

theorem skip {k : α → DbM β} (hm : Keeps Db.view m) (h : Ends ok' (k (m s).1) (m s).2 before f) :
    Ends ok' (m >>= k) s before f :=
  h.elim fun text h => ⟨text, h.skip hm⟩

theorem add {data : Bytes} {k : Unit → DbM α}
    (h : Ends ok (k ()) { s with outBuf := s.outBuf ++ data } (before || data != []) f) :
    Ends ok (evbufferAdd data >>= k) s before f :=
  h.elim fun text h => ⟨data ++ text, h.add⟩

end Ends

/-! ## Connections and statements -/

/-- The records of an answer that is no success. -/
def Outcome.failure (a : Outcome) : Option (List DiagRec) :=
  if sqlSucceeded a.ret then none else some a.diags

/-- The first of `n` answers that is no success; those behind the end of the list are. -/
def callsFailure : Nat → List Outcome → Option (List DiagRec)
  | 0, _ => none
  | n + 1, answers => (answers.headD {}).failure.or (callsFailure n answers.tail)

def connectFailure (cfg : Config) (s : Db) (db : DbConnectionId) (a : ConnectAnswers) :
    Option (List DiagRec) :=
  if (s.hdbc db).isSome then none
  else if (cfg.odbcConnStrs db).text = [] then some []
  else a.allocHandle.failure.or a.driverConnect.failure

def stmtFailure (s : Db) (db : DbConnectionId) (a : Outcome) : Option (List DiagRec) :=
  if (s.hstmt db).isSome then none else a.failure

def prepareFailure (cfg : Config) (s : Db) (db : DbConnectionId) (params : List QueryParam)
    (a : PrepareAnswers) : Option (List DiagRec) :=
  (connectFailure cfg s db a.connect).or <| (stmtFailure s db a.allocStmt).or <|
    callsFailure params.length a.bindParameter

theorem keeps_newHandle : Keeps Db.view newHandle := ⟨fun _ => rfl⟩

theorem dbConnect_quiet (cfg : Config) (s : Db) (db : DbConnectionId) (a : ConnectAnswers) :
    Quiet Option.isSome (dbConnect cfg db a) s (connectFailure cfg s db a) := by
  unfold dbConnect connectFailure Outcome.failure
  refine .skip .get ?_
  rw [get_run]
  cases s.hdbc db with
  | some hdbc => exact .success rfl
  | none =>
    simp only [Option.isSome_none, Bool.false_eq_true, if_false]
    split
    · exact .skip ((view_apart db).message _) (.giveUp rfl)
    cases ha : sqlSucceeded a.allocHandle.ret with
    | false => exact .skip (keeps_odbc _) (.setError fun _ => .pure rfl)
    | true =>
      refine .skip keeps_newHandle <| .skip (keeps_odbc _) <| .skip (.modify fun _ => rfl) <|
        .skip (keeps_odbc _) <| .skip (keeps_odbc _) <| .skip (keeps_odbc _) ?_
      cases hc : sqlSucceeded a.driverConnect.ret with
      | false =>
        exact .setError fun _ => .after (view_apart db).keeps_dbResetConnection rfl
      | true => exact .success rfl

theorem dbConnect_hstmt (cfg : Config) (s : Db) (db : DbConnectionId) (a : ConnectAnswers)
    (h : (dbConnect cfg db a s).1.isSome) : (dbConnect cfg db a s).2.hstmt = s.hstmt := by
  revert h
  simp only [dbConnect, bind_run, get_run]
  cases s.hdbc db with
  | some hdbc => exact fun _ => rfl
  | none =>
    simp only [ite_run, bind_run]
    split
    · nofun
    split
    · nofun
    split
    · nofun
    · exact fun _ => rfl

theorem dbAllocStmt_quiet (s : Db) (db : DbConnectionId) (hdbc : Handle) (a : Outcome) :
    Quiet Option.isSome (dbAllocStmt db hdbc a) s (stmtFailure s db a) := by
  unfold dbAllocStmt stmtFailure Outcome.failure
  refine .skip .get ?_
  rw [get_run]
  cases s.hstmt db with
  | some hstmt => exact .success rfl
  | none =>
    cases ha : sqlSucceeded a.ret with
    | false =>
      exact .skip (keeps_odbc _) <|
        .setError fun _ => .after (view_apart db).keeps_dbResetConnection rfl
    | true =>
      exact .skip keeps_newHandle <| .skip (keeps_odbc _) <| .skip (keeps_odbc _) <|
        .skip (.modify fun _ => rfl) (.success rfl)

/-- A call whose answer is checked at once. -/
theorem call_quiet {s : Db} {a : Outcome} {call : OdbcCall} {ok : α → Bool} {x : α} {k : DbM α}
    (hx : ok x = false) (hk : sqlSucceeded a.ret = true → Quiet ok k (odbc call s).2 diags) :
    Quiet ok (do
      odbc call
      if !sqlSucceeded a.ret then
        dbSetError db hstmt a.diags msg
        return x
      else k) s (a.failure.or diags) := by
  unfold Outcome.failure
  refine .skip (keeps_odbc _) ?_
  cases ha : sqlSucceeded a.ret with
  | false => exact .setError fun _ => .pure hx
  | true => exact hk ha

theorem bindParams_quiet (s : Db) (db : DbConnectionId) (hstmt : Handle) (index : Nat)
    (params : List QueryParam) (answers : List Outcome) :
    Quiet id (bindParams db hstmt index params answers) s (callsFailure params.length answers) := by
  induction params generalizing s index answers with
  | nil => exact .success rfl
  | cons param params ih =>
    have hone : Quiet id (dbBindParam db hstmt index param (answers.headD {})) s
        (answers.headD {}).failure := by
      rw [← Option.or_none (o := (answers.headD {}).failure)]
      exact call_quiet rfl fun _ => .success rfl
    refine hone.bind ?_ fun _ h => ?_
    · rintro _ rfl
      exact .pure rfl
    · rw [show (dbBindParam db hstmt index param (answers.headD {}) s).1 = true from h]
      exact ih ..

theorem dbPrepareAndBind_quiet (cfg : Config) (s : Db) (db : DbConnectionId)
    (params : List QueryParam) (a : PrepareAnswers) :
    Quiet (fun r => r.1 && r.2.isSome) (dbPrepareAndBind cfg db params a) s
      (prepareFailure cfg s db params a) := by
  refine (dbConnect_quiet cfg s db a.connect).bind ?_ fun _ hok => ?_
  · rintro (_ | _) h
    · exact .pure rfl
    · cases h
  have hstmt := dbConnect_hstmt cfg s db a.connect hok
  obtain ⟨hdbc, hhdbc⟩ := Option.isSome_iff_exists.mp hok
  rw [hhdbc, show stmtFailure s db a.allocStmt =
    stmtFailure (dbConnect cfg db a.connect s).2 db a.allocStmt by rw [stmtFailure, ← hstmt]; rfl]
  refine (dbAllocStmt_quiet _ db hdbc a.allocStmt).bind ?_ fun _ hok => ?_
  · rintro (_ | _) h
    · exact .pure rfl
    · cases h
  obtain ⟨hstmt, hhstmt⟩ := Option.isSome_iff_exists.mp hok
  rw [hhstmt]
  have h := bindParams_quiet (dbAllocStmt db hdbc a.allocStmt (dbConnect cfg db a.connect s).2).2 db
    hstmt 1 params a.bindParameter
  exact ⟨by rw [← h.ok]; exact Bool.and_true _, h.view⟩

/-! ## Native JSON documents -/

/-- How the loop over `SQLGetData` ends: in a failure, or with a part of the document written. -/
def dataEnd (streamed : Bool) : List DataAnswer → Except Failure Bool
  | [] => .ok streamed
  | a :: answers =>
    if !sqlSucceeded a.ret ∧ a.ret ≠ sqlNoData then .error ⟨a.diags, streamed⟩
    else if a.indicator = sqlNullData then .ok true
    else
      let payload := if a.ret ≠ sqlNoData then a.payload else []
      let streamed := streamed || payload != []
      if a.ret = sqlSuccessWithInfo then dataEnd streamed answers else .ok streamed

def dataFailure (streamed : Bool) (answers : List DataAnswer) : Option Failure :=
  match dataEnd streamed answers with
  | .error f => some f
  | .ok _ => none

def jsonFailure (streamed : Bool) : List JsonRowAnswer → Option Failure
  | [] => none
  | row :: rows =>
    if row.fetch.ret = sqlNoData then none
    else (row.fetch.failure.map (⟨·, streamed⟩)).or <|
      match dataEnd streamed row.getData with
      | .error f => some f
      | .ok streamed => jsonFailure streamed rows

theorem fetchJsonNativeColLoop_writes (s : Db) (db : DbConnectionId) (hstmt : Handle)
    (written : Bool) (answers : List DataAnswer) :
    ∃ text, Writes Prod.fst (fetchJsonNativeColLoop db hstmt written answers) s written text
        (dataFailure written answers) ∧
      ∀ streamed, dataEnd written answers = .ok streamed →
        (fetchJsonNativeColLoop db hstmt written answers s).1.2 = streamed ∧
          streamed = (written || text != []) := by
  unfold dataFailure
  induction answers generalizing s written with
  | nil =>
    refine ⟨[], .skip (keeps_odbc _) (Quiet.writes (.success rfl) written), ?_⟩
    rintro _ ⟨⟩
    exact ⟨rfl, (Bool.or_false _).symm⟩
  | cons a answers ih =>
    unfold fetchJsonNativeColLoop dataEnd
    by_cases hbad : !sqlSucceeded a.ret ∧ a.ret ≠ sqlNoData
    · simp only [if_pos hbad]
      exact ⟨[], .skip (keeps_odbc _) <|
        (Quiet.setError fun _ => .pure rfl).writes written, nofun⟩
    simp only [if_neg hbad]
    by_cases hnull : a.indicator = sqlNullData
    · simp only [if_pos hnull]
      refine ⟨_, .skip (keeps_odbc _) (.add (Quiet.writes (.success rfl) _)), ?_⟩
      rintro _ ⟨⟩
      exact ⟨rfl, by cases written <;> rfl⟩
    simp only [if_neg hnull]
    generalize (if a.ret ≠ sqlNoData then a.payload else []) = payload
    by_cases hmore : a.ret = sqlSuccessWithInfo
    · simp only [if_pos hmore]
      obtain ⟨text, hw, hend⟩ := ih
        { s with calls := s.calls ++ [.getData hstmt], outBuf := s.outBuf ++ payload } _
      refine ⟨payload ++ text, .skip (keeps_odbc _) (.add hw), fun streamed h => ?_⟩
      obtain ⟨hresult, hstreamed⟩ := hend streamed h
      exact ⟨hresult, by rw [hstreamed, Bool.or_assoc, bne_nil_append]⟩
    · simp only [if_neg hmore]
      refine ⟨_, .skip (keeps_odbc _) (.add (Quiet.writes (.success rfl) _)), ?_⟩
      rintro _ ⟨⟩
      exact ⟨rfl, by rw [List.append_nil]⟩

theorem jsonRows_ends (s : Db) (db : DbConnectionId) (hstmt : Handle) (hasRows written : Bool)
    (rows : List JsonRowAnswer) :
    Ends id (jsonRows db hstmt hasRows written rows) s written (jsonFailure written rows) := by
  induction rows generalizing s hasRows written with
  | nil => exact .skip (keeps_odbc _) (.add ⟨_, Quiet.writes (.success rfl) _⟩)
  | cons row rows ih =>
    unfold jsonRows jsonFailure
    by_cases hdone : row.fetch.ret = sqlNoData
    · simp only [if_pos hdone]
      exact .skip (keeps_odbc _) (.add ⟨_, Quiet.writes (.success rfl) _⟩)
    simp only [if_neg hdone]
    refine .skip (keeps_odbc _) ?_
    cases hfetch : sqlSucceeded row.fetch.ret with
    | false =>
      rw [Outcome.failure, hfetch]
      exact ⟨_, (Quiet.setError fun _ => .pure rfl).writes written⟩
    | true =>
      rw [Outcome.failure, hfetch]
      simp only [if_true, Option.map_none, Option.none_or]
      have hfail : ∀ r : Bool × Bool, r.1 = false →
          GivesUp id (if !r.1 then pure false else jsonRows db hstmt true r.2 rows) := by
        rintro ⟨_, _⟩ rfl
        exact .pure rfl
      obtain ⟨text, hw, hend⟩ := fetchJsonNativeColLoop_writes (odbc (.fetch hstmt) s).2 db hstmt
        written row.getData
      unfold dataFailure at hw
      cases hdata : dataEnd written row.getData with
      | error f =>
        rw [hdata] at hw
        exact .stop hw hfail
      | ok streamed =>
        rw [hdata] at hw
        obtain ⟨hresult, hstreamed⟩ := hend streamed hdata
        refine .bind hw hfail fun _ hok => ?_
        rw [← hstreamed, ← hresult]
        simp only [hok, Bool.not_true, Bool.false_eq_true, if_false]
        exact ih ..

/-! ## Result sets -/

def describeFailure : (numCols total : Nat) → List DescribeAnswer → Option (List DiagRec)
  | 0, _, _ => none
  | numCols + 1, total, answers =>
    let a := answers.headD {}
    let total := total + (describeColumn a).allocSize
    a.failure.or (if 2 ^ 64 ≤ total then some a.diags else describeFailure numCols total answers.tail)

/-- The size of the arena for the buffers of `numCols` columns. -/
def arenaSize : (numCols total : Nat) → List DescribeAnswer → Nat
  | 0, total, _ => total
  | numCols + 1, total, answers =>
    arenaSize numCols (total + (describeColumn (answers.headD {})).allocSize) answers.tail

/-- The columns that `numCols` answers describe. -/
def describedColumns : Nat → List DescribeAnswer → List ColumnDescriptor
  | 0, _ => []
  | numCols + 1, answers => describeColumn (answers.headD {}) :: describedColumns numCols answers.tail

theorem length_describedColumns (numCols : Nat) (answers : List DescribeAnswer) :
    (describedColumns numCols answers).length = numCols := by
  induction numCols generalizing answers with
  | zero => rfl
  | succ numCols ih => exact congrArg (· + 1) (ih answers.tail)

def allocFailure (numCols : Nat) (a : ColumnsAnswer) : Option (List DiagRec) :=
  if 256 < numCols ∧ !a.callocOk then some []
  else (describeFailure numCols 0 a.describe).or <|
    let total := arenaSize numCols 0 a.describe
    if total = 0 then some [] else if 1024 * 1024 < total ∧ !a.mallocOk then some [] else none

def columnsFailure (a : ColumnsAnswer) : Option (List DiagRec) :=
  a.numResultCols.failure.or <|
    if a.numCols = 0 then none
    else if a.numCols < 0 then some []
    else (allocFailure a.numCols.toNat a).or (callsFailure a.numCols.toNat a.bindCol)

def rowsFailure : List RowAnswer → Option (List DiagRec)
  | [] => none
  | row :: rows =>
    if row.fetch.ret = sqlNoData then none else row.fetch.failure.or (rowsFailure rows)

/-- A failed `SQLFetch` finds the bracket that opens the array in the buffer. -/
def arrayFailure (writeBrackets streamed : Bool) (a : ResultSetAnswer) : Option Failure :=
  ((columnsFailure a.columns).map (⟨·, streamed⟩)).or <|
    if writeBrackets ∧ a.columns.numCols = 0 then none else (rowsFailure a.rows).map (⟨·, true⟩)

/-- The fixed types are bound with the size that is read. -/
theorem columnType_size (sqlType : SqlType) (colSize : Nat) :
    match columnType sqlType colSize with
    | (.bit, size) => size = 1
    | (.slong, size) => size = 4
    | (.sbigint, size) | (.double, size) => size = 8
    | (.char, size) => 64 < size ∧ size ≤ 65600 := by
  cases sqlType with
  | bit | tinyint | smallint | integer | bigint | real | float | double => rfl
  | decimal | numeric | other =>
    dsimp only [columnType]
    split <;> omega

theorem allocSize_char {a : DescribeAnswer} (h : (describeColumn a).cType = .char) :
    64 < (describeColumn a).allocSize := by
  have hsize := columnType_size a.sqlType a.colSize
  rw [show columnType a.sqlType a.colSize = (.char, (describeColumn a).allocSize) from
    Prod.ext h rfl] at hsize
  exact hsize.1

theorem allocSize_bounds (a : DescribeAnswer) :
    0 < (describeColumn a).allocSize ∧ (describeColumn a).allocSize ≤ 65600 := by
  have hsize := columnType_size a.sqlType a.colSize
  change 0 < (columnType a.sqlType a.colSize).2 ∧ (columnType a.sqlType a.colSize).2 ≤ 65600
  generalize columnType a.sqlType a.colSize = t at hsize
  obtain ⟨_ | _ | _ | _ | _, size⟩ := t <;> dsimp only at hsize ⊢ <;> omega

theorem setupColumnMetadata_quiet (s : Db) (db : DbConnectionId) (hstmt : Handle)
    (numCols index total : Nat) (answers : List DescribeAnswer) :
    Quiet Option.isSome (setupColumnMetadata db hstmt numCols index total answers) s
      (describeFailure numCols total answers) := by
  induction numCols generalizing s index total answers with
  | zero => exact .success rfl
  | succ numCols ih =>
    refine call_quiet rfl fun _ => ?_
    by_cases hover : 2 ^ 64 ≤ total + (describeColumn (answers.headD {})).allocSize
    · simp only [if_pos hover]
      exact .setError fun _ => .pure rfl
    · simp only [if_neg hover]
      rw [← Option.or_none (o := describeFailure ..)]
      refine (ih ..).bind ?_ fun _ hok => ?_
      · rintro (_ | _) h
        · exact .pure rfl
        · cases h
      · obtain ⟨⟨cols, total⟩, hcols⟩ := Option.isSome_iff_exists.mp hok
        rw [hcols]
        exact .success rfl

theorem setupColumnMetadata_eq_some {s : Db} {numCols : Nat} {answers : List DescribeAnswer}
    (h : (setupColumnMetadata db hstmt numCols index total answers s).1 = some (cols, size)) :
    cols = describedColumns numCols answers ∧ size = arenaSize numCols total answers := by
  induction numCols generalizing s index total answers cols size with
  | zero =>
    cases h
    exact ⟨rfl, rfl⟩
  | succ numCols ih =>
    revert h
    simp only [setupColumnMetadata, bind_run, ite_run]
    split
    · nofun
    split
    · nofun
    generalize hrest : setupColumnMetadata db hstmt numCols _ _ _ _ = rest
    obtain ⟨_ | ⟨cols', size'⟩, s'⟩ := rest
    · nofun
    · rintro ⟨⟩
      obtain ⟨hcols, hsize⟩ := ih (congrArg Prod.fst hrest)
      exact ⟨congrArg (describeColumn (answers.headD {}) :: ·) hcols, hsize⟩

theorem allocMetadataCols_quiet (s : Db) (db : DbConnectionId) (hstmt : Handle) (numCols : Nat)
    (a : ColumnsAnswer) :
    Quiet Option.isSome (allocMetadataCols db hstmt numCols a) s (allocFailure numCols a) := by
  unfold allocMetadataCols allocFailure
  by_cases hcalloc : 256 < numCols ∧ !a.callocOk
  · simp only [if_pos hcalloc]
    exact .giveUp rfl
  simp only [if_neg hcalloc]
  refine (setupColumnMetadata_quiet ..).bind ?_ fun _ hok => ?_
  · rintro (_ | _) h
    · exact .pure rfl
    · cases h
  obtain ⟨⟨cols, total⟩, hcols⟩ := Option.isSome_iff_exists.mp hok
  rw [← (setupColumnMetadata_eq_some hcols).2, hcols]
  by_cases hzero : total = 0
  · simp only [if_pos hzero]
    exact .giveUp rfl
  by_cases hmalloc : 1024 * 1024 < total ∧ !a.mallocOk
  · simp only [if_neg hzero, if_pos hmalloc]
    exact .giveUp rfl
  · simp only [if_neg hzero, if_neg hmalloc]
    exact .success rfl

theorem allocMetadataCols_eq_some {s : Db}
    (h : (allocMetadataCols db hstmt numCols a s).1 = some cols) :
    cols = describedColumns numCols a.describe := by
  revert h
  simp only [allocMetadataCols, bind_run, ite_run]
  split
  · nofun
  generalize hcols : setupColumnMetadata db hstmt numCols _ _ _ _ = setup
  obtain ⟨_ | ⟨cols', size⟩, s'⟩ := setup
  · nofun
  · simp only [ite_run]
    split
    · nofun
    split
    · nofun
    · rintro ⟨⟩
      exact (setupColumnMetadata_eq_some (congrArg Prod.fst hcols)).1

theorem bindCols_quiet (s : Db) (db : DbConnectionId) (hstmt : Handle) (numCols index : Nat)
    (answers : List Outcome) :
    Quiet id (bindCols db hstmt numCols index answers) s (callsFailure numCols answers) := by
  induction numCols generalizing s index answers with
  | zero => exact .success rfl
  | succ numCols ih => exact call_quiet rfl fun _ => ih ..

theorem odbcBindResultsetMetadata_quiet (s : Db) (db : DbConnectionId) (hstmt : Handle)
    (a : ColumnsAnswer) :
    Quiet (·.2.isSome) (odbcBindResultsetMetadata db hstmt a) s (columnsFailure a) := by
  refine call_quiet rfl fun _ => ?_
  by_cases hzero : a.numCols = 0
  · simp only [if_pos hzero]
    exact .success rfl
  by_cases hneg : a.numCols < 0
  · simp only [if_neg hzero, if_pos hneg]
    exact .giveUp rfl
  simp only [if_neg hzero, if_neg hneg]
  refine (allocMetadataCols_quiet ..).bind ?_ fun _ hok => ?_
  · rintro (_ | _) h
    · exact .pure rfl
    · cases h
  obtain ⟨cols, hcols⟩ := Option.isSome_iff_exists.mp hok
  have hlength : cols.length = a.numCols.toNat := by
    rw [allocMetadataCols_eq_some hcols, length_describedColumns]
  rw [hcols, ← Option.or_none (o := callsFailure ..), ← hlength]
  refine (bindCols_quiet ..).bind ?_ fun _ hbound => ?_
  · rintro _ rfl
    exact .pure rfl
  · rw [show (bindCols ..).1 = true from hbound]
    exact .success rfl

theorem odbcBindResultsetMetadata_eq_some {s : Db}
    (h : (odbcBindResultsetMetadata db hstmt a s).1.2 = some cols) :
    0 ≤ a.numCols ∧ cols = describedColumns a.numCols.toNat a.describe := by
  revert h
  simp only [odbcBindResultsetMetadata, bind_run, ite_run]
  split
  · nofun
  split
  · next hzero =>
    rintro ⟨⟩
    simp [hzero, describedColumns]
  split
  · nofun
  · next hneg =>
    generalize hcols : allocMetadataCols db hstmt _ a _ = alloc
    obtain ⟨_ | cols', s'⟩ := alloc
    · nofun
    · simp only [bind_run, ite_run]
      split
      · rintro ⟨⟩
        exact ⟨by omega, allocMetadataCols_eq_some (congrArg Prod.fst hcols)⟩
      · nofun

theorem fetchRows_quiet (fmt17g : Rat → Bytes) (s : Db) (db : DbConnectionId) (hstmt : Handle)
    (cols : List ColumnDescriptor) (firstRow : Bool) (jbuf : JsonBuffer) (rows : List RowAnswer) :
    Quiet Prod.fst (fetchRows fmt17g db hstmt cols firstRow jbuf rows) s (rowsFailure rows) := by
  induction rows generalizing s firstRow jbuf with
  | nil => exact .skip (keeps_odbc _) (.success rfl)
  | cons row rows ih =>
    unfold fetchRows rowsFailure
    by_cases hdone : row.fetch.ret = sqlNoData
    · simp only [if_pos hdone]
      exact .skip (keeps_odbc _) (.success rfl)
    · simp only [if_neg hdone]
      exact call_quiet rfl fun _ => ih ..

theorem keeps_metadataDestroy (hstmt : Option Handle) : Keeps Db.view (metadataDestroy hstmt) := by
  cases hstmt with
  | none => exact .pure _
  | some hstmt => exact Keeps.get.bind fun s => .ite (keeps_odbc _) (.pure _)

theorem jbufFlushOut_run (jbuf : JsonBuffer) (s : Db) :
    jbufFlushOut jbuf s = ((), { s with outBuf := jbuf.content }) := by
  rw [jbufFlushOut, modify_run, evbuf_flush]

/-- What is written for the rows, with the bracket that ends the array unless a fetch fails. -/
def fetchedText (fmt17g : Rat → Bytes) (writeBrackets : Bool) (cols : List ColumnDescriptor)
    (rows : List RowAnswer) : Bytes :=
  if writeBrackets ∧ cols = [] then bytes "[]"
  else (if writeBrackets then bytes "[" else []) ++ rowsText fmt17g cols true rows ++
    if (rowsFailure rows).isNone ∧ writeBrackets then [93] else []

theorem fetchArray_writes (fmt17g : Rat → Bytes) (s : Db) (db : DbConnectionId) (hstmt : Handle)
    (cols : List ColumnDescriptor) (rows : List RowAnswer) {writeBrackets before : Bool}
    (h : writeBrackets = true ∨ before = true) :
    Writes id (fetchArray fmt17g writeBrackets rows db hstmt (some cols)) s before
      (fetchedText fmt17g writeBrackets cols rows)
      (if writeBrackets ∧ cols = [] then none else (rowsFailure rows).map (⟨·, true⟩)) := by
  unfold fetchArray fetchedText
  refine .skip .get ?_
  rw [get_run]
  by_cases hempty : writeBrackets ∧ cols = []
  · simp only [if_pos hempty]
    refine ⟨rfl, ?_, nofun⟩
    simp only [bind_run, jbufFlushOut_run, content_add]
    exact Prod.ext (by rw [JsonBuffer.content, List.append_nil]; rfl) rfl
  simp only [if_neg hempty]
  let jbuf : JsonBuffer := { evbuf := s.outBuf }
  let opened := if writeBrackets then jbufAdd jbuf (bytes "[") else jbuf
  have hopened : opened.content = s.outBuf ++ if writeBrackets then bytes "[" else [] := by
    cases writeBrackets
    · rfl
    · exact (content_add jbuf (bytes "[")).trans (congrArg (· ++ bytes "[") (List.append_nil s.outBuf))
  have hrows := fetchRows_quiet fmt17g s db hstmt cols true opened rows
  have hcontent := content_fetchRows fmt17g opened s db hstmt cols true rows
  rw [hopened] at hcontent
  change Writes id (fetchRows fmt17g db hstmt cols true opened rows >>= fun r => do
    jbufFlushOut (if r.1 ∧ writeBrackets then jbufAddChar r.2 93 else r.2)
    pure r.1) s before _ _
  rw [← hrows.ok]
  generalize hr : fetchRows fmt17g db hstmt cols true opened rows s = r at hcontent
  refine ⟨?_, ?_, ?_⟩
  · rw [Option.isNone_map, ← hrows.ok]
    rfl
  · simp only [bind_run, jbufFlushOut_run, hr]
    refine Prod.ext ?_ ?_
    · change (if r.1.1 ∧ writeBrackets then jbufAddChar r.1.2 93 else r.1.2).content = _
      split <;> simp [hcontent]
    · have := congrArg Prod.snd hrows.view
      rw [hr] at this
      refine this.trans ?_
      cases rowsFailure rows <;> rfl
  · intro x hx
    obtain ⟨diags, -, rfl⟩ := Option.map_eq_some_iff.mp hx
    obtain rfl | rfl := h
    · exact (Bool.or_true _).symm
    · rfl

theorem fetchResultsetArray_writes (fmt17g : Rat → Bytes) (s : Db) (db : DbConnectionId)
    (hstmt : Handle) {a : ResultSetAnswer} {writeBrackets before : Bool}
    (h : writeBrackets = true ∨ before = true) (hcols : columnsFailure a.columns = none) :
    Writes id (fetchResultsetArray fmt17g writeBrackets a db hstmt) s before
      (fetchedText fmt17g writeBrackets
        (describedColumns a.columns.numCols.toNat a.columns.describe) a.rows)
      (if writeBrackets ∧ a.columns.numCols = 0 then none
        else (rowsFailure a.rows).map (⟨·, true⟩)) := by
  have hquiet := odbcBindResultsetMetadata_quiet s db hstmt a.columns
  rw [hcols] at hquiet
  obtain ⟨cols, hbound⟩ := Option.isSome_iff_exists.mp hquiet.ok
  obtain ⟨hnum, rfl⟩ := odbcBindResultsetMetadata_eq_some hbound
  have hempty : describedColumns a.columns.numCols.toNat a.columns.describe = [] ↔
      a.columns.numCols = 0 := by
    rw [← List.length_eq_zero_iff, length_describedColumns]
    omega
  refine (hquiet.writes before).seq ?_
  simp only [hbound, ← hempty]
  exact (fetchArray_writes fmt17g _ db hstmt _ a.rows (by simpa using h)).post
    (fun _ => (keeps_metadataDestroy _).bind fun _ => .pure _) fun _ _ => rfl

theorem fetchResultsetArray_ends (fmt17g : Rat → Bytes) (s : Db) (db : DbConnectionId)
    (hstmt : Handle) (a : ResultSetAnswer) {writeBrackets before : Bool}
    (h : writeBrackets = true ∨ before = true) :
    Ends id (fetchResultsetArray fmt17g writeBrackets a db hstmt) s before
      (arrayFailure writeBrackets before a) := by
  unfold arrayFailure
  cases hcols : columnsFailure a.columns with
  | none => exact ⟨_, fetchResultsetArray_writes fmt17g s db hstmt h hcols⟩
  | some diags =>
    have hquiet := odbcBindResultsetMetadata_quiet s db hstmt a.columns
    rw [hcols] at hquiet
    refine .stop (hquiet.writes before) ?_
    rintro ⟨metaHstmt, _ | _⟩ h
    · exact ⟨(keeps_metadataDestroy metaHstmt).bind fun _ => .pure _, fun _ => rfl⟩
    · cases h

/-! ## Several results -/

/-- Whatever fails behind the first result with columns finds the opening brace in the buffer. -/
def resultsFailure (streamed : Bool) (colCount : Int) (set : ResultSetAnswer) :
    List (Outcome × ResultAnswer) → Option Failure
  | [] => if 0 < colCount then arrayFailure false true set else none
  | (more, result) :: results =>
    (if 0 < colCount then arrayFailure false true set else none).or <|
      if more.ret = sqlNoData then none
      else (more.failure.map (⟨·, streamed || 0 < colCount⟩)).or <|
        resultsFailure (streamed || 0 < colCount) (result.colCount.getD colCount) result.set results

/-- An array that stands in an object. -/
theorem member_ends (fmt17g : Rat → Bytes) (s : Db) (db : DbConnectionId) (hstmt : Handle)
    (set : ResultSetAnswer) :
    Ends id (do
      if ← fetchResultsetArray fmt17g false set db hstmt then
        evbufferAdd (bytes "]")
        return true
      else return false) s true (arrayFailure false true set) := by
  rw [← Option.or_none (o := arrayFailure ..)]
  obtain ⟨text, hw⟩ := fetchResultsetArray_ends fmt17g s db hstmt set (.inr rfl)
  refine .bind hw ?_ fun _ hok => ?_
  · rintro _ rfl
    exact .pure rfl
  · rw [show (fetchResultsetArray fmt17g false set db hstmt s).1 = true from hok]
    exact .add ⟨_, Quiet.writes (.success rfl) _⟩

theorem fetchResult_writes (fmt17g : Rat → Bytes) (s : Db) (db : DbConnectionId) (hstmt : Handle)
    (rsIndex : Nat) (hasResultset : Bool) (colCount : Int) (set : ResultSetAnswer) :
    ∃ text, Writes id (fetchResult fmt17g db hstmt rsIndex hasResultset colCount set) s hasResultset
        text (if 0 < colCount then arrayFailure false true set else none) ∧
      (hasResultset || text != []) = (hasResultset || 0 < colCount) := by
  unfold fetchResult
  by_cases hcols : 0 < colCount
  · simp only [if_pos hcols]
    obtain ⟨text, hw⟩ := member_ends fmt17g { s with
      outBuf := s.outBuf ++ bytes (if hasResultset then "," else "\x7b") ++ bytes "\"r" ++
        fastItoa rsIndex 32 ++ bytes "\":[" } db hstmt set
    refine ⟨bytes (if hasResultset then "," else "\x7b") ++ (bytes "\"r" ++ (fastItoa rsIndex 32 ++
      (bytes "\":[" ++ text))), .add (.add (.add (.add ?_))), ?_⟩
    · rw [show ∀ b, (b || bytes "\":[" != []) = true from Bool.or_true]
      exact hw
    · rw [decide_eq_true hcols]
      cases hasResultset <;> rfl
  · simp only [if_neg hcols]
    refine ⟨[], Quiet.writes (.success rfl) _, ?_⟩
    rw [decide_eq_false hcols]
    rfl

theorem fetchResults_ends (fmt17g : Rat → Bytes) (s : Db) (db : DbConnectionId) (hstmt : Handle)
    (rsIndex : Nat) (hasResultset : Bool) (colCount : Int) (set : ResultSetAnswer)
    (results : List (Outcome × ResultAnswer)) :
    Ends id (fetchResults fmt17g db hstmt rsIndex hasResultset colCount set results) s hasResultset
      (resultsFailure hasResultset colCount set results) := by
  induction results generalizing s rsIndex hasResultset colCount set with
  | nil =>
    obtain ⟨text, hw, -⟩ := fetchResult_writes fmt17g s db hstmt rsIndex hasResultset colCount set
    rw [resultsFailure, ← Option.or_none (o := ite ..)]
    refine .bind hw ?_ fun _ hok => ?_
    · rintro _ rfl
      exact .pure rfl
    · rw [show (fetchResult ..).1 = true from hok]
      exact .skip (keeps_odbc _) (.add ⟨_, Quiet.writes (.success rfl) _⟩)
  | cons result results ih =>
    obtain ⟨more, result⟩ := result
    obtain ⟨text, hw, hstreamed⟩ :=
      fetchResult_writes fmt17g s db hstmt rsIndex hasResultset colCount set
    refine .bind hw ?_ fun _ hok => ?_
    · rintro _ rfl
      exact .pure rfl
    rw [show (fetchResult ..).1 = true from hok, hstreamed]
    refine .skip (keeps_odbc _) ?_
    by_cases hdone : more.ret = sqlNoData
    · simp only [if_pos hdone]
      exact .add ⟨_, Quiet.writes (.success rfl) _⟩
    simp only [if_neg hdone]
    cases hmore : sqlSucceeded more.ret with
    | false =>
      rw [Outcome.failure, hmore]
      exact ⟨_, Quiet.writes (.setError fun _ => .pure rfl) _⟩
    | true =>
      rw [Outcome.failure, hmore]
      exact .skip (keeps_odbc _) (ih ..)

end ApiServer
