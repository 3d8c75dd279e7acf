import ApiServer.Dbapi.CleanFailure
import ApiServer.Dbapi.Frame
import ApiServer.Handlers

/-!
# The body of a reply after a failure

A failed call of the database layer is clean exactly when the driver fails before a part of the
document is written, or reports an error of the application's own. A handler that writes a prefix of
its own is clean in the second case only.
-/

namespace ApiServer
open Bytes Json StateRules

section
variable (J : JsonC) (fmt17g : Rat → Bytes) (cfg : Config) (s : Db)

/-! ## The three calls -/

theorem dbGetJson_replies (s : Db) (db : DbConnectionId) (query : Bytes) (params : List QueryParam)
    (a : StatementAnswers (List JsonRowAnswer)) :
    ∃ text, Replies (dbGetJson cfg db query params a) s text
      (executeFailure cfg s db params a (jsonFailure false a.fetch)) :=
  dbExecuteAndFetch_replies cfg s db query params a fun hstmt s =>
    jsonRows_ends s db hstmt false false a.fetch

theorem dbGetRs2json_replies (s : Db) (db : DbConnectionId) (query : Bytes)
    (params : List QueryParam) (a : StatementAnswers ResultSetAnswer) :
    ∃ text, Replies (dbGetRs2json fmt17g cfg db query params a) s text
      (executeFailure cfg s db params a (arrayFailure true false a.fetch)) :=
  dbExecuteAndFetch_replies cfg s db query params a fun hstmt s =>
    fetchResultsetArray_ends fmt17g s db hstmt a.fetch (.inl rfl)

def ResultsAnswer.failure (a : ResultsAnswer) : Option Failure :=
  resultsFailure false (a.first.colCount.getD 0) a.first.set a.more

theorem dbGetRs2jsonM_replies (s : Db) (db : DbConnectionId) (query : Bytes)
    (params : List QueryParam) (a : StatementAnswers ResultsAnswer) :
    ∃ text, Replies (dbGetRs2jsonM fmt17g cfg db query params a) s text
      (executeFailure cfg s db params a a.fetch.failure) :=
  dbExecuteAndFetch_replies cfg s db query params a fun hstmt _ =>
    .skip (keeps_odbc _) (fetchResults_ends fmt17g _ db hstmt 1 false _ a.fetch.first.set a.fetch.more)

/-- A handler that makes one call fails as the call does. -/
theorem queryStatus_clean_iff {m : DbM Bool} {s : Db} :
    CleanFailure (· == httpOk) (queryStatus m) s ↔ CleanFailure id m s := by
  have hrun : queryStatus m s = (if (m s).1 then httpOk else httpInternal, (m s).2) := by
    simp only [queryStatus, bind_run, ite_run]
    split <;> rfl
  unfold CleanFailure
  rw [hrun]
  cases (m s).1 with
  | true => exact ⟨fun _ => nofun, fun _ => nofun⟩
  | false => exact ⟨fun h _ => h rfl, fun h _ => h rfl⟩

/-! ## The handler with a prefix -/

/-- A body that starts like the one of `coordinator2_handler` is no error object. -/
theorem not_isErrorObject_coordinator2 (t : Bytes) : ¬IsErrorObject (bytes "\x7b\"r1\":" ++ t) := by
  rintro ⟨n, description, h⟩
  have hkey : StrContent (bytes "r1") (bytes "r1") := .plain (by decide +kernel)
  obtain ⟨_, v, _, ms, -, -, hms⟩ := parse_firstMember hkey (t := t) h
  have hfirst : bytes "error-code" = bytes "r1" := congrArg Prod.fst (List.cons.inj hms).1
  exact absurd hfirst (by decide +kernel)

def coordinator2Failure (params : List QueryParam) (a₁ : StatementAnswers ResultSetAnswer)
    (a₂ : StatementAnswers (List JsonRowAnswer)) : Option Failure :=
  (executeFailure cfg s 0 params a₁ (arrayFailure true false a₁.fetch)).or
    (executeFailure cfg s 1 params a₂ (jsonFailure false a₂.fetch))

theorem executeFailure_congr {s s' : Db} {db : DbConnectionId} (h : s.handles db = s'.handles db)
    (params : List QueryParam) (a : StatementAnswers α) (fetch : Option Failure) :
    executeFailure cfg s db params a fetch = executeFailure cfg s' db params a fetch := by
  obtain ⟨hdbc, hstmt⟩ := Prod.mk.inj h
  rw [executeFailure, prepareFailure, connectFailure, stmtFailure, hdbc, hstmt]
  rfl

/-- A call that fails behind the prefix. -/
theorem clean_behind_prefix {m : DbM Bool} {s : Db} {x : Failure} (h : Replies m s text (some x))
    (hstart : s.outBuf = bytes "\x7b\"r1\":" ++ t) :
    ((m s).2.outBuf = [] ∨ IsErrorObject (m s).2.outBuf) ↔ x.Reported := by
  constructor
  · intro hclean
    by_contra hrep
    rw [h.unreported x rfl hrep, hstart, List.append_assoc] at hclean
    obtain hnil | hobject := hclean
    · cases hnil
    · exact not_isErrorObject_coordinator2 _ hobject
  · exact fun hrep => .inr (h.reported x rfl hrep)

theorem coordinator2Handler_clean_iff (a₁ : StatementAnswers ResultSetAnswer)
    (a₂ : StatementAnswers (List JsonRowAnswer)) (body : Option Json) :
    CleanFailure (· == httpOk) (coordinator2Handler J fmt17g cfg a₁ a₂ body) { s with outBuf := [] } ↔
      ∀ x, coordinator2Failure cfg s [.int (some (bodyInt J body (bytes "id")))] a₁ a₂ = some x →
        x.Reported := by
  unfold coordinator2Failure CleanFailure
  generalize hparams : [QueryParam.int (some (bodyInt J body (bytes "id")))] = params
  let s₁ : Db := { s with outBuf := bytes "\x7b\"r1\":" }
  let q₁ := dbGetRs2json fmt17g cfg 0 (bytes "EXEC emp_get @id = ?") params a₁
  let s₂ : Db := { (q₁ s₁).2 with outBuf := (q₁ s₁).2.outBuf ++ bytes ",\"r2\":" }
  let q₂ := dbGetJson cfg 1 (bytes "SELECT demo.get_employee_orders_j(?)") params a₂
  have hrun : coordinator2Handler J fmt17g cfg a₁ a₂ body { s with outBuf := [] } =
      if (q₁ s₁).1 then
        if (q₂ s₂).1 then (httpOk, { (q₂ s₂).2 with outBuf := (q₂ s₂).2.outBuf ++ bytes "\x7d" })
        else (httpInternal, (q₂ s₂).2)
      else (httpInternal, (q₁ s₁).2) := by
    subst hparams
    simp only [coordinator2Handler, bind_run, ite_run]
    rfl
  rw [hrun]
  obtain ⟨t₁, h₁⟩ := dbGetRs2json_replies fmt17g cfg s₁ 0 (bytes "EXEC emp_get @id = ?") params a₁
  change Replies q₁ s₁ t₁ (executeFailure cfg s 0 params a₁ _) at h₁
  cases hf₁ : executeFailure cfg s 0 params a₁ (arrayFailure true false a₁.fetch) with
  | some x =>
    rw [hf₁] at h₁
    have hclean := clean_behind_prefix h₁ (List.append_nil _).symm
    rw [h₁.ok, Option.some_or]
    exact ⟨fun h y hy => Option.some.inj hy ▸ hclean.mp (h rfl), fun h _ => hclean.mpr (h x rfl)⟩
  | none =>
    rw [hf₁] at h₁
    rw [h₁.ok, Option.none_or]
    -- the first call has left the handles of the second database alone
    have hframe : s₂.handles 1 = s.handles 1 :=
      (handles_dbGetRs2json (by decide) fmt17g cfg _ params a₁).run s₁
    obtain ⟨t₂, h₂⟩ := dbGetJson_replies cfg s₂ 1 (bytes "SELECT demo.get_employee_orders_j(?)")
      params a₂
    rw [executeFailure_congr cfg hframe] at h₂
    change Replies q₂ s₂ t₂ _ at h₂
    cases hf₂ : executeFailure cfg s 1 params a₂ (jsonFailure false a₂.fetch) with
    | some x =>
      rw [hf₂] at h₂
      have hclean := clean_behind_prefix h₂ (t := t₁ ++ bytes ",\"r2\":")
        ((congrArg (· ++ _) (h₁.success rfl)).trans (List.append_assoc ..))
      rw [h₂.ok]
      exact ⟨fun h y hy => Option.some.inj hy ▸ hclean.mp (h rfl), fun h _ => hclean.mpr (h x rfl)⟩
    | none =>
      rw [hf₂] at h₂
      rw [h₂.ok]
      exact ⟨fun _ => nofun, fun _ => nofun⟩

/-! ## When a failure is clean -/

theorem databaseReply_clean_iff :
    (∀ db query params (a : StatementAnswers (List JsonRowAnswer)),
      (∀ prior, CleanFailure id (dbGetJson cfg db query params a) { s with outBuf := prior }) ↔
        CleanAnswers (executeFailure cfg s db params a (jsonFailure false a.fetch))) ∧
    (∀ db query params (a : StatementAnswers ResultSetAnswer),
      (∀ prior, CleanFailure id (dbGetRs2json fmt17g cfg db query params a)
        { s with outBuf := prior }) ↔
        CleanAnswers (executeFailure cfg s db params a (arrayFailure true false a.fetch))) ∧
    (∀ db query params (a : StatementAnswers ResultsAnswer),
      (∀ prior, CleanFailure id (dbGetRs2jsonM fmt17g cfg db query params a)
        { s with outBuf := prior }) ↔
        CleanAnswers (executeFailure cfg s db params a a.fetch.failure)) ∧
    (∀ m s, CleanFailure (· == httpOk) (queryStatus m) s ↔ CleanFailure id m s) ∧
    ∀ a₁ a₂ body,
      CleanFailure (· == httpOk) (coordinator2Handler J fmt17g cfg a₁ a₂ body)
        { s with outBuf := [] } ↔
        ∀ x, coordinator2Failure cfg s [.int (some (bodyInt J body (bytes "id")))] a₁ a₂ = some x →
          x.Reported :=
  ⟨fun db query params a => clean_iff fun prior =>
      dbGetJson_replies cfg { s with outBuf := prior } db query params a,
    fun db query params a => clean_iff fun prior =>
      dbGetRs2json_replies fmt17g cfg { s with outBuf := prior } db query params a,
    fun db query params a => clean_iff fun prior =>
      dbGetRs2jsonM_replies fmt17g cfg { s with outBuf := prior } db query params a,
    fun _ _ => queryStatus_clean_iff, coordinator2Handler_clean_iff J fmt17g cfg s⟩

end

/-- A database that loses the link after the first of its rows. -/
def linkLost : StatementAnswers ResultSetAnswer where
  fetch :=
    { columns :=
        { numCols := 1
          describe := [{ name := .store (bytes "id"), nameLen := 2, sqlType := .integer }] }
      rows :=
        [{ cells := [{ ind := 4, int := 7 }] },
          { fetch :=
              { ret := -1
                diags :=
                  [{ sqlState := .strlcpy 6 (bytes "08S01"), native := 26, fits := by decide
                     msg := .strlcpy 512 (bytes "TCP Provider: Error code 0x68") }] } }] }

def oneDatabase : Config := { odbcConnStrs := fun _ => .strlcpy 1024 (bytes "DSN=main") }

def lostQuery : DbM Bool :=
  dbGetRs2json (fun _ => []) oneDatabase 0 (bytes "EXEC emp_get") [] linkLost

/-- `coordinator2_handler` without a configured database. -/
def unconfiguredCoordinator2 : DbM Int :=
  coordinator2Handler .reference (fun _ => []) {} linkLost { fetch := [] } none

theorem databaseReply_torn :
    ((lostQuery {}).1 = false ∧ (lostQuery {}).2.outBuf = bytes "[\x7b\"id\":7\x7d" ∧
      ¬CleanFailure id lostQuery {}) ∧
    (unconfiguredCoordinator2 {}).1 = httpInternal ∧
      (unconfiguredCoordinator2 {}).2.outBuf = bytes "\x7b\"r1\":" ∧
      ¬CleanFailure (· == httpOk) unconfiguredCoordinator2 {} := by
  have hquery : (lostQuery {}).1 = false ∧
      (lostQuery {}).2.outBuf = bytes "[\x7b\"id\":7\x7d" := by decide +kernel
  have hhandler : (unconfiguredCoordinator2 {}).1 = httpInternal ∧
      (unconfiguredCoordinator2 {}).2.outBuf = bytes "\x7b\"r1\":" := by decide +kernel
  refine ⟨⟨hquery.1, hquery.2, fun h => ?_⟩, hhandler.1, hhandler.2, fun h => ?_⟩
  · obtain hsame | ⟨n, description, hobject⟩ := h hquery.1
    · rw [hquery.2] at hsame
      cases hsame
    · rw [hquery.2] at hobject
      exact parse_bracket _ _ hobject
  · obtain hsame | hobject := h (by rw [hhandler.1]; rfl)
    · rw [hhandler.2] at hsame
      cases hsame
    · rw [hhandler.2] at hobject
      exact not_isErrorObject_coordinator2 [] hobject

end ApiServer
