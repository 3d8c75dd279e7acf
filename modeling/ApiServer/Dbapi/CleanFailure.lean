import ApiServer.Dbapi.Failure

/-!
# What a failed call leaves in the output buffer

`db_execute_and_fetch` streams the document into the output buffer while rows are still being
fetched. When the driver then fails, the label `check_error` replaces the content of the buffer by
an error object, but only if a diagnostic record has an error number of the application's own.
-/

namespace ApiServer
open Bytes Json StateRules

/-- The text is one object with the two members `error-code` and `description`. -/
def IsErrorObject (out : Bytes) : Prop :=
  ∃ n s, parse out = some (.object [(bytes "error-code", .int n), (bytes "description", .string s)])

/-- A call that fails leaves the output buffer as it was, or an error object in it. -/
def CleanFailure (ok : α → Bool) (m : DbM α) (s : Db) : Prop :=
  ok (m s).1 = false → (m s).2.outBuf = s.outBuf ∨ IsErrorObject (m s).2.outBuf

/-! ## The error object -/

def errorText (native : Native) : Bytes :=
  evbufferAppendEscapedStr
    (snprintf 128 (bytes "\x7b\"error-code\":" ++ intText native.1 ++ bytes ",\"description\":"))
    native.2.text ++ bytes "\x7d"

def errorMembers (native : Native) : List Member :=
  [⟨bytes "error-code", bytes "error-code", .int native.1, intText native.1⟩,
    ⟨bytes "description", bytes "description", .string native.2.text,
      34 :: escape native.2.text ++ [34]⟩]

theorem errorMembers_sound (native : Native) : ∀ m ∈ errorMembers native, m.Sound 0 := by
  have keys : ∀ k ∈ [bytes "error-code", bytes "description"],
      ∀ c ∈ k, ¬c < 32 ∧ c ≠ 34 ∧ c ≠ 92 := by decide +kernel
  intro m hm
  simp only [errorMembers, List.mem_cons, List.not_mem_nil, or_false] at hm
  rcases hm with rfl | rfl
  · exact ⟨.plain (keys _ (by simp)), valueText_int native.1⟩
  · exact ⟨.plain (keys _ (by simp)), valueText_string (strContent_escape native.2.text)⟩

theorem errorText_eq {native : Native} (h : FitsInt native.1) :
    errorText native = objectText (errorMembers native) := by
  have hlength := intText_length h.int64
  rw [errorText, evbufferAppendEscapedStr_eq, snprintf_eq_self]
  · simp [errorMembers, objectText, membersText, Member.text, bytes]
  · simp only [List.length_append, bytes, List.length_map]
    simp
    omega

theorem isErrorObject_errorText {native : Native} (h : FitsInt native.1) :
    IsErrorObject (errorText native) := by
  have hobject := valueText_object (List.cons_ne_nil _ _) (errorMembers_sound native)
  rw [errorText_eq h]
  exact ⟨native.1, native.2.text, parse_valueText hobject (by simp [objectText])⟩

theorem fits_foldl_note {native : Native} (h : FitsInt native.1) (diags : List DiagRec) :
    FitsInt (diags.foldl note native).1 := by
  induction diags generalizing native with
  | nil => exact h
  | cons diag diags ih =>
    refine ih ?_
    unfold note
    split
    · exact diag.fits
    · exact h

theorem le_foldl_note (native : Native) (diags : List DiagRec) :
    50000 ≤ (diags.foldl note native).1 ↔
      50000 ≤ native.1 ∨ ∃ diag ∈ diags, 50000 ≤ diag.native := by
  induction diags generalizing native with
  | nil => simp
  | cons diag diags ih =>
    rw [List.foldl_cons, ih, List.exists_mem_cons_iff, ← or_assoc]
    refine or_congr_left ?_
    unfold note
    split
    · next h => exact ⟨fun h => .inr h, fun _ => h⟩
    · next h => exact ⟨fun h => .inl h, fun h' => h'.resolve_right h⟩

/-! ## Execution -/

def executeFailure (cfg : Config) (s : Db) (db : DbConnectionId) (params : List QueryParam)
    (a : StatementAnswers α) (fetch : Option Failure) : Option Failure :=
  ((prepareFailure cfg s db params a.prepare).map (⟨·, false⟩)).or <|
    (a.exec.failure.map (⟨·, false⟩)).or fetch

/-- A call as its caller sees it: it writes `text`, and where it fails as `f` says, an error object
takes the place of what is in the buffer if the error is reported. -/
structure Replies (m : DbM Bool) (s : Db) (text : Bytes) (f : Option Failure) : Prop where
  ok : (m s).1 = f.isNone
  success : f = none → (m s).2.outBuf = s.outBuf ++ text
  reported : ∀ x, f = some x → x.Reported → IsErrorObject (m s).2.outBuf
  unreported : ∀ x, f = some x → ¬x.Reported → (m s).2.outBuf = s.outBuf ++ text
  streamed : ∀ x, f = some x → x.streamed = (text != [])

theorem keeps_dbCleanupStmt (hstmt : Option Handle) : Keeps Db.view (dbCleanupStmt hstmt) := by
  cases hstmt with
  | none => exact .pure _
  | some hstmt =>
    exact Keeps.get.bind fun s => .ite ((keeps_odbc _).bind fun _ => (keeps_odbc _).bind fun _ =>
      keeps_odbc _) (.pure _)

theorem outBuf_checkError (ok : Bool) (s : Db) :
    (checkError ok s).2.outBuf =
      if !ok ∧ 50000 ≤ s.view.2.1 then errorText s.view.2 else s.view.1 := by
  rw [checkError, modify_run]
  split
  · next h => exact (if_pos h).symm
  · next h => exact (if_neg h).symm

theorem executeStmt_ends (s : Db) (db : DbConnectionId) (query : Bytes) (exec : Outcome)
    {fetchCb : DbConnectionId → Handle → DbM Bool} {fetch : Option Failure}
    (hfetch : ∀ hstmt s, Ends id (fetchCb db hstmt) s false fetch) (hstmt : Handle) :
    Ends id (executeStmt db query exec fetchCb (true, some hstmt)) s false
      ((exec.failure.map (⟨·, false⟩)).or fetch) := by
  refine .skip (keeps_odbc _) ?_
  unfold Outcome.failure
  cases hexec : sqlSucceeded exec.ret with
  | true => exact hfetch hstmt _
  | false => exact ⟨_, Quiet.writes (.setError fun _ => .pure rfl) false⟩

/-- The call up to the label `check_error`, from the state with the native error reset. -/
theorem prepareAndExecute_ends (cfg : Config) (s : Db) (db : DbConnectionId) (query : Bytes)
    (params : List QueryParam) (a : StatementAnswers α)
    {fetchCb : DbConnectionId → Handle → DbM Bool} {fetch : Option Failure}
    (hfetch : ∀ hstmt s, Ends id (fetchCb db hstmt) s false fetch) :
    Ends id (dbPrepareAndBind cfg db params a.prepare >>= executeStmt db query a.exec fetchCb) s
      false (executeFailure cfg s db params a fetch) := by
  refine .after (dbPrepareAndBind_quiet cfg s db params a.prepare) ?_ fun _ hok => ?_
  · rintro ⟨_ | _, _ | _⟩ h
    · exact .pure rfl
    · exact .pure rfl
    · exact .pure rfl
    · cases h
  · rw [Bool.and_eq_true] at hok
    obtain ⟨hstmt, hsome⟩ := Option.isSome_iff_exists.mp hok.2
    have hresult : (dbPrepareAndBind cfg db params a.prepare s).1 = (true, some hstmt) :=
      Prod.ext hok.1 hsome
    rw [hresult]
    exact executeStmt_ends _ db query a.exec hfetch hstmt

theorem dbExecuteAndFetch_replies (cfg : Config) (s : Db) (db : DbConnectionId) (query : Bytes)
    (params : List QueryParam) (a : StatementAnswers α)
    {fetchCb : DbConnectionId → Handle → DbM Bool} {fetch : Option Failure}
    (hfetch : ∀ hstmt s, Ends id (fetchCb db hstmt) s false fetch) :
    ∃ text, Replies (dbExecuteAndFetch cfg db query params a.prepare a.exec fetchCb) s text
      (executeFailure cfg s db params a fetch) := by
  let s₀ : Db := { s with tls := { s.tls with lastNativeError := 0, lastErrorMsg := .empty } }
  obtain ⟨text, hw⟩ := prepareAndExecute_ends cfg s₀ db query params a hfetch
  change Writes id _ s₀ false text (executeFailure cfg s db params a fetch) at hw
  let run := (dbPrepareAndBind cfg db params a.prepare >>= executeStmt db query a.exec fetchCb) s₀
  have hout : (dbExecuteAndFetch cfg db query params a.prepare a.exec fetchCb s).2.outBuf =
      (checkError run.1 run.2).2.outBuf :=
    congrArg Prod.fst ((keeps_dbCleanupStmt _).run _)
  have hrun : run.1 = (executeFailure cfg s db params a fetch).isNone := hw.ok
  rw [outBuf_checkError, hrun, show run.2.view = _ from hw.view] at hout
  refine ⟨text, hw.ok, fun h => ?_, fun x hx hrep => ?_, fun x hx hrep => ?_, hw.streamed⟩
  · rw [hout, h]
    rfl
  · rw [hx] at hout
    have hnote := (le_foldl_note s₀.view.2 x.diags).mpr (.inr hrep)
    rw [hout, if_pos ⟨rfl, hnote⟩]
    exact isErrorObject_errorText (fits_foldl_note (show FitsInt 0 by decide) _)
  · rw [hx] at hout
    have hnote : ¬50000 ≤ (x.diags.foldl note s₀.view.2).1 := fun h =>
      hrep (((le_foldl_note s₀.view.2 x.diags).mp h).resolve_left (show ¬(50000 : Int) ≤ 0 by decide))
    rw [hout, if_neg fun h => hnote h.2]

/-- The call that fails, if one does, comes before any part of the document or reports an error of
the application's own. -/
def CleanAnswers (f : Option Failure) : Prop :=
  ∀ x, f = some x → x.streamed = true → x.Reported

/-- What has been written behind a bracket is neither nothing nor an object. -/
theorem clean_iff {m : DbM Bool} {s : Db} {f : Option Failure}
    (h : ∀ prior, ∃ text, Replies m { s with outBuf := prior } text f) :
    (∀ prior, CleanFailure id m { s with outBuf := prior }) ↔ CleanAnswers f := by
  constructor
  · intro hclean x hx hstreamed
    by_contra hrep
    obtain ⟨text, hr⟩ := h [91]
    have hout := hr.unreported x hx hrep
    have hbad : (m { s with outBuf := [91] }).1 = false := by rw [hr.ok, hx]; rfl
    obtain hsame | ⟨n, description, hobject⟩ := hclean [91] hbad
    · have htext : text = [] := List.append_cancel_left (hout.symm.trans (hsame.trans (by simp)))
      rw [hr.streamed x hx, htext] at hstreamed
      cases hstreamed
    · rw [hout] at hobject
      exact parse_bracket _ _ hobject
  · intro hcond prior hbad
    obtain ⟨text, hr⟩ := h prior
    obtain _ | x := f
    · rw [id, hr.ok] at hbad
      cases hbad
    by_cases hrep : x.Reported
    · exact .inr (hr.reported x rfl hrep)
    · have hstreamed : x.streamed = false := by
        rw [← Bool.not_eq_true]
        exact fun h => hrep (hcond x rfl h)
      rw [hr.streamed x rfl, bne_eq_false_iff_eq] at hstreamed
      exact .inl (by rw [hr.unreported x rfl hrep, hstreamed, List.append_nil])

end ApiServer
