import ApiServer.Odbc
import Mathlib.Data.List.Induction
import Mathlib.Logic.Function.Basic

/-!
# The handles of a conversation

The driver's side of the calls: which connections and statements are in use, and what a statement
keeps from one call to the next. The worst is assumed of the calls, whatever they return: a call that
may open a cursor or bind a buffer does so, and a handle that is freed is gone. `SQLFreeStmt` does
what it is for.
-/

namespace ApiServer
open Function

/-- What the driver keeps for a statement. -/
structure Stmt where
  hdbc : Handle
  cursor : Bool := false
  params : Bool := false
  columns : Bool := false

/-- No cursor, no parameter and no column is left. -/
def Stmt.Clean (st : Stmt) : Prop := st.cursor = false ∧ st.params = false ∧ st.columns = false

structure Driver where
  dbc : Handle → Bool := fun _ => false
  stmt : Handle → Option Stmt := fun _ => none

namespace Driver
variable (d : Driver)

/-- A call on a connection, which must be in use. -/
def onDbc (hdbc : Handle) (d' : Driver) : Option Driver := if d.dbc hdbc then some d' else none

def setStmt (hstmt : Handle) (st : Stmt) : Driver :=
  { d with stmt := update d.stmt hstmt (some st) }

/-- A call on a statement, which must be in use. -/
def onStmt (hstmt : Handle) (f : Stmt → Stmt) : Option Driver :=
  (d.stmt hstmt).map fun st => d.setStmt hstmt (f st)

/-- The statements of a connection go with it. -/
def dropStmts (hdbc : Handle) : Driver :=
  { d with stmt := fun hstmt => (d.stmt hstmt).filter (·.hdbc ≠ hdbc) }

/-- What a call does; `none` is a call on a handle that is not in use. -/
def call : OdbcCall → Option Driver
  | .allocDbc none => some d
  | .allocDbc (some hdbc) => some { d with dbc := update d.dbc hdbc true }
  | .setConnectAttr hdbc | .driverConnect hdbc | .allocStmt hdbc none => d.onDbc hdbc d
  | .allocStmt hdbc (some hstmt) =>
    d.onDbc hdbc (d.setStmt hstmt { hdbc })
  | .setStmtAttr hstmt | .numResultCols hstmt | .describeCol hstmt _ | .fetch hstmt
  | .getData hstmt => d.onStmt hstmt id
  | .bindParameter hstmt _ _ => d.onStmt hstmt fun st => { st with params := true }
  | .execDirect hstmt _ | .moreResults hstmt => d.onStmt hstmt fun st => { st with cursor := true }
  | .bindCol hstmt _ => d.onStmt hstmt fun st => { st with columns := true }
  | .getDiagRec handle _ =>
    if handle = odbcEnv ∨ d.dbc handle ∨ (d.stmt handle).isSome then some d else none
  | .freeStmt hstmt .close => d.onStmt hstmt fun st => { st with cursor := false }
  | .freeStmt hstmt .resetParams => d.onStmt hstmt fun st => { st with params := false }
  | .freeStmt hstmt .unbind => d.onStmt hstmt fun st => { st with columns := false }
  | .disconnect hdbc => d.onDbc hdbc (d.dropStmts hdbc)
  | .freeHandle handle =>
    if d.dbc handle then some { d.dropStmts handle with dbc := update d.dbc handle false }
    else (d.stmt handle).map fun _ => { d with stmt := update d.stmt handle none }

/-- The driver behind a conversation, if every call of it was on a handle in use. -/
def run (calls : List OdbcCall) : Option Driver := calls.foldlM call {}

theorem run_concat (calls : List OdbcCall) (c : OdbcCall) :
    run (calls ++ [c]) = (run calls).bind (call · c) := by
  rw [run, List.foldlM_append]
  simp [run]

end Driver

/-- How the driver chooses handles: any that is not in use, perhaps one that has been freed. -/
structure Allocator where
  next : List OdbcCall → Handle
  fresh : ∀ calls d, Driver.run calls = some d →
    d.dbc (next calls) = false ∧ d.stmt (next calls) = none

/-! ## A driver that counts -/

/-- The handle that a call yields. -/
def OdbcCall.allocated : OdbcCall → Handle
  | .allocDbc (some handle) | .allocStmt _ (some handle) => handle
  | _ => 0

def Driver.InUse (d : Driver) (handle : Handle) : Prop := d.dbc handle = true ∨ d.stmt handle ≠ none

theorem Driver.eq_of_onDbc {d d' d'' : Driver} {hdbc : Handle} (h : d.onDbc hdbc d' = some d'') :
    d'' = d' := by
  rw [onDbc] at h
  split at h
  · exact (Option.some.inj h).symm
  · cases h

theorem Driver.inUse_onStmt {d d' : Driver} {hstmt handle : Handle} {f : Stmt → Stmt}
    (h : d.onStmt hstmt f = some d') (hd : d'.InUse handle) : d.InUse handle := by
  obtain ⟨st, hst, rfl⟩ := Option.map_eq_some_iff.mp h
  refine hd.imp_right fun hne hnone => hne ?_
  have heq : handle ≠ hstmt := fun heq => by simp [heq, hst] at hnone
  simp [setStmt, update_of_ne heq, hnone]

theorem Driver.inUse_dropStmts {d : Driver} {hdbc handle : Handle}
    (h : (d.dropStmts hdbc).stmt handle ≠ none) : d.stmt handle ≠ none :=
  fun hnone => h (by simp [dropStmts, hnone])

/-- Only an allocation brings a handle into use. -/
theorem Driver.inUse_call {d d' : Driver} {c : OdbcCall} {handle : Handle} (h : d.call c = some d')
    (hd : d'.InUse handle) : d.InUse handle ∨ c.allocated = handle := by
  cases c with
  | allocDbc hdbc =>
    cases hdbc with
    | none =>
      cases h
      exact .inl hd
    | some hdbc =>
      cases h
      by_cases heq : handle = hdbc
      · exact .inr heq.symm
      · simp only [InUse, update_of_ne heq] at hd
        exact .inl hd
  | allocStmt hdbc hstmt =>
    cases hstmt with
    | none =>
      rw [eq_of_onDbc h] at hd
      exact .inl hd
    | some hstmt =>
      rw [eq_of_onDbc h] at hd
      by_cases heq : handle = hstmt
      · exact .inr heq.symm
      · simp only [InUse, setStmt, update_of_ne heq] at hd
        exact .inl hd
  | setConnectAttr | driverConnect =>
    rw [eq_of_onDbc h] at hd
    exact .inl hd
  | getDiagRec =>
    cases (Option.ite_none_right_eq_some.mp h).2
    exact .inl hd
  | freeStmt _ option => cases option <;> exact .inl (inUse_onStmt h hd)
  | disconnect =>
    rw [eq_of_onDbc h] at hd
    exact .inl (hd.imp_right inUse_dropStmts)
  | freeHandle freed =>
    simp only [call] at h
    split at h
    · cases h
      refine .inl (hd.imp (fun hdbc => ?_) inUse_dropStmts)
      by_cases heq : handle = freed
      · simp [heq] at hdbc
      · simpa only [update_of_ne heq] using hdbc
    · obtain ⟨st, hst, rfl⟩ := Option.map_eq_some_iff.mp h
      refine .inl (hd.imp_right fun hne hnone => hne ?_)
      by_cases heq : handle = freed
      · simp [heq]
      · simp [update_of_ne heq, hnone]
  | _ => exact .inl (inUse_onStmt h hd)

theorem Driver.inUse_run {calls : List OdbcCall} {d : Driver} {handle : Handle}
    (h : run calls = some d) (hd : d.InUse handle) : ∃ c ∈ calls, c.allocated = handle := by
  induction calls using List.reverseRecOn generalizing d with
  | nil =>
    cases h
    obtain hdbc | hstmt := hd
    · cases hdbc
    · exact absurd rfl hstmt
  | append_singleton calls c ih =>
    rw [run_concat, Option.bind_eq_some_iff] at h
    obtain ⟨d', hd', hcall⟩ := h
    obtain hbefore | hnew := inUse_call hcall hd
    · obtain ⟨c', hc', heq⟩ := ih hd' hbefore
      exact ⟨c', List.mem_append_left _ hc', heq⟩
    · exact ⟨c, List.mem_append_right _ (List.mem_singleton_self c), hnew⟩

/-- The largest handle of a conversation. -/
def lastHandle (calls : List OdbcCall) : Handle := calls.foldr (max ·.allocated ·) 0

theorem allocated_le_lastHandle {calls : List OdbcCall} {c : OdbcCall} (h : c ∈ calls) :
    c.allocated ≤ lastHandle calls := by
  induction calls with
  | nil => cases h
  | cons c' calls ih =>
    obtain rfl | h := List.mem_cons.mp h
    · exact Nat.le_max_left ..
    · exact (ih h).trans (Nat.le_max_right ..)

def Allocator.counting : Allocator where
  next calls := lastHandle calls + 1
  fresh calls d h := by
    have hnot : ¬d.InUse (lastHandle calls + 1) := fun hd => by
      obtain ⟨c, hc, heq⟩ := Driver.inUse_run h hd
      exact absurd (heq ▸ allocated_le_lastHandle hc) (Nat.not_succ_le_self _)
    obtain ⟨hdbc, hstmt⟩ := not_or.mp hnot
    exact ⟨Bool.eq_false_iff.mpr hdbc, not_not.mp hstmt⟩

end ApiServer
