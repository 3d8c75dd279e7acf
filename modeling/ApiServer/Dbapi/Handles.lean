import ApiServer.Dbapi.Rules

/-!
# No call on a handle that is not in use

The connections and statements that a thread caches are in use, each statement on the connection
beside it. `db_set_error` may take both away under its caller, who then makes no further call with
them: the clean-up at the end of a call asks first whether the statement is still cached.
-/

namespace ApiServer
open Bytes Function StateRules

/-! ## The cache and the driver -/

/-- What the driver has for the handles in the cache. Only the statement of `dirty` may have a cursor
or bindings. -/
structure Linked (dirty : Option DbConnectionId) (hdbc hstmt : DbConnectionId → Option Handle)
    (d : Driver) : Prop where
  dbc : hdbc i = some c → d.dbc c = true
  stmt : hstmt i = some h → ∃ st, d.stmt h = some st ∧ hdbc i = some st.hdbc
  inj : hdbc i = some c → hdbc j = some c → i = j
  kinds : d.dbc h = true → d.stmt h = none
  clean : hstmt i = some h → d.stmt h = some st → dirty ≠ some i → st.Clean

namespace Linked
variable {dirty : Option DbConnectionId} {hdbc hstmt : DbConnectionId → Option Handle} {d : Driver}
  {db : DbConnectionId} {c h : Handle}

theorem of_update_none {f : DbConnectionId → Option Handle} (h : update f db none i = some x) :
    i ≠ db ∧ f i = some x := by
  by_cases hi : i = db
  · rw [hi, update_self] at h
    cases h
  · rw [update_of_ne hi] at h
    exact ⟨hi, h⟩

theorem of_update_some {f : DbConnectionId → Option Handle} (h : update f db (some y) i = some x) :
    (i = db ∧ y = x) ∨ (i ≠ db ∧ f i = some x) := by
  by_cases hi : i = db
  · rw [hi, update_self] at h
    exact .inl ⟨hi, Option.some.inj h⟩
  · rw [update_of_ne hi] at h
    exact .inr ⟨hi, h⟩

theorem stmt_inj (H : Linked dirty hdbc hstmt d) (hi : hstmt i = some h) (hj : hstmt j = some h) :
    i = j := by
  obtain ⟨st, hst, hc⟩ := H.stmt hi
  obtain ⟨st', hst', hc'⟩ := H.stmt hj
  cases hst.symm.trans hst'
  exact H.inj hc hc'

theorem stmt_none (H : Linked dirty hdbc hstmt d) (h : hdbc db = none) : hstmt db = none := by
  cases hh : hstmt db with
  | none => rfl
  | some h' =>
    obtain ⟨st, -, hc⟩ := H.stmt hh
    cases h.symm.trans hc

theorem weaken (H : Linked none hdbc hstmt d) (dirty : Option DbConnectionId) :
    Linked dirty hdbc hstmt d :=
  { H with clean := fun hh hst _ => H.clean hh hst nofun }

theorem setStmt {st st' : Stmt} (H : Linked dirty hdbc hstmt d) (hh : hstmt db = some h)
    (hst : d.stmt h = some st) (hdbc' : st'.hdbc = st.hdbc) (hclean : dirty ≠ some db → st'.Clean) :
    Linked dirty hdbc hstmt (d.setStmt h st') := by
  refine ⟨H.dbc, fun {i h'} hi => ?_, H.inj, fun {h'} hdbc' => ?_, fun {i h' st'} hi hst' hdirty => ?_⟩
  · by_cases heq : h' = h
    · cases H.stmt_inj (heq ▸ hi) hh
      obtain ⟨st, hst'', hc⟩ := H.stmt hh
      cases hst.symm.trans hst''
      exact ⟨st', by simp [heq, Driver.setStmt], by rw [hdbc']; exact hc⟩
    · simpa only [Driver.setStmt, update_of_ne heq] using H.stmt hi
  · have hne : h' ≠ h := fun heq => by
      rw [heq] at hdbc'
      cases (H.kinds hdbc').symm.trans hst
    simpa only [Driver.setStmt, update_of_ne hne] using H.kinds hdbc'
  · by_cases heq : h' = h
    · cases H.stmt_inj (heq ▸ hi) hh
      simp only [Driver.setStmt, heq, update_self, Option.some.injEq] at hst'
      exact hst' ▸ hclean hdirty
    · simp only [Driver.setStmt, update_of_ne heq] at hst'
      exact H.clean hi hst' hdirty

/-- A call on a cached statement. -/
theorem onStmt {f : Stmt → Stmt} (H : Linked dirty hdbc hstmt d) (hh : hstmt db = some h)
    (hf : ∀ st, (f st).hdbc = st.hdbc)
    (hclean : dirty ≠ some db → ∀ st : Stmt, st.Clean → (f st).Clean) :
    ∃ d', d.onStmt h f = some d' ∧ Linked dirty hdbc hstmt d' := by
  obtain ⟨st, hst, -⟩ := H.stmt hh
  exact ⟨_, by rw [Driver.onStmt, hst]; rfl,
    H.setStmt hh hst (hf st) fun hne => hclean hne st (H.clean hh hst hne)⟩

/-- The three calls of `db_cleanup_stmt`. -/
theorem cleanup (H : Linked dirty hdbc hstmt d) (hh : hstmt db = some h) :
    ∃ d', (d.call (.freeStmt h .close)).bind (fun d =>
        (d.call (.freeStmt h .resetParams)).bind (·.call (.freeStmt h .unbind))) = some d' ∧
      Linked dirty hdbc hstmt d' ∧ ∀ st, d'.stmt h = some st → st.Clean := by
  obtain ⟨st, hst, -⟩ := H.stmt hh
  refine ⟨d.setStmt h ⟨st.hdbc, false, false, false⟩, ?_,
    H.setStmt hh hst rfl fun _ => ⟨rfl, rfl, rfl⟩, fun st' hst' => ?_⟩
  · simp [Driver.call, Driver.onStmt, Driver.setStmt, hst]
  · simp only [Driver.setStmt, update_self, Option.some.injEq] at hst'
    exact hst' ▸ ⟨rfl, rfl, rfl⟩

theorem cleaned (H : Linked (some db) hdbc hstmt d)
    (hclean : ∀ h st, hstmt db = some h → d.stmt h = some st → st.Clean) :
    Linked none hdbc hstmt d := by
  refine { H with clean := fun {i h st} hh hst _ => ?_ }
  by_cases heq : i = db
  · subst heq
    exact hclean h st hh hst
  · exact H.clean hh hst fun hdb => heq (Option.some.inj hdb).symm

theorem freeStmt (H : Linked dirty hdbc hstmt d) (hh : hstmt db = some h) :
    ∃ d', d.call (.freeHandle h) = some d' ∧ Linked dirty hdbc (update hstmt db none) d' := by
  obtain ⟨st, hst, -⟩ := H.stmt hh
  have hkind : ¬d.dbc h = true := fun hdbc => by cases (H.kinds hdbc).symm.trans hst
  have hother {i h'} (hi : update hstmt db none i = some h') : hstmt i = some h' ∧ h' ≠ h := by
    obtain ⟨hne, hi⟩ := of_update_none hi
    exact ⟨hi, fun heq => hne (H.stmt_inj (heq ▸ hi) hh)⟩
  refine ⟨{ d with stmt := update d.stmt h none }, by rw [Driver.call, if_neg hkind, hst]; rfl,
    H.dbc, fun {i h'} hi => ?_, H.inj, fun {h'} hdbc' => ?_, fun {i h' st'} hi hst' hdirty => ?_⟩
  · obtain ⟨hi, hne⟩ := hother hi
    simpa only [update_of_ne hne] using H.stmt hi
  · by_cases heq : h' = h
    · simp [heq]
    · simpa only [update_of_ne heq] using H.kinds hdbc'
  · obtain ⟨hi, hne⟩ := hother hi
    simp only [update_of_ne hne] at hst'
    exact H.clean hi hst' hdirty

theorem freeDbc (H : Linked dirty hdbc hstmt d) (hc : hdbc db = some c) (hh : hstmt db = none) :
    ∃ d' d'', d.call (.disconnect c) = some d' ∧ d'.call (.freeHandle c) = some d'' ∧
      Linked dirty (update hdbc db none) hstmt d'' := by
  have hlive := H.dbc hc
  refine ⟨d.dropStmts c, { (d.dropStmts c).dropStmts c with dbc := update d.dbc c false },
    if_pos hlive, if_pos hlive, fun {i c'} hi => ?_, fun {i h} hi => ?_, fun {i c' j} hi hj => ?_,
    fun {h} hdbc' => ?_, fun {i h st} hi hst hdirty => ?_⟩
  · obtain ⟨hne, hi⟩ := of_update_none hi
    have hother : c' ≠ c := fun heq => hne (H.inj (heq ▸ hi) hc)
    simpa only [update_of_ne hother] using H.dbc hi
  · have hne : i ≠ db := by
      rintro rfl
      cases hi.symm.trans hh
    obtain ⟨st, hst, hc'⟩ := H.stmt hi
    have hother : st.hdbc ≠ c := fun heq => hne (H.inj (heq ▸ hc') hc)
    exact ⟨st, by simp [Driver.dropStmts, hst, hother], by rwa [update_of_ne hne]⟩
  · exact H.inj (of_update_none hi).2 (of_update_none hj).2
  · have hdbc : d.dbc h = true := by
      by_cases heq : h = c
      · rw [heq]
        exact hlive
      · simpa only [update_of_ne heq] using hdbc'
    simp [Driver.dropStmts, H.kinds hdbc]
  · simp only [Driver.dropStmts, Option.filter_eq_some_iff] at hst
    exact H.clean hi hst.1.1 hdirty

theorem allocDbc (H : Linked dirty hdbc hstmt d) (hnone : hdbc db = none) (hdbc' : d.dbc c = false)
    (hstmt' : d.stmt c = none) :
    ∃ d', d.call (.allocDbc (some c)) = some d' ∧
      Linked dirty (update hdbc db (some c)) hstmt d' := by
  have hlive {i c'} (hi : hdbc i = some c') : c' ≠ c := by
    rintro rfl
    cases hdbc'.symm.trans (H.dbc hi)
  refine ⟨{ d with dbc := update d.dbc c true }, rfl, fun {i c'} hi => ?_, fun {i h} hi => ?_,
    fun {i c' j} hi hj => ?_, fun {h} hdbc'' => ?_, H.clean⟩
  · obtain ⟨-, rfl⟩ | ⟨-, hi⟩ := of_update_some hi
    · exact update_self ..
    · simpa only [update_of_ne (hlive hi)] using H.dbc hi
  · have hne : i ≠ db := by
      rintro rfl
      cases hi.symm.trans (H.stmt_none hnone)
    obtain ⟨st, hst, hc'⟩ := H.stmt hi
    exact ⟨st, hst, by rwa [update_of_ne hne]⟩
  · obtain ⟨rfl, rfl⟩ | ⟨-, hi⟩ := of_update_some hi
    · obtain ⟨rfl, -⟩ | ⟨-, hj⟩ := of_update_some hj
      · rfl
      · exact absurd rfl (hlive hj)
    · obtain ⟨-, rfl⟩ | ⟨-, hj⟩ := of_update_some hj
      · exact absurd rfl (hlive hi)
      · exact H.inj hi hj
  · by_cases heq : h = c
    · exact heq ▸ hstmt'
    · exact H.kinds (by simpa only [update_of_ne heq] using hdbc'')

theorem allocStmt (H : Linked dirty hdbc hstmt d) (hc : hdbc db = some c) (hdbc' : d.dbc h = false)
    (hstmt' : d.stmt h = none) :
    ∃ d', d.call (.allocStmt c (some h)) = some d' ∧
      Linked dirty hdbc (update hstmt db (some h)) d' := by
  have hlive {i h'} (hi : hstmt i = some h') : h' ≠ h := by
    rintro rfl
    obtain ⟨st, hst, -⟩ := H.stmt hi
    cases hst.symm.trans hstmt'
  refine ⟨d.setStmt h { hdbc := c }, if_pos (H.dbc hc), H.dbc,
    fun {i h'} hi => ?_, H.inj, fun {h'} hdbc'' => ?_, fun {i h' st} hi hst hdirty => ?_⟩
  · obtain ⟨rfl, rfl⟩ | ⟨-, hi⟩ := of_update_some hi
    · exact ⟨_, update_self .., hc⟩
    · simpa only [Driver.setStmt, update_of_ne (hlive hi)] using H.stmt hi
  · have hne : h' ≠ h := by
      rintro rfl
      cases hdbc'.symm.trans hdbc''
    simpa only [Driver.setStmt, update_of_ne hne] using H.kinds hdbc''
  · obtain ⟨-, rfl⟩ | ⟨-, hi⟩ := of_update_some hi
    · simp only [Driver.setStmt, update_self, Option.some.injEq] at hst
      exact hst ▸ ⟨rfl, rfl, rfl⟩
    · simp only [Driver.setStmt, update_of_ne (hlive hi)] at hst
      exact H.clean hi hst hdirty

end Linked

/-! ## Connections -/

/-- The cache, and every call so far was on a handle in use. -/
structure Cached (dirty : Option DbConnectionId) (hdbc hstmt : DbConnectionId → Option Handle)
    (s : Db) : Prop where
  dbcs : s.hdbc = hdbc
  stmts : s.hstmt = hstmt
  linked : ∃ d, Driver.run s.calls = some d ∧ Linked dirty hdbc hstmt d

section
variable {dirty : Option DbConnectionId} {hdbc hstmt : DbConnectionId → Option Handle}
  {db : DbConnectionId} {c h handle : Handle} {call : OdbcCall}

theorem Cached.of_pool {s t : Db} (hs : Cached dirty hdbc hstmt s) (h : t.pool = s.pool) :
    Cached dirty hdbc hstmt t := by
  obtain ⟨hdbc', hrest⟩ := Prod.mk.inj h
  obtain ⟨hstmt', hcalls⟩ := Prod.mk.inj hrest
  exact ⟨hdbc'.trans hs.dbcs, hstmt'.trans hs.stmts, hcalls ▸ hs.linked⟩

theorem cached_keeps {m : DbM α} (hm : Keeps Db.pool m) :
    Spec (Cached dirty hdbc hstmt) m (fun _ => Cached dirty hdbc hstmt) :=
  ⟨fun s hs => hs.of_pool (hm.run s)⟩

theorem Cached.concat {hdbc' hstmt' : DbConnectionId → Option Handle} {s : Db}
    (hs : Cached dirty hdbc hstmt s)
    (hcall : ∀ d, Driver.run s.calls = some d → Linked dirty hdbc hstmt d →
      ∃ d', d.call call = some d' ∧ Linked dirty hdbc' hstmt' d') :
    ∃ d, Driver.run (s.calls ++ [call]) = some d ∧ Linked dirty hdbc' hstmt' d := by
  obtain ⟨d, hd, hlinked⟩ := hs.linked
  obtain ⟨d', hd', hlinked'⟩ := hcall d hd hlinked
  exact ⟨d', by rw [Driver.run_concat, hd]; exact hd', hlinked'⟩

theorem cached_odbc
    (hcall : ∀ d, Linked dirty hdbc hstmt d →
      ∃ d', d.call call = some d' ∧ Linked dirty hdbc hstmt d') :
    Spec (Cached dirty hdbc hstmt) (odbc call) (fun _ => Cached dirty hdbc hstmt) :=
  ⟨fun _ hs => ⟨hs.dbcs, hs.stmts, hs.concat fun d _ => hcall d⟩⟩

/-- The handles that may be asked for diagnostic records. -/
def Askable (hdbc hstmt : DbConnectionId → Option Handle) (handle : Handle) : Prop :=
  handle = odbcEnv ∨ ∃ i, hdbc i = some handle ∨ hstmt i = some handle

theorem cached_diagLoop (hask : Askable hdbc hstmt handle) (recNum : Nat) (fullMsg : Bytes)
    (lost : Bool) (diags : List DiagRec) :
    Spec (Cached dirty hdbc hstmt) (diagLoop handle recNum fullMsg lost diags)
      (fun _ => Cached dirty hdbc hstmt) := by
  have hdiag recNum : Spec (Cached dirty hdbc hstmt) (odbc (.getDiagRec handle recNum))
      (fun _ => Cached dirty hdbc hstmt) := by
    refine cached_odbc fun d H => ⟨d, if_pos ?_, H⟩
    obtain henv | ⟨i, hdbc | hstmt⟩ := hask
    · exact .inl henv
    · exact .inr (.inl (H.dbc hdbc))
    · obtain ⟨st, hst, -⟩ := H.stmt hstmt
      exact .inr (.inr (by rw [hst]; rfl))
  induction diags generalizing recNum fullMsg lost with
  | nil => exact (hdiag _).bind fun _ => .pure fun _ => id
  | cons diag diags ih =>
    exact (hdiag _).bind fun _ => .bind (cached_keeps (.modify fun _ => rfl)) fun _ => ih ..

theorem cached_dbFreeStmtHandle :
    Spec (Cached dirty hdbc hstmt) (dbFreeStmtHandle db)
      (fun _ => Cached dirty hdbc (update hstmt db none)) := by
  refine .get_bind fun s hs => ?_
  rw [hs.stmts]
  cases hh : hstmt db with
  | none => exact .pure fun s hs => by rwa [update_eq_self_iff.mpr hh.symm]
  | some h =>
    exact ⟨fun s hs => ⟨hs.dbcs, by rw [← hs.stmts]; rfl, hs.concat fun d _ H => H.freeStmt hh⟩⟩

theorem cached_dbFreeDbcHandle (hnone : hstmt db = none) :
    Spec (Cached dirty hdbc hstmt) (dbFreeDbcHandle db)
      (fun _ => Cached dirty (update hdbc db none) hstmt) := by
  refine .get_bind fun s hs => ?_
  rw [hs.dbcs]
  cases hc : hdbc db with
  | none => exact .pure fun s hs => by rwa [update_eq_self_iff.mpr hc.symm]
  | some c =>
    refine ⟨fun s hs => ⟨by rw [← hs.dbcs]; rfl, hs.stmts, ?_⟩⟩
    obtain ⟨d, hd, H⟩ := hs.linked
    obtain ⟨d', d'', hd', hd'', H'⟩ := H.freeDbc hc hnone
    refine ⟨d'', ?_, H'⟩
    change Driver.run ((s.calls ++ [_]) ++ [_]) = _
    rw [Driver.run_concat, Driver.run_concat, hd, Option.bind_some, hd', Option.bind_some, hd'']

theorem cached_dbResetConnection :
    Spec (Cached dirty hdbc hstmt) (dbResetConnection db)
      (fun _ => Cached dirty (update hdbc db none) (update hstmt db none)) :=
  cached_dbFreeStmtHandle.bind fun _ => cached_dbFreeDbcHandle (update_self ..)

/-- The connection may be gone behind an error. -/
theorem cached_dbSetError (hask : Askable hdbc hstmt handle) (diags : List DiagRec) (msg : Bytes) :
    Spec (Cached dirty hdbc hstmt) (dbSetError db handle diags msg)
      (fun _ s => Cached dirty hdbc hstmt s ∨
        Cached dirty (update hdbc db none) (update hstmt db none) s) := by
  have herror msg : Spec (Cached dirty hdbc hstmt) (dbError msg) (fun _ => Cached dirty hdbc hstmt) :=
    cached_keeps ⟨fun _ => rfl⟩
  refine (cached_diagLoop hask ..).bind fun r => .ite (fun _ => ?_) fun _ => ?_
  · refine (herror _).bind fun _ => .ite (fun _ => ?_) fun _ => .pure fun _ => .inl
    exact (herror _).bind fun _ => cached_dbResetConnection.conseq (fun _ => id) fun _ _ => .inr
  · exact (herror _).conseq (fun _ => id) fun _ _ => .inl

/-- Every call so far was on a handle in use, and the cache has handles in use. -/
def Safe (dirty : Option DbConnectionId) (s : Db) : Prop :=
  ∃ d, Driver.run s.calls = some d ∧ Linked dirty s.hdbc s.hstmt d

theorem Cached.safe {s : Db} (hs : Cached dirty hdbc hstmt s) : Safe dirty s := by
  obtain ⟨rfl, rfl, hlinked⟩ := hs
  exact hlinked

theorem safe_of_cached {m : DbM α} {Q : α → Db → Prop}
    (h : ∀ hdbc hstmt, Spec (Cached dirty hdbc hstmt) m Q) : Spec (Safe dirty) m Q :=
  ⟨fun s hs => (h s.hdbc s.hstmt).run s ⟨rfl, rfl, hs⟩⟩

theorem safe_keeps {m : DbM α} (hm : Keeps Db.pool m) : Spec (Safe dirty) m (fun _ => Safe dirty) :=
  safe_of_cached fun _ _ => (cached_keeps hm).conseq (fun _ => id) fun _ _ => Cached.safe

theorem cached_or_safe {p q p' q' : DbConnectionId → Option Handle} {s : Db}
    (hs : Cached dirty p q s ∨ Cached dirty p' q' s) : Safe dirty s :=
  hs.elim Cached.safe Cached.safe

theorem safe_dbResetConnection : Spec (Safe dirty) (dbResetConnection db) (fun _ => Safe dirty) :=
  safe_of_cached fun _ _ => cached_dbResetConnection.conseq (fun _ => id) fun _ _ => Cached.safe

theorem cached_onDbc {call : OdbcCall} (hcall : ∀ d : Driver, d.call call = d.onDbc c d)
    (hc : hdbc db = some c) :
    Spec (Cached dirty hdbc hstmt) (odbc call) (fun _ => Cached dirty hdbc hstmt) :=
  cached_odbc fun d H => ⟨d, by rw [hcall, Driver.onDbc, if_pos (H.dbc hc)], H⟩

theorem cached_allocDbc {k : Handle → DbM α} {Q : α → Db → Prop} (hnone : hdbc db = none)
    (hk : ∀ c, Spec (Cached dirty (update hdbc db (some c)) hstmt) (k c) Q) :
    Spec (Cached dirty hdbc hstmt) (do
      let c ← newHandle
      odbc (.allocDbc (some c))
      modify fun s => { s with hdbc := update s.hdbc db (some c) }
      k c) Q := by
  refine ⟨fun s hs => (hk (s.alloc.next s.calls)).run _ ⟨by rw [← hs.dbcs], hs.stmts, ?_⟩⟩
  refine hs.concat fun d hd H => ?_
  obtain ⟨hdbc', hstmt'⟩ := s.alloc.fresh _ d hd
  exact H.allocDbc hnone hdbc' hstmt'

theorem safe_dbConnect (cfg : Config) (a : ConnectAnswers) :
    Spec (Safe none) (dbConnect cfg db a)
      (fun r s => Safe none s ∧ ∀ c, r = some c → s.hdbc db = some c) := by
  refine safe_of_cached fun hdbc hstmt => .get_bind fun s hs => ?_
  rw [hs.dbcs]
  cases hc : hdbc db with
  | some c =>
    refine .pure fun s hs => ⟨hs.safe, fun c' heq => ?_⟩
    cases heq
    rw [hs.dbcs, hc]
  | none =>
    refine .ite (fun _ => ?_) fun _ => .ite (fun _ => ?_) fun _ => cached_allocDbc hc fun c => ?_
    · exact (cached_keeps ⟨fun _ => rfl⟩).bind fun _ => .pure fun s hs => ⟨hs.safe, nofun⟩
    · refine (cached_odbc fun d H => ⟨d, rfl, H⟩).bind fun _ => ?_
      exact (cached_dbSetError (.inl rfl) ..).bind fun _ => .pure fun s hs => ⟨cached_or_safe hs, nofun⟩
    · have hself : update hdbc db (some c) db = some c := update_self ..
      refine (cached_onDbc (fun _ => rfl) hself).bind fun _ => (cached_onDbc (fun _ => rfl) hself).bind
        fun _ => (cached_onDbc (fun _ => rfl) hself).bind fun _ => .ite (fun _ => ?_) fun _ => ?_
      · refine (cached_dbSetError (.inr ⟨db, .inl hself⟩) ..).bind fun _ => ?_
        exact (safe_dbResetConnection.conseq (fun _ => cached_or_safe) fun _ _ => id).bind fun _ =>
          .pure fun s hs => ⟨hs, nofun⟩
      · refine .pure fun s hs => ⟨hs.safe, fun c' heq => ?_⟩
        cases heq
        rw [hs.dbcs, hself]

/-! ## Statements -/

theorem OnStmt.effect (hcall : OnStmt h call) :
    ∃ f : Stmt → Stmt, (∀ d : Driver, d.call call = d.onStmt h f) ∧ ∀ st, (f st).hdbc = st.hdbc := by
  cases hcall with
  | bindParameter => exact ⟨fun st => { st with params := true }, fun _ => rfl, fun _ => rfl⟩
  | execDirect | moreResults =>
    exact ⟨fun st => { st with cursor := true }, fun _ => rfl, fun _ => rfl⟩
  | bindCol => exact ⟨fun st => { st with columns := true }, fun _ => rfl, fun _ => rfl⟩
  | _ => exact ⟨id, fun _ => rfl, fun _ => rfl⟩

theorem cached_onStmt (hcall : OnStmt h call) (hh : hstmt db = some h) :
    Spec (Cached (some db) hdbc hstmt) (odbc call) (fun _ => Cached (some db) hdbc hstmt) := by
  obtain ⟨f, hf, hkeeps⟩ := hcall.effect
  refine cached_odbc fun d H => ?_
  rw [hf]
  exact H.onStmt hh hkeeps fun hne => absurd rfl hne

theorem cached_allocStmt {k : Handle → DbM α} {Q : α → Db → Prop} (hc : hdbc db = some c)
    (hk : ∀ h, Spec (Cached none hdbc (update hstmt db (some h))) (k h) Q) :
    Spec (Cached none hdbc hstmt) (do
      let h ← newHandle
      odbc (.allocStmt c (some h))
      odbc (.setStmtAttr h)
      modify fun s => { s with hstmt := update s.hstmt db (some h) }
      k h) Q := by
  refine ⟨fun s hs => (hk (s.alloc.next s.calls)).run _ ⟨hs.dbcs, by rw [← hs.stmts], ?_⟩⟩
  obtain ⟨d, hd, H⟩ := hs.linked
  obtain ⟨hdbc', hstmt'⟩ := s.alloc.fresh _ d hd
  obtain ⟨d', hd', H'⟩ := H.allocStmt hc hdbc' hstmt'
  obtain ⟨d'', hd'', H''⟩ := H'.onStmt (f := id) (update_self ..) (fun _ => rfl) fun _ _ => id
  refine ⟨d'', ?_, H''⟩
  change Driver.run ((s.calls ++ [_]) ++ [_]) = _
  rw [Driver.run_concat, Driver.run_concat, hd, Option.bind_some, hd', Option.bind_some]
  exact hd''

theorem safe_dbAllocStmt (a : Outcome) :
    Spec (fun s => Safe none s ∧ s.hdbc db = some c) (dbAllocStmt db c a)
      (fun r s => Safe none s ∧ ∀ h, r = some h → s.hstmt db = some h) := by
  suffices hcached : ∀ hdbc hstmt, hdbc db = some c →
      Spec (Cached none hdbc hstmt) (dbAllocStmt db c a)
        (fun r s => Safe none s ∧ ∀ h, r = some h → s.hstmt db = some h) from
    ⟨fun s hs => (hcached s.hdbc s.hstmt hs.2).run s ⟨rfl, rfl, hs.1⟩⟩
  intro hdbc hstmt hc
  refine .get_bind fun s hs => ?_
  rw [hs.stmts]
  cases hh : hstmt db with
  | some h =>
    refine .pure fun s hs => ⟨hs.safe, fun h' heq => ?_⟩
    cases heq
    rw [hs.stmts, hh]
  | none =>
    refine .ite (fun _ => ?_) fun _ => cached_allocStmt hc fun h => ?_
    · refine (cached_onDbc (fun _ => rfl) hc).bind fun _ =>
        (cached_dbSetError (.inr ⟨db, .inl hc⟩) ..).bind fun _ => ?_
      exact (safe_dbResetConnection.conseq (fun _ => cached_or_safe) fun _ _ => id).bind fun _ =>
        .pure fun s hs => ⟨hs, nofun⟩
    · refine .pure fun s hs => ⟨hs.safe, fun h' heq => ?_⟩
      cases heq
      rw [hs.stmts, update_self]

/-- The statement of `db` is in use, or a call on it has failed and perhaps taken it away. -/
def Holds (db : DbConnectionId) (h : Handle) (ok : Bool) (s : Db) : Prop :=
  Safe (some db) s ∧ (s.hstmt db = some h ∨ ok = false ∧ s.hstmt db = none)

theorem Holds.failed {s : Db} (hs : Holds db h ok s) : Holds db h false s :=
  hs.imp_right (·.imp_right fun hnone => ⟨rfl, hnone.2⟩)

theorem holds_of_cached {m : DbM α} {Q : α → Db → Prop}
    (hm : ∀ hdbc hstmt, hstmt db = some h → Spec (Cached (some db) hdbc hstmt) m Q) :
    Spec (Holds db h true) m Q := by
  refine ⟨fun s ⟨hs, hh⟩ => (hm s.hdbc s.hstmt ?_).run s ⟨rfl, rfl, hs⟩⟩
  exact hh.resolve_right nofun

theorem Cached.holds {s : Db} (hs : Cached (some db) hdbc hstmt s) (hh : hstmt db = some h) :
    Holds db h true s :=
  ⟨hs.safe, .inl (by rw [hs.stmts, hh])⟩

theorem holds_odbc (hcall : OnStmt h call) :
    Spec (Holds db h true) (odbc call) (fun _ => Holds db h true) :=
  holds_of_cached fun _ _ hh => (cached_onStmt hcall hh).conseq (fun _ => id) fun _ _ hs => hs.holds hh

theorem holds_keeps {m : DbM α} {ok : Bool} (hm : Keeps Db.pool m) :
    Spec (Holds db h ok) m (fun _ => Holds db h ok) := by
  refine ⟨fun s hs => ⟨(safe_keeps hm).run s hs.1, ?_⟩⟩
  rw [(Prod.mk.inj (Prod.mk.inj (hm.run s)).2).1]
  exact hs.2

theorem holds_dbSetError (diags : List DiagRec) (msg : Bytes) :
    Spec (Holds db h true) (dbSetError db h diags msg) (fun _ => Holds db h false) := by
  refine holds_of_cached fun hdbc hstmt hh => ?_
  refine (cached_dbSetError (.inr ⟨db, .inr hh⟩) ..).conseq (fun _ => id) fun _ s hs => ?_
  obtain hs | hs := hs
  · exact (hs.holds hh).failed
  · exact ⟨hs.safe, .inr ⟨rfl, by rw [hs.stmts, update_self]⟩⟩

end

end ApiServer
