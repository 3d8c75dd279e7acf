import ApiServer.Dbapi.Failure

/-!
# Native JSON documents

A database that makes JSON itself returns the document in pieces, one cell for each row, and
`SQLGetData` returns a cell in chunks of 4095 bytes. The chunk loop loses no byte of a cell. The row
loop writes `null` for the first NULL that it comes to before any byte has been written, so data
behind such a NULL stands behind that word.
-/

namespace ApiServer
open Bytes StateRules

/-- What `SQLGetData` answers for a cell, call by call. -/
inductive Reads : Option Bytes → List DataAnswer → Prop
  | null {a : DataAnswer} {rest : List DataAnswer} (hret : a.ret = 0)
    (hind : a.indicator = sqlNullData) : Reads none (a :: rest)
  | last {data : Bytes} {a : DataAnswer} {rest : List DataAnswer} (hlen : data.length ≤ 4095)
    (hret : a.ret = 0) (hind : a.indicator = data.length) (hchunk : data <+: a.chunk) :
    Reads (some data) (a :: rest)
  | more {data : Bytes} {a : DataAnswer} {rest : List DataAnswer} (hlen : 4095 < data.length)
    (hret : a.ret = sqlSuccessWithInfo) (hind : a.indicator = data.length ∨ a.indicator = sqlNoTotal)
    (hchunk : data.take 4095 <+: a.chunk) (hrest : Reads (some (data.drop 4095)) rest) :
    Reads (some data) (a :: rest)

/-- A row that is fetched, with this cell as its first column. -/
structure JsonRowAnswer.Holds (cell : Option Bytes) (row : JsonRowAnswer) : Prop where
  fetch : sqlSucceeded row.fetch.ret = true
  reads : Reads cell row.getData

def cellsData (cells : List (Option Bytes)) : Bytes := (cells.filterMap id).flatten

/-- The document that the rows make up. -/
def nativeDocument (cells : List (Option Bytes)) : Bytes :=
  if cells = [] then bytes "[]"
  else if ∀ cell ∈ cells, cell = none then bytes "null"
  else cellsData cells

/-! ## A cell -/

/-- The bytes that the chunk loop adds, when `written` tells whether there are some in front. -/
def cellAdded (written : Bool) : Option Bytes → Bytes
  | none => if written then [] else bytes "null"
  | some data => data

def cellWritten (written : Bool) : Option Bytes → Bool
  | none => true
  | some data => written || data != []

theorem payload_of_chunk {a : DataAnswer} {data : Bytes} (hchunk : data <+: a.chunk)
    (hind : a.indicator = data.length ∧ data.length ≤ 4095 ∨
      data.length = 4095 ∧ (4095 ≤ a.indicator ∨ a.indicator = sqlNoTotal)) :
    a.payload = data := by
  obtain ⟨rest, hrest⟩ := hchunk
  have htake : (a.chunk ++ List.replicate 4095 0).take data.length = data := by
    rw [← hrest, List.append_assoc, List.take_left]
  have hnoTotal : sqlNoTotal = -4 := rfl
  unfold DataAnswer.payload
  dsimp only
  split
  · next h =>
    rw [← htake]
    exact congrArg (List.take · _) (by omega)
  next h =>
  rw [if_pos (by omega), show a.indicator.toNat = data.length by omega]
  exact htake

/-- One call that succeeds with data. -/
theorem fetchJsonNativeColLoop_data (db : DbConnectionId) (hstmt : Handle) {a : DataAnswer}
    {data : Bytes} (hret : sqlSucceeded a.ret = true) (hnull : a.indicator ≠ sqlNullData)
    (hpayload : a.payload = data) (answers : List DataAnswer) (written : Bool) (s : Db) :
    fetchJsonNativeColLoop db hstmt written (a :: answers) s =
      let s' := { s with calls := s.calls ++ [.getData hstmt], outBuf := s.outBuf ++ data }
      if a.ret = sqlSuccessWithInfo then
        fetchJsonNativeColLoop db hstmt (written || data != []) answers s'
      else ((true, written || data != []), s') := by
  have hdata := ne_noData_of_succeeded hret
  simp only [fetchJsonNativeColLoop, bind_run, ite_run, hret, hnull, hdata, hpayload, ne_eq,
    not_false_eq_true, Bool.not_true, Bool.false_eq_true, false_and, if_false, if_true]
  rfl

theorem fetchJsonNativeColLoop_reads (db : DbConnectionId) (hstmt : Handle) {cell : Option Bytes}
    {answers : List DataAnswer} (h : Reads cell answers) (written : Bool) (s : Db) :
    (fetchJsonNativeColLoop db hstmt written answers s).1 = (true, cellWritten written cell) ∧
      (fetchJsonNativeColLoop db hstmt written answers s).2.outBuf =
        s.outBuf ++ cellAdded written cell := by
  have hnull : ∀ n : Nat, (n : Int) ≠ sqlNullData := fun n => by
    have : sqlNullData = -1 := rfl
    omega
  induction h generalizing s written with
  | @null a rest hret hind =>
    have hgood : ¬(!sqlSucceeded a.ret ∧ a.ret ≠ sqlNoData) := by
      rw [hret]
      decide
    simp only [fetchJsonNativeColLoop, bind_run, if_neg hgood, if_pos hind]
    exact ⟨rfl, rfl⟩
  | @last data a rest hlen hret hind hchunk =>
    have hpayload := payload_of_chunk hchunk (.inl ⟨hind, hlen⟩)
    rw [fetchJsonNativeColLoop_data db hstmt (by rw [hret]; rfl) (by rw [hind]; exact hnull _) hpayload]
    dsimp only
    rw [if_neg (by rw [hret]; decide)]
    exact ⟨rfl, rfl⟩
  | @more data a rest hlen hret hind hchunk hrest ih =>
    have htake : (data.take 4095).length = 4095 := by
      rw [List.length_take]
      omega
    have hpayload := payload_of_chunk hchunk (.inr ⟨htake, by omega⟩)
    rw [fetchJsonNativeColLoop_data db hstmt (by rw [hret]; rfl)
      (by obtain h | h := hind <;> rw [h]; exacts [hnull _, by decide]) hpayload]
    dsimp only
    rw [if_pos hret]
    obtain ⟨hok, hout⟩ := ih (written || data.take 4095 != []) { s with
      calls := s.calls ++ [.getData hstmt], outBuf := s.outBuf ++ data.take 4095 }
    refine ⟨hok.trans ?_, hout.trans ?_⟩
    · rw [cellWritten, cellWritten, Bool.or_assoc, bne_nil_append, List.take_append_drop]
    · rw [cellAdded, cellAdded, List.append_assoc, List.take_append_drop]

/-! ## The rows -/

def rowsAdded (written : Bool) : List (Option Bytes) → Bytes
  | [] => []
  | cell :: cells => cellAdded written cell ++ rowsAdded (cellWritten written cell) cells

theorem jsonRows_holds (db : DbConnectionId) (hstmt : Handle) {cells : List (Option Bytes)}
    {rows : List JsonRowAnswer} (h : List.Forall₂ JsonRowAnswer.Holds cells rows)
    (hasRows written : Bool) (s : Db) :
    (jsonRows db hstmt hasRows written rows s).1 = true ∧
      (jsonRows db hstmt hasRows written rows s).2.outBuf = s.outBuf ++ rowsAdded written cells ++
        if hasRows ∨ cells ≠ [] then [] else bytes "[]" := by
  induction h generalizing hasRows written s with
  | nil =>
    refine ⟨rfl, ?_⟩
    rw [rowsAdded, List.append_nil]
    cases hasRows <;> rfl
  | @cons cell row cells rows hrow _ ih =>
    have hdone := ne_noData_of_succeeded hrow.fetch
    obtain ⟨hok, hout⟩ :=
      fetchJsonNativeColLoop_reads db hstmt hrow.reads written (odbc (.fetch hstmt) s).2
    simp only [jsonRows, bind_run, ite_run, if_neg hdone, hrow.fetch, Bool.not_true, Bool.false_eq_true,
      if_false, hok]
    obtain ⟨hok', hout'⟩ := ih true (cellWritten written cell)
      (fetchJsonNativeColLoop db hstmt written row.getData (odbc (.fetch hstmt) s).2).2
    refine ⟨hok', hout'.trans ?_⟩
    rw [hout, rowsAdded]
    simp [odbc, modify_run]

/-- A NULL that no byte stands in front of. -/
def NullFirst (cells : List (Option Bytes)) : Prop :=
  ∃ before after, cells = before ++ none :: after ∧ ∀ data, some data ∈ before → data = []

@[simp] theorem cellsData_none (cells : List (Option Bytes)) :
    cellsData (none :: cells) = cellsData cells := rfl

theorem rowsAdded_true (cells : List (Option Bytes)) : rowsAdded true cells = cellsData cells := by
  induction cells with
  | nil => rfl
  | cons cell cells ih => cases cell with
    | none => exact ih
    | some data => exact congrArg (data ++ ·) ih

theorem rowsAdded_nullFirst (h : NullFirst cells) :
    rowsAdded false cells = bytes "null" ++ cellsData cells := by
  obtain ⟨before, after, rfl, hbefore⟩ := h
  induction before with
  | nil => exact congrArg (bytes "null" ++ ·) (rowsAdded_true after)
  | cons cell before ih =>
    obtain ⟨hcell, hrest⟩ : (∀ data, some data = cell → data = []) ∧
        ∀ data, some data ∈ before → data = [] :=
      ⟨fun data h => hbefore data (h ▸ List.mem_cons_self), fun data h =>
        hbefore data (List.mem_cons_of_mem _ h)⟩
    cases cell with
    | none => exact congrArg (bytes "null" ++ ·) (rowsAdded_true _)
    | some data =>
      obtain rfl := hcell data rfl
      exact ih hrest

theorem rowsAdded_dataFirst (h : ¬NullFirst cells) : rowsAdded false cells = cellsData cells := by
  induction cells with
  | nil => rfl
  | cons cell cells ih => cases cell with
    | none => exact absurd ⟨[], cells, rfl, nofun⟩ h
    | some data => cases data with
      | cons c data => exact congrArg (c :: data ++ ·) (rowsAdded_true cells)
      | nil =>
        refine ih fun ⟨before, after, hcells, hbefore⟩ => h ⟨some [] :: before, after, ?_, ?_⟩
        · rw [hcells, List.cons_append]
        · simpa using hbefore

/-- The rows are streamed without loss as long as no NULL comes before the data. -/
theorem dbFetchJsonNative_lossless_iff (db : DbConnectionId) (hstmt : Handle)
    {cells : List (Option Bytes)} {rows : List JsonRowAnswer}
    (h : List.Forall₂ JsonRowAnswer.Holds cells rows) (s : Db) :
    (dbFetchJsonNative rows db hstmt s).1 = true ∧
      ((dbFetchJsonNative rows db hstmt s).2.outBuf = s.outBuf ++ nativeDocument cells ↔
        (∀ cell ∈ cells, cell = none) ∨ ¬NullFirst cells) := by
  obtain ⟨hok, hout⟩ := jsonRows_holds db hstmt h false false s
  refine ⟨hok, ?_⟩
  rw [dbFetchJsonNative, hout, List.append_assoc, List.append_cancel_left_eq, nativeDocument]
  by_cases hnil : cells = []
  · subst hnil
    exact ⟨fun _ => .inl nofun, fun _ => rfl⟩
  rw [if_pos (.inr hnil), List.append_nil, if_neg hnil]
  by_cases hnull : ∀ cell ∈ cells, cell = none
  · obtain ⟨cell, cells, rfl⟩ := List.exists_cons_of_ne_nil hnil
    obtain ⟨rfl, hcells⟩ := List.forall_mem_cons.mp hnull
    have hdata : cellsData cells = [] := by
      rw [cellsData, (List.filterMap_eq_nil_iff (f := id)).mpr hcells, List.flatten_nil]
    have hfirst : NullFirst (none :: cells) := ⟨[], cells, rfl, nofun⟩
    rw [if_pos hnull, rowsAdded_nullFirst hfirst, cellsData_none, hdata]
    exact ⟨fun _ => .inl hnull, fun _ => rfl⟩
  rw [if_neg hnull]
  by_cases hfirst : NullFirst cells
  · rw [rowsAdded_nullFirst hfirst]
    refine ⟨fun heq => ?_, fun hcond => ?_⟩
    · exact absurd (List.append_left_eq_self.mp heq) (by decide)
    · exact absurd hcond (by simp only [hnull, hfirst, not_true_eq_false, or_self, not_false_eq_true])
  · exact ⟨fun _ => .inr hfirst, fun _ => rowsAdded_dataFirst hfirst⟩

/-- A document in two rows, the first of them too long for one call, and a NULL behind them. -/
def chunkedRows : List JsonRowAnswer :=
  [{ getData :=
      [{ ret := sqlSuccessWithInfo, indicator := sqlNoTotal, chunk := .replicate 4095 91 },
       { indicator := 1, chunk := [93] }] },
    { getData := [{ indicator := 2, chunk := [91, 93] }] },
    { getData := [{ indicator := sqlNullData }] }]

theorem dbFetchJsonNative_lossless_chunks :
    (dbFetchJsonNative chunkedRows 0 7 {}).2.outBuf =
      nativeDocument [some (.replicate 4095 91 ++ [93]), some [91, 93], none] := by
  have htake : (List.replicate 4095 (91 : UInt8) ++ [93]).take 4095 <+: .replicate 4095 91 :=
    (List.take_left' List.length_replicate).symm ▸ List.prefix_refl (List.replicate 4095 91)
  have hdrop : (List.replicate 4095 (91 : UInt8) ++ [93]).drop 4095 = [93] :=
    List.drop_left' List.length_replicate
  have hreads : Reads (some (.replicate 4095 91 ++ [93])) (chunkedRows.headD {}).getData := by
    refine .more ?_ rfl (.inr rfl) ?_ (.last ?_ rfl ?_ ?_)
    · rw [List.length_append, List.length_replicate]
      decide
    · exact htake
    · rw [hdrop]
      decide
    · rw [hdrop]
      rfl
    · exact hdrop.symm ▸ List.prefix_refl [93]
  have hrows : List.Forall₂ JsonRowAnswer.Holds
      [some (.replicate 4095 91 ++ [93]), some [91, 93], none] chunkedRows :=
    .cons ⟨rfl, hreads⟩ <| .cons ⟨rfl, .last (by decide) rfl rfl (List.prefix_refl _)⟩ <|
      .cons ⟨rfl, .null rfl rfl⟩ .nil
  refine ((dbFetchJsonNative_lossless_iff 0 7 hrows {}).2.mpr (.inr ?_)).trans (List.nil_append _)
  rintro ⟨before, after, hcells, hbefore⟩
  cases before with
  | nil => exact absurd (List.cons.inj hcells).1 nofun
  | cons cell before =>
    obtain ⟨rfl, -⟩ := List.cons.inj hcells
    exact absurd (hbefore _ List.mem_cons_self) (List.append_ne_nil_of_right_ne_nil _ nofun)

/-- The word `null` stands in front of the data of the second row. -/
theorem null_row_corrupts_document :
    List.Forall₂ JsonRowAnswer.Holds [none, some (bytes "[1]")]
      [{ getData := [{ indicator := sqlNullData }] },
        { getData := [{ indicator := 3, chunk := bytes "[1]" }] }] ∧
    nativeDocument [none, some (bytes "[1]")] = bytes "[1]" ∧
    (dbFetchJsonNative [{ getData := [{ indicator := sqlNullData }] },
      { getData := [{ indicator := 3, chunk := bytes "[1]" }] }] 0 7 {}).2.outBuf =
        bytes "null[1]" := by
  refine ⟨.cons ⟨rfl, .null rfl rfl⟩ <| .cons ⟨rfl, .last ?_ rfl rfl (List.prefix_refl _)⟩ .nil, rfl,
    rfl⟩
  decide

end ApiServer
