import ApiServer.Dbapi.CleanFailure
import ApiServer.Dbapi.ColumnKey
import ApiServer.Dbapi.MultiResult

/-!
# Values that do not fit their buffer

A character column is bound to a buffer whose size follows from the declared size of the column, in
characters. When a value does not fit, `SQLFetch` stores a part of it, answers `SQL_SUCCESS_WITH_INFO`
and leaves an indicator that is no smaller than the buffer. The fetch loop takes that for a success,
so the document has the part where the value should be.
-/

namespace ApiServer
open Bytes Json StateRules

/-! ## Shorter texts -/

/-- `x` is `y` if `p` holds, and shorter otherwise. -/
structure CutTo (x y : Bytes) (p : Prop) : Prop where
  same : p → x = y
  shorter : ¬p → x.length < y.length

namespace CutTo
variable {x y x' y' : Bytes} {p q : Prop}

theorem refl (x : Bytes) : CutTo x x True := ⟨fun _ => rfl, fun h => absurd trivial h⟩

theorem eq_iff (h : CutTo x y p) : x = y ↔ p :=
  ⟨fun heq => by_contra fun hp => (h.shorter hp).ne (congrArg List.length heq), h.same⟩

theorem congr (h : CutTo x y p) (hiff : p ↔ q) : CutTo x y q :=
  ⟨fun hq => h.same (hiff.mpr hq), fun hq => h.shorter (fun hp => hq (hiff.mp hp))⟩

theorem length_le (h : CutTo x y p) : x.length ≤ y.length := by
  by_cases hp : p
  · rw [h.same hp]
  · exact (h.shorter hp).le

theorem append (h : CutTo x y p) (h' : CutTo x' y' q) : CutTo (x ++ x') (y ++ y') (p ∧ q) := by
  refine ⟨fun ⟨hp, hq⟩ => by rw [h.same hp, h'.same hq], fun hpq => ?_⟩
  have hle := h.length_le
  have hle' := h'.length_le
  rw [List.length_append, List.length_append]
  by_cases hp : p
  · have := h'.shorter fun hq => hpq ⟨hp, hq⟩
    omega
  · have := h.shorter hp
    omega

theorem around (h : CutTo x y p) (pre post : Bytes) :
    CutTo (pre ++ x ++ post) (pre ++ y ++ post) p :=
  (((refl pre).append h).append (refl post)).congr (by simp)

end CutTo

/-! ## What the driver holds -/

/-- A cell as it lies in its buffer, and the value the driver holds, which is `none` for NULL. Only
the value of a character column matters. -/
structure HeldCell where
  cell : Cell := {}
  held : Option Bytes := some []

structure HeldRow where
  fetch : Outcome := {}
  cells : List HeldCell := []

structure HeldSet where
  columns : ColumnsAnswer := {}
  rows : List HeldRow := []

def HeldRow.answer (row : HeldRow) : RowAnswer := ⟨row.fetch, row.cells.map (·.cell)⟩

def HeldSet.answer (set : HeldSet) : ResultSetAnswer := ⟨set.columns, set.rows.map (·.answer)⟩

/-- How a value is stored in the buffer of a column. -/
inductive Stores (col : ColumnDescriptor) : Option Bytes → Cell → Prop
  | null {cell : Cell} (hind : cell.ind = sqlNullData) : Stores col none cell
  | whole {full : Bytes} {cell : Cell} (hlen : full.length < col.allocSize)
    (hind : cell.ind = full.length) (htext : full <+: cell.text) : Stores col (some full) cell
  | cut {full : Bytes} {cell : Cell} (hlen : col.allocSize ≤ full.length)
    (hind : cell.ind = full.length ∨ cell.ind = sqlNoTotal)
    (htext : full.take (col.allocSize - 1) <+: cell.text) : Stores col (some full) cell

def HeldCell.Stored (col : ColumnDescriptor) (c : HeldCell) : Prop :=
  col.cType = .char → Stores col c.held c.cell

def HeldCell.Fits (col : ColumnDescriptor) (c : HeldCell) : Prop :=
  col.cType = .char → ∀ full, c.held = some full → full.length < col.allocSize

/-- The rows that are fetched. -/
def HeldSet.fetched (set : HeldSet) : List HeldRow :=
  set.rows.takeWhile (·.fetch.ret != sqlNoData)

def HeldSet.Stored (set : HeldSet) : Prop :=
  ∀ row ∈ set.fetched, ∀ i < set.columns.numCols.toNat,
    (row.cells.getD i {}).Stored (describeColumn (set.columns.describe.getD i {}))

/-- Every value of a character column is shorter than the buffer of the column. -/
def HeldSet.Fits (set : HeldSet) : Prop :=
  ∀ row ∈ set.fetched, ∀ i < set.columns.numCols.toNat,
    (row.cells.getD i {}).Fits (describeColumn (set.columns.describe.getD i {}))

/-! ## The complete document -/

section
variable (fmt17g : Rat → Bytes)

def charText (col : ColumnDescriptor) (value : Bytes) : Bytes :=
  if col.sqlType = .decimal ∨ col.sqlType = .numeric then
    if value = [] then bytes "null" else value
  else 34 :: escape value ++ [34]

/-- The member value for what the driver holds. -/
def completeValue (col : ColumnDescriptor) (c : HeldCell) : Bytes :=
  if col.cType = .char then c.held.elim (bytes "null") (charText col)
  else memberValue fmt17g col c.cell

def completeMembers : List ColumnDescriptor → List HeldCell → Bytes
  | [], _ => []
  | col :: cols, cells =>
    columnKey col ++ completeValue fmt17g col (cells.headD {}) ++ (if cols ≠ [] then [44] else []) ++
      completeMembers cols cells.tail

def completeRows (cols : List ColumnDescriptor) (firstRow : Bool) : List HeldRow → Bytes
  | [] => []
  | row :: rows =>
    if row.fetch.ret = sqlNoData then []
    else (if firstRow then [] else [44]) ++ (123 :: completeMembers fmt17g cols row.cells ++ [125]) ++
      completeRows cols false rows

def completeBody (set : HeldSet) : Bytes :=
  completeRows fmt17g (describedColumns set.columns.numCols.toNat set.columns.describe) true set.rows

def completeDocument (set : HeldSet) : Bytes :=
  if set.columns.numCols = 0 then bytes "[]" else 91 :: completeBody fmt17g set ++ [93]

/-! ## Cells -/

theorem length_le_escape (s : Bytes) : s.length ≤ (escape s).length := by
  induction s with
  | nil => exact Nat.le_refl 0
  | cons c s ih =>
    have := (length_encodeByte c).1
    rw [escape_cons, List.length_append, List.length_cons]
    omega

/-- A part of a long value makes a shorter text. -/
theorem charText_shorter (col : ColumnDescriptor) {value full : Bytes} (hpart : value <+: full)
    (hlen : value.length < full.length) (hfull : 4 < full.length) :
    (charText col value).length < (charText col full).length := by
  obtain ⟨rest, rfl⟩ := hpart
  have hne : value ++ rest ≠ [] := List.ne_nil_of_length_pos (by omega)
  unfold charText
  by_cases hdecimal : col.sqlType = .decimal ∨ col.sqlType = .numeric
  · rw [if_pos hdecimal, if_pos hdecimal, if_neg hne]
    split
    · exact hfull
    · exact hlen
  · rw [if_neg hdecimal, if_neg hdecimal]
    have := length_le_escape rest
    simp only [escape_append, List.length_append, List.length_cons, List.length_nil] at hlen ⊢
    omega

theorem charValue_whole {col : ColumnDescriptor} {cell : Cell} {full : Bytes}
    (hlen : full.length < col.allocSize) (hind : cell.ind = full.length)
    (htext : full <+: cell.text) : charValue col cell = full := by
  obtain ⟨rest, hrest⟩ := htext
  have hnoTotal : sqlNoTotal = -4 := rfl
  unfold charValue
  dsimp only
  rw [if_neg (by omega), if_neg (by omega), hind, Int.toNat_natCast, List.take_take,
    Nat.min_eq_left (by omega), ← hrest, List.append_assoc, List.take_left]

theorem charValue_cut {col : ColumnDescriptor} {cell : Cell} {full : Bytes}
    (hlen : col.allocSize ≤ full.length) (hind : cell.ind = full.length ∨ cell.ind = sqlNoTotal)
    (htext : full.take (col.allocSize - 1) <+: cell.text) :
    charValue col cell <+: full ∧ (charValue col cell).length ≤ col.allocSize - 1 := by
  have hbuffer : (cell.text ++ List.replicate (col.allocSize - 1) 0).take (col.allocSize - 1) =
      full.take (col.allocSize - 1) := by
    obtain ⟨rest, hrest⟩ := htext
    rw [← hrest, List.append_assoc]
    exact List.take_left' (by rw [List.length_take]; omega)
  have htake : ∀ value, value <+: full.take (col.allocSize - 1) →
      value <+: full ∧ value.length ≤ col.allocSize - 1 := fun value h =>
    ⟨h.trans (List.take_prefix _ _), h.length_le.trans (List.length_take_le ..)⟩
  unfold charValue
  dsimp only
  rw [hbuffer]
  split
  · exact htake _ (List.takeWhile_prefix _)
  · rw [if_pos (.inr (by omega))]
    exact htake _ (List.prefix_refl _)

theorem cutTo_value {a : DescribeAnswer} {c : HeldCell} (h : c.Stored (describeColumn a)) :
    CutTo (memberValue fmt17g (describeColumn a) c.cell) (completeValue fmt17g (describeColumn a) c)
      (c.Fits (describeColumn a)) := by
  unfold completeValue
  by_cases hchar : (describeColumn a).cType = .char
  · rw [if_pos hchar]
    have hsize := allocSize_char hchar
    have hnoTotal : sqlNoTotal = -4 := rfl
    have hnullData : sqlNullData = -1 := rfl
    have hvalue : c.cell.ind ≠ sqlNullData → memberValue fmt17g (describeColumn a) c.cell =
        charText (describeColumn a) (charValue (describeColumn a) c.cell) := by
      intro hnull
      rw [memberValue, if_neg hnull, cellText, hchar]
      rfl
    have hstores := h hchar
    unfold HeldCell.Fits
    generalize c.held = held at hstores
    cases hstores with
    | null hind =>
      rw [memberValue, if_pos hind]
      exact (CutTo.refl _).congr ⟨fun _ _ _ hfull => (by cases hfull), fun _ => trivial⟩
    | @whole full _ hlen hind htext =>
      rw [hvalue (by omega), charValue_whole hlen hind htext]
      refine (CutTo.refl _).congr ⟨fun _ _ _ hfull => ?_, fun _ => trivial⟩
      exact Option.some.inj hfull ▸ hlen
    | @cut full _ hlen hind htext =>
      obtain ⟨hpart, hle⟩ := charValue_cut hlen hind htext
      rw [hvalue (by omega)]
      refine ⟨fun hfits => ?_, fun _ => ?_⟩
      · have := hfits hchar full rfl
        omega
      · exact charText_shorter _ hpart (by omega) (by omega)
  · rw [if_neg hchar]
    exact (CutTo.refl _).congr ⟨fun _ h => absurd h hchar, fun _ => trivial⟩

/-! ## Rows -/

theorem headD_map_cell (cells : List HeldCell) :
    (cells.map (·.cell)).headD {} = (cells.headD {}).cell := by
  cases cells <;> rfl

theorem cutTo_members {n : Nat} {answers : List DescribeAnswer} {cells : List HeldCell}
    (h : ∀ i < n, (cells.getD i {}).Stored (describeColumn (answers.getD i {}))) :
    CutTo (cellMembersText fmt17g (describedColumns n answers) (cells.map (·.cell)))
      (completeMembers fmt17g (describedColumns n answers) cells)
      (∀ i < n, (cells.getD i {}).Fits (describeColumn (answers.getD i {}))) := by
  induction n generalizing answers cells with
  | zero => exact (CutTo.refl []).congr ⟨fun _ _ => nofun, fun _ => trivial⟩
  | succ n ih =>
    simp only [Nat.forall_lt_succ_left, ← List.headD_eq_getD] at h ⊢
    simp only [List.getD_eq_getElem?_getD, ← List.getElem?_tail] at h ⊢
    have hvalue := cutTo_value fmt17g h.1
    have hrest := ih h.2
    rw [describedColumns, cellMembersText, completeMembers, headD_map_cell, ← List.map_tail]
    exact (hvalue.around _ _).append hrest

theorem cutTo_rows {n : Nat} {answers : List DescribeAnswer} {rows : List HeldRow}
    (hok : rowsFailure (rows.map (·.answer)) = none)
    (h : ∀ row ∈ rows.takeWhile (·.fetch.ret != sqlNoData), ∀ i < n,
      (row.cells.getD i {}).Stored (describeColumn (answers.getD i {}))) (firstRow : Bool) :
    CutTo (rowsText fmt17g (describedColumns n answers) firstRow (rows.map (·.answer)))
      (completeRows fmt17g (describedColumns n answers) firstRow rows)
      (∀ row ∈ rows.takeWhile (·.fetch.ret != sqlNoData), ∀ i < n,
        (row.cells.getD i {}).Fits (describeColumn (answers.getD i {}))) := by
  induction rows generalizing firstRow with
  | nil => exact (CutTo.refl []).congr ⟨fun _ _ hmem => (by cases hmem), fun _ => trivial⟩
  | cons row rows ih =>
    rw [List.map_cons, rowsFailure] at hok
    rw [List.map_cons, rowsText, completeRows]
    change (if row.fetch.ret = sqlNoData then none else _) = none at hok
    change CutTo (if sqlSucceeded row.fetch.ret then _ else []) _ _
    by_cases hdone : row.fetch.ret = sqlNoData
    · rw [if_pos hdone, hdone, if_neg (by decide), List.takeWhile_cons_of_neg (by simp [hdone])]
      exact (CutTo.refl []).congr ⟨fun _ _ hmem => (by cases hmem), fun _ => trivial⟩
    · rw [List.takeWhile_cons_of_pos (by simp [hdone]), List.forall_mem_cons] at h ⊢
      rw [if_neg hdone] at hok ⊢
      obtain ⟨hfetch, hrows⟩ := Option.or_eq_none_iff.mp hok
      have hret : sqlSucceeded row.fetch.ret = true := by
        by_contra hret
        change (if sqlSucceeded row.fetch.ret then none else some row.fetch.diags) = none at hfetch
        rw [if_neg hret] at hfetch
        cases hfetch
      rw [if_pos hret]
      have hmembers := (cutTo_members fmt17g h.1).around [123] [125]
      have hrow := (CutTo.refl (if firstRow then [] else [44])).append hmembers
      exact (hrow.append (ih hrows h.2 false)).congr (by rw [true_and])

theorem cutTo_body {set : HeldSet} (hok : rowsFailure set.answer.rows = none) (h : set.Stored) :
    CutTo (bodyText fmt17g set.answer) (completeBody fmt17g set) set.Fits :=
  cutTo_rows fmt17g hok h true

/-! ## Results -/

theorem remainingText_map (body : β → Bytes) (f : α → β) (index : Nat) (hasResultset : Bool)
    (sets : List (Int × α)) :
    remainingText body index hasResultset (sets.map fun p => (p.1, f p.2)) =
      remainingText (fun set => body (f set)) index hasResultset sets := by
  induction sets generalizing index hasResultset with
  | nil => rfl
  | cons p sets ih => simp only [List.map_cons, remainingText, ih]

theorem cutTo_remaining {body body' : α → Bytes} {fits : α → Prop} {sets : List (Int × α)}
    (h : ∀ p ∈ sets, 0 < p.1 → CutTo (body p.2) (body' p.2) (fits p.2)) (index : Nat)
    (hasResultset : Bool) :
    CutTo (remainingText body index hasResultset sets) (remainingText body' index hasResultset sets)
      (∀ p ∈ sets, 0 < p.1 → fits p.2) := by
  induction sets generalizing index hasResultset with
  | nil => exact (CutTo.refl _).congr ⟨fun _ => nofun, fun _ => trivial⟩
  | cons p sets ih =>
    obtain ⟨hset, hsets⟩ := List.forall_mem_cons.mp h
    rw [remainingText, remainingText]
    by_cases hcols : 0 < p.1
    · rw [if_pos hcols, if_pos hcols]
      have hbody := (hset hcols).around (34 :: resultKey index ++ 34 :: 58 :: [91]) [93]
      have hmember := (CutTo.refl (bytes (if hasResultset then "," else "\x7b"))).append hbody
      have hall := hmember.append (ih hsets (index + 1) true)
      simp only [List.append_assoc, List.cons_append, List.nil_append] at hall ⊢
      exact hall.congr (by simp [hcols])
    · rw [if_neg hcols, if_neg hcols]
      exact (ih hsets index hasResultset).congr (by simp [hcols])

theorem arrayFailure_of_visited {hasResultset : Bool} {colCount : Int} {set : ResultSetAnswer}
    {results : List (Outcome × ResultAnswer)}
    (h : resultsFailure hasResultset colCount set results = none) {p : Int × ResultSetAnswer}
    (hp : p ∈ visitedResults colCount set results) (hcols : 0 < p.1) :
    arrayFailure false true p.2 = none := by
  induction results generalizing hasResultset colCount set with
  | nil =>
    obtain rfl := List.mem_singleton.mp hp
    rwa [resultsFailure, if_pos hcols] at h
  | cons q results ih =>
    obtain ⟨more, result⟩ := q
    obtain ⟨hset, hmore⟩ := Option.or_eq_none_iff.mp h
    rw [visitedResults] at hp
    obtain rfl | hp := List.mem_cons.mp hp
    · rwa [if_pos hcols] at hset
    split at hp
    · cases hp
    · rw [if_neg ‹_›] at hmore
      exact ih (Option.or_eq_none_iff.mp hmore).2 hp

/-! ## Calls -/

/-- A call that succeeds has written what its fetch has written. -/
theorem dbExecuteAndFetch_true {cfg : Config} {s : Db} {db : DbConnectionId} {query : Bytes}
    {params : List QueryParam} {a : PrepareAnswers} {exec : Outcome}
    {fetchCb : DbConnectionId → Handle → DbM Bool}
    (h : (dbExecuteAndFetch cfg db query params a exec fetchCb s).1 = true) :
    ∃ hstmt s', s'.outBuf = s.outBuf ∧ (fetchCb db hstmt s').1 = true ∧
      (dbExecuteAndFetch cfg db query params a exec fetchCb s).2.outBuf =
        (fetchCb db hstmt s').2.outBuf := by
  let s₀ : Db := { s with tls := { s.tls with lastNativeError := 0, lastErrorMsg := .empty } }
  have hquiet : (dbPrepareAndBind cfg db params a s₀).2.outBuf = s.outBuf :=
    congrArg Prod.fst (dbPrepareAndBind_quiet cfg s₀ db params a).view
  let run := (dbPrepareAndBind cfg db params a >>= executeStmt db query exec fetchCb) s₀
  have hok : run.1 = true := h
  have hout : (dbExecuteAndFetch cfg db query params a exec fetchCb s).2.outBuf = run.2.outBuf := by
    have hclean : (dbExecuteAndFetch cfg db query params a exec fetchCb s).2.outBuf =
        (checkError run.1 run.2).2.outBuf := congrArg Prod.fst ((keeps_dbCleanupStmt _).run _)
    rw [hclean, outBuf_checkError, hok]
    rfl
  rw [hout]
  dsimp only [run] at hok ⊢
  rw [bind_run] at hok ⊢
  generalize dbPrepareAndBind cfg db params a s₀ = prepared at hquiet hok ⊢
  obtain ⟨⟨_ | _, _ | hstmt⟩, s₁⟩ := prepared
  · cases hok
  · cases hok
  · cases hok
  · simp only [executeStmt, bind_run, ite_run] at hok ⊢
    split at hok
    · rw [if_pos ‹_›]
      exact ⟨hstmt, (odbc (.execDirect hstmt query) s₁).2, hquiet, hok, rfl⟩
    · cases hok

theorem dbFetchRs2json_true {s : Db} {db : DbConnectionId} {hstmt : Handle} {a : ResultSetAnswer}
    (h : (dbFetchRs2json fmt17g a db hstmt s).1 = true) :
    (a.columns.numCols = 0 ∨ rowsFailure a.rows = none) ∧
      (dbFetchRs2json fmt17g a db hstmt s).2.outBuf = s.outBuf ++
        if a.columns.numCols = 0 then bytes "[]" else 91 :: bodyText fmt17g a ++ [93] := by
  obtain ⟨text, hw⟩ := @fetchResultsetArray_ends fmt17g s db hstmt a true true (.inr rfl)
  have hnone : arrayFailure true true a = none := Option.isNone_iff_eq_none.mp (hw.ok.symm.trans h)
  obtain ⟨hcols, hrows⟩ := Option.or_eq_none_iff.mp hnone
  have hcols := Option.map_eq_none_iff.mp hcols
  have hout := (@fetchResultsetArray_writes fmt17g s db hstmt a true true (.inr rfl) hcols).outBuf_eq
  rw [dbFetchRs2json, hout, fetchedText]
  by_cases hzero : a.columns.numCols = 0
  · rw [if_pos hzero, hzero, if_pos ⟨rfl, rfl⟩]
    exact ⟨.inl rfl, rfl⟩
  · rw [if_neg fun h => hzero h.2] at hrows
    have hrows := Option.map_eq_none_iff.mp hrows
    have hpos : 0 < a.columns.numCols := by
      have hsome := (Option.or_eq_none_iff.mp hcols).2
      rw [if_neg hzero] at hsome
      by_contra hneg
      rw [if_pos (by omega)] at hsome
      cases hsome
    rw [if_neg hzero, if_neg fun h => describedColumns_ne_nil hpos h.2, hrows]
    exact ⟨.inr rfl, rfl⟩

theorem dbFetchJsonmNative_true {s : Db} {db : DbConnectionId} {hstmt : Handle} {a : ResultsAnswer}
    (h : (dbFetchJsonmNative fmt17g a db hstmt s).1 = true) :
    resultsFailure false (a.first.colCount.getD 0) a.first.set a.more = none ∧
      (dbFetchJsonmNative fmt17g a db hstmt s).2.outBuf = s.outBuf ++
        remainingText (bodyText fmt17g) 1 false
          (visitedResults (a.first.colCount.getD 0) a.first.set a.more) := by
  obtain ⟨text, hw⟩ := fetchResults_ends fmt17g (odbc (.numResultCols hstmt) s).2 db hstmt 1 false
    (a.first.colCount.getD 0) a.first.set a.more
  have hnone : resultsFailure false (a.first.colCount.getD 0) a.first.set a.more = none :=
    Option.isNone_iff_eq_none.mp (hw.ok.symm.trans h)
  refine ⟨hnone, ?_⟩
  exact (fetchResults_text fmt17g (odbc (.numResultCols hstmt) s).2 db hstmt 1 false hnone).outBuf_eq

/-- A document that a call returns with success has the complete values exactly when none of them is
as long as the buffer of its column. -/
theorem rs2json_complete_iff (cfg : Config) (db : DbConnectionId) (query : Bytes)
    (params : List QueryParam) (s : Db) :
    (∀ (a : StatementAnswers ResultSetAnswer) (set : HeldSet), a.fetch = set.answer → set.Stored →
      (dbGetRs2json fmt17g cfg db query params a s).1 = true →
      ((dbGetRs2json fmt17g cfg db query params a s).2.outBuf =
        s.outBuf ++ completeDocument fmt17g set ↔ set.Fits)) ∧
    ∀ (a : StatementAnswers ResultsAnswer) (sets : List (Int × HeldSet)),
      visitedResults (a.fetch.first.colCount.getD 0) a.fetch.first.set a.fetch.more =
        (sets.map fun p => (p.1, p.2.answer)) →
      (∀ p ∈ sets, 0 < p.1 → p.2.Stored) →
      (dbGetRs2jsonM fmt17g cfg db query params a s).1 = true →
      ((dbGetRs2jsonM fmt17g cfg db query params a s).2.outBuf =
        s.outBuf ++ remainingText (completeBody fmt17g) 1 false sets ↔
          ∀ p ∈ sets, 0 < p.1 → p.2.Fits) := by
  constructor
  · intro a set hset hstored hok
    obtain ⟨hstmt, s', hs', hok', hout⟩ := dbExecuteAndFetch_true hok
    rw [hset] at hok' hout
    obtain ⟨hrows, htext⟩ := dbFetchRs2json_true fmt17g hok'
    rw [dbGetRs2json, hset, hout, htext, hs', List.append_cancel_left_eq, completeDocument]
    by_cases hzero : set.columns.numCols = 0
    · rw [if_pos hzero, if_pos (show set.answer.columns.numCols = 0 from hzero)]
      refine ⟨fun _ row _ i hi => ?_, fun _ => rfl⟩
      rw [hzero] at hi
      cases hi
    · rw [if_neg hzero, if_neg (show ¬set.answer.columns.numCols = 0 from hzero)]
      exact ((cutTo_body fmt17g (hrows.resolve_left hzero) hstored).around [91] [93]).eq_iff
  · intro a sets hsets hstored hok
    obtain ⟨hstmt, s', hs', hok', hout⟩ := dbExecuteAndFetch_true hok
    obtain ⟨hfailure, htext⟩ := dbFetchJsonmNative_true fmt17g hok'
    rw [dbGetRs2jsonM, hout, htext, hs', List.append_cancel_left_eq, hsets,
      remainingText_map (bodyText fmt17g) HeldSet.answer]
    refine (cutTo_remaining (fun p hp hcols => ?_) 1 false).eq_iff
    have hvisited : (p.1, p.2.answer) ∈
        visitedResults (a.fetch.first.colCount.getD 0) a.fetch.first.set a.fetch.more := by
      rw [hsets]
      exact List.mem_map_of_mem hp
    exact cutTo_body fmt17g (arrayFailure_eq_none (arrayFailure_of_visited hfailure hvisited hcols)).2
      (hstored p hp hcols)

end

/-- One column of 22 characters, which has a buffer of 86 bytes. -/
def noteColumns : ColumnsAnswer where
  numCols := 1
  describe := [{ name := .store (bytes "note"), nameLen := 4, colSize := 22 }]

/-- A row with this value, of which the buffer has the first 85 bytes. -/
def noteRow (value : Bytes) (ret : Int) : HeldSet where
  columns := noteColumns
  rows := [{
    fetch := { ret }
    cells := [{ cell := { ind := value.length, text := value.take 85 }, held := some value }] }]

def noteDatabase : Config := { odbcConnStrs := fun _ => .strlcpy 1024 (bytes "DSN=notes") }

theorem noteRow_stored (value : Bytes) (ret : Int) : (noteRow value ret).Stored := by
  intro row hrow i hi
  obtain rfl := List.mem_singleton.mp ((List.takeWhile_prefix _).subset hrow)
  obtain rfl : i = 0 := Nat.lt_one_iff.mp hi
  have hsize : (describeColumn ((noteRow value ret).columns.describe.getD 0 {})).allocSize = 86 := rfl
  intro _
  by_cases hlen : value.length < 86
  · refine .whole (by rwa [hsize]) rfl ?_
    have htake : value.take 85 = value := List.take_of_length_le (by omega)
    exact htake.symm ▸ List.prefix_refl _
  · exact .cut (by rw [hsize]; omega) (.inl rfl) (List.prefix_refl _)

theorem rs2json_complete_iff_note :
    (dbGetRs2json (fun _ => []) noteDatabase 0 [] []
      { fetch := (noteRow (bytes "ok") 0).answer } {}).2.outBuf =
        bytes "[\x7b\"note\":\"ok\"\x7d]" ∧
    (dbGetRs2jsonM (fun _ => []) noteDatabase 0 [] []
      { fetch := { first := ⟨some 1, (noteRow (bytes "ok") 0).answer⟩ } } {}).2.outBuf =
        bytes "\x7b\"r1\":[\x7b\"note\":\"ok\"\x7d]\x7d" := by
  have hfits : (noteRow (bytes "ok") 0).Fits := by
    intro row hrow i hi _ full hfull
    obtain rfl := List.mem_singleton.mp ((List.takeWhile_prefix _).subset hrow)
    obtain rfl : i = 0 := Nat.lt_one_iff.mp hi
    cases hfull
    decide
  obtain ⟨hsingle, hmulti⟩ := rs2json_complete_iff (fun _ => []) noteDatabase 0 [] [] {}
  refine ⟨(hsingle { fetch := (noteRow (bytes "ok") 0).answer } _ rfl (noteRow_stored _ _) rfl).mpr
    hfits, ?_⟩
  refine (hmulti { fetch := { first := ⟨some 1, (noteRow (bytes "ok") 0).answer⟩ } }
    [(1, noteRow (bytes "ok") 0)] rfl ?_ rfl).mpr ?_
  · exact List.forall_mem_singleton.mpr fun _ => noteRow_stored _ _
  · exact List.forall_mem_singleton.mpr fun _ => hfits

/-- 22 characters of four bytes each, of which the caller gets 21 and a part of the last. -/
theorem long_note_is_cut :
    let value := (List.replicate 22 [0xF0, 0x9F, 0x98, 0x80]).flatten
    (noteRow value sqlSuccessWithInfo).Stored ∧
    (dbGetRs2json (fun _ => []) noteDatabase 0 [] []
      { fetch := (noteRow value sqlSuccessWithInfo).answer } {}).1 = true ∧
    (dbGetRs2json (fun _ => []) noteDatabase 0 [] []
      { fetch := (noteRow value sqlSuccessWithInfo).answer } {}).2.outBuf =
        bytes "[\x7b\"note\":\"" ++ value.take 85 ++ bytes "\"\x7d]" := by
  refine ⟨noteRow_stored _ _, ?_, ?_⟩
  · decide +kernel
  · decide +kernel

end ApiServer
