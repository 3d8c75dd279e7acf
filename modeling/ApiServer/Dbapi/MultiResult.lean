import ApiServer.Dbapi.Faithful
import ApiServer.Lib.JsonContext

/-!
# Several results in one document

`db_fetch_jsonm_native` goes through the results of a statement. The ones with columns become the
members `r1`, `r2`, ... of an object, each with the array that `db_fetch_rs2json` would write for it,
and the ones without columns leave no trace.
-/

namespace ApiServer
open Bytes Json StateRules

/-! ## What is asked of the driver -/

/-- The columns are bound and every fetch succeeds. -/
structure ResultSetAnswer.Fetched (a : ResultSetAnswer) : Prop where
  columns : a.columns.Bound
  fetch : ∀ row ∈ fetchedRows a.rows, sqlSucceeded row.fetch.ret = true

/-- The driver reports the number of columns, and they can be fetched if there are any. -/
structure ResultAnswer.Succeeds (r : ResultAnswer) : Prop where
  colCount : r.colCount = some r.set.columns.numCols
  fetched : r.set.columns.numCols = 0 ∨ r.set.Fetched

structure ResultsAnswer.Succeeds (a : ResultsAnswer) : Prop where
  first : a.first.Succeeds
  more : ∀ p ∈ a.more, sqlSucceeded p.1.ret = true ∧ p.2.Succeeds

/-- The results with columns, in order. -/
def columnSets (results : List ResultAnswer) : List ResultSetAnswer :=
  (results.map (·.set)).filter (0 < ·.columns.numCols)

def ResultsAnswer.columnSets (a : ResultsAnswer) : List ResultSetAnswer :=
  ApiServer.columnSets (a.first :: a.more.map (·.2))

/-! ## The document -/

section
variable (fmt17g : Rat → Bytes)

/-- What `db_fetch_rs2json` writes for a result set. -/
def rs2jsonText (set : ResultSetAnswer) : Bytes := (dbFetchRs2json fmt17g set 0 0 {}).2.outBuf

def resultKey (index : Nat) : Bytes := bytes "r" ++ natText index

/-- The members from `index` on, one for each result set. -/
def resultTexts (index : Nat) (sets : List ResultSetAnswer) : List Bytes :=
  (sets.zipIdx index).map fun p => 34 :: resultKey p.2 ++ 34 :: 58 :: rs2jsonText fmt17g p.1

def resultsText (sets : List ResultSetAnswer) : Bytes :=
  if sets = [] then bytes "[]"
  else 123 :: [44].intercalate (resultTexts fmt17g 1 sets) ++ [125]

/-! ## What is written -/

/-- The rows of a result set, as they stand between the brackets. -/
def bodyText (set : ResultSetAnswer) : Bytes :=
  rowsText fmt17g (describedColumns set.columns.numCols.toNat set.columns.describe) true set.rows

theorem arrayFailure_eq_none {a : ResultSetAnswer} (h : arrayFailure false true a = none) :
    columnsFailure a.columns = none ∧ rowsFailure a.rows = none := by
  obtain ⟨hcols, hrows⟩ := Option.or_eq_none_iff.mp h
  rw [if_neg (by simp)] at hrows
  exact ⟨Option.map_eq_none_iff.mp hcols, Option.map_eq_none_iff.mp hrows⟩

theorem fetchResultsetArray_body (s : Db) (db : DbConnectionId) (hstmt : Handle)
    {a : ResultSetAnswer} (h : arrayFailure false true a = none) :
    Writes id (fetchResultsetArray fmt17g false a db hstmt) s true (bodyText fmt17g a) none := by
  obtain ⟨hcols, hrows⟩ := arrayFailure_eq_none h
  have hw : Writes _ _ s true _ _ :=
    @fetchResultsetArray_writes fmt17g s db hstmt a false true (.inr rfl) hcols
  rw [fetchedText, if_neg (by simp), if_neg (by simp), if_neg (by simp), if_neg (by simp),
    List.nil_append, List.append_nil, hrows] at hw
  exact hw

theorem fetchResult_text (s : Db) (db : DbConnectionId) (hstmt : Handle) (rsIndex : Nat)
    (hasResultset : Bool) {colCount : Int} {a : ResultSetAnswer} (hpos : 0 < colCount)
    (h : arrayFailure false true a = none) :
    Writes id (fetchResult fmt17g db hstmt rsIndex hasResultset colCount a) s true
      (bytes (if hasResultset then "," else "\x7b") ++
        (34 :: resultKey rsIndex ++ 34 :: 58 :: 91 :: bodyText fmt17g a ++ [93])) none := by
  have htext : 34 :: resultKey rsIndex ++ 34 :: 58 :: 91 :: bodyText fmt17g a ++ [93] =
      bytes "\"r" ++ (fastItoa rsIndex 32 ++
        (bytes "\":[" ++ (bodyText fmt17g a ++ (bytes "]" ++ [])))) := by
    rw [fastItoa_eq _ (by decide)]
    simp [resultKey, intText, bytes]
  rw [htext]
  unfold fetchResult
  rw [if_pos hpos]
  refine .add (.add (.add (.add ?_)))
  have hw := fun s => fetchResultsetArray_body fmt17g s db hstmt h
  refine (hw _).seq ?_
  rw [show (fetchResultsetArray fmt17g false a db hstmt _).1 = true from (hw _).ok]
  exact .add (Quiet.writes (.success rfl) _)

/-- The results that the loop comes to, each with the number of columns it is taken to have. -/
def visitedResults (colCount : Int) (set : ResultSetAnswer) :
    List (Outcome × ResultAnswer) → List (Int × ResultSetAnswer)
  | [] => [(colCount, set)]
  | (more, result) :: results =>
    (colCount, set) ::
      if more.ret = sqlNoData then []
      else visitedResults (result.colCount.getD colCount) result.set results

/-- The text from a result on, behind `index - 1` members. -/
def remainingText (body : α → Bytes) (index : Nat) (hasResultset : Bool) : List (Int × α) → Bytes
  | [] => bytes (if hasResultset then "\x7d" else "[]")
  | (colCount, set) :: results =>
    if 0 < colCount then
      bytes (if hasResultset then "," else "\x7b") ++
        (34 :: resultKey index ++ 34 :: 58 :: 91 :: body set ++ [93]) ++
        remainingText body (index + 1) true results
    else remainingText body index hasResultset results

/-- One turn of the loop. -/
theorem fetchResult_remaining (s : Db) (db : DbConnectionId) (hstmt : Handle) (rsIndex : Nat)
    (hasResultset : Bool) {colCount : Int} {set : ResultSetAnswer}
    (h : (if 0 < colCount then arrayFailure false true set else none) = none)
    (results : List (Int × ResultSetAnswer)) :
    ∃ text, Writes id (fetchResult fmt17g db hstmt rsIndex hasResultset colCount set) s
        true text none ∧
      remainingText (bodyText fmt17g) rsIndex hasResultset ((colCount, set) :: results) = text ++
        remainingText (bodyText fmt17g) (if 0 < colCount then rsIndex + 1 else rsIndex)
          (hasResultset || 0 < colCount) results := by
  rw [remainingText]
  by_cases hcols : 0 < colCount
  · rw [if_pos hcols] at h
    refine ⟨_, fetchResult_text fmt17g s db hstmt rsIndex hasResultset hcols h, ?_⟩
    rw [if_pos hcols, if_pos hcols, decide_eq_true hcols, Bool.or_true]
  · refine ⟨[], ?_, ?_⟩
    · unfold fetchResult
      rw [if_neg hcols]
      exact Quiet.writes (.success rfl) _
    · rw [if_neg hcols, if_neg hcols, decide_eq_false hcols, Bool.or_false, List.nil_append]

/-- Behind the last result the object is closed. -/
theorem writes_close (s : Db) (index : Nat) (hasResultset : Bool) (colCount : Int) :
    Writes id (do
      evbufferAdd (bytes (if hasResultset ∨ 0 < colCount then "\x7d" else "[]"))
      return true) s true
      (remainingText (bodyText fmt17g) index (hasResultset || 0 < colCount) []) none := by
  have hclose : remainingText (bodyText fmt17g) index (hasResultset || 0 < colCount) [] =
      bytes (if hasResultset ∨ 0 < colCount then "\x7d" else "[]") ++ [] := by
    simp [remainingText]
  rw [hclose]
  exact .add (Quiet.writes (.success rfl) _)

theorem fetchResults_text (s : Db) (db : DbConnectionId) (hstmt : Handle) (rsIndex : Nat)
    (hasResultset : Bool) {colCount : Int} {set : ResultSetAnswer}
    {results : List (Outcome × ResultAnswer)}
    (h : resultsFailure hasResultset colCount set results = none) :
    Writes id (fetchResults fmt17g db hstmt rsIndex hasResultset colCount set results) s true
      (remainingText (bodyText fmt17g) rsIndex hasResultset (visitedResults colCount set results))
      none := by
  induction results generalizing s rsIndex hasResultset colCount set with
  | nil =>
    obtain ⟨text, hw, htext⟩ := fetchResult_remaining fmt17g s db hstmt rsIndex hasResultset h []
    rw [visitedResults, htext]
    refine hw.seq ?_
    rw [show (fetchResult ..).1 = true from hw.ok]
    exact .skip (keeps_odbc _) (writes_close ..)
  | cons p results ih =>
    obtain ⟨more, result⟩ := p
    obtain ⟨hset, hmore⟩ := Option.or_eq_none_iff.mp h
    rw [visitedResults]
    obtain ⟨text, hw, htext⟩ := fetchResult_remaining fmt17g s db hstmt rsIndex hasResultset hset _
    rw [htext]
    refine hw.seq ?_
    rw [show (fetchResult ..).1 = true from hw.ok]
    refine .skip (keeps_odbc _) ?_
    by_cases hdone : more.ret = sqlNoData
    · simp only [if_pos hdone]
      exact writes_close ..
    rw [if_neg hdone] at hmore
    obtain ⟨hsuccess, hrest⟩ := Option.or_eq_none_iff.mp hmore
    have hret : sqlSucceeded more.ret = true := by
      by_contra hret
      simp [Outcome.failure, hret] at hsuccess
    simp only [if_neg hdone, hret, Bool.not_true, Bool.false_eq_true, if_false]
    exact .skip (keeps_odbc _) (ih _ _ _ hrest)

/-! ## When every call succeeds -/

theorem ResultSetAnswer.Fetched.arrayFailure {a : ResultSetAnswer} (H : a.Fetched)
    (writeBrackets : Bool) : arrayFailure writeBrackets true a = none := by
  rw [ApiServer.arrayFailure, H.columns.columnsFailure, rowsFailure_eq_none H.fetch]
  simp

theorem fetchResultsetArray_text (s : Db) (db : DbConnectionId) (hstmt : Handle)
    {a : ResultSetAnswer} (H : a.Fetched) :
    Writes id (fetchResultsetArray fmt17g true a db hstmt) s true
      (91 :: bodyText fmt17g a ++ [93]) none := by
  have hw : Writes _ _ s true _ _ := @fetchResultsetArray_writes fmt17g s db hstmt a true
    true (.inr rfl) H.columns.columnsFailure
  rw [fetchedText, if_neg (fun h => describedColumns_ne_nil H.columns.pos h.2),
    rowsFailure_eq_none H.fetch, Option.map_none, ite_self] at hw
  exact hw

theorem rs2jsonText_eq {a : ResultSetAnswer} (H : a.Fetched) :
    rs2jsonText fmt17g a = 91 :: bodyText fmt17g a ++ [93] :=
  (fetchResultsetArray_text fmt17g {} 0 0 H).outBuf_eq

/-- The text is the same whatever state the call starts in. -/
theorem dbFetchRs2json_text (s : Db) (db : DbConnectionId) (hstmt : Handle) {a : ResultSetAnswer}
    (H : a.Fetched) :
    (dbFetchRs2json fmt17g a db hstmt s).2.outBuf = s.outBuf ++ rs2jsonText fmt17g a := by
  rw [rs2jsonText_eq fmt17g H]
  exact (fetchResultsetArray_text fmt17g s db hstmt H).outBuf_eq

/-- The array of a result set whose cells are JSON. -/
theorem ResultSetAnswer.Delivered.readsAs {a : ResultSetAnswer} (H : a.Delivered) :
    ReadsAs (rs2jsonText fmt17g a)
      (.array ((fetchedRows a.rows).map (rowJson fmt17g a.columns))) := by
  have htext : rs2jsonText fmt17g a = documentText fmt17g a := by
    rw [rs2jsonText_eq fmt17g ⟨H.columns, H.fetch⟩, bodyText, rowsText_eq fmt17g _ H.fetch]
    simp [documentText, arrayText]
  rw [htext]
  exact (valueText_documentText fmt17g H).readsAs (length_documentText fmt17g a)

section
variable {a : ResultsAnswer} {r : ResultAnswer} {more : List (Outcome × ResultAnswer)}

theorem ResultsAnswer.Succeeds.fetched (H : a.Succeeds) {set : ResultSetAnswer}
    (hset : set ∈ a.columnSets) : set.Fetched := by
  obtain ⟨hmem, hcols⟩ := List.mem_filter.mp hset
  obtain ⟨r, hr, rfl⟩ := List.mem_map.mp hmem
  have hsucceeds : r.Succeeds := by
    obtain rfl | hr := List.mem_cons.mp hr
    · exact H.first
    · obtain ⟨p, hp, rfl⟩ := List.mem_map.mp hr
      exact (H.more p hp).2
  have hpos := of_decide_eq_true hcols
  exact hsucceeds.fetched.resolve_left (by omega)

theorem ResultAnswer.Succeeds.arrayFailure (hr : r.Succeeds) :
    (if 0 < r.set.columns.numCols then ApiServer.arrayFailure false true r.set else none) = none := by
  split
  · exact (hr.fetched.resolve_left (by omega)).arrayFailure false
  · rfl

/-- Every result is visited, with the number of its columns, and none of them fails. -/
theorem visitedResults_eq (hr : r.Succeeds)
    (hmore : ∀ p ∈ more, sqlSucceeded p.1.ret = true ∧ p.2.Succeeds) (hasResultset : Bool) :
    resultsFailure hasResultset r.set.columns.numCols r.set more = none ∧
      visitedResults r.set.columns.numCols r.set more =
        (r :: more.map (·.2)).map fun r => (r.set.columns.numCols, r.set) := by
  induction more generalizing r hasResultset with
  | nil => exact ⟨hr.arrayFailure, rfl⟩
  | cons p more ih =>
    obtain ⟨⟨hsuccess, hp⟩, hmore⟩ := List.forall_mem_cons.mp hmore
    have hdone := ne_noData_of_succeeded hsuccess
    obtain ⟨hfailure, hvisited⟩ := ih hp hmore (hasResultset || 0 < r.set.columns.numCols)
    rw [resultsFailure, visitedResults, hp.colCount, Option.getD_some, if_neg hdone, if_neg hdone,
      hr.arrayFailure, hfailure, hvisited, Outcome.failure, if_pos hsuccess]
    exact ⟨rfl, rfl⟩

end

/-! ## The object -/

theorem columnSets_cons (r : ResultAnswer) (results : List ResultAnswer) :
    columnSets (r :: results) =
      if 0 < r.set.columns.numCols then r.set :: columnSets results else columnSets results := by
  simp [columnSets, List.filter_cons]

/-- The results as the loop sees them. -/
def visits (results : List ResultAnswer) : List (Int × ResultSetAnswer) :=
  results.map fun r => (r.set.columns.numCols, r.set)

section
variable {results : List ResultAnswer} (h : ∀ set ∈ columnSets results, set.Fetched)
include h

theorem remainingText_true (index : Nat) :
    remainingText (bodyText fmt17g) index true (visits results) =
      ((resultTexts fmt17g index (columnSets results)).map (44 :: ·)).flatten ++ [125] := by
  induction results generalizing index with
  | nil => rfl
  | cons r results ih =>
    rw [visits, List.map_cons, remainingText]
    rw [columnSets_cons] at h ⊢
    by_cases hcols : 0 < r.set.columns.numCols
    · rw [if_pos hcols] at h
      obtain ⟨hset, h⟩ := List.forall_mem_cons.mp h
      rw [if_pos hcols, if_pos hcols, resultTexts, List.zipIdx_cons, List.map_cons, List.map_cons,
        List.flatten_cons, rs2jsonText_eq fmt17g hset]
      have ih := ih h (index + 1)
      rw [visits, resultTexts] at ih
      rw [ih]
      simp [bytes]
    · rw [if_neg hcols] at h
      rw [if_neg hcols, if_neg hcols]
      exact ih h index

theorem remainingText_false :
    remainingText (bodyText fmt17g) 1 false (visits results) =
      resultsText fmt17g (columnSets results) := by
  induction results with
  | nil => rfl
  | cons r results ih =>
    rw [visits, List.map_cons, remainingText]
    rw [columnSets_cons] at h ⊢
    by_cases hcols : 0 < r.set.columns.numCols
    · rw [if_pos hcols] at h
      obtain ⟨hset, h⟩ := List.forall_mem_cons.mp h
      have htrue := remainingText_true fmt17g h 2
      rw [visits, resultTexts] at htrue
      rw [if_pos hcols, if_pos hcols, htrue, resultsText, if_neg (List.cons_ne_nil _ _), resultTexts,
        List.zipIdx_cons, List.map_cons, intercalate_cons, rs2jsonText_eq fmt17g hset]
      simp [bytes]
    · rw [if_neg hcols] at h
      rw [if_neg hcols, if_neg hcols]
      exact ih h

end

theorem plain_resultKey (index : Nat) : Plain (resultKey index) := by
  exact plain_append.mpr ⟨by decide, plain_natText index⟩

/-- The members of the object, from `index` on. -/
theorem exists_resultMembers {sets : List ResultSetAnswer} {vals : List Json}
    (h : List.Forall₂ (fun set v => ReadsAs (rs2jsonText fmt17g set) v) sets vals) (index : Nat) :
    ∃ ms : List Member, ms.map Member.text = resultTexts fmt17g index sets ∧
      (ms.map fun m => (m.key, m.val)) = (vals.zipIdx index).map (fun p => (resultKey p.2, p.1)) ∧
      (∀ m ∈ ms, StrContent m.keyText m.key) ∧ ∀ m ∈ ms, ReadsAs m.valText m.val := by
  induction h generalizing index with
  | nil => exact ⟨[], rfl, rfl, nofun, nofun⟩
  | @cons set v sets vals hset _ ih =>
    obtain ⟨ms, htext, hval, hkey, hreads⟩ := ih (index + 1)
    refine ⟨⟨resultKey index, resultKey index, v, rs2jsonText fmt17g set⟩ :: ms, ?_, ?_, ?_, ?_⟩
    · rw [List.map_cons, htext]
      rfl
    · rw [List.map_cons, hval]
      rfl
    · exact List.forall_mem_cons.mpr ⟨.plain (plain_resultKey index), hkey⟩
    · exact List.forall_mem_cons.mpr ⟨hset, hreads⟩

/-- The object has the readings of the arrays as its values. -/
theorem parse_resultsText {sets : List ResultSetAnswer} {vals : List Json}
    (h : List.Forall₂ (fun set v => ReadsAs (rs2jsonText fmt17g set) v) sets vals) :
    Json.parse (resultsText fmt17g sets) = some (if sets = [] then .array []
      else .object ((vals.zipIdx 1).map fun p => (resultKey p.2, p.1))) := by
  rw [resultsText]
  split
  · rfl
  obtain ⟨ms, htext, hval, hkey, hreads⟩ := exists_resultMembers fmt17g h 1
  rw [← htext, ← membersText_eq_intercalate, ← hval]
  exact (readsAs_object hkey hreads).parse

end

/-- Every result with columns is a member, in order and under its number, with the array that
`db_fetch_rs2json` writes for it wherever it is called. -/
theorem dbFetchJsonmNative_members (fmt17g : Rat → Bytes) (s : Db) (db : DbConnectionId)
    (hstmt : Handle) {a : ResultsAnswer} (H : a.Succeeds) :
    (dbFetchJsonmNative fmt17g a db hstmt s).1 = true ∧
      (dbFetchJsonmNative fmt17g a db hstmt s).2.outBuf =
        s.outBuf ++ resultsText fmt17g a.columnSets ∧
      (∀ set ∈ a.columnSets, ∀ (s' : Db) (db' : DbConnectionId) (hstmt' : Handle),
        (dbFetchRs2json fmt17g set db' hstmt' s').1 = true ∧
          (dbFetchRs2json fmt17g set db' hstmt' s').2.outBuf = s'.outBuf ++ rs2jsonText fmt17g set) ∧
      ∀ vals, List.Forall₂ (fun set v => ReadsAs (rs2jsonText fmt17g set) v) a.columnSets vals →
        Json.parse (resultsText fmt17g a.columnSets) = some (if a.columnSets = [] then .array []
          else .object ((vals.zipIdx 1).map fun p => (resultKey p.2, p.1))) := by
  obtain ⟨hfailure, hvisited⟩ := visitedResults_eq H.first H.more false
  have hw : Writes id (dbFetchJsonmNative fmt17g a db hstmt) s true
      (remainingText (bodyText fmt17g) 1 false
        (visitedResults a.first.set.columns.numCols a.first.set a.more)) none := by
    refine .skip (keeps_odbc _) ?_
    rw [H.first.colCount]
    exact fetchResults_text fmt17g _ db hstmt 1 false hfailure
  have hfetched : ∀ set ∈ columnSets (a.first :: a.more.map (·.2)), set.Fetched :=
    fun set hset => H.fetched hset
  rw [hvisited, ← visits, remainingText_false fmt17g hfetched] at hw
  refine ⟨hw.ok, hw.outBuf_eq, fun set hset s' db' hstmt' => ?_, fun vals hvals =>
    parse_resultsText fmt17g hvals⟩
  exact ⟨(fetchResultsetArray_text fmt17g s' db' hstmt' (H.fetched hset)).ok,
    dbFetchRs2json_text fmt17g s' db' hstmt' (H.fetched hset)⟩

/-- An update count, two rows, another update count, and a result set without rows. -/
def fourResults : ResultsAnswer where
  first := { colCount := some 0 }
  more := [({}, { colCount := some 4, set := twoRows }), ({}, { colCount := some 0 }),
    ({}, { colCount := some 4, set := { twoRows with rows := [] } })]

theorem fourResults_succeeds : fourResults.Succeeds where
  first := ⟨rfl, .inl rfl⟩
  more := by
    have hcolumns := twoRows_delivered.columns
    simp only [fourResults, List.forall_mem_cons]
    exact ⟨⟨rfl, rfl, .inr ⟨hcolumns, twoRows_delivered.fetch⟩⟩, ⟨rfl, rfl, .inl rfl⟩,
      ⟨rfl, rfl, .inr ⟨hcolumns, nofun⟩⟩, nofun⟩

theorem dbFetchJsonmNative_members_four :
    ∃ rows, (dbFetchJsonmNative (fun _ => []) fourResults 0 1 {}).1 = true ∧
      Json.parse (dbFetchJsonmNative (fun _ => []) fourResults 0 1 {}).2.outBuf =
        some (.object [(bytes "r1", .array rows), (bytes "r2", .array [])]) ∧ rows.length = 2 := by
  obtain ⟨hok, hout, -, hparse⟩ :=
    dbFetchJsonmNative_members (fun _ => []) {} 0 1 fourResults_succeeds
  have hvals : List.Forall₂ (fun set v => ReadsAs (rs2jsonText (fun _ => []) set) v)
      fourResults.columnSets
      [.array ((fetchedRows twoRows.rows).map (rowJson (fun _ => []) twoRows.columns)), .array []] :=
    .cons (twoRows_delivered.readsAs _) (.cons rfl .nil)
  refine ⟨(fetchedRows twoRows.rows).map (rowJson (fun _ => []) twoRows.columns), hok, ?_, rfl⟩
  rw [hout]
  exact hparse _ hvals

end ApiServer
