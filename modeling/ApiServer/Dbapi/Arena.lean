import ApiServer.Dbapi.Failure
import ApiServer.Lib.Memory

/-!
# The arena of the column buffers (`lib/dbapi.c`)

One loop adds up the sizes of the columns, with a check for overflow; another hands out the slices,
without one. Since the first succeeded, the offsets of the second are the same sums: the slices lie
one behind the other inside the arena. What `append_col_value` reads of a column is then decided by
the indicator that the driver stored, and stays within the slice whatever that is.
-/

namespace ApiServer
open Bytes

/-- A column with its place in the arena: `buffer - arena`. -/
structure BoundColumn where
  offset : Nat
  col : ColumnDescriptor

/-- A byte of `[buffer, buffer + alloc_size)`. -/
def BoundColumn.Covers (b : BoundColumn) (k : Int) : Prop :=
  b.offset ≤ k ∧ k < b.offset + b.col.allocSize

/-- The loop that hands out the slices, from `currentOffset` on; `size_t` wraps. -/
def bindOffsets : Nat → List ColumnDescriptor → List BoundColumn
  | _, [] => []
  | currentOffset, col :: cols =>
    ⟨currentOffset, col⟩ :: bindOffsets ((currentOffset + col.allocSize) % 2 ^ 64) cols

/-- The size of the block behind `meta->arena`: the thread-local array, or what was allocated. -/
def arenaBlock (totalArenaSize : Nat) : Nat :=
  if totalArenaSize ≤ 1024 * 1024 then 1024 * 1024 else totalArenaSize

/-! ## What is read of a column -/

/-- The indices of `n` bytes from `i` on. -/
def span (i : Int) (n : Nat) : List Int := (List.range n).map fun d : Nat => i + d

/-- `strlen(arena + i)`, which looks at `fuel` bytes at most: all that can be addressed. -/
def strlen (arena : Mem) : Int → Nat → Nat
  | _, 0 => 0
  | i, fuel + 1 => if arena.byte i = 0 then 0 else strlen arena (i + 1) fuel + 1

/-- `val_len` for a character column. -/
def valLen (arena : Mem) (b : BoundColumn) (ind : Int) : Nat :=
  if ind = sqlNoTotal then strlen arena b.offset (2 ^ 64)
  else if b.col.allocSize ≤ toSize ind then b.col.allocSize - 1
  else toSize ind

/-- The bytes of the arena that `append_col_value` reads. -/
def appendColValueReads (arena : Mem) (b : BoundColumn) (ind : Int) : List Int :=
  match b.col.cType with
  | .bit => span b.offset 1
  | .slong => span b.offset 4
  | .sbigint => span b.offset 8
  | .double => span b.offset 8
  | .char =>
    -- `strlen` also looks at the NUL
    (if ind = sqlNoTotal then span b.offset (strlen arena b.offset (2 ^ 64) + 1) else []) ++
      span b.offset (valLen arena b ind)

/-- What `jbuf_append_row_object` does to the buffer of a column before its value is read. -/
def terminate (arena : Mem) (b : BoundColumn) : Mem :=
  if 0 < b.col.allocSize ∧ b.col.cType = .char then
    arena.store (b.offset + b.col.allocSize - 1) 0
  else arena

theorem mem_span {i k : Int} {n : Nat} : k ∈ span i n ↔ i ≤ k ∧ k < i + n := by
  simp only [span, List.mem_map, List.mem_range]
  constructor
  · rintro ⟨d, hd, rfl⟩
    omega
  · rintro ⟨h1, h2⟩
    exact ⟨(k - i).toNat, by omega, by omega⟩

/-- `strlen` stops at a NUL. -/
theorem strlen_le {arena : Mem} {i : Int} {n fuel : Nat} (h : arena.byte (i + n) = 0)
    (hfuel : n < fuel) : strlen arena i fuel ≤ n := by
  induction fuel generalizing i n with
  | zero => omega
  | succ fuel ih =>
    rw [strlen]
    split
    · exact Nat.zero_le n
    · cases n with
      | zero => exact absurd (by simpa using h) ‹arena.byte i ≠ 0›
      | succ n =>
        refine Nat.succ_le_succ (@ih (i + 1) n ?_ (by omega))
        rw [← h]
        congr 1
        push_cast
        omega

theorem cstr_load {arena : Mem} {i : Int} {n fuel : Nat} (h : arena.byte (i + n) = 0)
    (hfuel : n < fuel) : cstr (arena.load i n) = arena.load i (strlen arena i fuel) := by
  induction fuel generalizing i n with
  | zero => omega
  | succ fuel ih =>
    cases n with
    | zero =>
      have h0 : arena.byte i = 0 := by simpa using h
      rw [strlen, if_pos h0]
      rfl
    | succ n =>
      by_cases h0 : arena.byte i = 0
      · rw [strlen, if_pos h0, Mem.load]
        simp [cstr, h0, Mem.load]
      · have hrest := @ih (i + 1) n (by rw [← h]; congr 1; push_cast; omega) (by omega)
        rw [strlen, if_neg h0, Mem.load, Mem.load, ← hrest]
        simp [cstr, h0]

/-- With the text of a cell in its slice, `val_len` bytes of it are the value of the column. -/
theorem load_valLen {arena : Mem} {b : BoundColumn} {cell : Cell} (hind : FitsInt64 cell.ind)
    (hsize : b.col.allocSize < 2 ^ 63)
    (hload : arena.load b.offset (b.col.allocSize - 1) =
      (cell.text ++ List.replicate (b.col.allocSize - 1) 0).take (b.col.allocSize - 1))
    (hnul : arena.byte (b.offset + (b.col.allocSize - 1 : Nat)) = 0) :
    arena.load b.offset (valLen arena b cell.ind) = charValue b.col cell := by
  unfold valLen charValue
  rw [← hload]
  split
  · exact (cstr_load hnul (by omega)).symm
  · by_cases hneg : cell.ind < 0
    · have := hind.le_toSize_of_neg hneg
      rw [if_pos (by omega), if_pos (.inl hneg)]
    · rw [hind.toSize_of_nonneg (by omega)]
      split
      · rw [if_pos (.inr (by omega))]
      · rw [if_neg (by omega), Mem.take_load (by omega)]

/-! ## Slices -/

section
variable {cols : List ColumnDescriptor} {off : Nat}

/-- The sizes of the columns. -/
def sizes (cols : List ColumnDescriptor) : Nat := (cols.map (·.allocSize)).sum

theorem col_mem_of_bindOffsets {b : BoundColumn} (h : b ∈ bindOffsets off cols) : b.col ∈ cols := by
  induction cols generalizing off with
  | nil => cases h
  | cons col cols ih =>
    rcases List.mem_cons.mp h with rfl | h
    · exact List.mem_cons_self ..
    · exact List.mem_cons_of_mem _ (ih h)

/-- Sums that do not overflow are the offsets. -/
theorem bindOffsets_bounds (hsum : off + sizes cols < 2 ^ 64) :
    ∀ b ∈ bindOffsets off cols, off ≤ b.offset ∧ b.offset + b.col.allocSize ≤ off + sizes cols := by
  induction cols generalizing off with
  | nil => exact nofun
  | cons col cols ih =>
    simp only [sizes, List.map_cons, List.sum_cons] at hsum ih ⊢
    intro b hb
    rw [bindOffsets, Nat.mod_eq_of_lt (by omega)] at hb
    rcases List.mem_cons.mp hb with rfl | hb
    · dsimp only
      omega
    · have := ih (by omega) b hb
      omega

/-- Each slice ends before the next one begins. -/
theorem bindOffsets_ordered (hsum : off + sizes cols < 2 ^ 64) :
    (bindOffsets off cols).Pairwise fun b b' => b.offset + b.col.allocSize ≤ b'.offset := by
  induction cols generalizing off with
  | nil => exact .nil
  | cons col cols ih =>
    have hrest : off + col.allocSize + sizes cols < 2 ^ 64 := by
      simpa [sizes, Nat.add_assoc] using hsum
    rw [bindOffsets, Nat.mod_eq_of_lt (by omega)]
    exact .cons (fun b hb => (bindOffsets_bounds hrest b hb).1) (ih hrest)

end

theorem arenaSize_eq (numCols total : Nat) (answers : List DescribeAnswer) :
    arenaSize numCols total answers = total + sizes (describedColumns numCols answers) := by
  induction numCols generalizing total answers with
  | zero => rfl
  | succ numCols ih =>
    rw [arenaSize, ih, describedColumns, sizes, sizes, List.map_cons, List.sum_cons, Nat.add_assoc]

theorem exists_describeColumn {numCols : Nat} {answers : List DescribeAnswer}
    {col : ColumnDescriptor} (h : col ∈ describedColumns numCols answers) :
    ∃ a, col = describeColumn a := by
  induction numCols generalizing answers with
  | zero => cases h
  | succ numCols ih =>
    rcases List.mem_cons.mp h with rfl | h
    · exact ⟨_, rfl⟩
    · exact ih h

/-- The checked sums of the first loop. -/
theorem arenaSize_lt_of_describeFailure {numCols total : Nat} {answers : List DescribeAnswer}
    (htotal : total < 2 ^ 64) (h : describeFailure numCols total answers = none) :
    arenaSize numCols total answers < 2 ^ 64 := by
  induction numCols generalizing total answers with
  | zero => exact htotal
  | succ numCols ih =>
    simp only [describeFailure, Option.or_eq_none_iff] at h
    split at h
    · exact nomatch h.2
    · exact ih (by omega) h.2

/-! ## Safety -/

/-- Whatever the indicator, the bytes that are read are those of the slice. -/
theorem appendColValueReads_covered (a : DescribeAnswer) (offset : Nat) (arena : Mem) (ind : Int) :
    let b : BoundColumn := ⟨offset, describeColumn a⟩
    ∀ k ∈ appendColValueReads (terminate arena b) b ind, b.Covers k := by
  intro b k hk
  have hsize := columnType_size a.sqlType a.colSize
  have hcType : b.col.cType = (columnType a.sqlType a.colSize).1 := rfl
  have halloc : b.col.allocSize = (columnType a.sqlType a.colSize).2 := rfl
  generalize columnType a.sqlType a.colSize = t at hsize hcType halloc
  obtain ⟨cType, size⟩ := t
  dsimp only at hcType halloc
  rw [BoundColumn.Covers, halloc]
  unfold appendColValueReads at hk
  rw [hcType] at hk
  cases cType with
  | bit | slong | sbigint | double =>
    dsimp only at hsize
    rw [hsize]
    exact mem_span.mp hk
  | char =>
    obtain ⟨hpos, hle⟩ := hsize
    have hnul : (terminate arena b).byte (b.offset + (size - 1 : Nat)) = 0 := by
      rw [terminate, if_pos ⟨by omega, hcType⟩, halloc]
      exact if_pos (by omega)
    have hstrlen := strlen_le hnul (show size - 1 < 2 ^ 64 by omega)
    rcases List.mem_append.mp hk with hk | hk
    · split at hk
      · have := mem_span.mp hk
        omega
      · exact absurd hk List.not_mem_nil
    · have hk := mem_span.mp hk
      have hval : valLen (terminate arena b) b ind < size := by
        unfold valLen
        rw [halloc]
        split
        · omega
        split <;> omega
      omega

/-- A success of `odbc_bind_resultset_metadata` is one of the loops before it. -/
theorem columns_of_bind {s : Db} {db : DbConnectionId} {hstmt : Handle} {a : ColumnsAnswer}
    {cols : List ColumnDescriptor} (h : (odbcBindResultsetMetadata db hstmt a s).1.2 = some cols)
    (hne : cols ≠ []) :
    cols = describedColumns a.numCols.toNat a.describe ∧
      arenaSize a.numCols.toNat 0 a.describe < 2 ^ 64 := by
  obtain ⟨hcount, hcols⟩ := odbcBindResultsetMetadata_eq_some h
  refine ⟨hcols, arenaSize_lt_of_describeFailure (by decide) ?_⟩
  have hnone : columnsFailure a = none := by
    have := (odbcBindResultsetMetadata_quiet s db hstmt a).ok
    rw [h] at this
    exact Option.isNone_iff_eq_none.mp this.symm
  have hzero : a.numCols ≠ 0 := by
    intro hzero
    rw [hcols, hzero] at hne
    exact hne rfl
  rw [columnsFailure, if_neg hzero, if_neg (by omega)] at hnone
  simp only [Option.or_eq_none_iff] at hnone
  have halloc := hnone.2.1
  unfold allocFailure at halloc
  split at halloc
  · cases halloc
  · exact (Option.or_eq_none_iff.mp halloc).1

/-- The slices are disjoint parts of the arena, and values are read from them alone. -/
theorem column_buffers_safe (s : Db) (db : DbConnectionId) (hstmt : Handle) (a : ColumnsAnswer)
    (cols : List ColumnDescriptor) (h : (odbcBindResultsetMetadata db hstmt a s).1.2 = some cols)
    (hne : cols ≠ []) :
    let bound := bindOffsets 0 cols
    bound.Pairwise (fun b b' => ∀ k, ¬(b.Covers k ∧ b'.Covers k)) ∧
    (∀ b ∈ bound, 0 < b.col.allocSize ∧
      b.offset + b.col.allocSize ≤ arenaBlock (arenaSize a.numCols.toNat 0 a.describe)) ∧
    ∀ b ∈ bound, ∀ (arena : Mem) (ind : Int),
      ∀ k ∈ appendColValueReads (terminate arena b) b ind, b.Covers k := by
  obtain ⟨hcols, hlt⟩ := columns_of_bind h hne
  have hsum := arenaSize_eq a.numCols.toNat 0 a.describe
  rw [← hcols] at hsum
  have hbound : 0 + sizes cols < 2 ^ 64 := hsum ▸ hlt
  refine ⟨?_, fun b hb => ⟨?_, ?_⟩, fun b hb => ?_⟩
  · refine (bindOffsets_ordered hbound).imp fun hle k => ?_
    unfold BoundColumn.Covers
    omega
  · obtain ⟨answer, hcol⟩ := exists_describeColumn (hcols ▸ col_mem_of_bindOffsets hb)
    rw [hcol]
    exact (allocSize_bounds answer).1
  · have hle := (bindOffsets_bounds hbound b hb).2
    rw [hsum, arenaBlock]
    split <;> omega
  · obtain ⟨answer, hcol⟩ := exists_describeColumn (hcols ▸ col_mem_of_bindOffsets hb)
    obtain ⟨offset, col⟩ := b
    obtain rfl : col = describeColumn answer := hcol
    exact appendColValueReads_covered answer offset

/-- A flag, a text of at most ten bytes and a long text. -/
theorem column_buffers_safe_three :
    let a : ColumnsAnswer := {
      numCols := 3
      describe := [{ sqlType := .bit }, { sqlType := .other, colSize := 10 }, { sqlType := .other }] }
    let cols := describedColumns 3 a.describe
    let bound := bindOffsets 0 cols
    bound.Pairwise (fun b b' => ∀ k, ¬(b.Covers k ∧ b'.Covers k)) ∧
    (∀ b ∈ bound, 0 < b.col.allocSize ∧
      b.offset + b.col.allocSize ≤ arenaBlock (arenaSize 3 0 a.describe)) ∧
    ∀ b ∈ bound, ∀ (arena : Mem) (ind : Int),
      ∀ k ∈ appendColValueReads (terminate arena b) b ind, b.Covers k :=
  column_buffers_safe {} 0 1 {
    numCols := 3
    describe := [{ sqlType := .bit }, { sqlType := .other, colSize := 10 }, { sqlType := .other }] }
    _ rfl nofun

end ApiServer
