import ApiServer.Dbapi.Faithful
import ApiServer.Lib.JsonContext

/-!
# The key of a column

`setup_column_metadata` writes the key of a column once, in `precomputed_key`, and
`jbuf_append_row_object` copies it for each row. When libevent has no memory for that it escapes the
name again. Both read `name_len` bytes, the length that the driver reports, which is the length of the
whole name even where the array holds less of it.
-/

namespace ApiServer
open Bytes Json

/-- The driver describes a column with this name. -/
structure DescribeAnswer.Names (a : DescribeAnswer) (full : Bytes) : Prop where
  name : a.name = .store full
  nameLen : a.nameLen = full.length

/-- The column without its cached key. -/
def ColumnDescriptor.uncached (col : ColumnDescriptor) : ColumnDescriptor :=
  { col with precomputedKey := [] }

section
variable (fmt17g : Rat → Bytes)

/-- The text behind the key. -/
def memberValue (col : ColumnDescriptor) (cell : Cell) : Bytes :=
  if cell.ind = sqlNullData then bytes "null" else cellText fmt17g col cell

/-- The cached key is the key the slow path writes, the name as it is stored with quotes and a colon,
and no byte behind the stored name is read. -/
structure KeyAgrees (a : DescribeAnswer) : Prop where
  slow : ∀ jbuf cell, (jbufAppendMember fmt17g jbuf (describeColumn a) cell).content =
    (jbufAppendMember fmt17g jbuf (describeColumn a).uncached cell).content
  stored : ∀ jbuf cell, (jbufAppendMember fmt17g jbuf (describeColumn a) cell).content =
    jbuf.content ++ (34 :: escape a.name.text ++ [34, 58]) ++
      memberValue fmt17g (describeColumn a) cell
  inside : a.nameLen ≤ a.name.text.length

/-- The whole name is stored, and its key fits `precomputed_key`. -/
structure KeyFits (full : Bytes) (cached : Bool) : Prop where
  stored : full.length ≤ 127
  cached : cached = true → (escape full).length + 3 ≤ 255

theorem content_member (jbuf : JsonBuffer) (col : ColumnDescriptor) (cell : Cell) :
    (jbufAppendMember fmt17g jbuf col cell).content =
      jbuf.content ++ columnKey col ++ memberValue fmt17g col cell := by
  rw [content_appendMember, List.append_assoc]
  rfl

/-- What agrees is the key; the value behind it does not depend on the cache. -/
theorem keyAgrees_iff_columnKey {a : DescribeAnswer} :
    KeyAgrees fmt17g a ↔
      columnKey (describeColumn a) = 34 :: escape a.name.text ++ [34, 58] ∧
        escape (nameBytes a.name a.nameLen) = escape a.name.text ∧
        a.nameLen ≤ a.name.text.length := by
  have hvalue (cell : Cell) : memberValue fmt17g (describeColumn a).uncached cell =
      memberValue fmt17g (describeColumn a) cell := rfl
  have hslow : columnKey (describeColumn a).uncached =
      34 :: escape (nameBytes a.name a.nameLen) ++ [34, 58] := rfl
  constructor
  · intro H
    have hstored := H.stored { evbuf := [] } {}
    have hsame := H.slow { evbuf := [] } {}
    rw [content_member, List.append_cancel_right_eq, List.append_cancel_left_eq] at hstored
    rw [content_member, content_member, hvalue, List.append_cancel_right_eq,
      List.append_cancel_left_eq, hstored, hslow] at hsame
    exact ⟨hstored, (List.append_cancel_right (List.cons.inj hsame).2).symm, H.inside⟩
  · rintro ⟨hstored, hsame, hinside⟩
    refine ⟨fun jbuf cell => ?_, fun jbuf cell => ?_, hinside⟩
    · rw [content_member, content_member, hvalue, hstored, hslow, hsame]
    · rw [content_member, hstored]

theorem keyAgrees_iff {a : DescribeAnswer} {full : Bytes} (h : a.Names full) :
    KeyAgrees fmt17g a ↔ KeyFits full a.evbufferNew := by
  rw [keyAgrees_iff_columnKey]
  have hstored : full.length ≤ 127 → a.name.text = full := by
    intro hlen
    rw [h.name]
    exact List.take_of_length_le hlen
  constructor
  · rintro ⟨hkey, -, hinside⟩
    rw [h.name, h.nameLen, ColumnName.store, List.length_take] at hinside
    have hlen : full.length ≤ 127 := by omega
    refine ⟨hlen, fun hnew => ?_⟩
    rw [columnKey_describeColumn (by rw [h.nameLen, hstored hlen]), hnew, hstored hlen,
      if_pos rfl] at hkey
    have hcut := congrArg List.length hkey
    rw [List.length_take] at hcut
    simp only [List.length_append, List.length_cons, List.length_nil] at hcut
    omega
  · rintro ⟨hlen, hcached⟩
    have hname : a.nameLen = a.name.text.length := by rw [h.nameLen, hstored hlen]
    refine ⟨?_, ?_, hname.le⟩
    · rw [columnKey_describeColumn hname, hstored hlen]
      refine List.take_of_length_le ?_
      split
      · next hnew =>
        have := hcached hnew
        simp only [List.length_append, List.length_cons, List.length_nil]
        omega
      · exact Nat.le_refl _
    · simp [nameBytes, hname]

/-- A row whose keys agree is an object with the stored names, when its values are JSON. -/
theorem readsAs_row {n : Nat} {answers : List DescribeAnswer} {cells : List Cell} {vals : Nat → Json}
    (hkeys : ∀ i < n, KeyAgrees fmt17g (answers.getD i {}))
    (hvals : ∀ i < n, ReadsAs
      (memberValue fmt17g (describeColumn (answers.getD i {})) (cells.getD i {})) (vals i)) :
    ReadsAs (rowText fmt17g (describedColumns n answers) cells)
      (.object ((List.range n).map fun i => ((answers.getD i {}).name.text, vals i))) := by
  let m (i : Nat) : Member :=
    ⟨(answers.getD i {}).name.text, escape (answers.getD i {}).name.text, vals i,
      memberValue fmt17g (describeColumn (answers.getD i {})) (cells.getD i {})⟩
  have htext : ∀ i < n, cellMemberText fmt17g (describeColumn (answers.getD i {}))
      (cells.getD i {}) = (m i).text := by
    intro i hi
    obtain ⟨hkey, -⟩ := (keyAgrees_iff_columnKey fmt17g).mp (hkeys i hi)
    rw [cellMemberText, hkey, Member.text]
    simp [m, memberValue]
  have hreads := @readsAs_object ((List.range n).map m)
    (List.forall_mem_map.mpr fun i _ => strContent_escape _)
    (List.forall_mem_map.mpr fun i hi => hvals i (List.mem_range.mp hi))
  rw [objectText, ← cellMembersText_eq fmt17g htext, List.map_map] at hreads
  exact hreads

/-- For the columns of a result set: the cached keys are right exactly when each name is stored whole
and its key fits, and then every row is a JSON object with the names as its keys. -/
theorem precomputedKey_agrees_iff {n : Nat} {answers : List DescribeAnswer} {full : Nat → Bytes}
    (h : ∀ i < n, (answers.getD i {}).Names (full i)) :
    ((∀ i < n, KeyAgrees fmt17g (answers.getD i {})) ↔
      ∀ i < n, KeyFits (full i) (answers.getD i {}).evbufferNew) ∧
    ((∀ i < n, KeyFits (full i) (answers.getD i {}).evbufferNew) →
      ∀ (jbuf : JsonBuffer) (cells : List Cell) (vals : Nat → Json),
        (∀ i < n, ReadsAs
          (memberValue fmt17g (describeColumn (answers.getD i {})) (cells.getD i {})) (vals i)) →
        ∃ text, (jbufAppendRowObject fmt17g jbuf (describedColumns n answers) cells).content =
            jbuf.content ++ text ∧
          Json.parse text = some (.object ((List.range n).map fun i => (full i, vals i)))) := by
  have hiff : (∀ i < n, KeyAgrees fmt17g (answers.getD i {})) ↔
      ∀ i < n, KeyFits (full i) (answers.getD i {}).evbufferNew :=
    forall₂_congr fun i hi => keyAgrees_iff fmt17g (h i hi)
  refine ⟨hiff, fun hfits jbuf cells vals hvals => ⟨_, content_appendRowObject .., ?_⟩⟩
  rw [(readsAs_row fmt17g (hiff.mpr hfits) hvals).parse]
  refine congrArg (fun ms => some (Json.object ms)) (List.map_congr_left fun i hi => ?_)
  have hi := List.mem_range.mp hi
  rw [(h i hi).name]
  exact congrArg (·, vals i) (List.take_of_length_le (hfits i hi).stored)

end

/-- A name with a quotation mark and a NUL in it, and one that could not be cached. -/
def quotedColumns : List DescribeAnswer :=
  [{ name := .store [34, 0], nameLen := 2, sqlType := .integer },
    { name := .store (bytes "b"), nameLen := 1, sqlType := .bit, evbufferNew := false }]

theorem precomputedKey_agrees_quoted :
    (∀ i < 2, KeyAgrees (fun _ => []) (quotedColumns.getD i {})) ∧
    ∃ text, (jbufAppendRowObject (fun _ => []) { evbuf := [] } (describedColumns 2 quotedColumns)
        [{ int := 7 }, { ind := sqlNullData }]).content = [] ++ text ∧
      Json.parse text = some (.object [([34, 0], .int 7), (bytes "b", .null)]) := by
  have hcolumn : ∀ i < 2, i = 0 ∨ i = 1 := by omega
  have hnames : ∀ i < 2, (quotedColumns.getD i {}).Names ([[34, 0], bytes "b"].getD i []) := by
    intro i hi
    obtain rfl | rfl := hcolumn i hi
    all_goals exact ⟨rfl, rfl⟩
  have hfits : ∀ i < 2,
      KeyFits ([[34, 0], bytes "b"].getD i []) (quotedColumns.getD i {}).evbufferNew := by
    intro i hi
    obtain rfl | rfl := hcolumn i hi
    all_goals exact ⟨by decide, by decide⟩
  obtain ⟨hiff, hrows⟩ := precomputedKey_agrees_iff (fun _ => []) hnames
  refine ⟨hiff.mpr hfits, hrows hfits { evbuf := [] } [{ int := 7 }, { ind := sqlNullData }]
    (fun i => [Json.int 7, Json.null].getD i Json.null) ?_⟩
  intro i hi
  obtain rfl | rfl := hcolumn i hi
  all_goals rfl

/-- A name of 128 letters gets a NUL for its last one; the key of 127 quotation marks has no end, and
the row is no JSON. -/
theorem long_key_differs :
    let long : DescribeAnswer :=
      { name := .store (.replicate 128 97), nameLen := 128, sqlType := .integer }
    let quotes : DescribeAnswer :=
      { name := .store (.replicate 127 34), nameLen := 127, sqlType := .integer }
    long.Names (.replicate 128 97) ∧
      rowText (fun _ => []) (describedColumns 1 [long]) [{ int := 7 }] =
        bytes "\x7b\"" ++ .replicate 127 97 ++ bytes "\\u0000\":7\x7d" ∧
      ¬KeyAgrees (fun _ => []) long ∧
      quotes.Names (.replicate 127 34) ∧
      Json.parse (rowText (fun _ => []) (describedColumns 1 [quotes]) [{ int := 7 }]) = none := by
  intro long quotes
  have hnames : long.Names (.replicate 128 97) := ⟨rfl, rfl⟩
  refine ⟨hnames, by decide +kernel, ?_, ⟨rfl, rfl⟩, Option.isNone_iff_eq_none.mp (by decide +kernel)⟩
  rw [keyAgrees_iff (fun _ => []) hnames]
  intro h
  have hlen := h.stored
  rw [List.length_replicate] at hlen
  omega

end ApiServer
