import ApiServer.Dbapi.JsonBuffer
import ApiServer.JsonUtil.Encoding

/-!
# The staging array of a `JsonBuffer` (`lib/dbapi.c`)

`Staged` keeps `stack_buf` and `offset` as the code does. Its operations do to the array what the
operations of `JsonBuffer` do to the bytes in it (`view`), so the content grows as there; the offset
never leaves the array, and no write does.
-/

namespace ApiServer
open Bytes Json

/-- `JsonBuffer` with its array. -/
structure Staged where
  evbuf : Bytes
  stackBuf : Mem
  offset : Nat := 0

namespace Staged

/-- Also the part of `jbuf_add` and `jbuf_add_char` that makes room. -/
def jbufFlush (jbuf : Staged) : Staged :=
  if 0 < jbuf.offset then
    { jbuf with evbuf := jbuf.evbuf ++ jbuf.stackBuf.load 0 jbuf.offset, offset := 0 }
  else jbuf

/-- `memcpy` behind the staged bytes. -/
def copy (jbuf : Staged) (data : Bytes) : Staged :=
  { jbuf with
    stackBuf := jbuf.stackBuf.storeAll jbuf.offset data
    offset := jbuf.offset + data.length }

/-- `offset + len` does not wrap: no object is that large. -/
def jbufAdd (jbuf : Staged) (data : Bytes) : Staged :=
  if 8192 < jbuf.offset + data.length then
    let jbuf := jbufFlush jbuf
    if 8192 ≤ data.length then { jbuf with evbuf := jbuf.evbuf ++ data } else jbuf.copy data
  else jbuf.copy data

def jbufAddChar (jbuf : Staged) (c : UInt8) : Staged :=
  let jbuf := if 8192 < jbuf.offset + 1 ∧ 0 < jbuf.offset then jbufFlush jbuf else jbuf
  { jbuf with stackBuf := jbuf.stackBuf.store jbuf.offset c, offset := jbuf.offset + 1 }

def jbufAddRun (jbuf : Staged) (run : Bytes) : Staged :=
  if 0 < run.length then jbufAdd jbuf run else jbuf

/-- The loop over the bytes of a string; `run` is `[start, p)`. -/
def escapeRuns (jbuf : Staged) (run : Bytes) : Bytes → Staged
  | [] => jbufAddRun jbuf run
  | c :: str =>
    if c ≠ 34 ∧ c ≠ 92 ∧ 0x20 ≤ c then escapeRuns jbuf (run ++ [c]) str
    else escapeRuns (jbufAdd (jbufAddRun jbuf run) (jbufEscape c)) [] str

def jbufAppendEscapedStr (jbuf : Staged) (str : Bytes) : Staged :=
  jbufAddChar (escapeRuns (jbufAddChar jbuf 34) [] str) 34

/-- The bytes staged and sent, without the array. -/
def view (jbuf : Staged) : JsonBuffer := ⟨jbuf.evbuf, jbuf.stackBuf.load 0 jbuf.offset⟩

/-- The evbuffer followed by `stack_buf[0, offset)`. -/
def content (jbuf : Staged) : Bytes := jbuf.evbuf ++ jbuf.stackBuf.load 0 jbuf.offset

/-! ## The operations on the bytes -/

section
variable (jbuf : Staged)

theorem length_view : jbuf.view.stack.length = jbuf.offset := Mem.length_load ..

theorem view_flush : (jbufFlush jbuf).view = ApiServer.jbufFlush jbuf.view := by
  rw [jbufFlush, ApiServer.jbufFlush, length_view]
  split <;> rfl

theorem view_copy (data : Bytes) :
    (jbuf.copy data).view = { jbuf.view with stack := jbuf.view.stack ++ data } := by
  have hwrote : jbuf.stackBuf.Wrote jbuf.offset data (jbuf.copy data).stackBuf := Mem.wrote_storeAll
  have hload : (jbuf.copy data).view.stack = jbuf.view.stack ++ data := by
    change (jbuf.copy data).stackBuf.load 0 (jbuf.offset + data.length) = _
    rw [Mem.load_append, Int.zero_add, hwrote.load_eq,
      Mem.load_congr fun k _ hk => hwrote.frame k (.inl (by omega))]
    rfl
  rw [← hload]
  rfl

theorem view_add (data : Bytes) : (jbufAdd jbuf data).view = ApiServer.jbufAdd jbuf.view data := by
  rw [jbufAdd, ApiServer.jbufAdd, length_view]
  split
  · dsimp only
    rw [← view_flush]
    split
    · rfl
    · exact view_copy ..
  · exact view_copy ..

theorem view_addChar (c : UInt8) :
    (jbufAddChar jbuf c).view = ApiServer.jbufAddChar jbuf.view c := by
  -- a full array is not empty
  have hcond : 8192 < jbuf.offset + 1 ∧ 0 < jbuf.offset ↔ 8192 < jbuf.offset + 1 := by omega
  rw [jbufAddChar, ApiServer.jbufAddChar, length_view]
  simp only [hcond]
  split
  · rw [← view_flush]
    exact view_copy (jbufFlush jbuf) [c]
  · exact view_copy jbuf [c]

theorem view_addRun (run : Bytes) :
    (jbufAddRun jbuf run).view = ApiServer.jbufAddRun jbuf.view run := by
  rw [jbufAddRun, ApiServer.jbufAddRun]
  split
  · exact view_add ..
  · rfl

theorem view_escapeRuns (run str : Bytes) :
    (escapeRuns jbuf run str).view = ApiServer.escapeRuns jbuf.view run str := by
  induction str generalizing jbuf run with
  | nil => exact view_addRun ..
  | cons c str ih =>
    rw [escapeRuns, ApiServer.escapeRuns]
    split
    · exact ih ..
    · rw [ih, view_add, view_addRun]

theorem view_appendEscapedStr (str : Bytes) :
    (jbufAppendEscapedStr jbuf str).view = ApiServer.jbufAppendEscapedStr jbuf.view str := by
  rw [jbufAppendEscapedStr, ApiServer.jbufAppendEscapedStr, view_addChar, view_escapeRuns,
    view_addChar]

end

/-! ## Sequences of calls -/

inductive Call where
  | add (data : Bytes)
  | addChar (c : UInt8)
  | flush

def Call.appended : Call → Bytes
  | add data => data
  | addChar c => [c]
  | flush => []

def step (jbuf : Staged) : Call → Staged
  | .add data => jbufAdd jbuf data
  | .addChar c => jbufAddChar jbuf c
  | .flush => jbufFlush jbuf

def run (jbuf : Staged) (calls : List Call) : Staged := calls.foldl step jbuf

/-- From `jbuf` to `jbuf'`, `data` was appended, inside the array. -/
structure Appends (jbuf : Staged) (data : Bytes) (jbuf' : Staged) : Prop where
  content_eq : jbuf'.content = jbuf.content ++ data
  offset_le : jbuf'.offset ≤ 8192
  inside : ∀ k ∈ jbuf'.stackBuf.touched, k ∈ jbuf.stackBuf.touched ∨ 0 ≤ k ∧ k < 8192

theorem Appends.trans {jbuf jbuf' jbuf'' : Staged} {s t : Bytes} (h : Appends jbuf s jbuf')
    (h' : Appends jbuf' t jbuf'') : Appends jbuf (s ++ t) jbuf'' := by
  refine ⟨?_, h'.offset_le, fun k hk => (h'.inside k hk).elim (h.inside k) .inr⟩
  rw [h'.content_eq, h.content_eq, List.append_assoc]

theorem offset_flush (jbuf : Staged) : (jbufFlush jbuf).offset = 0 := by
  rw [jbufFlush]
  split
  · rfl
  · omega

theorem stackBuf_flush (jbuf : Staged) : (jbufFlush jbuf).stackBuf = jbuf.stackBuf := by
  rw [jbufFlush]
  split <;> rfl

theorem appends_flush (jbuf : Staged) : Appends jbuf [] (jbufFlush jbuf) where
  content_eq := by
    rw [List.append_nil]
    exact (congrArg JsonBuffer.content (view_flush jbuf)).trans (content_flush jbuf.view)
  offset_le := by rw [offset_flush]; omega
  inside k hk := .inl (stackBuf_flush jbuf ▸ hk)

/-- What fits behind the staged bytes is written inside the array. -/
theorem appends_copy (jbuf : Staged) (data : Bytes) (h : jbuf.offset + data.length ≤ 8192) :
    Appends jbuf data (jbuf.copy data) where
  content_eq := by
    refine (congrArg JsonBuffer.content (view_copy jbuf data)).trans ?_
    exact (List.append_assoc ..).symm
  offset_le := h
  inside k hk := by
    have hwrote : jbuf.stackBuf.Wrote jbuf.offset data (jbuf.copy data).stackBuf :=
      Mem.wrote_storeAll
    refine ((hwrote.touched k).mp hk).imp_right fun hk => ?_
    omega

theorem appends_add (jbuf : Staged) (data : Bytes) : Appends jbuf data (jbufAdd jbuf data) := by
  have hflush := appends_flush jbuf
  have hoff := offset_flush jbuf
  rw [jbufAdd]
  split
  · dsimp only
    split
    · -- too large for the array: sent as it is
      refine ⟨?_, hflush.offset_le, hflush.inside⟩
      have := hflush.content_eq
      simp only [content, hoff, Mem.load, List.append_nil] at this ⊢
      rw [this]
    · exact hflush.trans (appends_copy _ data (by omega))
  · exact appends_copy jbuf data (by omega)

theorem appends_addChar (jbuf : Staged) (c : UInt8) : Appends jbuf [c] (jbufAddChar jbuf c) := by
  have hoff := offset_flush jbuf
  rw [jbufAddChar]
  split
  · refine (appends_flush jbuf).trans (appends_copy (jbufFlush jbuf) [c] ?_)
    rw [hoff, List.length_singleton]
    decide
  · exact appends_copy jbuf [c] (by rw [List.length_singleton]; omega)

theorem appends_step (jbuf : Staged) (call : Call) :
    Appends jbuf call.appended (step jbuf call) := by
  cases call with
  | add data => exact appends_add jbuf data
  | addChar c => exact appends_addChar jbuf c
  | flush => exact appends_flush jbuf

/-- Whatever is called, the content grows by what is appended and the writes stay in the array. -/
theorem appends_run (jbuf : Staged) (h : jbuf.offset ≤ 8192) (calls : List Call) :
    Appends jbuf (calls.flatMap Call.appended) (run jbuf calls) := by
  induction calls generalizing jbuf with
  | nil => exact ⟨(List.append_nil _).symm, h, fun k hk => .inl hk⟩
  | cons call calls ih =>
    have hstep := appends_step jbuf call
    exact hstep.trans (ih _ hstep.offset_le)

/-- From a full array: a byte, more than the array holds, nothing, and a flush. -/
theorem appends_run_full :
    let jbuf : Staged := ⟨[], ⟨fun _ => 65, []⟩, 8192⟩
    let calls := [.addChar 66, .add (List.replicate 8193 67), .add [], .flush]
    Appends jbuf (calls.flatMap Call.appended) (run jbuf calls) :=
  appends_run ⟨[], ⟨fun _ => 65, []⟩, 8192⟩ (by decide) _

/-! ## Escaped strings -/

/-- What `jbuf_append_escaped_str` adds to the content. -/
def appendedBy (jbuf : Staged) (str : Bytes) : Bytes :=
  (jbufAppendEscapedStr jbuf str).content.drop jbuf.content.length

theorem content_appendEscapedStr (jbuf : Staged) (str : Bytes) :
    (jbufAppendEscapedStr jbuf str).content = jbuf.content ++ (34 :: escape str ++ [34]) :=
  (congrArg JsonBuffer.content (view_appendEscapedStr jbuf str)).trans
    (ApiServer.content_appendEscapedStr jbuf.view str)

theorem appendedBy_eq (jbuf : Staged) (str : Bytes) :
    appendedBy jbuf str = 34 :: escape str ++ [34] := by
  rw [appendedBy, content_appendEscapedStr, List.drop_left]

/-- The two escapers write the same, and what they write can be read back. -/
theorem escapers_agree (jbuf : Staged) (s : Bytes) :
    (jbufAppendEscapedStr jbuf s).content = jbuf.content ++ appendedBy jbuf s ∧
    (0 ∉ s → ∀ destSize, 6 * s.length + 8 ≤ destSize → ∀ dest : Mem, ∃ text : Bytes, 0 ∉ text ∧
      (Raw.jsonEncodeString s dest destSize).load 0 (text.length + 1) = text ++ [0] ∧
      appendedBy jbuf s = 34 :: text ++ [34]) ∧
    Json.parse (appendedBy jbuf s) = some (.string s) ∧
    ∀ (jbuf' : Staged) (t : Bytes), appendedBy jbuf' t = appendedBy jbuf s → t = s := by
  refine ⟨?_, fun h0 destSize hsize dest => ?_, ?_, fun jbuf' t h => ?_⟩
  · rw [appendedBy_eq, content_appendEscapedStr]
  · have hwrote := wrote_jsonEncodeString s dest (show 0 < destSize by omega)
    have hfits : EncodeFits s destSize := by
      refine (List.eq_nil_or_concat' s).imp_right fun ⟨p, c, hs⟩ => ?_
      have := length_escape_le p
      rw [hs, List.length_append, List.length_singleton] at hsize
      rw [hs, List.dropLast_concat]
      omega
    obtain ⟨p, -, heq, hall, -⟩ := jsonEncodeString_spec h0 destSize
    rw [hall.mpr hfits] at heq
    rw [heq] at hwrote
    have hload := hwrote.load_eq
    rw [List.length_append] at hload
    exact ⟨escape s, zero_notMem_escape h0, hload, appendedBy_eq jbuf s⟩
  · rw [appendedBy_eq]
    exact parse_valueText (valueText_string (strContent_escape s)) (Nat.zero_le _)
  · rw [appendedBy_eq, appendedBy_eq] at h
    exact escape_injective (List.append_cancel_right (List.tail_eq_of_cons_eq h))

/-- A quote and a control byte behind 8190 staged bytes. -/
theorem escapers_agree_full :
    let jbuf : Staged := ⟨[], ⟨fun _ => 65, []⟩, 8190⟩
    ∃ text : Bytes, 0 ∉ text ∧
      (Raw.jsonEncodeString [34, 1] ⟨fun _ => 0, []⟩ 20).load 0 (text.length + 1) = text ++ [0] ∧
      appendedBy jbuf [34, 1] = 34 :: text ++ [34] :=
  (escapers_agree ⟨[], ⟨fun _ => 65, []⟩, 8190⟩ [34, 1]).2.1 (by decide) 20 (by decide) _

end Staged
end ApiServer
