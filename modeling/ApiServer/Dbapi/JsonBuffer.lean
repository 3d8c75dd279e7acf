import ApiServer.JsonUtil

/-!
# Staged output (`JsonBuffer` in `lib/dbapi.c`)

Bytes are collected in a stack buffer of 8192 bytes in front of an evbuffer. `content` is what has
been written so far, wherever it is, and every operation appends to it.
-/

namespace ApiServer
open Bytes

/-- `stack` is `stack_buf[0, offset)`. -/
structure JsonBuffer where
  evbuf : Bytes
  stack : Bytes := []

namespace JsonBuffer

def content (jbuf : JsonBuffer) : Bytes := jbuf.evbuf ++ jbuf.stack

end JsonBuffer

/-- Also the part of `jbuf_add` and `jbuf_add_char` that makes room. -/
def jbufFlush (jbuf : JsonBuffer) : JsonBuffer :=
  if 0 < jbuf.stack.length then { evbuf := jbuf.evbuf ++ jbuf.stack } else jbuf

def jbufAdd (jbuf : JsonBuffer) (data : Bytes) : JsonBuffer :=
  if 8192 < jbuf.stack.length + data.length then
    let jbuf := jbufFlush jbuf
    if 8192 ≤ data.length then { jbuf with evbuf := jbuf.evbuf ++ data }
    else { jbuf with stack := jbuf.stack ++ data }
  else { jbuf with stack := jbuf.stack ++ data }

def jbufAddChar (jbuf : JsonBuffer) (c : UInt8) : JsonBuffer :=
  let jbuf := if 8192 < jbuf.stack.length + 1 then jbufFlush jbuf else jbuf
  { jbuf with stack := jbuf.stack ++ [c] }

/-- The `switch` over a byte that is not copied as it is. -/
def jbufEscape (c : UInt8) : Bytes :=
  if c = 34 then bytes "\\\""
  else if c = 92 then bytes "\\\\"
  else if c = 8 then bytes "\\b"
  else if c = 12 then bytes "\\f"
  else if c = 10 then bytes "\\n"
  else if c = 13 then bytes "\\r"
  else if c = 9 then bytes "\\t"
  else bytes "\\u00" ++ [hexDigit (c >>> 4), hexDigit (c &&& 0x0F)]

def jbufAddRun (jbuf : JsonBuffer) (run : Bytes) : JsonBuffer :=
  if 0 < run.length then jbufAdd jbuf run else jbuf

/-- The loop over the bytes of a string; `run` is `[start, p)`. -/
def escapeRuns (jbuf : JsonBuffer) (run : Bytes) : Bytes → JsonBuffer
  | [] => jbufAddRun jbuf run
  | c :: str =>
    if c ≠ 34 ∧ c ≠ 92 ∧ 0x20 ≤ c then escapeRuns jbuf (run ++ [c]) str
    else escapeRuns (jbufAdd (jbufAddRun jbuf run) (jbufEscape c)) [] str

def jbufAppendEscapedStr (jbuf : JsonBuffer) (str : Bytes) : JsonBuffer :=
  jbufAddChar (escapeRuns (jbufAddChar jbuf 34) [] str) 34

def evbufferAppendEscapedStr (buf str : Bytes) : Bytes :=
  (jbufFlush (jbufAppendEscapedStr { evbuf := buf } str)).evbuf

/-! ## What has been written -/

section
variable (jbuf : JsonBuffer)

@[simp] theorem content_flush : (jbufFlush jbuf).content = jbuf.content := by
  unfold jbufFlush
  split <;> simp [JsonBuffer.content]

theorem stack_flush : (jbufFlush jbuf).stack = [] := by
  unfold jbufFlush
  split
  · rfl
  · rename_i h
    exact List.eq_nil_of_length_eq_zero (by omega)

theorem evbuf_flush : (jbufFlush jbuf).evbuf = jbuf.content := by
  rw [← content_flush, JsonBuffer.content, stack_flush, List.append_nil]

@[simp] theorem content_add (data : Bytes) :
    (jbufAdd jbuf data).content = jbuf.content ++ data := by
  unfold jbufAdd
  split
  · dsimp only
    split
    · simp only [JsonBuffer.content, evbuf_flush, stack_flush, List.append_nil]
    · simp only [JsonBuffer.content, evbuf_flush, stack_flush, List.nil_append]
  · simp only [JsonBuffer.content, List.append_assoc]

@[simp] theorem content_addChar (c : UInt8) :
    (jbufAddChar jbuf c).content = jbuf.content ++ [c] := by
  unfold jbufAddChar
  dsimp only
  split
  · simp only [JsonBuffer.content, evbuf_flush, stack_flush, List.nil_append]
  · simp only [JsonBuffer.content, List.append_assoc]

@[simp] theorem content_addRun (run : Bytes) :
    (jbufAddRun jbuf run).content = jbuf.content ++ run := by
  unfold jbufAddRun
  split
  · exact content_add jbuf run
  · rename_i h
    rw [List.eq_nil_of_length_eq_zero (show run.length = 0 by omega), List.append_nil]

end

/-- The two escapers of the program use the same table. -/
theorem jbufEscape_eq :
    ∀ c : UInt8, ¬(c ≠ 34 ∧ c ≠ 92 ∧ 0x20 ≤ c) → jbufEscape c = encodeByte c :=
  forall_byte (by decide +kernel)

/-- Runs of plain bytes are copied in one piece, which changes nothing. -/
theorem content_escapeRuns (jbuf : JsonBuffer) (run str : Bytes) :
    (escapeRuns jbuf run str).content = jbuf.content ++ run ++ escape str := by
  induction str generalizing jbuf run with
  | nil => rw [escapeRuns, content_addRun, escape_nil, List.append_nil]
  | cons c str ih =>
    rw [escapeRuns, escape_cons]
    split
    · rename_i h
      rw [ih, encodeByte_plain c h]
      simp only [List.append_assoc]
    · rename_i h
      rw [ih, content_add, content_addRun, jbufEscape_eq c h]
      simp only [List.append_assoc, List.append_nil]

@[simp] theorem content_appendEscapedStr (jbuf : JsonBuffer) (str : Bytes) :
    (jbufAppendEscapedStr jbuf str).content = jbuf.content ++ (34 :: escape str ++ [34]) := by
  rw [jbufAppendEscapedStr, content_addChar, content_escapeRuns, content_addChar]
  simp

theorem evbufferAppendEscapedStr_eq (buf str : Bytes) :
    evbufferAppendEscapedStr buf str = buf ++ (34 :: escape str ++ [34]) := by
  rw [evbufferAppendEscapedStr, evbuf_flush, content_appendEscapedStr, JsonBuffer.content,
    List.append_nil]

end ApiServer
