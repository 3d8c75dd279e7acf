import ApiServer.Context
import ApiServer.JsonUtil

/-!
# Log records (`logger_log` in `lib/logger.c`)

A message passes a buffer of 2048 bytes, where one that is too long gets a mark at its end, and one of
12288 bytes, where it is escaped and always fits. The record goes to a buffer of 4096 bytes. One that
does not fit loses its end, and with it its newline, so the next record continues its line.
-/

namespace ApiServer.Logger
open Bytes Json

inductive LogLevel where
  | info | warn | audit | error | fatal
  deriving DecidableEq

/-- `level_strings`. -/
def levelString : LogLevel → Bytes
  | .info => bytes "INFO"
  | .warn => bytes "WARN"
  | .audit => bytes "AUDIT"
  | .error => bytes "ERROR"
  | .fatal => bytes "FATAL"

/-- `tl_logger_tid`: empty before the first call, then the number of the thread. -/
structure LoggerTid where
  text : Bytes := []
  printed : text = [] ∨ ∃ tid : Int, text = snprintf 32 (intText tid) := by exact .inl rfl

def LoggerTid.fill (gettid : Int) (tid : LoggerTid) : LoggerTid :=
  if tid.text = [] then ⟨snprintf 32 (intText gettid), .inr ⟨gettid, rfl⟩⟩ else tid

/-- What `vsnprintf` returns and leaves in a buffer of `size` bytes, for a format and arguments that
print `message`. It fails when the length is no `int`. -/
def vsnprintf (size : Nat) (message : Bytes) : Int × Bytes :=
  (if FitsInt message.length then message.length else -1, message.take (size - 1))

/-- `msg_buf`. -/
def msgBuf (message : Bytes) : Bytes :=
  let (written, buf) := vsnprintf 2048 message
  if written < 0 ∨ 2048 ≤ written then buf.take (2048 - 15 - 1) ++ bytes "... [TRUNCATED]" else buf

section
variable (level : LogLevel) (message : Bytes) (tls : ThreadLocals) (tid : LoggerTid)

/-- What the two formats of the record print. -/
def recordFormat : Bytes :=
  let escapedMsg := jsonEncodeString (msgBuf message) 12288
  if tls.requestId.text ≠ [] then
    let escapedReqId := jsonEncodeString tls.requestId.text 256
    bytes "\x7b\"level\":\"" ++ levelString level ++ bytes "\",\"reqID\":\"" ++ escapedReqId ++
      bytes "\",\"msg\":\"" ++ escapedMsg ++ bytes "\",\"threadID\":\"" ++ tid.text ++ bytes "\"\x7d\n"
  else
    bytes "\x7b\"level\":\"" ++ levelString level ++
      bytes "\",\"msg\":\"" ++ escapedMsg ++ bytes "\",\"threadID\":\"" ++ tid.text ++ bytes "\"\x7d\n"

end

/-- `to_write`, for the return value of the `snprintf` into `sync_buf`. -/
def toWrite (len : Int) : Nat :=
  if 0 < len then if len < 4096 then len.toNat else 4095 else 0

/-- The bytes of `sync_buf` that are handed on. -/
structure Record where
  text : Bytes
  nonempty : text ≠ []
  fits : text.length ≤ 4095

theorem recordFormat_ne_nil (level : LogLevel) (message : Bytes) (tls : ThreadLocals)
    (tid : LoggerTid) : recordFormat level message tls tid ≠ [] := by
  have hend : bytes "\"\x7d\n" ≠ [] := by decide
  unfold recordFormat
  dsimp only
  split <;> exact List.append_ne_nil_of_right_ne_nil _ hend

theorem take_toWrite (text : Bytes) :
    (snprintf 4096 text).take (toWrite text.length) = snprintf 4096 text := by
  have hlen : (snprintf 4096 text).length ≤ toWrite text.length := by
    rw [snprintf, List.length_take]
    unfold toWrite
    split
    · split <;> omega
    · omega
  exact List.take_of_length_le hlen

/-- `logger_log`, up to the record it hands to the queue or to the fallback writer. -/
def logRecord (gettid : Int) (level : LogLevel) (message : Bytes) (tls : ThreadLocals)
    (tid : LoggerTid) : Record :=
  let format := recordFormat level message tls (tid.fill gettid)
  { text := (snprintf 4096 format).take (toWrite format.length)
    nonempty := by
      rw [take_toWrite, snprintf, Ne, List.take_eq_nil_iff, not_or]
      exact ⟨by decide, recordFormat_ne_nil level message tls (tid.fill gettid)⟩
    fits := by
      rw [take_toWrite]
      exact List.length_take_le .. }

/-! ## What a line is -/

/-- The message, with a mark for what is cut off. -/
def markedMessage (message : Bytes) : Bytes :=
  if message.length < 2048 then message else message.take 2032 ++ bytes "... [TRUNCATED]"

/-- The members of a record; `ids` has the request id, if there is one. -/
def lineMembers (level : LogLevel) (ids : List Bytes) (msg tid : Bytes) : List (Bytes × Json) :=
  (bytes "level", .string (levelString level)) :: ids.map (fun id => (bytes "reqID", .string id)) ++
    [(bytes "msg", .string msg), (bytes "threadID", .string tid)]

/-- One JSON object with a newline behind it, which is the only one. -/
def IsLine (line : Bytes) (level : LogLevel) (reqId message tid : Bytes) : Prop :=
  ∃ object ids msg, line = object ++ [10] ∧ 10 ∉ object ∧
    Json.parse object = some (.object (lineMembers level ids msg tid)) ∧
    (ids = [] ↔ reqId = []) ∧ ids.length ≤ 1 ∧ (∀ id ∈ ids, id <+: reqId) ∧
    msg <+: markedMessage message

/-- The record fits `sync_buf` with its newline. -/
def LineFits (level : LogLevel) (reqId message tid : Bytes) : Prop :=
  36 + (levelString level).length + (escape (cstr (markedMessage message))).length + tid.length +
    (if reqId = [] then 0 else 11 + (jsonEncodeString reqId 256).length) ≤ 4095

/-! ## The buffers -/

theorem msgBuf_eq (message : Bytes) : msgBuf message = markedMessage message := by
  unfold msgBuf vsnprintf markedMessage
  dsimp only
  by_cases hlen : message.length < 2048
  · have hfits : FitsInt message.length := ⟨by omega, by omega⟩
    rw [if_pos hfits, if_neg (by omega), if_pos hlen]
    exact List.take_of_length_le (by omega)
  · have htrunc : (if FitsInt message.length then (message.length : Int) else -1) < 0 ∨
        2048 ≤ (if FitsInt message.length then (message.length : Int) else -1) := by
      split <;> omega
    rw [if_pos htrunc, if_neg hlen, List.take_take]
    rfl

theorem length_markedMessage (message : Bytes) : (markedMessage message).length ≤ 2047 := by
  unfold markedMessage
  split
  · omega
  · rw [List.length_append, List.length_take]
    have : (bytes "... [TRUNCATED]").length = 15 := by decide
    omega

/-- The escaped message always fits. -/
theorem escapedMsg_eq (message : Bytes) :
    jsonEncodeString (msgBuf message) 12288 = escape (cstr (markedMessage message)) := by
  rw [msgBuf_eq, jsonEncodeString, encodeLoop_cstr]
  obtain ⟨p, -, henc, hall, -⟩ :=
    jsonEncodeString_spec (zero_notMem_cstr (markedMessage message)) 12288
  have hfits : EncodeFits (cstr (markedMessage message)) 12288 := by
    have hlen := (List.takeWhile_prefix (· ≠ 0) (l := markedMessage message)).length_le
    have hmarked := length_markedMessage message
    have hescape := length_escape_le (cstr (markedMessage message)).dropLast
    rw [List.length_dropLast] at hescape
    rw [← cstr] at hlen
    exact .inr (by omega)
  exact henc.trans (congrArg escape (hall.mpr hfits))

theorem plain_levelString (level : LogLevel) : Plain (levelString level) := by
  cases level <;> decide

theorem LoggerTid.plain (tid : LoggerTid) : Plain tid.text := by
  obtain hnil | ⟨n, htext⟩ := tid.printed
  · rw [hnil]
    exact List.forall_mem_nil _
  · rw [htext]
    exact fun c hc => plain_intText n c (List.mem_of_mem_take hc)

/-! ## The text of a record -/

def stringMember (key : String) (s : Bytes) : Member :=
  ⟨bytes key, bytes key, .string s, 34 :: escape s ++ [34]⟩

def lineTexts (level : LogLevel) (ids : List Bytes) (msg tid : Bytes) : List Member :=
  stringMember "level" (levelString level) :: ids.map (stringMember "reqID") ++
    [stringMember "msg" msg, stringMember "threadID" tid]

theorem lineTexts_sound (level : LogLevel) (ids : List Bytes) (msg tid : Bytes) :
    ∀ m ∈ lineTexts level ids msg tid, m.Sound 0 ∧ 10 ∉ m.text := by
  have hmember : ∀ key s, Plain (bytes key) →
      (stringMember key s).Sound 0 ∧ 10 ∉ (stringMember key s).text := by
    intro key s hkey
    refine ⟨⟨.plain hkey, valueText_string (strContent_escape s)⟩, ?_⟩
    have hkey10 : 10 ∉ bytes key := fun h => (hkey 10 h).1 (by decide)
    simp [stringMember, Member.text, hkey10, newline_notMem_escape]
  intro m hm
  simp only [lineTexts, List.mem_append, List.mem_cons, List.mem_map, List.not_mem_nil,
    or_false] at hm
  obtain (rfl | ⟨id, -, rfl⟩) | rfl | rfl := hm
  · exact hmember _ _ (by decide)
  · exact hmember _ _ (by decide)
  · exact hmember _ _ (by decide)
  · exact hmember _ _ (by decide)

theorem parse_lineTexts (level : LogLevel) (ids : List Bytes) (msg tid : Bytes) :
    Json.parse (objectText (lineTexts level ids msg tid)) =
      some (.object (lineMembers level ids msg tid)) := by
  have hsound := valueText_object (List.cons_ne_nil _ _) fun m hm =>
    (lineTexts_sound level ids msg tid m hm).1
  have hmembers : (lineTexts level ids msg tid).map (fun m => (m.key, m.val)) =
      lineMembers level ids msg tid := by
    simp [lineTexts, lineMembers, stringMember]
  rw [← hmembers]
  exact parse_valueText hsound (by simp [objectText])

section
variable (level : LogLevel) (message : Bytes) (tls : ThreadLocals) (tid : LoggerTid)

theorem recordFormat_eq : ∃ ids : List Bytes,
    recordFormat level message tls tid =
      objectText (lineTexts level ids (cstr (markedMessage message)) tid.text) ++ [10] ∧
    (ids = [] ↔ tls.requestId.text = []) ∧ ids.length ≤ 1 ∧ ∀ id ∈ ids, id <+: tls.requestId.text := by
  have hlevel := escape_plain (plain_levelString level)
  have htid := escape_plain tid.plain
  by_cases hid : tls.requestId.text = []
  · refine ⟨[], ?_, iff_of_true rfl hid, Nat.zero_le _, nofun⟩
    rw [recordFormat, escapedMsg_eq, if_neg (not_not.mpr hid)]
    simp [lineTexts, objectText, membersText, Member.text, stringMember, hlevel, htid, bytes]
  · obtain ⟨id, hcut, henc, -⟩ := jsonEncodeString_spec tls.requestId.noNul 256
    refine ⟨[id], ?_, iff_of_false (List.cons_ne_nil _ _) hid, Nat.le_refl _, ?_⟩
    · rw [recordFormat, escapedMsg_eq, if_pos hid, henc]
      simp [lineTexts, objectText, membersText, Member.text, stringMember, hlevel, htid, bytes]
    · rw [List.forall_mem_singleton]
      exact hcut

theorem length_recordFormat : (recordFormat level message tls tid).length ≤ 4095 ↔
    LineFits level tls.requestId.text message tid.text := by
  unfold LineFits recordFormat
  rw [escapedMsg_eq]
  by_cases hid : tls.requestId.text = []
  · rw [if_neg (not_not.mpr hid), if_pos hid]
    simp only [List.length_append, show (bytes "\x7b\"level\":\"").length = 10 from rfl,
      show (bytes "\",\"msg\":\"").length = 9 from rfl,
      show (bytes "\",\"threadID\":\"").length = 14 from rfl,
      show (bytes "\"\x7d\n").length = 3 from rfl]
    omega
  · rw [if_pos hid, if_neg hid]
    simp only [List.length_append, show (bytes "\x7b\"level\":\"").length = 10 from rfl,
      show (bytes "\",\"reqID\":\"").length = 11 from rfl,
      show (bytes "\",\"msg\":\"").length = 9 from rfl,
      show (bytes "\",\"threadID\":\"").length = 14 from rfl,
      show (bytes "\"\x7d\n").length = 3 from rfl]
    omega

end

section
variable (gettid : Int) (level : LogLevel) (message : Bytes) (tls : ThreadLocals) (tid : LoggerTid)

theorem logRecord_text : (logRecord gettid level message tls tid).text =
    snprintf 4096 (recordFormat level message tls (tid.fill gettid)) :=
  take_toWrite _

variable {gettid level message tls tid}

/-- A record that is cut has lost its newline. -/
theorem newline_notMem_cut
    (h : ¬LineFits level tls.requestId.text message (tid.fill gettid).text) :
    10 ∉ (logRecord gettid level message tls tid).text := by
  obtain ⟨ids, hformat, -⟩ := recordFormat_eq level message tls (tid.fill gettid)
  have hsound := lineTexts_sound level ids (cstr (markedMessage message)) (tid.fill gettid).text
  have hnewline := notMem_objectText (by decide) fun m hm => (hsound m hm).2
  rw [← length_recordFormat, hformat, List.length_append, List.length_singleton] at h
  rw [logRecord_text, snprintf, hformat, List.take_append_of_le_length (by omega)]
  exact fun hmem => hnewline (List.mem_of_mem_take hmem)

theorem IsLine.newline_mem {line reqId tid : Bytes} (H : IsLine line level reqId message tid) :
    10 ∈ line := by
  obtain ⟨object, -, -, rfl, -⟩ := H
  exact List.mem_append_right _ (List.mem_singleton_self _)

end

/-- What is handed on is one line of JSON exactly when the record is not cut. -/
theorem logRecord_line_iff (gettid : Int) (level : LogLevel) (message : Bytes) (tls : ThreadLocals)
    (tid : LoggerTid) :
    IsLine (logRecord gettid level message tls tid).text level tls.requestId.text message
        (tid.fill gettid).text ↔
      LineFits level tls.requestId.text message (tid.fill gettid).text := by
  constructor
  · intro hline
    by_contra hcut
    exact newline_notMem_cut hcut hline.newline_mem
  · intro hfits
    obtain ⟨ids, hformat, hnil, hone, hpart⟩ := recordFormat_eq level message tls (tid.fill gettid)
    have hsound := lineTexts_sound level ids (cstr (markedMessage message)) (tid.fill gettid).text
    refine ⟨_, ids, cstr (markedMessage message), ?_,
      notMem_objectText (by decide) fun m hm => (hsound m hm).2, parse_lineTexts .., hnil, hone, hpart,
      List.takeWhile_prefix _⟩
    have hlen := (length_recordFormat level message tls (tid.fill gettid)).mpr hfits
    rw [logRecord_text, snprintf_eq_self (by omega), hformat]

/-- The warning of `server_extract_client_ip`. -/
def untrustedForwardedFor (xForwardedFor peerIp uri : Bytes) : Bytes :=
  bytes "Untrusted X-Forwarded-For header '" ++ xForwardedFor ++ bytes "' from peer " ++ peerIp ++
    bytes " for URI " ++ uri

/-- A header of 700 control characters is enough. -/
theorem control_characters_cut_record :
    let message := untrustedForwardedFor (.replicate 700 1) (bytes "10.0.0.9") (bytes "/ping")
    ¬IsLine (logRecord 7 .warn message {} {}).text .warn [] message (LoggerTid.fill 7 {}).text := by
  intro message hline
  have hcut : ¬LineFits .warn [] message (LoggerTid.fill 7 {}).text := by
    unfold LineFits
    decide +kernel
  exact @newline_notMem_cut 7 .warn message {} {} hcut hline.newline_mem

end ApiServer.Logger
