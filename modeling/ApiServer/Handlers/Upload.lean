import ApiServer.Handlers
import ApiServer.Jwt.RoundTrip
import ApiServer.Lib.Base64
import ApiServer.Schemas
import ApiServer.Validation.TextField
import Mathlib.Data.List.TakeDrop

/-!
# Uploads

`upload_handler` decodes a blob and writes it to a new file of the uploads directory. The stream is
closed by the cleanup of its variable, on every way out of the function and after the reply is
written: what `fclose` cannot bring to the disk changes neither the status nor the reply, and
nothing removes a file that was not written in full.
-/

namespace ApiServer
open Bytes

def httpBadrequest : Int := 400

/-- The files that exist, by their paths. -/
abbrev Files := Bytes → Option Bytes

/-- What an upload gets from outside. -/
structure UploadAnswers where
  random : Bytes
  /-- `stat` finds a directory. -/
  isDir : Bytes → Bool
  malloc : Nat → Bool
  fopen : Bool
  /-- The count that `fwrite` returns. -/
  fwrite : Nat
  /-- How many bytes of the data are in the file when `fclose` has returned. -/
  onDisk : Nat

structure UploadResult where
  status : Int
  out : Bytes := []
  files : Files

def uploadIsValidDir (isDir : Bytes → Bool) (uploadsDir : Bytes) : Bool :=
  uploadsDir ≠ [] && isDir uploadsDir

/-- `json_object_get_string_len`. -/
def stringLen : Option Json → Nat
  | some (.string s) => s.length
  | _ => 0

/-- The size of the buffer for the decoded blob. -/
def binMaxlen (b64Len : Nat) : Nat := b64Len / 4 * 3 + 4

/-- `fopen(path, "wb")` up to the `fclose` that leaves `content`. -/
def Files.write (files : Files) (path content : Bytes) : Files :=
  fun p => if p = path then some content else files p

/-- The reply to a successful upload. -/
def uploadReply (uuid : Bytes) (size : Nat) : Bytes :=
  bytes "\x7b\"status\":\"ok\",\"uuid\":\"" ++ uuid ++ bytes "\",\"size\":" ++ Json.natText size ++
    bytes "\x7d"

/-- The rest of the handler from `fopen` on. -/
def storeUpload (a : UploadAnswers) (outPath uuidStr bin : Bytes) (files : Files) : UploadResult :=
  if !a.fopen then { status := httpInternal, files }
  else
    -- The file is there from now on, with what its stream leaves behind.
    let files := files.write outPath (bin.take a.onDisk)
    if a.fwrite ≠ bin.length then { status := httpInternal, files }
    else { status := httpOk, out := snprintf 256 (uploadReply uuidStr bin.length), files }

/-- `upload_handler`. The name, the title, the content type and the user only go to the log. -/
def uploadHandler (base642bin : Nat → Bytes → Option Bytes) (J : JsonC) (cfg : Config)
    (a : UploadAnswers) (body : Option Json) (files : Files) : UploadResult :=
  let b64Len := stringLen (body.bind fun body => objectGetEx body (bytes "blob"))
  let blob := (body.bind fun body => jsonGetStringEx J body (bytes "blob")).getD []
  let uuidStr := generateUuidv4 a.random
  let uploadsDir := cfg.uploadsDir.text
  if !uploadIsValidDir a.isDir uploadsDir then { status := httpInternal, files }
  else
    let outPath := snprintf (maxConfigStr + 64) (uploadsDir ++ bytes "/" ++ uuidStr)
    if 2 ^ 64 ≤ b64Len / 4 * 3 ∨ 2 ^ 64 ≤ binMaxlen b64Len then { status := httpInternal, files }
    else if !a.malloc (binMaxlen b64Len) then { status := httpInternal, files }
    else
      match base642bin (binMaxlen b64Len) (blob.take b64Len) with
      | none =>
        { status := httpBadrequest
          out := bytes "\x7b\"error\":\"Invalid base64 encoding\"\x7d"
          files }
      | some bin => storeUpload a outPath uuidStr bin files

/-- `sodium_base642bin` with the standard variant: it fails on what is no encoding, and where the
buffer is too small. -/
def DecodesBase64 (base642bin : Nat → Bytes → Option Bytes) : Prop :=
  ∀ max s, base642bin max s = (Base64.decode s).filter (·.length ≤ max)

/-- Where the file of an upload is. -/
def uploadPath (cfg : Config) (uuid : Bytes) : Bytes := cfg.uploadsDir.text ++ bytes "/" ++ uuid

/-- An upload that is reported is on the disk, and one that is not has left no file. -/
structure AllOrNothing (cfg : Config) (blob : Bytes) (files : Files) (r : UploadResult) : Prop where
  stored : r.status = httpOk → ∃ uuid b, r.out = uploadReply uuid b.length ∧
    Base64.decode blob = some b ∧ r.files (uploadPath cfg uuid) = some b
  clean : r.status ≠ httpOk → ∀ path, files path = none → r.files path = none

/-- The handler gets as far as to decode the blob. -/
structure Ready (cfg : Config) (a : UploadAnswers) (blob : Bytes) : Prop where
  isDir : uploadIsValidDir a.isDir cfg.uploadsDir.text = true
  size : binMaxlen blob.length < 2 ^ 64
  malloc : a.malloc (binMaxlen blob.length) = true

/-- A file that is opened is written in full and reaches the disk, or else the writing fails at
once and the file is one that was there before. -/
def WrittenThrough (cfg : Config) (a : UploadAnswers) (blob : Bytes) (files : Files) : Prop :=
  Ready cfg a blob → ∀ b, Base64.decode blob = some b → a.fopen = true →
    if a.fwrite = b.length then b.length ≤ a.onDisk
    else files (uploadPath cfg (generateUuidv4 a.random)) ≠ none

section
variable {base642bin : Nat → Bytes → Option Bytes} {J : JsonC} {cfg : Config} {a : UploadAnswers}
variable {body : Json} {blob b : Bytes} {files : Files}

/-- The buffer has room for whatever a blob decodes to. -/
theorem DecodesBase64.blob_eq (h : DecodesBase64 base642bin) (blob : Bytes) :
    base642bin (binMaxlen blob.length) blob = Base64.decode blob := by
  rw [h]
  cases hb : Base64.decode blob with
  | none => rfl
  | some b =>
    have hlen := Base64.length_decode hb
    have hroom : b.length ≤ binMaxlen blob.length := by rw [binMaxlen]; omega
    simp [hroom]

theorem snprintf_uploadPath (cfg : Config) (random : Bytes) :
    snprintf (maxConfigStr + 64) (cfg.uploadsDir.text ++ bytes "/" ++ generateUuidv4 random) =
      uploadPath cfg (generateUuidv4 random) := by
  apply snprintf_eq_self
  have hdir := cfg.uploadsDir.fits
  rw [List.length_append, List.length_append, length_generateUuidv4,
    show (bytes "/").length = 1 from rfl]
  omega

theorem snprintf_uploadReply (random : Bytes) {n : Nat} (h : n < 2 ^ 64) :
    snprintf 256 (uploadReply (generateUuidv4 random) n) =
      uploadReply (generateUuidv4 random) n := by
  apply snprintf_eq_self
  have hdigits := Json.natText_length n 19 (by omega)
  simp only [uploadReply, List.length_append, length_generateUuidv4]
  have hopen : (bytes "\x7b\"status\":\"ok\",\"uuid\":\"").length = 23 := rfl
  have hsize : (bytes "\",\"size\":").length = 9 := rfl
  have hclose : (bytes "\x7d").length = 1 := rfl
  omega

/-- An accepted payload has its blob as a string. -/
theorem exists_blob {err : ErrBuf} (h : (validateJson J uploadContext body err).1 = true) :
    ∃ blob, objectGetEx body (bytes "blob") = some (.string blob) := by
  have hfield : requiredText "blob" 0 ∈ uploadContext.schema := by simp [uploadContext]
  obtain ⟨v, hv, hnull, -⟩ := validateJson_required h hfield rfl
  obtain ⟨err', htype⟩ := validateJson_field h hfield hv hnull
  obtain ⟨s, rfl, -⟩ := validateTypeString_iff.mp htype
  exact ⟨s, hv⟩

/-- What the handler does when it can decode the blob, and when it cannot. -/
theorem uploadHandler_eq (hdecode : DecodesBase64 base642bin)
    (hblob : objectGetEx body (bytes "blob") = some (.string blob)) :
    (¬Ready cfg a blob →
      uploadHandler base642bin J cfg a (some body) files = { status := httpInternal, files }) ∧
    (Ready cfg a blob → uploadHandler base642bin J cfg a (some body) files =
      match Base64.decode blob with
      | none =>
        { status := httpBadrequest
          out := bytes "\x7b\"error\":\"Invalid base64 encoding\"\x7d"
          files }
      | some b => storeUpload a (uploadPath cfg (generateUuidv4 a.random))
          (generateUuidv4 a.random) b files) := by
  have hlen : stringLen ((some body).bind fun body => objectGetEx body (bytes "blob")) =
      blob.length := by
    rw [Option.bind_some, hblob]
    rfl
  have htext : ((some body).bind fun body => jsonGetStringEx J body (bytes "blob")).getD [] =
      blob := by
    rw [Option.bind_some, jsonGetStringEx, hblob]
    rfl
  have hsize : 2 ^ 64 ≤ blob.length / 4 * 3 ∨ 2 ^ 64 ≤ binMaxlen blob.length ↔
      ¬binMaxlen blob.length < 2 ^ 64 := by
    rw [binMaxlen]
    omega
  simp only [uploadHandler, hlen, htext, hsize, List.take_length, hdecode.blob_eq,
    snprintf_uploadPath, Bool.not_eq_true']
  constructor
  · intro h
    by_cases hdir : uploadIsValidDir a.isDir cfg.uploadsDir.text = true
    · by_cases hfits : binMaxlen blob.length < 2 ^ 64
      · have hmalloc : a.malloc (binMaxlen blob.length) = false :=
          Bool.eq_false_iff.mpr fun hmalloc => h ⟨hdir, hfits, hmalloc⟩
        rw [if_pos hmalloc, ite_self, ite_self]
      · rw [if_pos hfits, ite_self]
    · rw [if_pos (Bool.eq_false_iff.mpr hdir)]
  · rintro ⟨hdir, hfits, hmalloc⟩
    rw [if_neg (ne_false_of_eq_true hdir), if_neg (not_not.mpr hfits),
      if_neg (ne_false_of_eq_true hmalloc)]

theorem uploadReply_inj {uuid uuid' : Bytes} {n : Nat}
    (h : uploadReply uuid n = uploadReply uuid' n) : uuid = uuid' := by
  simpa [uploadReply, List.append_assoc] using h

theorem allOrNothing_ok_iff {r : UploadResult} {uuid : Bytes} (hstatus : r.status = httpOk)
    (hout : r.out = uploadReply uuid b.length) (hb : Base64.decode blob = some b) :
    AllOrNothing cfg blob files r ↔ r.files (uploadPath cfg uuid) = some b := by
  constructor
  · intro h
    obtain ⟨uuid', b', hout', hb', hfile⟩ := h.stored hstatus
    rw [hb, Option.some.injEq] at hb'
    subst hb'
    rw [hout] at hout'
    rwa [uploadReply_inj hout']
  · intro h
    exact ⟨fun _ => ⟨uuid, b, hout, hb, h⟩, fun hfailed => absurd hstatus hfailed⟩

theorem allOrNothing_failed_iff {r : UploadResult} (hstatus : r.status ≠ httpOk) :
    AllOrNothing cfg blob files r ↔ ∀ path, files path = none → r.files path = none :=
  ⟨fun h => h.clean hstatus, fun h => ⟨fun hok => absurd hok hstatus, fun _ => h⟩⟩

theorem allOrNothing_unchanged {status : Int} {out : Bytes} (h : status ≠ httpOk) :
    AllOrNothing cfg blob files { status, out, files } :=
  (allOrNothing_failed_iff h).mpr fun _ => id

/-- A write keeps a directory free of new files where the file was there. -/
theorem write_clean_iff {path content : Bytes} :
    (∀ p, files p = none → files.write path content p = none) ↔ files path ≠ none := by
  constructor
  · intro h hnone
    have hleft := h path hnone
    rw [Files.write, if_pos rfl] at hleft
    exact nomatch hleft
  · intro h p hp
    have hne : p ≠ path := by
      rintro rfl
      exact h hp
    rw [Files.write, if_neg hne, hp]

/-- An upload that comes to write a file. -/
theorem allOrNothing_storeUpload_iff (hb : Base64.decode blob = some b)
    (hsize : b.length < 2 ^ 64) :
    AllOrNothing cfg blob files (storeUpload a (uploadPath cfg (generateUuidv4 a.random))
      (generateUuidv4 a.random) b files) ↔
      (a.fopen = true → if a.fwrite = b.length then b.length ≤ a.onDisk
        else files (uploadPath cfg (generateUuidv4 a.random)) ≠ none) := by
  rw [storeUpload]
  cases hopen : a.fopen with
  | false => exact iff_of_true (allOrNothing_unchanged (by decide)) nofun
  | true =>
    simp only [Bool.not_true, Bool.false_eq_true, if_false, forall_const, ne_eq, ite_not]
    split
    · next hwrite =>
      rw [allOrNothing_ok_iff rfl (snprintf_uploadReply a.random hsize) hb]
      change (if _ then _ else _) = _ ↔ _
      rw [if_pos rfl, Option.some.injEq, List.take_eq_self_iff]
    · next hwrite =>
      have hstatus : httpInternal ≠ httpOk := by decide
      exact (allOrNothing_failed_iff hstatus).trans write_clean_iff

theorem storeUpload_status {outPath uuidStr : Bytes} :
    (storeUpload a outPath uuidStr b files).status ≠ httpBadrequest := by
  rw [storeUpload]
  split
  · exact (by decide : httpInternal ≠ httpBadrequest)
  · dsimp only
    split
    · exact (by decide : httpInternal ≠ httpBadrequest)
    · exact (by decide : httpOk ≠ httpBadrequest)

theorem storeUpload_files {outPath uuidStr : Bytes} (h : a.fopen = true) :
    (storeUpload a outPath uuidStr b files).files outPath = some (b.take a.onDisk) := by
  rw [storeUpload, h, if_neg (by decide)]
  dsimp only
  split <;> exact if_pos rfl

/-- An accepted upload is all or nothing exactly when the file it opens is written through. A blob
that is an encoding is never refused as being none. -/
theorem upload_allOrNothing_iff (hdecode : DecodesBase64 base642bin) {err : ErrBuf}
    (haccept : (validateJson J uploadContext body err).1 = true) (files : Files) :
    ∃ blob, objectGetEx body (bytes "blob") = some (.string blob) ∧
      (AllOrNothing cfg blob files (uploadHandler base642bin J cfg a (some body) files) ↔
        WrittenThrough cfg a blob files) ∧
      ((uploadHandler base642bin J cfg a (some body) files).status = httpBadrequest →
        Base64.decode blob = none) := by
  obtain ⟨blob, hblob⟩ := exists_blob haccept
  obtain ⟨hunready, hready⟩ := @uploadHandler_eq _ J cfg a _ _ files hdecode hblob
  refine ⟨blob, hblob, ?_⟩
  by_cases h : Ready cfg a blob
  · rw [hready h]
    cases hb : Base64.decode blob with
    | none =>
      refine ⟨iff_of_true (allOrNothing_unchanged (by decide)) ?_, fun _ => rfl⟩
      intro _ b hb'
      rw [hb] at hb'
      exact nomatch hb'
    | some b =>
      have hsize : b.length < 2 ^ 64 := by
        have hlen := Base64.length_decode hb
        have hmax := h.size
        rw [binMaxlen] at hmax
        omega
      refine ⟨(allOrNothing_storeUpload_iff hb hsize).trans ?_, ?_⟩
      · constructor
        · intro hwritten _ b' hb'
          rw [hb, Option.some.injEq] at hb'
          rwa [← hb']
        · exact fun hwritten => hwritten h b hb
      · exact fun hstatus => absurd hstatus storeUpload_status
  · rw [hunready h]
    refine ⟨iff_of_true (allOrNothing_unchanged (by decide)) fun hr => absurd hr h, ?_⟩
    intro hstatus
    exact absurd (show httpInternal = httpBadrequest from hstatus) (by decide)

end

def uploadBody : Json :=
  .object [(bytes "filename", .string (bytes "a.txt")),
    (bytes "content_type", .string (bytes "text/plain")), (bytes "title", .string (bytes "a")),
    (bytes "blob", .string (bytes "TQ=="))]

theorem uploadBody_accepted :
    (validateJson .reference uploadContext uploadBody ⟨1024, []⟩).1 = true := by decide +kernel

theorem decode_blob : Base64.decode (bytes "TQ==") = some (bytes "M") := by decide +kernel

def uploadConfig : Config := { uploadsDir := .strlcpy maxConfigStr (bytes "/var/up") }

/-- Everything succeeds but the writing, of which `fwrite` and `fclose` do so much. -/
def uploadAnswers (fwrite onDisk : Nat) : UploadAnswers where
  random := []
  isDir _ := true
  malloc _ := true
  fopen := true
  fwrite
  onDisk

def referenceBase642bin (max : Nat) (s : Bytes) : Option Bytes :=
  (Base64.decode s).filter (·.length ≤ max)

/-- The upload into an empty directory. -/
def uploadRun (fwrite onDisk : Nat) : UploadResult :=
  uploadHandler referenceBase642bin .reference uploadConfig (uploadAnswers fwrite onDisk)
    (some uploadBody) fun _ => none

theorem upload_allOrNothing_one_byte :
    AllOrNothing uploadConfig (bytes "TQ==") (fun _ => none) (uploadRun 1 1) := by
  obtain ⟨blob, hblob, hiff, -⟩ := @upload_allOrNothing_iff referenceBase642bin .reference
    uploadConfig (uploadAnswers 1 1) uploadBody (fun _ _ => rfl) _ uploadBody_accepted
    fun _ => none
  have hblob' : some (Json.string (bytes "TQ==")) = some (.string blob) := hblob
  simp only [Option.some.injEq, Json.string.injEq] at hblob'
  subst hblob'
  refine hiff.mpr fun _ b hb _ => ?_
  rw [← Option.some.inj (decode_blob.symm.trans hb)]
  decide

theorem uploadRun_eq (fwrite onDisk : Nat) :
    uploadRun fwrite onDisk =
      storeUpload (uploadAnswers fwrite onDisk) (uploadPath uploadConfig (generateUuidv4 []))
        (generateUuidv4 []) (bytes "M") fun _ => none := by
  have hready : Ready uploadConfig (uploadAnswers fwrite onDisk) (bytes "TQ==") :=
    ⟨rfl, by decide, rfl⟩
  have hrun := (@uploadHandler_eq referenceBase642bin .reference uploadConfig _ uploadBody _
    (fun _ => none) (fun _ _ => rfl) rfl).2 hready
  rw [decode_blob] at hrun
  exact hrun

/-- Bytes that are lost when the stream is closed are reported as stored, and a write that fails
leaves its file behind. -/
theorem upload_torn :
    (validateJson .reference uploadContext uploadBody ⟨1024, []⟩).1 = true ∧
      DecodesBase64 referenceBase642bin ∧ Base64.decode (bytes "TQ==") = some (bytes "M") ∧
      (uploadRun 1 0).status = httpOk ∧
      (uploadRun 1 0).out = uploadReply (generateUuidv4 []) 1 ∧
      (uploadRun 1 0).files (uploadPath uploadConfig (generateUuidv4 [])) = some [] ∧
      ¬AllOrNothing uploadConfig (bytes "TQ==") (fun _ => none) (uploadRun 1 0) ∧
      (uploadRun 0 0).status = httpInternal ∧
      (uploadRun 0 0).files (uploadPath uploadConfig (generateUuidv4 [])) = some [] ∧
      ¬AllOrNothing uploadConfig (bytes "TQ==") (fun _ => none) (uploadRun 0 0) := by
  have hsize : (bytes "M").length < 2 ^ 64 := by decide
  refine ⟨uploadBody_accepted, fun _ _ => rfl, decode_blob, ?_⟩
  rw [uploadRun_eq, uploadRun_eq]
  refine ⟨rfl, snprintf_uploadReply [] hsize, storeUpload_files rfl, fun h => ?_, rfl,
    storeUpload_files rfl, fun h => ?_⟩
  · exact absurd ((allOrNothing_storeUpload_iff decode_blob hsize).mp h rfl) (by decide)
  · exact (allOrNothing_storeUpload_iff decode_blob hsize).mp h rfl rfl

end ApiServer
