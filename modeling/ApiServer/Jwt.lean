import ApiServer.Config
import ApiServer.JsonC
import ApiServer.JsonUtil
import ApiServer.Lib.Base64Url
import ApiServer.Lib.Sha256

/-!
# JSON Web Tokens (`lib/jwt.c`)

libsodium is a parameter: the URL-safe base64 variant without padding and HMAC-SHA256. Output
buffers are the C strings the call leaves in them; `none` is a failed call.
-/

namespace ApiServer
open Bytes Json

/-- What the program uses of libsodium. -/
structure Sodium where
  /-- `sodium_bin2base64(.., sodium_base64_VARIANT_URLSAFE_NO_PADDING)`. -/
  bin2base64 : Bytes → Bytes
  /-- `sodium_base642bin` into a buffer of that many bytes, over the whole input. -/
  base642bin : Nat → Bytes → Option Bytes
  /-- `crypto_auth_hmacsha256` of a message under a key. -/
  hmacsha256 : Bytes → Bytes → Bytes
  hmacsha256_length : ∀ msg key, (hmacsha256 msg key).length = 32

/-- `sodium_base64_ENCODED_LEN`, the NUL included. -/
def encodedLen (n : Nat) : Nat := Base64Url.encodedLength n + 1

/-- What the documentation of libsodium says of its base64 functions. -/
structure Sodium.Lawful (S : Sodium) : Prop where
  decode_encode : ∀ {max : Nat} {b : Bytes}, b.length ≤ max →
    S.base642bin max (S.bin2base64 b) = some b
  alphabet : ∀ b : Bytes, ∀ c ∈ S.bin2base64 b, c ∈ Base64Url.alphabet
  length : ∀ b : Bytes, (S.bin2base64 b).length + 1 = encodedLen b.length

namespace Sodium

def reference : Sodium where
  bin2base64 := Base64Url.encode
  base642bin max s := (Base64Url.decode s).filter (·.length ≤ max)
  hmacsha256 := Sha256.hmac
  hmacsha256_length := Sha256.length_hmac

theorem reference_lawful : reference.Lawful where
  decode_encode := by
    intro max b h
    simp [reference, Base64Url.decode_encode, h]
  alphabet := Base64Url.mem_encode
  length b := congrArg (· + 1) (Base64Url.length_encode b)

end Sodium

/-- `generate_uuidv4` from its sixteen random bytes. -/
def generateUuidv4 (random : Bytes) : Bytes :=
  (List.range 16).flatMap fun i =>
    let byte := random.getD i 0
    let byte :=
      if i = 6 then (byte &&& 0x0f) ||| 0x40 else if i = 8 then (byte &&& 0x3f) ||| 0x80 else byte
    (if i = 4 ∨ i = 6 ∨ i = 8 ∨ i = 10 then [(45 : UInt8)] else []) ++
      [hexDigit (byte >>> 4), hexDigit (byte &&& 0x0f)]

/-! ## The key -/

/-- `sodium_hex2bin` over the whole input, with no character to ignore. -/
def hex2bin : Bytes → Option Bytes
  | [] => some []
  | [_] => none
  | c :: d :: hex => do
    let high ← hexVal c
    let low ← hexVal d
    return UInt8.ofNat (16 * high + low) :: (← hex2bin hex)

/-- What `jwt_init` decodes. When there is no such key the program ends. -/
def jwtInit (secretHex : Bytes) : Option Bytes := (hex2bin secretHex).filter (·.length = 32)

/-- `g_jwt_secret_bytes`. -/
def jwtSecretBytes (cfg : Config) : Bytes := (jwtInit cfg.jwtSecret.text).getD (.replicate 32 0)

inductive JwtStatus where
  | ok | expired | invalid
  deriving DecidableEq

/-- The return code of `jwt_verify` and what it wrote to its two buffers, if anything. -/
structure JwtResult where
  status : JwtStatus
  username : Option Bytes := none
  sessionId : Option Bytes := none
  deriving DecidableEq

section
variable (S : Sodium) (J : JsonC) (secret : Bytes)

/-! ## Creation -/

def payloadText (escapedUser sessionId : Bytes) (iat exp : Int) : Bytes :=
  bytes "\x7b\"username\":\"" ++ escapedUser ++ bytes "\",\"sessionId\":\"" ++ sessionId ++
    bytes "\",\"iat\":" ++ intText iat ++ bytes ",\"exp\":" ++ intText exp ++ bytes "\x7d"

def jwtBuildPayload (username sessionId : Bytes) (timeoutSeconds now : Int) (payloadMax : Nat) :
    Option Bytes :=
  let payload := payloadText (jsonEncodeString username 128) sessionId now (now + timeoutSeconds)
  if payload.length < payloadMax then some payload else none

def jwtSignMsg (msg : Bytes) (outSize : Nat) : Option Bytes :=
  let mac := S.hmacsha256 msg secret
  if 128 < encodedLen 32 then none
  else
    let jwt := msg ++ 46 :: S.bin2base64 mac
    if jwt.length < outSize then some jwt else none

def jwtHeader : Bytes := bytes "\x7b\"alg\":\"HS256\",\"typ\":\"JWT\"\x7d"

def jwtCreate (username sessionId : Bytes) (timeoutSeconds now : Int) (outSize : Nat) :
    Option Bytes :=
  if outSize = 0 then none
  else
    match jwtBuildPayload username sessionId timeoutSeconds now 512 with
    | none => none
    | some payload =>
      if 128 < encodedLen jwtHeader.length ∨ 512 < encodedLen payload.length then none
      else
        let msg := S.bin2base64 jwtHeader ++ 46 :: S.bin2base64 payload
        if 768 ≤ msg.length then none else jwtSignMsg S secret msg outSize

/-! ## Verification -/

def b64DecodeSegment (segment : Bytes) (outMaxlen : Nat) : Option Bytes :=
  if outMaxlen = 0 then none else S.base642bin (outMaxlen - 1) segment

def jwtDecodeHeader (jwt : Bytes) (outMaxlen : Nat) : Option Bytes :=
  match strchr jwt 46 with
  | none => none
  | some dot1 => b64DecodeSegment S (jwt.take dot1) outMaxlen

def jwtDecodePayload (jwt : Bytes) (outMaxlen : Nat) : Option Bytes :=
  match strchr jwt 46 with
  | none => none
  | some dot1 =>
    let payloadStart := jwt.drop (dot1 + 1)
    match strchr payloadStart 46 with
    | none => none
    | some dot2 => b64DecodeSegment S (payloadStart.take dot2) outMaxlen

/-- `jwt_get_expiration`: zero when there is none. -/
def jwtGetExpiration (jwt : Bytes) : Int :=
  match jwtDecodePayload S jwt 8192 with
  | none => 0
  | some payloadJson =>
    match (J.tokenerParse (cstr payloadJson)).bind (objectGetEx · (bytes "exp")) with
    | none => 0
    | some exp => J.getInt64 exp

def jwtCheckHeaderAlg (token : Bytes) : Bool :=
  match jwtDecodeHeader S token 1024 with
  | none => false
  | some headerJson =>
    contains (bytes "\"alg\":\"HS256\"") (cstr headerJson) ||
      contains (bytes "\"alg\": \"HS256\"") (cstr headerJson)

def jwtVerifyMac (msg signature : Bytes) : Bool :=
  let mac := S.hmacsha256 msg secret
  match S.base642bin 32 signature with
  | none => false
  | some providedMac => providedMac.length = 32 ∧ mac = providedMac

/-- Copy a claim out as a C string, if it fits the buffer with its NUL. Without a buffer the claim
is not looked at. -/
def copyClaim (obj : Json) (key : Bytes) (outSize : Option Nat) : Option (Option Bytes) :=
  match outSize with
  | none => some none
  | some size =>
    match (objectGetEx obj key).bind J.getString with
    | none => none
    | some text => if size ≤ (cstr text).length then none else some (some (cstr text))

/-- The output buffers are given by their sizes, a null pointer by `none`. -/
def jwtParsePayload (now : Int) (payloadJson : Bytes) (outUnameSize outSessSize : Option Nat) :
    JwtResult :=
  match J.tokenerParse (cstr payloadJson) with
  | none => { status := .invalid }
  | some jwtObj =>
    match objectGetEx jwtObj (bytes "exp") with
    | none => { status := .invalid }
    | some exp =>
      if now > J.getInt64 exp then { status := .expired }
      else
        match copyClaim J jwtObj (bytes "username") outUnameSize with
        | none => { status := .invalid }
        | some uname =>
          match copyClaim J jwtObj (bytes "sessionId") outSessSize with
          | none => { status := .invalid, username := uname }
          | some sess => { status := .ok, username := uname, sessionId := sess }

def jwtVerify (now : Int) (token : Bytes) (outUnameSize outSessSize : Option Nat) : JwtResult :=
  match strchr token 46 with
  | none => { status := .invalid }
  | some dot1 =>
    match strchr (token.drop (dot1 + 1)) 46 with
    | none => { status := .invalid }
    | some dot2 =>
      -- `dot2` counts from behind the first dot
      let msgLen := dot1 + 1 + dot2
      let signature := token.drop (msgLen + 1)
      if (strchr signature 46).isSome then { status := .invalid }
      else if !jwtCheckHeaderAlg S token then { status := .invalid }
      else if !jwtVerifyMac S secret (token.take msgLen) signature then { status := .invalid }
      else
        match jwtDecodePayload S token 8192 with
        | none => { status := .invalid }
        | some payloadJson => jwtParsePayload J now payloadJson outUnameSize outSessSize

end

/-! ## Segments -/

/-- The header check and the payload decoding look for the dots again and find the same ones. -/
theorem jwtDecode_segments {S : Sodium} {A B C : Bytes} (hA : 46 ∉ A) (hB : 46 ∉ B) :
    jwtDecodeHeader S (A ++ 46 :: B ++ 46 :: C) 1024 = S.base642bin 1023 A ∧
      jwtDecodePayload S (A ++ 46 :: B ++ 46 :: C) 8192 = S.base642bin 8191 B := by
  have htok : A ++ 46 :: B ++ 46 :: C = A ++ 46 :: (B ++ 46 :: C) := by simp
  have h1 : strchr (A ++ 46 :: (B ++ 46 :: C)) 46 = some A.length := strchr_append hA _
  have hdrop : (A ++ 46 :: (B ++ 46 :: C)).drop (A.length + 1) = B ++ 46 :: C := by simp
  have h2 : strchr (B ++ 46 :: C) 46 = some B.length := strchr_append hB _
  rw [htok]
  constructor
  · simp only [jwtDecodeHeader, h1, b64DecodeSegment, List.take_left]
    rfl
  · simp only [jwtDecodePayload, h1, hdrop, h2, b64DecodeSegment, List.take_left]
    rfl

/-- What `jwt_verify` does once the token is known to be three segments. -/
theorem jwtVerify_segments {S : Sodium} {J : JsonC} {secret : Bytes} {now : Int} {u v : Option Nat}
    {A B C : Bytes} (hA : 46 ∉ A) (hB : 46 ∉ B) (hC : 46 ∉ C) :
    jwtVerify S J secret now (A ++ 46 :: B ++ 46 :: C) u v =
      if !jwtCheckHeaderAlg S (A ++ 46 :: B ++ 46 :: C) then { status := .invalid }
      else if !jwtVerifyMac S secret (A ++ 46 :: B) C then { status := .invalid }
      else
        match S.base642bin 8191 B with
        | none => { status := .invalid }
        | some payloadJson => jwtParsePayload J now payloadJson u v := by
  have htok : A ++ 46 :: B ++ 46 :: C = A ++ 46 :: (B ++ 46 :: C) := by simp
  have h1 : strchr (A ++ 46 :: B ++ 46 :: C) 46 = some A.length := by
    rw [htok]; exact strchr_append hA _
  have hdrop : (A ++ 46 :: B ++ 46 :: C).drop (A.length + 1) = B ++ 46 :: C := by
    rw [htok]; simp
  have h2 : strchr (B ++ 46 :: C) 46 = some B.length := strchr_append hB _
  have hlen : A.length + 1 + B.length = (A ++ 46 :: B).length := by simp; omega
  have htake : (A ++ 46 :: B ++ 46 :: C).take (A.length + 1 + B.length) = A ++ 46 :: B := by
    rw [hlen, List.take_left]
  have hsig : (A ++ 46 :: B ++ 46 :: C).drop (A.length + 1 + B.length + 1) = C := by
    rw [hlen, List.drop_append, List.drop_eq_nil_of_le (Nat.le_succ _), Nat.add_sub_cancel_left]
    rfl
  have h3 : strchr C 46 = none := strchr_eq_none.mpr hC
  simp only [jwtVerify, h1, hdrop, h2, htake, hsig, h3, (jwtDecode_segments hA hB).2]
  rfl

/-- Anything but three segments is refused. -/
theorem jwtVerify_ok_segments {S : Sodium} {J : JsonC} {secret : Bytes} {now : Int} {u v : Option Nat}
    {token : Bytes} (H : (jwtVerify S J secret now token u v).status = .ok) :
    ∃ A B C, token = A ++ 46 :: B ++ 46 :: C ∧ 46 ∉ A ∧ 46 ∉ B ∧ 46 ∉ C := by
  unfold jwtVerify at H
  split at H
  · cases H
  · rename_i dot1 h1
    split at H
    · cases H
    · rename_i dot2 h2
      dsimp only at H
      split at H
      · cases H
      · rename_i h3
        obtain ⟨e1, hA⟩ := strchr_eq_some h1
        obtain ⟨e2, hB⟩ := strchr_eq_some h2
        refine ⟨_, _, (token.drop (dot1 + 1)).drop (dot2 + 1), ?_, hA, hB, ?_⟩
        · rw [List.append_assoc, List.cons_append, ← e2]; exact e1
        · rw [List.drop_drop]
          rw [Bool.not_eq_true, Option.isSome_eq_false_iff, Option.isNone_iff_eq_none,
            strchr_eq_none] at h3
          have hidx : dot1 + 1 + (dot2 + 1) = dot1 + 1 + dot2 + 1 := by omega
          rw [hidx]; exact h3

end ApiServer
