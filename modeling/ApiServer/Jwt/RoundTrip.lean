import ApiServer.Jwt
import ApiServer.Schemas

/-!
# Round trip of a token

A token signed with the server's header verifies to whatever its payload says
(`jwtVerify_signed`), so `jwt_create` and `jwt_verify` agree on a username exactly when it survives
the 128-byte escape buffer of the one and the 33-byte output buffer of the other.
-/

namespace ApiServer
open Bytes Json

variable {S : Sodium} {J : JsonC} {secret : Bytes}

/-- Members without nesting, under different keys that are C strings. -/
def Flat (ms : List (Bytes × Json)) : Prop :=
  (ms.map (·.1)).Nodup ∧ ∀ m ∈ ms, 0 ∉ m.1 ∧
    match m.2 with
    | .array _ | .object _ => False
    | _ => True

/-- json-c parses standard JSON, as far as it is needed here: flat objects. -/
def JsonC.ParsesFlat (J : JsonC) : Prop :=
  ∀ {s : Bytes} {ms : List (Bytes × Json)}, Json.parse s = some (.object ms) → Flat ms →
    J.tokenerParse s = some (.object ms)

theorem JsonC.reference_parsesFlat : reference.ParsesFlat := fun h _ => h

/-! ## Signed tokens -/

theorem Sodium.Lawful.noDot (hS : S.Lawful) (b : Bytes) : 46 ∉ S.bin2base64 b := by
  have hdot : 46 ∉ Base64Url.alphabet := by
    rw [Base64Url.alphabet, bytes_ofList]
    decide
  exact fun h => hdot (hS.alphabet b 46 h)

/-- What `jwt_sign_msg` appends to `header.payload`. -/
def signedToken (S : Sodium) (secret header payload : Bytes) : Bytes :=
  let msg := S.bin2base64 header ++ 46 :: S.bin2base64 payload
  msg ++ 46 :: S.bin2base64 (S.hmacsha256 msg secret)

theorem jwtVerify_signed (hS : S.Lawful) {payload : Bytes} (hlen : payload.length ≤ 8191)
    {now : Int} {u v : Option Nat} :
    jwtDecodePayload S (signedToken S secret jwtHeader payload) 8192 = some payload ∧
    jwtVerify S J secret now (signedToken S secret jwtHeader payload) u v =
      jwtParsePayload J now payload u v := by
  have hdot := hS.noDot
  obtain ⟨hheader, hpay⟩ := jwtDecode_segments (S := S)
    (C := S.bin2base64 (S.hmacsha256 (S.bin2base64 jwtHeader ++ 46 :: S.bin2base64 payload) secret))
    (hdot jwtHeader) (hdot payload)
  have hver := @jwtVerify_segments S J secret now u v _ _ _ (hdot jwtHeader) (hdot payload)
    (hdot (S.hmacsha256 (S.bin2base64 jwtHeader ++ 46 :: S.bin2base64 payload) secret))
  have hdec := hS.decode_encode hlen
  have hhead : jwtCheckHeaderAlg S (signedToken S secret jwtHeader payload) = true := by
    have hd : S.base642bin 1023 (S.bin2base64 jwtHeader) = some jwtHeader :=
      hS.decode_encode (by decide)
    rw [jwtCheckHeaderAlg, signedToken, hheader, hd]
    decide
  have hmac : ∀ msg, jwtVerifyMac S secret msg (S.bin2base64 (S.hmacsha256 msg secret)) = true := by
    intro msg
    have hl := S.hmacsha256_length msg secret
    have hd : S.base642bin 32 (S.bin2base64 (S.hmacsha256 msg secret)) = _ :=
      hS.decode_encode (Nat.le_of_eq hl)
    rw [jwtVerifyMac, hd]
    simp [hl]
  refine ⟨hpay.trans hdec, ?_⟩
  rw [signedToken] at hhead ⊢
  rw [hver, hhead, hmac, hdec]
  rfl

/-! ## The session id -/

theorem hexDigit_mem {d : UInt8} (h : d.toNat < 16) : hexDigit d ∈ bytes "0123456789abcdef" := by
  rw [hexDigit, bytes_ofList, List.getD_eq_getElem?_getD, List.getElem?_eq_getElem h,
    Option.getD_some]
  exact List.getElem_mem h

theorem mem_generateUuidv4 {random : Bytes} {c : UInt8} (h : c ∈ generateUuidv4 random) :
    c = 45 ∨ c ∈ bytes "0123456789abcdef" := by
  have hhigh : ∀ byte : UInt8, (byte >>> 4).toNat < 16 := forall_byte (by decide +kernel)
  have hlow : ∀ byte : UInt8, (byte &&& 0x0F).toNat < 16 :=
    forall_byte (by decide +kernel)
  obtain ⟨i, _, hc⟩ := List.mem_flatMap.mp h
  rcases List.mem_append.mp hc with hc | hc
  · split at hc
    · exact .inl (List.mem_singleton.mp hc)
    · cases hc
  · simp only [List.mem_cons, List.not_mem_nil, or_false] at hc
    rcases hc with rfl | rfl
    · exact .inr (hexDigit_mem (hhigh _))
    · exact .inr (hexDigit_mem (hlow _))

theorem length_generateUuidv4 (random : Bytes) : (generateUuidv4 random).length = 36 := by
  rw [generateUuidv4, List.length_flatMap]
  simp only [List.length_append, apply_ite List.length, List.length_cons, List.length_nil]
  decide

theorem generateUuidv4_plain (random : Bytes) :
    ∀ c ∈ generateUuidv4 random, ¬c < 32 ∧ c ≠ 34 ∧ c ≠ 92 := by
  have hex : ∀ c ∈ bytes "0123456789abcdef", ¬c < 32 ∧ c ≠ 34 ∧ c ≠ 92 := by
    rw [bytes_ofList]
    decide +kernel
  intro c hc
  rcases mem_generateUuidv4 hc with rfl | hc
  · decide
  · exact hex c hc

theorem zero_notMem_generateUuidv4 (random : Bytes) : 0 ∉ generateUuidv4 random :=
  fun h => (generateUuidv4_plain random 0 h).1 (by decide)

/-! ## The payload -/

def payloadClaims (username sessionId : Bytes) (iat exp : Int) : List (Bytes × Json) :=
  [(bytes "username", .string username), (bytes "sessionId", .string sessionId),
    (bytes "iat", .int iat), (bytes "exp", .int exp)]

def payloadMembers (eu u es s : Bytes) (iat exp : Int) : List Member :=
  [⟨bytes "username", bytes "username", .string u, 34 :: eu ++ [34]⟩,
    ⟨bytes "sessionId", bytes "sessionId", .string s, 34 :: es ++ [34]⟩,
    ⟨bytes "iat", bytes "iat", .int iat, intText iat⟩,
    ⟨bytes "exp", bytes "exp", .int exp, intText exp⟩]

theorem payloadText_eq (eu u es s : Bytes) (iat exp : Int) :
    payloadText eu es iat exp = objectText (payloadMembers eu u es s iat exp) := by
  simp [payloadText, payloadMembers, objectText, membersText, Member.text, bytes]

theorem payloadMembers_sound {eu u es s : Bytes} (hu : StrContent eu u) (hs : StrContent es s)
    (iat exp : Int) : ∀ m ∈ payloadMembers eu u es s iat exp, m.Sound 0 := by
  have keys : ∀ k ∈ [bytes "username", bytes "sessionId", bytes "iat", bytes "exp"],
      ∀ c ∈ k, ¬c < 32 ∧ c ≠ 34 ∧ c ≠ 92 := by
    rw [bytes_ofList, bytes_ofList, bytes_ofList, bytes_ofList]
    decide +kernel
  intro m hm
  simp only [payloadMembers, List.mem_cons, List.not_mem_nil, or_false] at hm
  rcases hm with rfl | rfl | rfl | rfl
  · exact ⟨.plain (keys _ (by simp)), valueText_string hu⟩
  · exact ⟨.plain (keys _ (by simp)), valueText_string hs⟩
  · exact ⟨.plain (keys _ (by simp)), valueText_int iat⟩
  · exact ⟨.plain (keys _ (by simp)), valueText_int exp⟩

theorem parse_payloadText {eu u es s : Bytes} (hu : StrContent eu u) (hs : StrContent es s)
    (iat exp : Int) :
    Json.parse (payloadText eu es iat exp) = some (.object (payloadClaims u s iat exp)) := by
  have H := valueText_object (List.cons_ne_nil _ _) (payloadMembers_sound hu hs iat exp)
  rw [payloadText_eq eu u es s]
  exact parse_valueText H (by simp [objectText])

theorem flat_payloadClaims (u s : Bytes) (iat exp : Int) : Flat (payloadClaims u s iat exp) := by
  have keys : [bytes "username", bytes "sessionId", bytes "iat", bytes "exp"].Nodup ∧
      ∀ k ∈ [bytes "username", bytes "sessionId", bytes "iat", bytes "exp"], 0 ∉ k := by decide
  refine ⟨keys.1, fun m hm => ?_⟩
  simp only [payloadClaims, List.mem_cons, List.not_mem_nil, or_false] at hm
  rcases hm with rfl | rfl | rfl | rfl <;> exact ⟨keys.2 _ (by simp), trivial⟩

theorem zero_notMem_payloadText {eu es : Bytes} (hu : 0 ∉ eu) (hs : 0 ∉ es) (iat exp : Int) :
    0 ∉ payloadText eu es iat exp := by
  have h1 := zero_notMem_intText iat
  have h2 := zero_notMem_intText exp
  simp [payloadText, bytes, *]

theorem length_payloadText (eu es : Bytes) (iat exp : Int) :
    (payloadText eu es iat exp).length =
      44 + eu.length + es.length + (intText iat).length + (intText exp).length := by
  simp only [payloadText, List.length_append, bytes, List.length_map]
  simp
  omega

/-! ## Creation and verification -/

/-- `jwt_create` never runs out of room: the escape buffer has cut the username before. -/
theorem jwtCreate_eq (secret : Bytes) (hS : S.Lawful) {username : Bytes} (h0 : 0 ∉ username)
    (random : Bytes) {timeout now : Int} (hnow : FitsInt64 now) (hexp : FitsInt64 (now + timeout)) :
    jwtCreate S secret username (generateUuidv4 random) timeout now 1024 =
        some (signedToken S secret jwtHeader (payloadText (jsonEncodeString username 128)
          (generateUuidv4 random) now (now + timeout))) ∧
      (payloadText (jsonEncodeString username 128) (generateUuidv4 random) now
        (now + timeout)).length ≤ 246 := by
  have heu : (jsonEncodeString username 128).length ≤ 126 := jsonEncodeString_length h0 128
  have hlen := length_payloadText (jsonEncodeString username 128) (generateUuidv4 random) now
    (now + timeout)
  have hi1 := intText_length hnow
  have hi2 := intText_length hexp
  have hsid := length_generateUuidv4 random
  generalize hp : payloadText (jsonEncodeString username 128) (generateUuidv4 random) now
    (now + timeout) = payload at hlen ⊢
  have hle : payload.length ≤ 246 := by omega
  refine ⟨?_, hle⟩
  have lh := hS.length jwtHeader
  have lp := hS.length payload
  have lm := hS.length (S.hmacsha256 (S.bin2base64 jwtHeader ++ 46 :: S.bin2base64 payload) secret)
  rw [S.hmacsha256_length] at lm
  have eh : encodedLen jwtHeader.length = 37 := by decide
  have em : encodedLen 32 = 44 := by decide
  have ep : encodedLen payload.length ≤ 329 := by
    unfold encodedLen Base64Url.encodedLength
    split <;> omega
  have hbuild : jwtBuildPayload username (generateUuidv4 random) timeout now 512 = some payload := by
    simp only [jwtBuildPayload, hp]
    exact if_pos (by omega)
  have hsign : ∀ msg, msg = S.bin2base64 jwtHeader ++ 46 :: S.bin2base64 payload →
      jwtSignMsg S secret msg 1024 = some (signedToken S secret jwtHeader payload) := by
    rintro msg rfl
    have hl : (signedToken S secret jwtHeader payload).length < 1024 := by
      simp only [signedToken, List.length_append, List.length_cons]
      omega
    rw [jwtSignMsg, em]
    exact if_pos hl
  rw [jwtCreate, if_neg (by decide), hbuild]
  simp only [eh]
  rw [if_neg (by omega), if_neg (by rw [List.length_append, List.length_cons]; omega)]
  exact hsign _ rfl

/-- What `jwt_verify` makes of a token of the server, with the buffers of `worker_process_jwt`. -/
theorem jwtParsePayload_payloadText (hJ : J.ParsesFlat) {eu u s : Bytes} (hu : StrContent eu u)
    (hs : StrContent s s) (h0 : 0 ∉ u) (heu : 0 ∉ eu) (hs0 : 0 ∉ s) (hlen : s.length = 36)
    {iat exp now : Int} (hexp : FitsInt64 exp) (hnow : now ≤ exp) :
    jwtParsePayload J now (payloadText eu s iat exp) (some 33) (some 37) =
      if 33 ≤ u.length then { status := .invalid }
      else { status := .ok, username := some u, sessionId := some s } := by
  have hparse : J.tokenerParse (cstr (payloadText eu s iat exp)) =
      some (.object (payloadClaims u s iat exp)) := by
    rw [cstr_eq_self (zero_notMem_payloadText heu hs0 iat exp)]
    exact hJ (parse_payloadText hu hs iat exp) (flat_payloadClaims ..)
  have hget : ∀ k v, Json.lookup k (payloadClaims u s iat exp) = some v →
      objectGetEx (.object (payloadClaims u s iat exp)) k = some v := fun _ _ h => h
  have hcu : copyClaim J (.object (payloadClaims u s iat exp)) (bytes "username") (some 33) =
      if 33 ≤ u.length then none else some (some u) := by
    rw [copyClaim, hget _ (.string u) rfl]
    simp only [Option.bind_some, JsonC.getString, cstr_eq_self h0]
  have hcs : copyClaim J (.object (payloadClaims u s iat exp)) (bytes "sessionId") (some 37) =
      some (some s) := by
    rw [copyClaim, hget _ (.string s) rfl]
    simp only [Option.bind_some, JsonC.getString, cstr_eq_self hs0, hlen]
    exact if_neg (by decide)
  have htime : ¬now > J.getInt64 (.int exp) := by
    rw [JsonC.getInt64, hexp.saturate]; exact Int.not_lt.mpr hnow
  have hget' := hget (bytes "exp") (.int exp) rfl
  rw [jwtParsePayload, hparse]
  simp only [hget', if_neg htime, hcu, hcs]
  by_cases hl : 33 ≤ u.length
  · rw [if_pos hl, if_pos hl]
  · rw [if_neg hl, if_neg hl]

/-- The token carries the part of the username that the escape buffer holds. -/
theorem jwtVerify_jwtCreate (hS : S.Lawful) (hJ : J.ParsesFlat) (secret : Bytes) {username : Bytes}
    (h0 : 0 ∉ username) (random : Bytes) {timeout now now' : Int} (hnow : FitsInt64 now)
    (hexp : FitsInt64 (now + timeout)) (hlate : now' ≤ now + timeout) :
    ∃ token p,
      jwtCreate S secret username (generateUuidv4 random) timeout now 1024 = some token ∧
      (p = username ↔ EncodeFits username 128) ∧
      jwtVerify S J secret now' token (some 33) (some 37) =
        if 33 ≤ p.length then { status := .invalid }
        else { status := .ok, username := some p, sessionId := some (generateUuidv4 random) } := by
  obtain ⟨hcreate, hlen⟩ := jwtCreate_eq secret hS h0 random hnow hexp
  obtain ⟨p, hp, heu, hfit, -⟩ := jsonEncodeString_spec h0 128
  have hp0 : 0 ∉ p := fun h => h0 (hp.subset h)
  refine ⟨_, p, hcreate, hfit, ?_⟩
  rw [(jwtVerify_signed hS (hlen.trans (by decide))).2, heu]
  exact jwtParsePayload_payloadText hJ (strContent_escape p) (.plain (generateUuidv4_plain random))
    hp0 (zero_notMem_escape hp0) (zero_notMem_generateUuidv4 random) (length_generateUuidv4 random)
    hexp hlate

/-- `jwt_create` succeeds for every username, and the token verifies to that username and session
if and only if the username has at most 32 bytes and its escape is not cut at 128. -/
theorem jwt_roundTrip_iff (hS : S.Lawful) (hJ : J.ParsesFlat) {username : Bytes}
    (h0 : 0 ∉ username) (random : Bytes) {timeout now now' : Int} (hnow : FitsInt64 now)
    (hexp : FitsInt64 (now + timeout)) (hlate : now' ≤ now + timeout) :
    ∃ token,
      jwtCreate S secret username (generateUuidv4 random) timeout now 1024 = some token ∧
      (jwtVerify S J secret now' token (some 33) (some 37) =
          { status := .ok, username := some username, sessionId := some (generateUuidv4 random) } ↔
        username.length ≤ 32 ∧ EncodeFits username 128) := by
  obtain ⟨token, p, hcreate, hfit, hver⟩ :=
    jwtVerify_jwtCreate hS hJ secret h0 random hnow hexp hlate
  refine ⟨token, hcreate, ?_⟩
  rw [hver]
  constructor
  · intro h
    split at h
    · cases h
    · cases h
      exact ⟨by omega, hfit.mp rfl⟩
  · rintro ⟨hl, hfits⟩
    rw [hfit.mpr hfits, if_neg (by omega)]

theorem jwt_roundTrip_admin :
    ∃ token,
      jwtCreate .reference (.replicate 32 7) (bytes "admin") (generateUuidv4 []) 300 1000 1024 =
        some token ∧
      (jwtVerify .reference .reference (.replicate 32 7) 1300 token (some 33) (some 37) =
          { status := .ok, username := some (bytes "admin"),
            sessionId := some (generateUuidv4 []) } ↔
        (bytes "admin").length ≤ 32 ∧ EncodeFits (bytes "admin") 128) :=
  jwt_roundTrip_iff Sodium.reference_lawful JsonC.reference_parsesFlat (by decide) []
    (by decide) (by decide) (by decide)

/-- Seventeen letters of two bytes each. -/
def longUsername : Bytes := (List.replicate 17 [0xC3, 0xA9]).flatten

/-- `POST /login` accepts the name, `jwt_create` signs it and `jwt_verify` refuses the token. -/
theorem jwt_roundTrip_longUsername :
    (validateJson .reference loginContext (.object [(bytes "username", .string longUsername),
        (bytes "password", .string (bytes "secret"))]) ⟨1024, []⟩).1 = true ∧
      ∃ token,
        jwtCreate .reference (.replicate 32 7) longUsername (generateUuidv4 []) 300 1000 1024 =
          some token ∧
        jwtVerify .reference .reference (.replicate 32 7) 1000 token (some 33) (some 37) =
          { status := .invalid } := by
  refine ⟨by decide, ?_⟩
  obtain ⟨token, p, hcreate, hfit, hver⟩ := jwtVerify_jwtCreate Sodium.reference_lawful
    JsonC.reference_parsesFlat (.replicate 32 7) (by decide : 0 ∉ longUsername) []
    (by decide : FitsInt64 1000) (by decide : FitsInt64 (1000 + 300))
    (by decide : (1000 : Int) ≤ 1000 + 300)
  have hp : p = longUsername := hfit.mpr (by decide)
  subst hp
  exact ⟨token, hcreate, hver.trans (if_pos (by decide))⟩

end ApiServer
