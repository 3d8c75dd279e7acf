import ApiServer.Jwt.RoundTrip

/-!
# No claim comes from the username

The username is the one part of a payload that the client chooses. Whatever its bytes are and
wherever the escape buffer cuts it, the payload of a token that `jwt_create` signs has the four
members the format string names.
-/

namespace ApiServer
open Bytes Json

variable {S : Sodium} {secret username sessionId token : Bytes} {timeout now : Int} {outSize : Nat}

/-- Hexadecimal digits and dashes, as a UUID has. -/
def IsSessionId (sessionId : Bytes) : Prop := ∀ c ∈ sessionId, c = 45 ∨ (hexVal c).isSome

instance : Decidable (IsSessionId sessionId) := inferInstanceAs (Decidable (∀ _ ∈ _, _))

theorem IsSessionId.strContent (h : IsSessionId sessionId) : StrContent sessionId sessionId := by
  have hplain : ∀ c : UInt8, c = 45 ∨ (hexVal c).isSome → ¬c < 32 ∧ c ≠ 34 ∧ c ≠ 92 :=
    forall_byte (by decide +kernel)
  exact .plain fun c hc => hplain c (h c hc)

/-- What a token that has been created is made of. -/
theorem jwtCreate_eq_some
    (h : jwtCreate S secret username sessionId timeout now outSize = some token) :
    let payload := payloadText (jsonEncodeString username 128) sessionId now (now + timeout)
    payload.length < 512 ∧ token = signedToken S secret jwtHeader payload := by
  intro payload
  unfold jwtCreate at h
  split at h
  · cases h
  rw [jwtBuildPayload] at h
  by_cases hlen : payload.length < 512
  · refine ⟨hlen, ?_⟩
    rw [if_pos hlen] at h
    dsimp only at h
    split at h
    · cases h
    split at h
    · cases h
    rw [jwtSignMsg, if_neg (by decide)] at h
    dsimp only at h
    split at h
    · exact (Option.some.inj h).symm
    · cases h
  · rw [if_neg hlen] at h
    cases h

/-- The payload of a token has the members `username`, `sessionId`, `iat` and `exp`, each once, with
the values `jwt_create` was given, except that the username may have been cut. -/
theorem jwtCreate_claims (hS : S.Lawful) (h0 : 0 ∉ username) (hsid : IsSessionId sessionId)
    (h : jwtCreate S secret username sessionId timeout now outSize = some token) :
    ∃ payload user, jwtDecodePayload S token 8192 = some payload ∧ user <+: username ∧
      Json.parse payload = some (.object [(bytes "username", .string user),
        (bytes "sessionId", .string sessionId), (bytes "iat", .int now),
        (bytes "exp", .int (now + timeout))]) := by
  obtain ⟨hlen, rfl⟩ := jwtCreate_eq_some h
  obtain ⟨user, hcut, henc, -⟩ := jsonEncodeString_spec h0 128
  have hdecode := (@jwtVerify_signed S .reference secret hS _ (hlen.le.trans (by decide)) now none
    none).1
  rw [henc] at hdecode ⊢
  exact ⟨_, user, hdecode, hcut, parse_payloadText (strContent_escape user) hsid.strContent _ _⟩

/-- A username that tries to close its quotes and to bring an `exp` of its own. -/
def forgingUsername : Bytes := bytes "bob\",\"exp\":99999999999,\"x\":\"" ++ [0xFF, 1, 92]

theorem jwtCreate_claims_forging :
    ∃ token payload user,
      jwtCreate .reference (.replicate 32 7) forgingUsername (generateUuidv4 []) 300 1000 1024 =
        some token ∧
      jwtDecodePayload .reference token 8192 = some payload ∧ user <+: forgingUsername ∧
      Json.parse payload = some (.object [(bytes "username", .string user),
        (bytes "sessionId", .string (generateUuidv4 [])), (bytes "iat", .int 1000),
        (bytes "exp", .int (1000 + 300))]) := by
  have h0 : 0 ∉ forgingUsername := by decide
  have hcreate := (jwtCreate_eq (.replicate 32 7) Sodium.reference_lawful h0 []
    (by decide : FitsInt64 1000) (by decide : FitsInt64 (1000 + 300))).1
  obtain ⟨payload, user, hclaims⟩ :=
    jwtCreate_claims Sodium.reference_lawful h0 (by decide +kernel) hcreate
  exact ⟨_, payload, user, hcreate, hclaims⟩

end ApiServer
