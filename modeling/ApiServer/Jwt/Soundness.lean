import ApiServer.Jwt.RoundTrip

/-!
# What an accepted token proves

`jwt_verify` says `JWT_OK` only for a token of three segments signed with the secret and not yet
expired. The names it returns are the claims of the payload read as C strings, so they are the
claims themselves unless one of them has an embedded NUL.
-/

namespace ApiServer
open Bytes Json

variable {S : Sodium} {J : JsonC} {secret : Bytes}

/-- A claim of the token as text, read from the payload segment without looking at the signature. -/
def tokenClaim (S : Sodium) (J : JsonC) (token key : Bytes) : Option Bytes :=
  ((jwtDecodePayload S token 8192).bind fun payload => J.tokenerParse (cstr payload)).bind
    fun obj => (objectGetEx obj key).bind J.getString

/-- A token signed with the secret, not expired at `now`, that names this user and session. -/
structure TokenSound (S : Sodium) (J : JsonC) (secret : Bytes) (now : Int) (token : Bytes)
    (username sessionId : Bytes) (A B C header payload : Bytes) (obj exp : Json) : Prop where
  segments : token = A ++ 46 :: B ++ 46 :: C
  dots : 46 ∉ A ∧ 46 ∉ B ∧ 46 ∉ C
  /-- The algorithm is named in the segment that is signed. -/
  headerDecoded : S.base642bin 1023 A = some header
  alg : contains (bytes "\"alg\":\"HS256\"") (cstr header) = true ∨
    contains (bytes "\"alg\": \"HS256\"") (cstr header) = true
  mac : S.base642bin 32 C = some (S.hmacsha256 (A ++ 46 :: B) secret)
  decoded : S.base642bin 8191 B = some payload
  parsed : J.tokenerParse (cstr payload) = some obj
  expClaim : objectGetEx obj (bytes "exp") = some exp
  fresh : now ≤ J.getInt64 exp
  username : (objectGetEx obj (bytes "username")).bind J.getString = some username
  sessionId : (objectGetEx obj (bytes "sessionId")).bind J.getString = some sessionId

theorem TokenSound.claims {token u s : Bytes}
    (H : TokenSound S J secret now token u s A B C header payload obj exp) :
    tokenClaim S J token (bytes "username") = some u ∧
      tokenClaim S J token (bytes "sessionId") = some s := by
  obtain ⟨hA, hB, hC⟩ := H.dots
  have hpay := (jwtDecode_segments (S := S) (C := C) hA hB).2
  simp only [tokenClaim, H.segments, hpay, H.decoded, Option.bind_some, H.parsed,
    H.username, H.sessionId, and_self]

theorem jwtVerifyMac_eq_true {msg signature : Bytes}
    (H : jwtVerifyMac S secret msg signature = true) :
    S.base642bin 32 signature = some (S.hmacsha256 msg secret) := by
  unfold jwtVerifyMac at H
  dsimp only at H
  split at H
  · cases H
  · rename_i mac hmac
    rw [hmac, (of_decide_eq_true H).2]

theorem jwtCheckHeaderAlg_eq_true {A B C : Bytes} (hA : 46 ∉ A) (hB : 46 ∉ B)
    (H : jwtCheckHeaderAlg S (A ++ 46 :: B ++ 46 :: C) = true) :
    ∃ header, S.base642bin 1023 A = some header ∧
      (contains (bytes "\"alg\":\"HS256\"") (cstr header) = true ∨
        contains (bytes "\"alg\": \"HS256\"") (cstr header) = true) := by
  rw [jwtCheckHeaderAlg, (jwtDecode_segments hA hB).1] at H
  split at H
  · cases H
  · rename_i header hheader
    exact ⟨header, hheader, by simpa using H⟩

theorem copyClaim_eq_some {obj : Json} {key : Bytes} {size : Nat} {out : Option Bytes}
    (H : copyClaim J obj key (some size) = some out) :
    ∃ text, (objectGetEx obj key).bind J.getString = some text ∧ (cstr text).length < size ∧
      out = some (cstr text) := by
  unfold copyClaim at H
  dsimp only at H
  split at H
  · cases H
  · rename_i text htext
    split at H
    · cases H
    · rename_i hsize
      cases H
      exact ⟨text, htext, Nat.lt_of_not_le hsize, rfl⟩

theorem jwtParsePayload_ok {now : Int} {payload : Bytes} {n m : Nat}
    (H : (jwtParsePayload J now payload (some n) (some m)).status = .ok) :
    ∃ obj exp u s, J.tokenerParse (cstr payload) = some obj ∧
      objectGetEx obj (bytes "exp") = some exp ∧ now ≤ J.getInt64 exp ∧
      (objectGetEx obj (bytes "username")).bind J.getString = some u ∧
      (objectGetEx obj (bytes "sessionId")).bind J.getString = some s ∧
      (cstr u).length < n ∧ (cstr s).length < m ∧
      jwtParsePayload J now payload (some n) (some m) =
        { status := .ok, username := some (cstr u), sessionId := some (cstr s) } := by
  revert H
  unfold jwtParsePayload
  split
  · nofun
  · rename_i obj hobj
    split
    · nofun
    · rename_i exp hexp
      split
      · nofun
      · rename_i hnow
        split
        · nofun
        · rename_i uname hu
          split
          · nofun
          · rename_i sess hs
            intro _
            obtain ⟨u, hu', hn, rfl⟩ := copyClaim_eq_some hu
            obtain ⟨s, hs', hm, rfl⟩ := copyClaim_eq_some hs
            exact ⟨obj, exp, u, s, hobj, hexp, Int.not_lt.mp hnow, hu', hs', hn, hm, rfl⟩

/-- The inversion of `JWT_OK`: a sound token, whose claims come back as C strings that fit. -/
theorem jwtVerify_ok {now : Int} {token : Bytes} {n m : Nat}
    (H : (jwtVerify S J secret now token (some n) (some m)).status = .ok) :
    ∃ u s A B C header payload obj exp,
      TokenSound S J secret now token u s A B C header payload obj exp ∧
      (cstr u).length < n ∧ (cstr s).length < m ∧
      jwtVerify S J secret now token (some n) (some m) =
        { status := .ok, username := some (cstr u), sessionId := some (cstr s) } := by
  obtain ⟨A, B, C, rfl, hA, hB, hC⟩ := jwtVerify_ok_segments H
  rw [jwtVerify_segments hA hB hC] at H ⊢
  split at H
  · cases H
  · rename_i hhead
    rw [if_neg hhead]
    split at H
    · cases H
    · rename_i hmac
      rw [if_neg hmac]
      split at H
      · cases H
      · rename_i payload hpay
        obtain ⟨obj, exp, u, s, hobj, hexp, hnow, hu, hs, hn, hm, heq⟩ := jwtParsePayload_ok H
        obtain ⟨header, hheader, halg⟩ := jwtCheckHeaderAlg_eq_true hA hB (by simpa using hhead)
        have hmac' := jwtVerifyMac_eq_true (by simpa using hmac)
        exact ⟨u, s, A, B, C, header, payload, obj, exp,
          ⟨rfl, ⟨hA, hB, hC⟩, hheader, halg, hmac', hpay, hobj, hexp, hnow, hu, hs⟩, hn, hm, heq⟩

theorem cstr_eq_self_iff {s : Bytes} : cstr s = s ↔ 0 ∉ s :=
  ⟨fun h => h ▸ zero_notMem_cstr s, cstr_eq_self⟩

/-- A token accepted with `JWT_OK` is signed, fresh and names the user and session that
`jwt_verify` returns if and only if neither of its two name claims has an embedded NUL. -/
theorem jwtVerify_sound_iff {now : Int} {token : Bytes} {n m : Nat}
    (H : (jwtVerify S J secret now token (some n) (some m)).status = .ok) :
    (∃ u s A B C header payload obj exp,
        TokenSound S J secret now token u s A B C header payload obj exp ∧
        jwtVerify S J secret now token (some n) (some m) =
          { status := .ok, username := some u, sessionId := some s }) ↔
      ∀ key ∈ [bytes "username", bytes "sessionId"], ∀ text,
        tokenClaim S J token key = some text → 0 ∉ text := by
  obtain ⟨u, s, A, B, C, header, payload, obj, exp, hsound, -, -, heq⟩ := jwtVerify_ok H
  obtain ⟨hu, hs⟩ := hsound.claims
  constructor
  · rintro ⟨u', s', A', B', C', header', payload', obj', exp', hsound', heq'⟩
    obtain ⟨hu', hs'⟩ := hsound'.claims
    rw [heq] at heq'
    obtain ⟨rfl, rfl⟩ : u = u' ∧ s = s' :=
      ⟨Option.some.inj (hu.symm.trans hu'), Option.some.inj (hs.symm.trans hs')⟩
    injection heq' with _ eu es
    simp only [List.mem_cons, List.not_mem_nil, or_false]
    rintro key (rfl | rfl) text htext
    · rw [hu] at htext
      cases htext
      exact cstr_eq_self_iff.mp (Option.some.inj eu)
    · rw [hs] at htext
      cases htext
      exact cstr_eq_self_iff.mp (Option.some.inj es)
  · intro h
    have hu0 := h _ (List.mem_cons_self ..) _ hu
    have hs0 := h _ (List.mem_cons_of_mem _ (List.mem_cons_self ..)) _ hs
    refine ⟨u, s, A, B, C, header, payload, obj, exp, hsound, ?_⟩
    rw [heq, cstr_eq_self hu0, cstr_eq_self hs0]

theorem jwtVerify_sound_signed :
    let token := signedToken .reference (.replicate 32 7) jwtHeader
      (payloadText (bytes "ann") (bytes "s-1") 1 9)
    (∃ u s A B C header payload obj exp,
        TokenSound .reference .reference (.replicate 32 7) 9 token u s A B C header payload obj exp ∧
        jwtVerify .reference .reference (.replicate 32 7) 9 token (some 33) (some 37) =
          { status := .ok, username := some u, sessionId := some s }) ↔
      ∀ key ∈ [bytes "username", bytes "sessionId"], ∀ text,
        tokenClaim .reference .reference token key = some text → 0 ∉ text :=
  jwtVerify_sound_iff (by
    rw [(jwtVerify_signed Sodium.reference_lawful (by decide)).2]
    rfl)

/-- A signed payload whose username is `a`, NUL, `b`. -/
def nulPayload : Bytes :=
  bytes "\x7b\"username\":\"a\\u0000b\",\"sessionId\":\"s-1\",\"iat\":1,\"exp\":9\x7d"

/-- The token is accepted for the user `a`, whom it does not name. -/
theorem jwtVerify_nul_username :
    let token := signedToken .reference (.replicate 32 7) jwtHeader nulPayload
    jwtVerify .reference .reference (.replicate 32 7) 9 token (some 33) (some 37) =
        { status := .ok, username := some (bytes "a"), sessionId := some (bytes "s-1") } ∧
      tokenClaim .reference .reference token (bytes "username") = some [97, 0, 98] ∧
      ¬∃ u s A B C header payload obj exp,
        TokenSound .reference .reference (.replicate 32 7) 9 token u s A B C header payload obj exp ∧
        jwtVerify .reference .reference (.replicate 32 7) 9 token (some 33) (some 37) =
          { status := .ok, username := some u, sessionId := some s } := by
  obtain ⟨hpay, hver⟩ := @jwtVerify_signed .reference .reference (.replicate 32 7)
    Sodium.reference_lawful nulPayload (by decide) 9 (some 33) (some 37)
  have hparse : jwtParsePayload .reference 9 nulPayload (some 33) (some 37) =
      { status := .ok, username := some (bytes "a"), sessionId := some (bytes "s-1") } := rfl
  have hclaim : tokenClaim .reference .reference
      (signedToken .reference (.replicate 32 7) jwtHeader nulPayload) (bytes "username") =
        some [97, 0, 98] := by
    rw [tokenClaim, hpay]
    rfl
  refine ⟨hver.trans hparse, hclaim, ?_⟩
  rintro ⟨u, s, A, B, C, header, payload, obj, exp, hsound, heq⟩
  obtain rfl : [97, 0, 98] = u := Option.some.inj (hclaim.symm.trans hsound.claims.1)
  rw [hver, hparse] at heq
  injection heq with _ hu
  exact absurd hu (by decide)

end ApiServer
