import ApiServer.Config
import ApiServer.Credentials
import ApiServer.Schemas
import ApiServer.Validation.TextField

/-!
# Forwarding credentials (`src/login.c`)

The name and the password of a payload go to the login provider. The schema bounds the characters,
so that no buffer is too small for a text in valid UTF-8; any other text may be cut, but the body
stays well formed.
-/

namespace ApiServer
open Bytes Json

/-! ## Requests -/

def authenticateRequest (cfg : Config) (username password : Bytes) : Except Bytes PostJson :=
  credentialsRequest 96 "Login payload truncation error" cfg.loginProvider.text cfg.loginUri.text
    username password

/-- The answer of the provider, and the message for `set_thread_error`. -/
def loginServiceAuthenticate (cfg : Config) (http : PostJson → HttpAnswer)
    (username password : Bytes) : HttpAnswer × Option Bytes :=
  match authenticateRequest cfg username password with
  | .error msg => ({}, some msg)
  | .ok call => (http call, none)

/-- What `login_handler` makes of a payload; the schema has checked that both strings are there. -/
def loginHandlerRequest (J : JsonC) (cfg : Config) (body : Json) : Option (Except Bytes PostJson) :=
  match jsonGetString J body (bytes "username"), jsonGetString J body (bytes "password") with
  | some username, some password => some (authenticateRequest cfg username password)
  | _, _ => none

/-! ## Valid UTF-8 -/

theorem escape_utf8_length {u : Nat} (h : Utf8.IsScalar u) : (escape (utf8 u)).length ≤ 6 := by
  have hplain : ∀ c < 256, 0x80 ≤ c → (encodeByte (.ofNat c)).length = 1 := by decide +kernel
  obtain ⟨-, heq⟩ | ⟨lead, tail, heq, hlead, htop, hlen, htail⟩ := Utf8.utf8_cases h
  · rw [heq, escape_cons, escape_nil, List.append_nil]
    exact (length_encodeByte _).2
  · have hrest : (escape (tail.map fun k => UInt8.ofNat (0x80 + k))).length = tail.length := by
      clear heq hlen
      induction tail with
      | nil => rfl
      | cons k tail ih =>
        have hk := htail k (List.mem_cons_self ..)
        have ih := ih fun k hk => htail k (List.mem_cons_of_mem _ hk)
        rw [List.map_cons, escape_cons, List.length_append, ih, hplain _ (by omega) (by omega),
          List.length_cons, Nat.add_comm]
    rw [heq, escape_cons, List.length_append, hrest, hplain lead htop (by omega)]
    omega

theorem escape_encode_length {us : List Nat} (h : ∀ u ∈ us, Utf8.IsScalar u) :
    (escape (Utf8.encode us)).length ≤ 6 * us.length := by
  induction us with
  | nil => exact Nat.le_refl 0
  | cons u us ih =>
    have hhead := escape_utf8_length (h u (List.mem_cons_self ..))
    have htail := ih fun u hu => h u (List.mem_cons_of_mem _ hu)
    rw [Utf8.encode, List.flatMap_cons, escape_append, List.length_append, List.length_cons]
    rw [Utf8.encode] at htail
    omega

/-- Thirty-two characters find room in a buffer for ninety-six bytes. -/
theorem encodeFits_of_valid {s : Bytes} (hvalid : Utf8.Valid (cstr s)) (hlen : utf8Strlen s ≤ 32) :
    EncodeFits (cstr s) (jsonEncodeBufsize 96) := by
  obtain ⟨us, hus, heq⟩ := hvalid
  rw [utf8Strlen_encode hus heq] at hlen
  have hescape := escape_encode_length hus
  have hdrop : (escape (cstr s).dropLast).length ≤ (escape (cstr s)).length := by
    obtain hnil | ⟨t, c, ht⟩ := List.eq_nil_or_concat (cstr s)
    · rw [hnil]
      exact Nat.le_refl _
    · rw [ht, List.concat_eq_append, List.dropLast_concat, escape_append, List.length_append]
      omega
  rw [← heq] at hescape
  exact .inr (by unfold jsonEncodeBufsize; omega)

/-- For every payload that `/login` accepts, `login_service_authenticate` returns what the provider
answers to an object with the two members `username` and `password`, which are prefixes of the two
strings of the payload, and the whole strings where these are valid UTF-8. -/
theorem login_forwards {J : JsonC} {body : Json} {err : ErrBuf}
    (h : (validateJson J loginContext body err).1 = true) (cfg : Config) :
    ∃ username password call u p,
      jsonGetString J body (bytes "username") = some username ∧
      jsonGetString J body (bytes "password") = some password ∧
      loginHandlerRequest J cfg body = some (.ok call) ∧
      (∀ http, loginServiceAuthenticate cfg http username password = (http call, none)) ∧
      Json.parse call.body =
        some (.object [(bytes "username", .string u), (bytes "password", .string p)]) ∧
      u <+: username ∧ p <+: password ∧
      (Utf8.Valid username → u = username) ∧ (Utf8.Valid password → p = password) := by
  obtain ⟨su, -, hu, -, hlenU⟩ := @validateJson_text _ _ _ _ (requiredText "username" 32) h
    (List.mem_cons_self ..) rfl rfl (by decide)
  obtain ⟨sp, -, hp, -, hlenP⟩ := @validateJson_text _ _ _ _ (requiredText "password" 32) h
    (List.mem_cons_of_mem _ (List.mem_cons_self ..)) rfl rfl (by decide)
  obtain ⟨call, u, p, hcall, hparse, hcutU, hcutP, hfitU, hfitP⟩ :=
    @credentialsRequest_ok 96 "Login payload truncation error" cfg.loginProvider.text
      cfg.loginUri.text _ _ (zero_notMem_cstr su) (zero_notMem_cstr sp)
  have hrequest : loginHandlerRequest J cfg body = some (.ok call) := by
    rw [loginHandlerRequest, show jsonGetString J body (bytes "username") = _ from hu,
      show jsonGetString J body (bytes "password") = _ from hp]
    exact congrArg some hcall
  have hpost : ∀ http,
      loginServiceAuthenticate cfg http (cstr su) (cstr sp) = (http call, none) := by
    intro http
    rw [loginServiceAuthenticate, show authenticateRequest cfg (cstr su) (cstr sp) = _ from hcall]
  exact ⟨cstr su, cstr sp, call, u, p, hu, hp, hrequest, hpost, hparse, hcutU, hcutP,
    fun hvalid => hfitU.mpr (encodeFits_of_valid hvalid hlenU),
    fun hvalid => hfitP.mpr (encodeFits_of_valid hvalid hlenP)⟩

/-- A password with a quote, a backslash, a control character and a letter of two bytes. -/
def oddPassword : Bytes := bytes "p\"w\\" ++ [1, 0xC3, 0xA9]

theorem login_forwards_odd :
    let body : Json := .object [(bytes "username", .string (bytes "ann")),
      (bytes "password", .string oddPassword)]
    (validateJson .reference loginContext body ⟨1024, []⟩).1 = true ∧
      ∃ call, loginHandlerRequest .reference {} body = some (.ok call) ∧
        (∀ http, loginServiceAuthenticate {} http (bytes "ann") oddPassword = (http call, none)) ∧
        Json.parse call.body = some (.object [(bytes "username", .string (bytes "ann")),
          (bytes "password", .string oddPassword)]) := by
  intro body
  have haccepted : (validateJson .reference loginContext body ⟨1024, []⟩).1 = true := by decide
  obtain ⟨username, password, call, u, p, hu, hp, hcall, hpost, hparse, -, -, hvalidU, hvalidP⟩ :=
    login_forwards haccepted {}
  obtain rfl : bytes "ann" = username := Option.some.inj hu
  obtain rfl : oddPassword = password := Option.some.inj hp
  have hann : u = bytes "ann" := hvalidU ⟨[97, 110, 110], by simp [Utf8.IsScalar], by decide⟩
  have hodd : p = oddPassword :=
    hvalidP ⟨[112, 34, 119, 92, 1, 233], by simp [Utf8.IsScalar], by decide⟩
  rw [hann, hodd] at hparse
  exact ⟨haccepted, call, hcall, hpost, hparse⟩

end ApiServer
