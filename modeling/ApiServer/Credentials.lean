import ApiServer.HttpClient
import ApiServer.JsonUtil

/-!
# Login requests (`src/login.c`, `src/customer.c`)

Two places of the program send a name and a password to another server, in a JSON text that is
pasted together in stack buffers.
-/

namespace ApiServer
open Bytes Json

/-- The body of a login request. The buffers are made for credentials of `srcMax` bytes. -/
def credentialsBody (srcMax : Nat) (username password : Bytes) : Option Bytes :=
  let escapedUser := jsonEncodeString username (jsonEncodeBufsize srcMax)
  let escapedPass := jsonEncodeString password (jsonEncodeBufsize srcMax)
  let body := bytes "\x7b\"username\":\"" ++ escapedUser ++ bytes "\",\"password\":\"" ++ escapedPass ++
    bytes "\"\x7d"
  if body.length < jsonEncodeBufsize srcMax * 2 + 128 then some body else none

/-- The call of `http_client_post_json`, or the message that there is none. -/
def credentialsRequest (srcMax : Nat) (truncated : String) (baseUrl uri username password : Bytes) :
    Except Bytes PostJson :=
  match credentialsBody srcMax username password with
  | none => .error (bytes truncated)
  | some body => .ok { baseUrl, uri, body, headers := [bytes "Content-Type: application/json"] }

/-- Whatever the credentials are, the body is whole, and it is an object with their two members. -/
theorem credentialsBody_parse {srcMax : Nat} {username password : Bytes} (hu : 0 ∉ username)
    (hp : 0 ∉ password) :
    ∃ body u p, credentialsBody srcMax username password = some body ∧
      Json.parse body = some (.object [(bytes "username", .string u), (bytes "password", .string p)]) ∧
      u <+: username ∧ p <+: password ∧
      (u = username ↔ EncodeFits username (jsonEncodeBufsize srcMax)) ∧
      (p = password ↔ EncodeFits password (jsonEncodeBufsize srcMax)) := by
  obtain ⟨u, hcutU, hencU, hfitU, -⟩ := jsonEncodeString_spec hu (jsonEncodeBufsize srcMax)
  obtain ⟨p, hcutP, hencP, hfitP, -⟩ := jsonEncodeString_spec hp (jsonEncodeBufsize srcMax)
  let members : List Member :=
    [⟨bytes "username", bytes "username", .string u, 34 :: escape u ++ [34]⟩,
      ⟨bytes "password", bytes "password", .string p, 34 :: escape p ++ [34]⟩]
  have hsound : ∀ m ∈ members, m.Sound 0 := by
    have hkeys : ∀ k ∈ [bytes "username", bytes "password"], ∀ c ∈ k, ¬c < 32 ∧ c ≠ 34 ∧ c ≠ 92 := by
      decide +kernel
    intro m hm
    simp only [members, List.mem_cons, List.not_mem_nil, or_false] at hm
    obtain rfl | rfl := hm
    · exact ⟨.plain (hkeys _ (by simp)), valueText_string (strContent_escape u)⟩
    · exact ⟨.plain (hkeys _ (by simp)), valueText_string (strContent_escape p)⟩
  have hbody : bytes "\x7b\"username\":\"" ++ escape u ++ bytes "\",\"password\":\"" ++ escape p ++
      bytes "\"\x7d" = objectText members := by
    simp [members, objectText, membersText, Member.text, bytes]
  -- both escapes leave the NUL of their buffer free
  have hlen : (objectText members).length < jsonEncodeBufsize srcMax * 2 + 128 := by
    have hlenU := jsonEncodeString_length hu (jsonEncodeBufsize srcMax)
    have hlenP := jsonEncodeString_length hp (jsonEncodeBufsize srcMax)
    rw [hencU] at hlenU
    rw [hencP] at hlenP
    rw [← hbody]
    simp only [List.length_append, show (bytes "\x7b\"username\":\"").length = 13 from rfl,
      show (bytes "\",\"password\":\"").length = 14 from rfl, show (bytes "\"\x7d").length = 2 from rfl]
    omega
  refine ⟨objectText members, u, p, ?_, ?_, hcutU, hcutP, hfitU, hfitP⟩
  · rw [credentialsBody, hencU, hencP, hbody]
    exact if_pos hlen
  · exact parse_valueText (valueText_object (List.cons_ne_nil _ _) hsound) (by simp [objectText])

/-- Whatever the credentials are, they are sent. -/
theorem credentialsRequest_ok {srcMax : Nat} {truncated : String}
    {baseUrl uri username password : Bytes}
    (hu : 0 ∉ username) (hp : 0 ∉ password) :
    ∃ call u p, credentialsRequest srcMax truncated baseUrl uri username password = .ok call ∧
      Json.parse call.body =
        some (.object [(bytes "username", .string u), (bytes "password", .string p)]) ∧
      u <+: username ∧ p <+: password ∧
      (u = username ↔ EncodeFits username (jsonEncodeBufsize srcMax)) ∧
      (p = password ↔ EncodeFits password (jsonEncodeBufsize srcMax)) := by
  obtain ⟨body, u, p, hbody, hparse, hrest⟩ := @credentialsBody_parse srcMax _ _ hu hp
  refine ⟨⟨baseUrl, uri, body, [bytes "Content-Type: application/json"]⟩, u, p, ?_, hparse, hrest⟩
  rw [credentialsRequest, hbody]

end ApiServer
