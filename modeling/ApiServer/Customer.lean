import ApiServer.Config
import ApiServer.Credentials
import ApiServer.Jwt
import ApiServer.Lib.SingleFlight

/-!
# The remote customer service (`src/customer.c`)

The threads of the pool share one token of the remote service. The first that finds it missing or
expired logs in, without the lock; the others wait.
-/

namespace ApiServer
open Bytes Json

/-- The cache of the token; `token` and both times start as zeros. -/
structure JwtCache where
  token : CBuf 1024 := .empty
  expiresAt : Int := 0
  lastFailedAuth : Int := 0

/-! ## Under the lock -/

section
variable (S : Sodium) (J : JsonC) (cfg : Config)

def apiLoginRequest : Except Bytes PostJson :=
  credentialsRequest maxConfigStr "Login payload truncated" cfg.apiUrl.text (bytes "/api/login")
    cfg.apiUser.text cfg.apiPass.text

/-- The response, if there is one with status 200. -/
def executeLoginRequest (answer : HttpAnswer) : Option Json :=
  match apiLoginRequest cfg with
  | .error _ => none
  | .ok _ => if answer.code = some 200 then answer.json else none

/-- The cache, and the message for `set_thread_error`. -/
def updateJwtCache (now : Int) (cache : JwtCache) (loginResponse : Json) :
    JwtCache × Option Bytes :=
  match (objectGetEx loginResponse (bytes "id_token")).bind J.getString with
  | none => (cache, none)
  | some idToken =>
    if 1024 ≤ (cstr idToken).length then (cache, some (bytes "Remote token exceeds 1023 bytes"))
    else
      let exp := jwtGetExpiration S J (cstr idToken)
      ({ cache with
        token := .strlcpy 1024 idToken
        expiresAt := if 0 < exp then exp else now + 180 }, none)

/-- What `copy_token_safely` leaves in a buffer of `maxLen` bytes. -/
def copyTokenSafely (maxLen : Nat) (srcToken : Bytes) : Bytes := srcToken.take (maxLen - 1)

/-- The first test of the loop of `login_and_get_token`. -/
def loginHit (now : Int) (cache : JwtCache) : Option Bytes :=
  if cache.token.text ≠ [] ∧ now < cache.expiresAt then
    some (copyTokenSafely 1024 cache.token.text)
  else none

/-- The back-off, which fails fast. -/
def loginBackoff (now : Int) (cache : JwtCache) : Bool := now < cache.lastFailedAuth + 5

/-- What the second section of `login_and_get_token` does to the cache. -/
def loginFinish (now : Int) (answer : HttpAnswer) (cache : JwtCache) : JwtCache :=
  match executeLoginRequest cfg answer with
  | some loginResponse =>
    { (updateJwtCache S J now { cache with token := .empty } loginResponse).1 with lastFailedAuth := 0 }
  | none => { cache with lastFailedAuth := now }

/-- What the second section copies out of the cache in the end. -/
def loginToken (cache : JwtCache) : Option Bytes :=
  if cache.token.text ≠ [] then some (copyTokenSafely 1024 cache.token.text) else none

/-! ## One request -/

/-- The call of `http_client_post_json`, if the body fits its buffer. -/
def customerRequest (customerId : Option Bytes) (token : Bytes) : Option PostJson :=
  let escapedId := jsonEncodeString (customerId.getD []) (jsonEncodeBufsize 64)
  let body := bytes "\x7b\"id\":\"" ++ escapedId ++ bytes "\"\x7d"
  if body.length < jsonEncodeBufsize 64 + 32 then
    some {
      baseUrl := cfg.apiUrl.text
      uri := bytes "/api/customer"
      body
      headers := [(bytes "Authorization: Bearer " ++ token).take 1099,
        bytes "Content-Type: application/json"] }
  else none

/-- Where a thread is in `customer_service_get_info`, outside of `login_and_get_token`. -/
inductive Caller where
  | returned (answer : HttpAnswer)
  | called (customerId : Option Bytes)
  /-- `login_and_get_token` has returned true. -/
  | granted (customerId : Option Bytes) (token : Bytes)
  | calling (call : PostJson) (token : Bytes)
  /-- The remote service has answered 401, and the cache has not been cleared yet. -/
  | unauthorized (json : Option Json) (token : Bytes)

/-- What `login_and_get_token` returns to a thread that asks for `customerId`. -/
def loginReturns (customerId : Option Bytes) : Option Bytes → Caller
  | some token => .granted customerId token
  | none => .returned { code := some 401 }

inductive CallerEvent where
  | call (customerId : Option Bytes)
  | send
  | answer (a : HttpAnswer)
  | invalidate

def callerNext (cache : JwtCache) : CallerEvent → Caller → Option (JwtCache × Caller)
  | .call customerId, .returned _ => some (cache, .called customerId)
  | .send, .granted customerId token =>
    match customerRequest cfg customerId token with
    | none => some (cache, .returned { code := some 500 })
    | some call => some (cache, .calling call token)
  | .answer a, .calling _ token =>
    some (cache, if a.code = some 401 then .unauthorized a.json token else .returned a)
  | .invalidate, .unauthorized json _ =>
    some ({ cache with token := .empty }, .returned ⟨json, some 401⟩)
  | _, _ => none

/-- Inside a thread carries the customer that it asks for. -/
def tokenProtocol :
    SingleFlight.Protocol Int JwtCache Caller (Option Bytes) HttpAnswer CallerEvent where
  enter
    | .called customerId => some customerId
    | _ => none
  hit now cache customerId :=
    (loginHit now cache).map fun token => loginReturns customerId (some token)
  refuse now cache customerId :=
    if loginBackoff now cache then some (loginReturns customerId none) else none
  finish now answer cache customerId :=
    let cache := loginFinish S J cfg now answer cache
    (cache, loginReturns customerId (loginToken cache))
  act b l cache := callerNext cfg cache b l

abbrev TokenState (ι : Type) := SingleFlight.State ι Int JwtCache Caller (Option Bytes)

abbrev TokenEvent (ι : Type) := SingleFlight.Event ι Int HttpAnswer CallerEvent

/-- Any number of threads with one cache, from the start of the program. -/
def customerSystem (ι : Type) [DecidableEq ι] : System (TokenState ι) (TokenEvent ι) :=
  (tokenProtocol S J cfg).system fun s => s.data = {} ∧ ∀ i, ∃ a, s.thread i = .out (.returned a)

end
end ApiServer
