import ApiServer.Config
import ApiServer.Http
import ApiServer.Validation

/-!
# The reactor's side of a request (`lib/server.c`)

`api_middleware_wrapper` answers a request itself or fills a task for the worker pools. A check that
fails has sent a reply; `none` is the check passed. Handlers are an abstract type `H` here.
-/

namespace ApiServer
open Bytes

inductive AuthMode where
  | none | jwt | apiKey
  deriving DecidableEq

/-- `middleware_ctx_t`, one route. -/
structure MiddlewareCtx (H : Type) where
  path : Bytes
  allowedMethod : Command
  validationCtx : Option ValidationContext := none
  handler : Option H
  isFast : Bool
  authMode : AuthMode

/-- The part of `http_task_t` that outlives a request, in a slot of the task pool. -/
structure TaskSlot where
  startTime : Timespec := ⟨0, 0⟩
  parsedBody : Option Json := none
  statusTxt : Option Bytes := none
  workerBuf : Bytes := []
  reactorId : Nat := 0
  statusCode : Int := 0
  outContentType : CBuf 128 := .empty
  username : CBuf 33 := .empty
  sessionId : CBuf 37 := .empty
  clientIp : CBuf 64 := .empty
  requestId : CBuf 64 := .empty
  uri : CBuf 1024 := .empty

/-- `http_task_t`, once `server_enqueue_task` has filled it. -/
structure HttpTask (H : Type) extends TaskSlot where
  req : Request
  middlewareCtx : Option (MiddlewareCtx H)

/-- What `task_pool_alloc` does to the slot it leases. -/
def taskPoolReset (slot : TaskSlot) : TaskSlot :=
  { slot with
    startTime := ⟨0, 0⟩
    parsedBody := none
    statusTxt := none
    reactorId := 0
    statusCode := 0
    outContentType := .empty
    username := .empty
    sessionId := .empty
    clientIp := .empty
    requestId := .empty
    uri := .empty
    workerBuf := [] }

/-! ## The client's address -/

def serverGetClientIpFast (req : Request) : Bytes :=
  match req.peer with
  | some address => if address = [] then bytes "unknown" else address
  | none => bytes "unknown"

def isTrustedProxy (cfg : Config) (req : Request) : Bool :=
  req.connected && serverGetClientIpFast req != bytes "unknown" &&
    cfg.trustProxyIp.text != [] && serverGetClientIpFast req == cfg.trustProxyIp.text

def serverExtractClientIp (cfg : Config) (req : Request) : Bytes :=
  let peer := if req.connected then serverGetClientIpFast req else bytes "unknown"
  match evhttpFindHeader req.inputHeaders (bytes "X-Forwarded-For") with
  | none => peer
  | some xForwardedFor =>
    if !isTrustedProxy cfg req then peer
    else
      match strrchr xForwardedFor 44 with
      | none => xForwardedFor
      -- `parsed_ip` has `INET6_ADDRSTRLEN` bytes
      | some lastComma => ((xForwardedFor.drop (lastComma + 1)).dropWhile (· == 32)).take 45

/-! ## The checks -/

def injectSecurityHeaders (headers : Headers) : Headers :=
  [("X-Content-Type-Options", "nosniff"), ("X-Frame-Options", "DENY"),
    ("Cache-Control", "no-store, no-cache, must-revalidate, max-age=0"),
    ("Content-Security-Policy", "default-src 'none'; frame-ancestors 'none'")].foldl
    (fun headers h => evhttpAddHeader headers (bytes h.1) (bytes h.2)) headers

/-- The key a request presents. -/
def presentedKey (req : Request) : Option Bytes :=
  match evhttpFindHeader req.inputHeaders (bytes "X-API-Key") with
  | some key => some key
  | none =>
    match evhttpFindHeader req.inputHeaders (bytes "Authorization") with
    | some bearer => if startsWithNoCase (bytes "Bearer ") bearer then some (bearer.drop 7) else none
    | none => none

/-- `sodium_memcmp` runs over both arrays whole. -/
def validateTelemetryApiKey (cfg : Config) (req : Request) : Bool :=
  if cfg.telemetryApiKey.text = [] then false
  else
    let providedKey : CBuf maxConfigStr :=
      match presentedKey req with
      | some key => .strlcpy maxConfigStr key
      | none => .empty
    providedKey.zeroFilled == cfg.telemetryApiKey.zeroFilled && providedKey.text != []

def serverValidateCors (cfg : Config) (req : Request) (headers : Headers) :
    Headers × Option Reply :=
  match evhttpFindHeader req.inputHeaders (bytes "Origin") with
  | none => (headers, none)
  | some origin =>
    if configIsOriginAllowed cfg origin then
      ([(bytes "Access-Control-Allow-Origin", origin),
        (bytes "Access-Control-Allow-Methods", bytes "GET, POST, OPTIONS"),
        (bytes "Access-Control-Allow-Headers", bytes "Content-Type, Authorization, X-API-Key"),
        (bytes "Access-Control-Max-Age", bytes "86400"), (bytes "Vary", bytes "Origin")].foldl
        (fun headers h => evhttpAddHeader headers h.1 h.2) headers, none)
    else
      (headers, some
        { code := 403, reason := bytes "Forbidden"
          body := bytes "\x7b\"error\":\"CORS origin not allowed.\"\x7d" })

def serverValidateMethodAndAuth (cfg : Config) (req : Request) (ctx : MiddlewareCtx H) :
    Option Reply :=
  if req.command ≠ ctx.allowedMethod then
    some { code := 405, reason := bytes "Method Not Allowed"
           body := bytes "\x7b\"error\":\"Method not permitted.\"\x7d" }
  else if ctx.authMode = .apiKey ∧ !validateTelemetryApiKey cfg req then
    some { code := 403, reason := bytes "Forbidden"
           body := bytes "\x7b\"error\":\"Access Denied\"\x7d" }
  else none

/-! ## The wrapper -/

/-- What becomes of a request in the reactor. -/
inductive Verdict (H : Type) where
  /-- The client is gone. -/
  | ignored
  | replied (headers : Headers) (reply : Reply)
  /-- The task is handed to `worker_pool_enqueue`. -/
  | filled (headers : Headers) (task : HttpTask H)

/-- `slot` is what `task_pool_alloc` returns. -/
def serverEnqueueTask (req : Request) (ctx : MiddlewareCtx H) (startTime : Timespec)
    (extractedClientIp : Bytes) (reactorId : Nat) (slot : Option TaskSlot) (headers : Headers) :
    Verdict H :=
  match slot with
  | none => .replied headers
      { code := 503, reason := bytes "Service Unavailable"
        body := bytes "\x7b\"error\":\"Server Too Busy\"\x7d" }
  | some slot =>
    let reqId := evhttpFindHeader req.inputHeaders (bytes "X-Request-Id")
    if 1024 ≤ (cstr req.uri).length ∨ reqId.any (64 ≤ ·.length) ∨ 64 ≤ extractedClientIp.length then
      .replied headers
        { code := 400, reason := bytes "Bad Request"
          body := bytes "\x7b\"error\":\"Request Headers or URI Too Long\"\x7d" }
    else
      .filled headers
        { slot with
          req
          parsedBody := none
          middlewareCtx := some ctx
          startTime
          reactorId
          username := .empty
          sessionId := .empty
          clientIp := .strlcpy 64 extractedClientIp
          uri := .strlcpy 1024 req.uri
          requestId := .strlcpy 64 (reqId.getD []) }

def apiMiddlewareWrapper (cfg : Config) (startTime : Timespec) (reactorId : Nat)
    (slot : Option TaskSlot) (req : Request) (arg : Option (MiddlewareCtx H)) : Verdict H :=
  if !req.connected then .ignored
  else
    let headers := injectSecurityHeaders []
    let clientIp := serverExtractClientIp cfg req
    let (pageHeaders, page) := evhttpSendError 500 (bytes "Middleware Routing Fault")
    match arg with
    | none => .replied pageHeaders page
    | some ctx =>
      if ctx.handler.isNone then .replied pageHeaders page
      else
        match serverValidateCors cfg req headers with
        | (headers, some reply) => .replied headers reply
        | (headers, none) =>
          if req.command = .options then .replied headers { code := 204, reason := bytes "No Content" }
          else
            match serverValidateMethodAndAuth cfg req ctx with
            | some reply => .replied headers reply
            | none => serverEnqueueTask req ctx startTime clientIp reactorId slot headers

end ApiServer
