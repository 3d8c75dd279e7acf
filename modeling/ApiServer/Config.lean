import ApiServer.Lib.CBuf

/-!
# Configuration (`lib/config.c`)

What the server reads after `config_init`. The strings are static arrays, zeroed at start and
written once.
-/

namespace ApiServer

/-- `MAX_CONFIG_STR`. -/
abbrev maxConfigStr : Nat := 1024

structure Config where
  odbcConnStrs : Fin 4 → CBuf maxConfigStr := fun _ => .empty
  apiUrl : CBuf maxConfigStr := .empty
  apiUser : CBuf maxConfigStr := .empty
  apiPass : CBuf maxConfigStr := .empty
  loginProvider : CBuf maxConfigStr := .empty
  loginUri : CBuf maxConfigStr := .empty
  telemetryApiKey : CBuf maxConfigStr := .empty
  jwtSecret : CBuf maxConfigStr := .empty
  trustProxyIp : CBuf maxConfigStr := .empty
  remoteApiKey : CBuf maxConfigStr := .empty
  uploadsDir : CBuf maxConfigStr := .empty
  allowedOrigin : CBuf maxConfigStr := .empty
  jwtTimeoutSeconds : Int := 3600
  accessLog : Bool := true
  numThreads : Nat := 0
  maxQueueSize : Nat := 10000
  fastPoolPercentage : Nat := 25
  maxPayloadSize : Nat := 5242880
  serverPort : Int := 8080
  /-- `g_allowed_origin_ptrs`, up to `g_allowed_origin_count`. -/
  allowedOrigins : List Bytes := []

def configIsOriginAllowed (cfg : Config) (origin : Bytes) : Bool :=
  cfg.allowedOrigins.any (· == origin)

end ApiServer
