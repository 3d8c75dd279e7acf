import ApiServer.Config
import ApiServer.Lib.JsonText
import ApiServer.Lib.Split

/-!
# Loading the configuration (`lib/config.c`)

`load_env_file` puts the definitions of a file into the environment of the process, and
`config_reload` copies the variables it knows out of the environment when the server starts, and
only looks for `ACCESS_LOG` later. The functions edit their buffers
in place: a token or a trimmed text is a part of the buffer that is ended by a NUL byte written
behind it, and no such byte falls into a part that is still to be read. So each of them is a
function from the text that is read to the texts that are left.
-/

namespace ApiServer
open Bytes

/-- The environment of the process: `getenv`. -/
abbrev Environ := Bytes → Option Bytes

/-- The environment and the static variables. -/
structure ConfigState where
  environ : Environ
  config : Config := {}
  isFirstLoad : Bool := true

def trimWhitespace (str : Bytes) : Bytes :=
  match str.dropWhile isSpace with
  | [] => []
  -- The scan from the end stops at the first character at the latest.
  | c :: rest => c :: rest.rdropWhile isSpace

def parseBooleanEnv (envVal : Option Bytes) (defaultVal : Bool) : Bool :=
  match envVal with
  | none => defaultVal
  | some envVal =>
    !(eqNoCase envVal (bytes "false") || eqNoCase envVal (bytes "0") ||
      eqNoCase envVal (bytes "off") || eqNoCase envVal (bytes "no"))

/-! ## The environment file -/

/-- The bytes `fgets(line, size, f)` takes from a file of which `s` is left: through the first
newline, if there is one among those that fit. -/
def lineSize (size : Nat) (s : Bytes) : Nat :=
  match strchr (s.take (size - 1)) 10 with
  | some i => i + 1
  | none => size - 1

/-- `fgets(line, size, f)`: the line and what is then left of the file. -/
def fgets (size : Nat) (s : Bytes) : Option (Bytes × Bytes) :=
  if s = [] then none else some (s.take (lineSize size s), s.drop (lineSize size s))

/-- The value without the opening quote and a closing one like it. -/
def unquote (val : Bytes) : Bytes :=
  match val with
  | [] => []
  | quote :: val =>
    if quote = 34 ∨ quote = 39 then
      if val ≠ [] ∧ val.getLast? = some quote then val.dropLast else val
    else quote :: val

/-- The key and the value of a line, if it is neither blank nor a comment and has an `=`. -/
def keyAndValue (line : Bytes) : Option (Bytes × Bytes) :=
  let trimmedLine := trimWhitespace line
  if trimmedLine.head? = some 35 ∨ trimmedLine = [] then none
  else match strchr trimmedLine 61 with
    | none => none
    | some eq =>
      some (trimWhitespace (trimmedLine.take eq),
        unquote (trimWhitespace (trimmedLine.drop (eq + 1))))

/-- `setenv(key, val, 1)`. -/
def setenv (key val : Bytes) (environ : Environ) : Environ :=
  fun k => if k = key then some val else environ k

/-- The body of the loop, for the line in the buffer. -/
def loadLine (hotReload : Bool) (s : ConfigState) (line : Bytes) : ConfigState :=
  match keyAndValue line with
  | none => s
  | some (key, val) =>
    if hotReload then
      if key = bytes "ACCESS_LOG" then
        { s with config := { s.config with accessLog := parseBooleanEnv (some val) true } }
      else s
    else if key ≠ [] then { s with environ := setenv key val s.environ }
    else s

theorem lineSize_pos {size : Nat} (hsize : 2 ≤ size) (s : Bytes) : 0 < lineSize size s := by
  rw [lineSize]
  split <;> omega

theorem fgets_length {size : Nat} {s line rest : Bytes} (hsize : 2 ≤ size)
    (h : fgets size s = some (line, rest)) : rest.length < s.length := by
  rw [fgets, Option.ite_none_left_eq_some] at h
  obtain ⟨hs, h⟩ := h
  simp only [Option.some.injEq, Prod.mk.injEq] at h
  rw [← h.2, List.length_drop]
  exact Nat.sub_lt (List.length_pos_iff.mpr hs) (lineSize_pos hsize s)

def loadLines (hotReload : Bool) (file : Bytes) (s : ConfigState) : ConfigState :=
  match _h : fgets maxConfigStr file with
  | none => s
  | some (line, rest) => loadLines hotReload rest (loadLine hotReload s (cstr line))
termination_by file.length
decreasing_by exact fgets_length (by decide) _h

/-- `load_env_file`; the file is `none` if it cannot be opened. -/
def loadEnvFile (file : Option Bytes) (hotReload : Bool) (s : ConfigState) : Bool × ConfigState :=
  match file with
  | none => (false, s)
  | some file => (true, loadLines hotReload file s)

/-- The file beside the executable, where that is known, and the one in the working directory. -/
structure EnvFiles where
  beside : Option Bytes := none
  here : Option Bytes := none

def locateAndLoadEnv (files : EnvFiles) (hotReload : Bool) (s : ConfigState) : Bool × ConfigState :=
  match loadEnvFile files.beside hotReload s with
  | (true, s) => (true, s)
  | (false, s) => loadEnvFile files.here hotReload s

/-! ## From the environment to the configuration -/

/-- `strtol(s, &end, 10)` that leaves `errno` at zero and `end` at the end of the text. -/
def strtolWhole (s : Bytes) : Option Int :=
  let digits (s : Bytes) : Option Int :=
    if s ≠ [] ∧ s.all isDigit then some (digitsVal s) else none
  let val := match s.dropWhile isSpace with
    | 45 :: s => (digits s).map (- ·)
    | 43 :: s => digits s
    | s => digits s
  val.filter fun n => FitsInt64 n

def safeStrtolEnv (envVal : Option Bytes) (defaultVal minVal maxVal : Int) : Int :=
  match envVal with
  | none | some [] => defaultVal
  | some envVal =>
    match strtolWhole envVal with
    | none => defaultVal
    | some val => if val < minVal then minVal else if maxVal < val then maxVal else val

/-- `strtoul(s, &end, 10)` that leaves `errno` at zero and `end` at the end of the text. A minus sign
negates the number, modulo `2 ^ 64`. -/
def strtoulWhole (s : Bytes) : Option Nat :=
  let digits (s : Bytes) : Option Nat :=
    if s ≠ [] ∧ s.all isDigit ∧ digitsVal s < 2 ^ 64 then some (digitsVal s) else none
  match s.dropWhile isSpace with
  | 45 :: s => (digits s).map fun n => (2 ^ 64 - n) % 2 ^ 64
  | 43 :: s => digits s
  | s => digits s

def safeStrtoulEnv (envVal : Option Bytes) (defaultVal maxVal : Nat) : Nat :=
  match envVal with
  | none | some [] => defaultVal
  | some envVal =>
    match strtoulWhole envVal with
    | none => defaultVal
    | some val => if maxVal < val then maxVal else val

def loadEnvString (environ : Environ) (key : Bytes) (dest : CBuf maxConfigStr)
    (clearOnMiss : Bool) : CBuf maxConfigStr :=
  match environ key with
  | some val => .strlcpy maxConfigStr val
  | none => if clearOnMiss then .empty else dest

/-- `strtok_r(nullptr, ",", &saveptr)`: the token, and the text behind the byte that ended it. -/
def strtokR (delim : UInt8) (saveptr : Bytes) : Option (Bytes × Bytes) :=
  match saveptr.dropWhile (· == delim) with
  | [] => none
  | s => some (s.takeWhile (· != delim), (s.dropWhile (· != delim)).drop 1)

theorem strtokR_length {delim : UInt8} {saveptr token rest : Bytes}
    (h : strtokR delim saveptr = some (token, rest)) : rest.length < saveptr.length := by
  rw [strtokR] at h
  split at h
  · exact nomatch h
  · next s hne =>
    have hs := (List.dropWhile_sublist (l := saveptr) (· == delim)).length_le
    have hd := (List.dropWhile_sublist (l := saveptr.dropWhile (· == delim)) (· != delim)).length_le
    have hpos := List.length_pos_iff.mpr hne
    simp only [Option.some.injEq, Prod.mk.injEq] at h
    rw [← h.2, List.length_drop]
    omega

/-- The loop of `parse_cors_origins`, with what `strtok_r` has still to read. -/
def parseTokens (saveptr : Bytes) (ptrs : List Bytes) : List Bytes :=
  match _h : strtokR 44 saveptr with
  | none => ptrs
  | some (token, rest) =>
    if ptrs.length < 64 then
      let token := trimWhitespace token
      parseTokens rest (if token ≠ [] then ptrs ++ [token] else ptrs)
    else ptrs
termination_by saveptr.length
decreasing_by exact strtokR_length _h

def parseCorsOrigins (cfg : Config) : Config :=
  if cfg.allowedOrigin.text = [] then cfg
  else
    let copy := CBuf.strlcpy maxConfigStr cfg.allowedOrigin.text
    { cfg with allowedOrigins := parseTokens copy.text cfg.allowedOrigins }

def applyInitialConfigVars (environ : Environ) (cfg : Config) : Config :=
  parseCorsOrigins
    { cfg with
      odbcConnStrs := fun i =>
        loadEnvString environ (bytes "DB_" ++ Json.natText i) (cfg.odbcConnStrs i) false
      apiUrl := loadEnvString environ (bytes "API_URL") cfg.apiUrl false
      apiUser := loadEnvString environ (bytes "API_USER") cfg.apiUser false
      apiPass := loadEnvString environ (bytes "API_PASS") cfg.apiPass false
      loginProvider := loadEnvString environ (bytes "LOGIN_PROVIDER") cfg.loginProvider false
      loginUri := loadEnvString environ (bytes "LOGIN_URI") cfg.loginUri false
      jwtSecret := loadEnvString environ (bytes "JWT_SECRET") cfg.jwtSecret false
      remoteApiKey := loadEnvString environ (bytes "REMOTE_API_KEY") cfg.remoteApiKey true
      telemetryApiKey := loadEnvString environ (bytes "TELEMETRY_API_KEY") cfg.telemetryApiKey true
      trustProxyIp := loadEnvString environ (bytes "TRUST_PROXY_IP") cfg.trustProxyIp true
      allowedOrigin := loadEnvString environ (bytes "CORS_ALLOWED_ORIGINS") cfg.allowedOrigin true
      uploadsDir := loadEnvString environ (bytes "UPLOADS_DIR") cfg.uploadsDir true
      jwtTimeoutSeconds :=
        match environ (bytes "JWT_TIMEOUT_SECONDS") with
        | some val => safeStrtolEnv (some val) 3600 1 (86400 * 30)
        | none => cfg.jwtTimeoutSeconds }

def scrubEnvVar (environ : Environ) (name : Bytes) : Environ :=
  fun k => if k = name then none else environ k

/-- The variables that have to be there, in the order of the messages about them. -/
def requiredVars : List Bytes :=
  [bytes "DB_0", bytes "API_URL", bytes "API_USER", bytes "API_PASS", bytes "JWT_SECRET",
    bytes "JWT_TIMEOUT_SECONDS", bytes "TELEMETRY_API_KEY"]

def missingMsg (key : Bytes) : Bytes := bytes "Missing required config: " ++ key

/-- What is logged before the process exits. -/
def abortMsgs (missing : List Bytes) : List Bytes :=
  missing.map missingMsg ++
    [bytes "One or more required configuration variables are missing. Aborting startup."]

/-- The variables that are removed from the environment when they have been copied. -/
def scrubbedVars : List Bytes :=
  [bytes "JWT_SECRET", bytes "API_PASS", bytes "REMOTE_API_KEY", bytes "TELEMETRY_API_KEY"] ++
    (List.range 4).map fun i => bytes "DB_" ++ Json.natText i

/-- The variables that `config_reload` copies itself, and those of `apply_initial_config_vars`. -/
def copyConfigVars (environ : Environ) (cfg : Config) : Config :=
  applyInitialConfigVars environ
    { cfg with
      numThreads := safeStrtoulEnv (environ (bytes "NUM_THREADS")) 0 1024
      maxQueueSize := safeStrtoulEnv (environ (bytes "MAX_QUEUE_SIZE")) 10000 1000000
      fastPoolPercentage := safeStrtoulEnv (environ (bytes "FAST_POOL_PERCENTAGE")) 25 100
      maxPayloadSize := safeStrtoulEnv (environ (bytes "MAX_PAYLOAD_SIZE")) 5242880 104857600
      serverPort := safeStrtolEnv (environ (bytes "SERVER_PORT")) 8080 1 65535
      accessLog := parseBooleanEnv (environ (bytes "ACCESS_LOG")) true }

/-- An error is the end of the process. -/
def configReload (s : ConfigState) (files : EnvFiles) : Except (List Bytes) ConfigState :=
  if !s.isFirstLoad then .ok (locateAndLoadEnv files true s).2
  else
    let s := (locateAndLoadEnv files false s).2
    let missing := requiredVars.filter fun key => (s.environ key).isNone
    if missing ≠ [] then .error (abortMsgs missing)
    else
      .ok
        { environ := scrubbedVars.foldl scrubEnvVar s.environ
          config := copyConfigVars s.environ s.config
          isFirstLoad := false }

/-! ## Trimming -/

theorem trimWhitespace_eq (str : Bytes) : trimWhitespace str = str.strip isSpace := by
  rw [trimWhitespace, List.strip]
  rcases List.dropWhile_cases isSpace str with hs | ⟨c, t, hs, hc⟩
  · rw [hs, List.rdropWhile_nil]
  · rw [hs, List.rdropWhile_cons_neg hc]

end ApiServer
