import ApiServer.Context
import ApiServer.Jwt
import ApiServer.Middleware
import ApiServer.Tokener

/-!
# The worker's side of a request (`lib/worker_pool.c`)

A worker sees its thread-local variables and the task. A handler gets the parsed body and may change
the thread-local variables, the status code and the output buffer; what it does is a parameter.
-/

namespace ApiServer
open Bytes

/-- What a handler reads and writes. -/
structure HandlerState where
  tls : ThreadLocals
  outStatus : Int
  outBuf : Bytes

structure WorkerState (H : Type) where
  tls : ThreadLocals
  task : HttpTask H

/-- One call of a handler, with the thread-local variables it finds. -/
structure Call (H : Type) where
  handler : H
  body : Option Json
  tls : ThreadLocals

/-- What a worker finds outside: the clock, and whether json-c gets memory for a parser. -/
structure WorkerEnv where
  now : Int
  tokenerNew : Bool := true

def getHttpStatusText (code : Int) : Bytes :=
  if code = 200 then bytes "OK"
  else if code = 400 then bytes "Bad Request"
  else if code = 401 then bytes "Unauthorized"
  else if code = 403 then bytes "Forbidden"
  else if code = 404 then bytes "Not Found"
  else if code = 429 then bytes "Too Many Requests"
  else if code = 500 then bytes "Internal Server Error"
  else if code = 502 then bytes "Bad Gateway"
  else if code = 503 then bytes "Service Unavailable"
  else bytes "Unknown Status"

section
variable {H : Type} (S : Sodium) (J : JsonC) (K : Tokener) (secret : Bytes)

/-- A refusal: the status and its text are set and a message is appended. -/
def HttpTask.refuse (task : HttpTask H) (code : Int) (txt msg : Bytes) : HttpTask H :=
  { task with statusCode := code, statusTxt := some txt, workerBuf := task.workerBuf ++ msg }

/-! ## Authentication -/

def unauthorized (task : HttpTask H) (msg : String) : HttpTask H :=
  task.refuse 401 (bytes "Unauthorized") (bytes msg)

/-- What `jwt_verify` writes to the arrays of the task. -/
def HttpTask.setIdentity (task : HttpTask H) (res : JwtResult) : HttpTask H :=
  { task with
    username := (res.username.map (CBuf.strlcpy 33)).getD task.username
    sessionId := (res.sessionId.map (CBuf.strlcpy 37)).getD task.sessionId }

def workerProcessJwt (now : Int) (w : WorkerState H) (ctx : Option (MiddlewareCtx H)) :
    Bool × WorkerState H :=
  let task := w.task
  if ctx.all (·.authMode ≠ .jwt) then
    (true, { w with tls := contextSet w.tls none none (some task.clientIp.text) (some task.uri.text) })
  else
    let missing := (false, { w with
      task := unauthorized task "\x7b\"error\":\"Missing or invalid Authorization header\"\x7d" })
    match evhttpFindHeader task.req.inputHeaders (bytes "Authorization") with
    | none => missing
    | some authHdr =>
      if !startsWithNoCase (bytes "Bearer ") authHdr then missing
      else
        let res := jwtVerify S J secret now (authHdr.drop 7) (some 33) (some 37)
        let task := task.setIdentity res
        match res.status with
        | .expired =>
          (false, { w with task := unauthorized task "\x7b\"error\":\"Token has expired\"\x7d" })
        | .invalid =>
          (false, { w with task := unauthorized task "\x7b\"error\":\"Invalid token\"\x7d" })
        | .ok =>
          (true, { w with
            task
            tls := contextSet w.tls (some task.username.text) (some task.sessionId.text)
              (some task.clientIp.text) (some task.uri.text) })

/-! ## The payload -/

def badRequest (task : HttpTask H) (msg : String) : HttpTask H :=
  task.refuse 400 (bytes "Bad Request") (bytes msg)

def isJsonContentType (ctype : Bytes) : Bool :=
  startsWithNoCase (bytes "application/json") ctype &&
    (byteAt ctype 16 == 0 || byteAt ctype 16 == 59 || byteAt ctype 16 == 32)

/-- The loop over the extents that `evbuffer_peek` returns. -/
def parseExtents (tok : K.State) (parsed : Option Json) : List Bytes → K.State × Option Json
  | [] => (tok, parsed)
  | extent :: extents =>
    let (tok, obj) := K.parseEx tok extent
    let parsed := obj.or parsed
    if K.getError tok ≠ .continued then (tok, parsed) else parseExtents tok parsed extents

/-- One call when the first extent holds everything, the loop otherwise. Positions skip over empty
extents. -/
def parseInput (parsed : Option Json) (inBuf : List Bytes) : K.State × Option Json :=
  let len := inBuf.flatten.length
  let contig := (inBuf.headD []).length
  if len ≤ contig then K.parseEx K.new inBuf.flatten
  else parseExtents K K.new parsed (inBuf.filter (· ≠ []))

/-- While the parser waits for more it has returned no object yet, so the loop leaves the object of
its last call. -/
theorem parseExtents_returns {tok tok' : K.State} {text : Bytes} (hwaits : Tokener.Waits tok text)
    (h : parseExtents K tok none extents = (tok', some obj)) :
    ∃ read rest, text ++ extents.flatten = read ++ rest ∧
      K.parseEx K.new read = (tok', some obj) := by
  induction extents generalizing tok text with
  | nil => cases h
  | cons extent extents ih =>
    rw [parseExtents, hwaits.parseEx] at h
    dsimp only at h
    split at h
    · rename_i hend
      refine ⟨text ++ extent, extents.flatten, by simp, ?_⟩
      rw [Option.or_none] at h
      exact h
    · rename_i hmore
      rw [not_not] at hmore
      have hnone : (K.parseEx K.new (text ++ extent)).2 = none := by
        by_contra hobj
        rw [K.success_of_object _ _ hobj] at hmore
        cases hmore
      rw [hnone] at h
      obtain ⟨read, rest, htext, hread⟩ := ih (.inr ⟨rfl, hmore⟩) h
      exact ⟨read, rest, by rw [← htext]; simp, hread⟩

theorem parseInput_returns {tok : K.State} (h : parseInput K none inBuf = (tok, some obj))
    (hsuccess : K.getError tok = .success) : K.ReturnsFrom inBuf.flatten obj := by
  unfold parseInput at h
  dsimp only at h
  split at h
  · exact ⟨inBuf.flatten, [], by simp, by rw [Tokener.Returns, h]; exact ⟨rfl, hsuccess⟩⟩
  · obtain ⟨read, rest, htext, hread⟩ := parseExtents_returns K (.inl ⟨rfl, rfl⟩) h
    rw [List.nil_append, List.flatten_filter_ne_nil] at htext
    exact ⟨read, rest, htext, by rw [Tokener.Returns, hread]; exact ⟨rfl, hsuccess⟩⟩

def workerProcessPayload (tokenerNew : Bool) (w : WorkerState H) : Bool × WorkerState H :=
  let task := w.task
  if task.req.command ≠ .post then (true, w)
  else
    let ctype := evhttpFindHeader task.req.inputHeaders (bytes "Content-Type")
    if !ctype.any isJsonContentType then
      (false, { w with
        task := badRequest task
          "\x7b\"error\":\"Invalid Content-Type. Expected application/json.\"\x7d" })
    else if task.req.inputBuffer.flatten.length = 0 then
      (false, { w with task := badRequest task "\x7b\"error\":\"Empty request body.\"\x7d" })
    else if !tokenerNew then
      (false, { w with
        task := task.refuse 503 (bytes "Service Unavailable")
          (bytes "\x7b\"error\":\"Out of memory allocating JSON parser\"\x7d") })
    else
      let (tok, parsed) := parseInput K task.parsedBody task.req.inputBuffer
      let task := { task with parsedBody := parsed }
      if parsed.all (!·.isObject) ∨ K.getError tok ≠ .success then
        (false, { w with
          task := badRequest task
            "\x7b\"error\":\"Invalid JSON payload or not a JSON object.\"\x7d" })
      else (true, { w with task })

def workerProcessValidation (w : WorkerState H) (ctx : Option (MiddlewareCtx H)) :
    Bool × WorkerState H :=
  match ctx.bind (·.validationCtx), w.task.parsedBody with
  | some validationCtx, some body =>
    match validateJson J validationCtx body ⟨1024, []⟩ with
    | (true, _) => (true, w)
    | (false, err) =>
      let evErr := bytes "\x7b\"error\":\"" ++ err.text ++ bytes "\"\x7d"
      (false, { w with
        task := w.task.refuse 400 (bytes "Bad Request") (snprintf 1024 evErr) })
  | _, _ => (true, w)

/-! ## The task -/

variable (exec : H → Option Json → HandlerState → HandlerState)

/-- The handler and what is copied back from it. -/
def workerInvoke (w : WorkerState H) (ctx : Option (MiddlewareCtx H)) :
    WorkerState H × Option (Call H) :=
  match ctx.bind (·.handler) with
  | none => (w, none)
  | some handler =>
    let st := exec handler w.task.parsedBody ⟨w.tls, w.task.statusCode, w.task.workerBuf⟩
    ({ tls := st.tls
       task := { w.task with
        statusCode := st.outStatus
        workerBuf := st.outBuf
        outContentType := copyOrClear 128 (contextGetContentType st.tls) } },
      some ⟨handler, w.task.parsedBody, w.tls⟩)

/-- The three checks in a row, and the handler when they pass. -/
def workerHandle (env : WorkerEnv) (w : WorkerState H) : WorkerState H × Option (Call H) :=
  let ctx := w.task.middlewareCtx
  match workerProcessJwt S J secret env.now w ctx with
  | (false, w) => (w, none)
  | (true, w) =>
    match workerProcessPayload K env.tokenerNew w with
    | (false, w) => (w, none)
    | (true, w) =>
      match workerProcessValidation J w ctx with
      | (false, w) => (w, none)
      | (true, w) => workerInvoke exec w ctx

def workerProcessTask (env : WorkerEnv) (w : WorkerState H) : WorkerState H × Option (Call H) :=
  let w := { w with tls := loggerSetRequestId w.tls (some w.task.requestId.text) }
  let (w, call) := workerHandle S J K secret exec env w
  let task := { w.task with
    statusTxt := some (w.task.statusTxt.getD (getHttpStatusText w.task.statusCode)) }
  ({ task, tls := contextClear (loggerClearRequestId (clearThreadError w.tls)) }, call)

end
end ApiServer
