import ApiServer.Worker

/-!
# What the checks of a worker decide

`worker_process_jwt`, `worker_process_payload` and `worker_process_validation` look at the task alone
and not at the variables of their thread. Each passes the task on or refuses it with a reply. One
relation for each of them says when, and what is left in the task.
-/

namespace ApiServer
open Bytes

def errorReply (msg : Bytes) : Bytes := bytes "\x7b\"error\":\"" ++ msg ++ bytes "\"\x7d"

/-- The reply with a fixed message, as one literal. -/
theorem errorReply_ofList (msg : List Char) :
    errorReply (bytes (String.ofList msg)) = bytes (String.ofList
      (['\x7b', '"', 'e', 'r', 'r', 'o', 'r', '"', ':', '"'] ++ msg ++ ['"', '\x7d'])) := by
  rw [errorReply, bytes_ofList, bytes_ofList, bytes_ofList, bytes_ofList, List.map_append,
    List.map_append]

/-- The texts of the statuses that the checks set. -/
def refusalReasons : List Bytes :=
  [bytes "Unauthorized", bytes "Bad Request", bytes "Service Unavailable"]

section
variable {H : Type} (S : Sodium) (J : JsonC) (K : Tokener) (secret : Bytes)

/-! ## The token -/

/-- The message of `worker_process_jwt` for a request it refuses. -/
def jwtMessage (now : Int) (req : Request) : String :=
  match evhttpFindHeader req.inputHeaders (bytes "Authorization") with
  | none => "Missing or invalid Authorization header"
  | some authHdr =>
    if !startsWithNoCase (bytes "Bearer ") authHdr then "Missing or invalid Authorization header"
    else
      match (jwtVerify S J secret now (authHdr.drop 7) (some 33) (some 37)).status with
      | .expired => "Token has expired"
      | .invalid | .ok => "Invalid token"

/-- The verdict on the token, what happens to the context of the thread, and the task. -/
inductive JwtCheck (now : Int) (task : HttpTask H) (ctx : Option (MiddlewareCtx H)) :
    Bool → (ThreadLocals → ThreadLocals) → HttpTask H → Prop
  | skipped (hmode : ctx.all (·.authMode ≠ .jwt) = true) :
    JwtCheck now task ctx true
      (contextSet · none none (some task.clientIp.text) (some task.uri.text)) task
  | refused (kept : HttpTask H) (hkept : kept = task ∨ ∃ res, kept = task.setIdentity res) :
    JwtCheck now task ctx false id
      (kept.refuse 401 (bytes "Unauthorized") (errorReply (bytes (jwtMessage S J secret now task.req))))
  | accepted {authHdr : Bytes} {known : HttpTask H} (hmode : ctx.all (·.authMode ≠ .jwt) = false)
    (hfind : evhttpFindHeader task.req.inputHeaders (bytes "Authorization") = some authHdr)
    (hbearer : startsWithNoCase (bytes "Bearer ") authHdr = true)
    (hok : (jwtVerify S J secret now (authHdr.drop 7) (some 33) (some 37)).status = .ok)
    (hknown : known =
      task.setIdentity (jwtVerify S J secret now (authHdr.drop 7) (some 33) (some 37))) :
    JwtCheck now task ctx true (contextSet · (some known.username.text) (some known.sessionId.text)
      (some known.clientIp.text) (some known.uri.text)) known

theorem workerProcessJwt_check (now : Int) (task : HttpTask H) (ctx : Option (MiddlewareCtx H)) :
    ∃ ok set task', JwtCheck S J secret now task ctx ok set task' ∧
      ∀ tls, workerProcessJwt S J secret now ⟨tls, task⟩ ctx = (ok, ⟨set tls, task'⟩) := by
  have hmsg : ∀ (kept : HttpTask H) (msg : List Char),
      jwtMessage S J secret now task.req = String.ofList msg →
      kept.refuse 401 (bytes "Unauthorized") (errorReply (bytes (jwtMessage S J secret now task.req))) =
        unauthorized kept (String.ofList
          (['\x7b', '"', 'e', 'r', 'r', 'o', 'r', '"', ':', '"'] ++ msg ++ ['"', '\x7d'])) := by
    intro kept msg h
    rw [h, errorReply_ofList, unauthorized]
  unfold workerProcessJwt
  dsimp only
  by_cases hmode : ctx.all (·.authMode ≠ .jwt) = true
  · exact ⟨_, _, _, .skipped hmode, fun _ => if_pos hmode⟩
  simp only [if_neg hmode]
  cases hfind : evhttpFindHeader task.req.inputHeaders (bytes "Authorization") with
  | none =>
    refine ⟨_, _, _, .refused task (.inl rfl), fun _ => ?_⟩
    rw [hmsg _ _ (by rw [jwtMessage, hfind])]
    rfl
  | some authHdr =>
    dsimp only
    cases hbearer : startsWithNoCase (bytes "Bearer ") authHdr with
    | false =>
      refine ⟨_, _, _, .refused task (.inl rfl), fun _ => ?_⟩
      rw [hmsg _ _ (by rw [jwtMessage, hfind]; simp only [hbearer]; rfl)]
      rfl
    | true =>
      simp only [Bool.not_true, Bool.false_eq_true, if_false]
      cases hstatus : (jwtVerify S J secret now (authHdr.drop 7) (some 33) (some 37)).status with
      | ok =>
        exact ⟨_, _, _, .accepted (by simpa using hmode) hfind hbearer hstatus rfl,
          fun _ => rfl⟩
      | _ =>
        refine ⟨_, _, _, .refused _ (.inr
          ⟨jwtVerify S J secret now (authHdr.drop 7) (some 33) (some 37), rfl⟩), fun _ => ?_⟩
        rw [hmsg _ _ (by rw [jwtMessage, hfind]; simp only [hbearer, hstatus]; rfl)]
        rfl

/-! ## The payload -/

/-- The message of `worker_process_payload` for a request it refuses. -/
def payloadMessage (tokenerNew : Bool) (req : Request) : String :=
  if !(evhttpFindHeader req.inputHeaders (bytes "Content-Type")).any isJsonContentType then
    "Invalid Content-Type. Expected application/json."
  else if req.inputBuffer.flatten.length = 0 then "Empty request body."
  else if !tokenerNew then "Out of memory allocating JSON parser"
  else "Invalid JSON payload or not a JSON object."

/-- A payload that is read: its type is JSON, there is a parser, and this returns an object. -/
structure ReadsPayload (tokenerNew : Bool) (req : Request) (parsedBody : Option Json) : Prop where
  contentType : (evhttpFindHeader req.inputHeaders (bytes "Content-Type")).any isJsonContentType = true
  nonempty : req.inputBuffer.flatten.length ≠ 0
  tokener : tokenerNew = true
  object : (parseInput K parsedBody req.inputBuffer).2.any (·.isObject) = true
  success : K.getError (parseInput K parsedBody req.inputBuffer).1 = .success

inductive PayloadCheck (tokenerNew : Bool) (task : HttpTask H) : Bool → HttpTask H → Prop
  | skipped (hcommand : task.req.command ≠ .post) : PayloadCheck tokenerNew task true task
  | refused (code : Int) (txt : Bytes) (parsedBody : Option Json)
    (hcommand : task.req.command = .post)
    (hreads : ¬ReadsPayload K tokenerNew task.req task.parsedBody) (htxt : txt ∈ refusalReasons) :
    PayloadCheck tokenerNew task false
      ({ task with parsedBody }.refuse code txt
        (errorReply (bytes (payloadMessage tokenerNew task.req))))
  | read (hcommand : task.req.command = .post)
    (hreads : ReadsPayload K tokenerNew task.req task.parsedBody) :
    PayloadCheck tokenerNew task true
      { task with parsedBody := (parseInput K task.parsedBody task.req.inputBuffer).2 }

theorem workerProcessPayload_check (tokenerNew : Bool) (task : HttpTask H) :
    ∃ ok task', PayloadCheck K tokenerNew task ok task' ∧
      ∀ tls, workerProcessPayload K tokenerNew ⟨tls, task⟩ = (ok, ⟨tls, task'⟩) := by
  unfold workerProcessPayload
  dsimp only
  by_cases hcommand : task.req.command ≠ .post
  · exact ⟨_, _, .skipped hcommand, fun _ => if_pos hcommand⟩
  rw [not_not] at hcommand
  simp only [hcommand, ne_eq, not_true_eq_false, if_false]
  cases hctype : (evhttpFindHeader task.req.inputHeaders (bytes "Content-Type")).any
      isJsonContentType with
  | false =>
    refine ⟨_, _, .refused 400 (bytes "Bad Request") task.parsedBody hcommand (fun h => ?_)
      (by decide), fun _ => ?_⟩
    · cases hctype.symm.trans h.contentType
    · have hmsg : payloadMessage tokenerNew task.req =
          "Invalid Content-Type. Expected application/json." := by simp [payloadMessage, hctype]
      rw [hmsg, errorReply_ofList]
      rfl
  | true =>
  by_cases hempty : task.req.inputBuffer.flatten.length = 0
  · refine ⟨_, _, .refused 400 (bytes "Bad Request") task.parsedBody hcommand
      (fun h => h.nonempty hempty) (by decide), fun _ => ?_⟩
    have hmsg : payloadMessage tokenerNew task.req = "Empty request body." := by
      simp [payloadMessage, hctype, hempty]
    rw [hmsg, errorReply_ofList, if_pos hempty]
    rfl
  simp only [if_neg hempty]
  cases tokenerNew with
  | false =>
    refine ⟨_, _, .refused 503 (bytes "Service Unavailable") task.parsedBody hcommand
      (fun h => ?_) (by decide), fun _ => ?_⟩
    · cases h.tokener
    · have hmsg : payloadMessage false task.req = "Out of memory allocating JSON parser" := by
        rw [payloadMessage, hctype, if_neg hempty]
        rfl
      rw [hmsg, errorReply_ofList]
      rfl
  | true =>
  simp only [Bool.not_true, Bool.false_eq_true, if_false]
  have hobject : (parseInput K task.parsedBody task.req.inputBuffer).2.all (!·.isObject) =
      !(parseInput K task.parsedBody task.req.inputBuffer).2.any (·.isObject) := by
    cases (parseInput K task.parsedBody task.req.inputBuffer).2 <;> rfl
  by_cases hparse : (parseInput K task.parsedBody task.req.inputBuffer).2.all (!·.isObject) ∨
      K.getError (parseInput K task.parsedBody task.req.inputBuffer).1 ≠ .success
  · refine ⟨_, _, .refused 400 (bytes "Bad Request")
      (parseInput K task.parsedBody task.req.inputBuffer).2 hcommand (fun h => ?_) (by decide),
      fun _ => ?_⟩
    · rw [hobject, h.object, h.success] at hparse
      exact hparse.elim Bool.false_ne_true fun hne => hne rfl
    · have hmsg : payloadMessage true task.req = "Invalid JSON payload or not a JSON object." := by
        rw [payloadMessage, hctype, if_neg hempty]
        rfl
      rw [hmsg, errorReply_ofList, if_pos hparse]
      rfl
  · refine ⟨_, _, .read hcommand ⟨hctype, hempty, rfl, ?_, ?_⟩, fun _ => if_neg hparse⟩
    · simpa [hobject] using fun h => hparse (.inl h)
    · exact not_not.mp fun h => hparse (.inr h)

/-- The verdict is one on the request and on what has been parsed before. -/
theorem PayloadCheck.passes_iff {K : Tokener} {task task' : HttpTask H}
    (h : PayloadCheck K tokenerNew task ok task') :
    ok = true ↔ (task.req.command = .post → ReadsPayload K tokenerNew task.req task.parsedBody) := by
  cases h with
  | skipped hcommand => exact iff_of_true rfl fun hpost => absurd hpost hcommand
  | refused _ _ _ hcommand hreads => exact iff_of_false Bool.false_ne_true fun h => hreads (h hcommand)
  | read _ hreads => exact iff_of_true rfl fun _ => hreads

/-! ## The schema -/

inductive ValidationCheck (task : HttpTask H) (ctx : Option (MiddlewareCtx H)) :
    Bool → HttpTask H → Prop
  | passed (hvalid : ∀ v body, ctx.bind (·.validationCtx) = some v → task.parsedBody = some body →
      (validateJson J v body ⟨1024, []⟩).1 = true) : ValidationCheck task ctx true task
  | refused {v : ValidationContext} {body : Json} (hv : ctx.bind (·.validationCtx) = some v)
    (hbody : task.parsedBody = some body) :
    ValidationCheck task ctx false (task.refuse 400 (bytes "Bad Request")
      (snprintf 1024 (errorReply (validateJson J v body ⟨1024, []⟩).2.text)))

theorem workerProcessValidation_check (task : HttpTask H) (ctx : Option (MiddlewareCtx H)) :
    ∃ ok task', ValidationCheck J task ctx ok task' ∧
      ∀ tls, workerProcessValidation J ⟨tls, task⟩ ctx = (ok, ⟨tls, task'⟩) := by
  unfold workerProcessValidation
  dsimp only
  split
  · rename_i v body hv hbody
    split
    · rename_i hvalid
      refine ⟨_, _, .passed fun v' body' hv' hbody' => ?_, fun _ => rfl⟩
      cases hv.symm.trans hv'
      cases hbody.symm.trans hbody'
      rw [hvalid]
    · rename_i err hinvalid
      refine ⟨_, _, .refused hv hbody, fun _ => ?_⟩
      rw [hinvalid]
      rfl
  · rename_i hnone
    exact ⟨_, _, .passed fun v body hv hbody => absurd hbody (hnone v body hv), fun _ => rfl⟩

/-! ## The task -/

/-- A property of tasks that whatever a worker does to a task keeps. -/
structure WorkerKeeps (Q : HttpTask H → Prop) : Prop where
  setIdentity : ∀ task res, Q task → Q (task.setIdentity res)
  parsedBody : ∀ task parsedBody, Q task → Q { task with parsedBody }
  refuse : ∀ task code txt msg, txt ∈ refusalReasons → Q task → Q (task.refuse code txt msg)
  answer : ∀ task statusCode workerBuf outContentType, Q task →
    Q { task with statusCode, workerBuf, outContentType }

section
variable {S J K secret} {Q : HttpTask H → Prop} (hQ : WorkerKeeps Q)
include hQ

theorem JwtCheck.keeps {now : Int} {ok : Bool} {set : ThreadLocals → ThreadLocals}
    {task task' : HttpTask H} {ctx : Option (MiddlewareCtx H)}
    (h : JwtCheck S J secret now task ctx ok set task') (htask : Q task) : Q task' := by
  cases h with
  | skipped => exact htask
  | refused kept hkept =>
    refine hQ.refuse _ _ _ _ (by decide) ?_
    obtain rfl | ⟨res, rfl⟩ := hkept
    · exact htask
    · exact hQ.setIdentity _ _ htask
  | accepted _ _ _ _ hknown => exact hknown ▸ hQ.setIdentity _ _ htask

theorem PayloadCheck.keeps {task task' : HttpTask H} (h : PayloadCheck K tokenerNew task ok task')
    (htask : Q task) : Q task' := by
  cases h with
  | skipped => exact htask
  | refused _ _ _ _ _ htxt => exact hQ.refuse _ _ _ _ htxt (hQ.parsedBody _ _ htask)
  | read => exact hQ.parsedBody _ _ htask

theorem ValidationCheck.keeps {task task' : HttpTask H} {ctx : Option (MiddlewareCtx H)}
    (h : ValidationCheck J task ctx ok task') (htask : Q task) : Q task' := by
  cases h with
  | passed => exact htask
  | refused => exact hQ.refuse _ _ _ _ (by decide) htask

theorem WorkerKeeps.workerInvoke (exec : H → Option Json → HandlerState → HandlerState)
    {w : WorkerState H} (ctx : Option (MiddlewareCtx H)) (h : Q w.task) :
    Q (workerInvoke exec w ctx).1.task := by
  unfold ApiServer.workerInvoke
  split
  · exact h
  · exact hQ.answer _ _ _ _ h

variable (S J K secret) in
/-- What every check and the handler keep, the worker keeps. -/
theorem WorkerKeeps.workerHandle (exec : H → Option Json → HandlerState → HandlerState)
    (env : WorkerEnv) {w : WorkerState H} (h : Q w.task) :
    Q (workerHandle S J K secret exec env w).1.task := by
  unfold ApiServer.workerHandle
  dsimp only
  generalize w.task.middlewareCtx = ctx
  obtain ⟨ok, set, task₁, hjwt, heq⟩ := workerProcessJwt_check S J secret env.now w.task ctx
  have h₁ := hjwt.keeps hQ h
  rw [show workerProcessJwt S J secret env.now w ctx = _ from heq w.tls]
  cases ok with
  | false => exact h₁
  | true =>
  dsimp only
  obtain ⟨ok, task₂, hpayload, heq⟩ := workerProcessPayload_check K env.tokenerNew task₁
  have h₂ := hpayload.keeps hQ h₁
  rw [heq]
  cases ok with
  | false => exact h₂
  | true =>
  dsimp only
  obtain ⟨ok, task₃, hvalidation, heq⟩ := workerProcessValidation_check J task₂ ctx
  have h₃ := hvalidation.keeps hQ h₂
  rw [heq]
  cases ok with
  | false => exact h₃
  | true => exact hQ.workerInvoke exec ctx h₃

end
end
end ApiServer
