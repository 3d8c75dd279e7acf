import ApiServer.Admission
import ApiServer.Handlers
import ApiServer.Jwt.Soundness

/-!
# One request does not see another

A worker keeps its thread-local variables, and a slot of the task pool what the last request left in
it. `worker_process_task` clears the variables on every way out, except for the last native error of
the database layer, and `task_pool_alloc` clears the slot. So what a request finds does not depend
on the requests before it, provided that its handler does not read the native error of another one.
-/

namespace ApiServer
open Bytes Function

/-! ## What a request may see -/

/-- All but the last native error. -/
def ThreadLocals.context (tls : ThreadLocals) : ThreadLocals :=
  { tls with lastNativeError := 0, lastErrorMsg := .empty }

def HandlerState.context (st : HandlerState) : HandlerState := { st with tls := st.tls.context }

def WorkerState.context (w : WorkerState H) : WorkerState H := { w with tls := w.tls.context }

def Call.context (call : Call H) : Call H := { call with tls := call.tls.context }

/-- A handler is a function of its body and of the context; the answers of databases and remote
services are part of it. -/
structure HandlerProgram where
  run : Option Json → HandlerState → HandlerState
  isolated : ∀ body st, (run body st).context = (run body st.context).context

/-- A handler that works on the database layer, with the handles the thread has cached. -/
def runOnDatabase (handler : DbM Int) (cache : Db) (st : HandlerState) : HandlerState :=
  let r := handler { cache with tls := st.tls, outBuf := st.outBuf }
  ⟨r.2.tls, r.1, r.2.outBuf⟩

/-- A handler of databases; any other one of the server is given by what it answers. -/
def databaseProgram (J : JsonC) (fmt17g : Rat → Bytes) (cfg : Config) (cache : Db)
    (a : DatabaseAnswers) (other : HandlerProgram) (handler : Handler) : HandlerProgram where
  run body st :=
    match databaseHandler J fmt17g cfg a body handler with
    | some m => runOnDatabase m cache st
    | none => other.run body st
  -- the first query of a handler resets the native error
  isolated body st := by
    cases handler with
    | ping | version | sysinfo | rsysinfo | rcustomer | uuid | secretb32 | login | getqr
    | verifytotp | metrics | upload | coordinator3 => exact other.isolated body st
    | _ => rfl

/-! ## One task -/

section
variable {H : Type} (S : Sodium) (J : JsonC) (K : Tokener) (secret : Bytes)
  (handlers : H → HandlerProgram) (w : WorkerState H) (ctx : Option (MiddlewareCtx H))

theorem workerProcessJwt_context (now : Int) :
    workerProcessJwt S J secret now w.context ctx =
      ((workerProcessJwt S J secret now w ctx).1,
        (workerProcessJwt S J secret now w ctx).2.context) := by
  obtain ⟨ok, set, task, hcheck, heq⟩ := workerProcessJwt_check S J secret now w.task ctx
  have hset : ∀ tls, set tls.context = (set tls).context := by
    intro tls
    cases hcheck <;> rfl
  rw [show workerProcessJwt S J secret now w ctx = _ from heq w.tls,
    show workerProcessJwt S J secret now w.context ctx = _ from heq w.tls.context, hset]
  rfl

theorem workerProcessPayload_context (tokenerNew : Bool) :
    workerProcessPayload K tokenerNew w.context =
      ((workerProcessPayload K tokenerNew w).1, (workerProcessPayload K tokenerNew w).2.context) := by
  obtain ⟨ok, task, -, heq⟩ := workerProcessPayload_check K tokenerNew w.task
  rw [show workerProcessPayload K tokenerNew w = _ from heq w.tls,
    show workerProcessPayload K tokenerNew w.context = _ from heq w.tls.context]
  rfl

theorem workerProcessPayload_tls (tokenerNew : Bool) :
    (workerProcessPayload K tokenerNew w).2.tls = w.tls := by
  obtain ⟨ok, task, -, heq⟩ := workerProcessPayload_check K tokenerNew w.task
  rw [show workerProcessPayload K tokenerNew w = _ from heq w.tls]

theorem workerProcessValidation_context :
    workerProcessValidation J w.context ctx =
      ((workerProcessValidation J w ctx).1, (workerProcessValidation J w ctx).2.context) := by
  obtain ⟨ok, task, -, heq⟩ := workerProcessValidation_check J w.task ctx
  rw [show workerProcessValidation J w ctx = _ from heq w.tls,
    show workerProcessValidation J w.context ctx = _ from heq w.tls.context]
  rfl

/-- What can be seen of the outcome of a task. -/
def seen (r : WorkerState H × Option (Call H)) : WorkerState H × Option (Call H) :=
  (r.1.context, r.2.map Call.context)

theorem workerInvoke_context :
    seen (workerInvoke (fun h => (handlers h).run) w.context ctx) =
      seen (workerInvoke (fun h => (handlers h).run) w ctx) := by
  unfold workerInvoke
  cases ctx.bind (·.handler) with
  | none => rfl
  | some handler =>
    have hrun := (handlers handler).isolated w.task.parsedBody
      ⟨w.tls, w.task.statusCode, w.task.workerBuf⟩
    exact congrArg (fun st : HandlerState =>
      (({ tls := st.tls
          task := { w.task with
            statusCode := st.outStatus
            workerBuf := st.outBuf
            outContentType := copyOrClear 128 (contextGetContentType st.tls) } },
        some ⟨handler, w.task.parsedBody, w.tls.context⟩) : WorkerState H × Option (Call H)))
      hrun.symm

theorem workerHandle_context (env : WorkerEnv) :
    seen (workerHandle S J K secret (fun h => (handlers h).run) env w.context) =
      seen (workerHandle S J K secret (fun h => (handlers h).run) env w) := by
  unfold workerHandle
  dsimp only
  rw [show w.context.task = w.task from rfl]
  generalize w.task.middlewareCtx = ctx
  rw [workerProcessJwt_context]
  obtain ⟨_ | _, w₁⟩ := workerProcessJwt S J secret env.now w ctx
  · rfl
  dsimp only
  rw [workerProcessPayload_context]
  obtain ⟨_ | _, w₂⟩ := workerProcessPayload K env.tokenerNew w₁
  · rfl
  dsimp only
  rw [workerProcessValidation_context]
  obtain ⟨_ | _, w₃⟩ := workerProcessValidation J w₂ ctx
  · rfl
  · exact workerInvoke_context handlers w₃ ctx

/-- What can be seen of a task does not depend on the native error the thread has kept. -/
theorem workerProcessTask_context (env : WorkerEnv) :
    seen (workerProcessTask S J K secret (fun h => (handlers h).run) env w.context) =
      seen (workerProcessTask S J K secret (fun h => (handlers h).run) env w) := by
  let w₀ := { w with tls := loggerSetRequestId w.tls (some w.task.requestId.text) }
  exact congrArg (fun r : WorkerState H × Option (Call H) =>
    (({ task := { r.1.task with
          statusTxt := some (r.1.task.statusTxt.getD (getHttpStatusText r.1.task.statusCode)) }
        tls := (contextClear (loggerClearRequestId (clearThreadError r.1.tls))).context }, r.2) :
      WorkerState H × Option (Call H)))
    (workerHandle_context S J K secret handlers w₀ env)

/-! ## Who is logged in -/

/-- A claim that fits comes whole from `jwt_verify` through the task into the context. -/
theorem copied_text {n : Nat} {s : Bytes} (h : (cstr s).length < n) :
    (copyOrClear n (some (CBuf.strlcpy n (cstr s)).text)).text = cstr s := by
  have hcstr : cstr (cstr s) = cstr s := cstr_eq_self (zero_notMem_cstr s)
  rw [copyOrClear, CBuf.strlcpy_self, CBuf.strlcpy_of_lt (by rwa [hcstr]), hcstr]

/-- A handler finds nobody logged in on a route without tokens, and on the others the two claims of
the token as C strings. -/
theorem workerProcessTask_identity {exec : H → Option Json → HandlerState → HandlerState}
    {env : WorkerEnv} {route : MiddlewareCtx H} {call : Call H}
    (hroute : w.task.middlewareCtx = some route)
    (h : (workerProcessTask S J K secret exec env w).2 = some call) :
    route.authMode ≠ .jwt ∧ call.tls.user = .empty ∧ call.tls.session = .empty ∨
      route.authMode = .jwt ∧ ∃ token u s, BearerToken w.task.req token ∧
        (jwtVerify S J secret env.now token (some 33) (some 37)).status = .ok ∧
        tokenClaim S J token (bytes "username") = some u ∧
        tokenClaim S J token (bytes "sessionId") = some s ∧
        call.tls.user.text = cstr u ∧ call.tls.session.text = cstr s := by
  obtain ⟨w₁, w₂, hjwt, hpayload, -, -, -, htls⟩ := workerHandle_call
    (w := { w with tls := loggerSetRequestId w.tls (some w.task.requestId.text) }) hroute h
  have hkeep := workerProcessPayload_tls K w₁ env.tokenerNew
  rw [hpayload] at hkeep
  rw [show w₂.tls = w₁.tls from hkeep] at htls
  obtain ⟨hmode, rfl⟩ | ⟨hmode, token, htoken, hok, rfl⟩ := workerProcessJwt_passed hjwt
  · rw [htls]
    exact .inl ⟨hmode, rfl, rfl⟩
  · obtain ⟨u, s, A, B, C, header, payload, obj, exp, hsound, hu, hs, hres⟩ := jwtVerify_ok hok
    refine .inr ⟨hmode, token, u, s, htoken, hok, hsound.claims.1, hsound.claims.2, ?_⟩
    rw [htls, hres]
    exact ⟨copied_text hu, copied_text hs⟩

end

/-! ## A worker's tasks one after another -/

/-- One request on its way through a worker: the slot it is given and all that comes from outside. -/
structure Job (H : Type) where
  slot : Nat
  req : Request
  route : MiddlewareCtx H
  startTime : Timespec := ⟨0, 0⟩
  reactorId : Nat := 0
  cancelled : Bool := false
  env : WorkerEnv
  handlers : H → HandlerProgram

/-- What one request may leave to the next. -/
structure WorkerThread where
  tls : ThreadLocals := {}
  slots : Nat → TaskSlot := fun _ => {}

section
variable {H : Type} (S : Sodium) (J : JsonC) (K : Tokener) (cfg : Config)

/-- The request goes through the reactor into its slot and then through `worker_thread_main`. The
result is the task as the worker hands it back, with the call of a handler; there is none if the
reactor has answered by itself. -/
def serve (s : WorkerThread) (job : Job H) : WorkerThread × Option (HttpTask H × Option (Call H)) :=
  match apiMiddlewareWrapper cfg job.startTime job.reactorId
    (some (taskPoolReset (s.slots job.slot))) job.req (some job.route) with
  | .filled _ task =>
    let (w, call) :=
      if job.cancelled then (⟨s.tls, task⟩, none)
      else
        workerProcessTask S J K (jwtSecretBytes cfg) (fun h => (job.handlers h).run) job.env
          ⟨s.tls, task⟩
    ({ tls := w.tls, slots := update s.slots job.slot w.task.toTaskSlot }, some (w.task, call))
  | _ => (s, none)

def serveAll (s : WorkerThread) (jobs : List (Job H)) : WorkerThread :=
  jobs.foldl (fun s job => (serve S J K cfg s job).1) s

/-- Between two tasks the thread-local variables are clear, but for the native error. -/
theorem serve_cleared {s : WorkerThread} (h : s.tls.context = {}) (job : Job H) :
    (serve S J K cfg s job).1.tls.context = {} := by
  unfold serve
  split
  · dsimp only
    split
    · exact h
    · rfl
  · exact h

theorem serveAll_cleared {s : WorkerThread} (h : s.tls.context = {}) (jobs : List (Job H)) :
    (serveAll S J K cfg s jobs).tls.context = {} := by
  induction jobs generalizing s with
  | nil => exact h
  | cons job jobs ih => exact ih (serve_cleared S J K cfg h job)

/-- A thread between two tasks serves a request as a new thread does. -/
theorem serve_fresh {s : WorkerThread} (h : s.tls.context = {}) (job : Job H) :
    (serve S J K cfg s job).2.map (fun r => (r.1, r.2.map Call.context)) =
      (serve S J K cfg {} job).2.map fun r => (r.1, r.2.map Call.context) := by
  unfold serve
  simp only [taskPoolReset]
  split
  · rename_i task _
    cases job.cancelled with
    | true => rfl
    | false =>
      have hseen :=
        workerProcessTask_context S J K (jwtSecretBytes cfg) job.handlers ⟨s.tls, task⟩ job.env
      rw [WorkerState.context, h] at hseen
      exact congrArg (fun r : WorkerState H × Option (Call H) => some (r.1.task, r.2)) hseen.symm
  · rfl

theorem serve_call {s : WorkerThread} {job : Job H} {task : HttpTask H} {call : Call H}
    (h : (serve S J K cfg s job).2 = some (task, some call)) :
    ∃ task₀ : HttpTask H, task₀.req = job.req ∧ task₀.middlewareCtx = some job.route ∧
      (workerProcessTask S J K (jwtSecretBytes cfg) (fun h => (job.handlers h).run) job.env
        ⟨s.tls, task₀⟩).2 = some call := by
  unfold serve at h
  split at h
  · rename_i task₀ hfilled
    obtain ⟨-, hreq, hroute, -⟩ := apiMiddlewareWrapper_filled hfilled
    refine ⟨task₀, hreq, hroute, ?_⟩
    cases hcancelled : job.cancelled with
    | true =>
      rw [hcancelled] at h
      cases h
    | false =>
      rw [hcancelled] at h
      exact congrArg Prod.snd (Option.some.inj h)
  · cases h

/-! ## Isolation -/

/-- What the client gets and what the handler has found. -/
structure Observation (H : Type) where
  statusCode : Int
  statusTxt : Option Bytes
  contentType : CBuf 128
  body : Bytes
  call : Option (H × Option Json × Option Bytes × Option Bytes)

def observe (r : HttpTask H × Option (Call H)) : Observation H where
  statusCode := r.1.statusCode
  statusTxt := r.1.statusTxt
  contentType := r.1.outContentType
  body := r.1.workerBuf
  call := r.2.map fun call =>
    (call.handler, call.body, contextGetUser call.tls, contextGetSessionId call.tls)

/-- The handler finds exactly the claims of the token verified for the request. -/
structure Identified (S : Sodium) (J : JsonC) (cfg : Config) (job : Job H) (call : Call H) :
    Prop where
  nobody : job.route.authMode ≠ .jwt →
    contextGetUser call.tls = none ∧ contextGetSessionId call.tls = none
  owner : job.route.authMode = .jwt → ∃ token, BearerToken job.req token ∧
    (jwtVerify S J (jwtSecretBytes cfg) job.env.now token (some 33) (some 37)).status = .ok ∧
    contextGetUser call.tls = tokenClaim S J token (bytes "username") ∧
    contextGetSessionId call.tls = tokenClaim S J token (bytes "sessionId")

/-- The two claims of the request's token are not empty and have no embedded NUL. -/
def PlainClaims (S : Sodium) (J : JsonC) (req : Request) : Prop :=
  ∀ token, BearerToken req token → ∀ key ∈ [bytes "username", bytes "sessionId"], ∀ text,
    tokenClaim S J token key = some text → text ≠ [] ∧ 0 ∉ text

theorem bearerToken_unique {req : Request} (h : BearerToken req token) (h' : BearerToken req token') :
    token = token' := by
  obtain ⟨scheme, hscheme, hfind⟩ := h
  obtain ⟨scheme', hscheme', hfind'⟩ := h'
  have hlength : ∀ {s : Bytes}, eqNoCase s (bytes "Bearer ") = true → s.length = 7 := fun h => by
    have := congrArg List.length (eq_of_beq h)
    rwa [List.length_map, List.length_map] at this
  rw [hfind] at hfind'
  exact (List.append_inj (Option.some.inj hfind')
    ((hlength hscheme).trans (hlength hscheme').symm)).2

theorem get_eq_some_iff {b : CBuf n} (h : b.text = cstr s) : b.get = some s ↔ s ≠ [] ∧ 0 ∉ s := by
  unfold CBuf.get
  rw [h]
  constructor
  · intro hget
    split at hget
    · cases hget
    · rename_i hne
      have heq := Option.some.inj hget
      exact ⟨heq ▸ hne, cstr_eq_self_iff.mp heq⟩
  · rintro ⟨hne, hnul⟩
    rw [cstr_eq_self hnul, if_neg hne]

theorem identified_iff {s : WorkerThread} {job : Job H} {task : HttpTask H} {call : Call H}
    (h : (serve S J K cfg s job).2 = some (task, some call)) :
    Identified S J cfg job call ↔ (job.route.authMode = .jwt → PlainClaims S J job.req) := by
  obtain ⟨task₀, hreq, hroute, hcall⟩ := serve_call S J K cfg h
  obtain ⟨hmode, huser, hsession⟩ | ⟨hmode, token, u, t, htoken, hok, hu, ht, huser, hsession⟩ :=
    workerProcessTask_identity S J K (jwtSecretBytes cfg) _ hroute hcall
  · refine ⟨fun _ h => absurd h hmode, fun _ => ⟨fun _ => ?_, fun h => absurd h hmode⟩⟩
    rw [contextGetUser, contextGetSessionId, huser, hsession]
    exact ⟨rfl, rfl⟩
  rw [hreq] at htoken
  have hclaims : (contextGetUser call.tls = some u ∧ contextGetSessionId call.tls = some t) ↔
      (u ≠ [] ∧ 0 ∉ u) ∧ t ≠ [] ∧ 0 ∉ t :=
    and_congr (get_eq_some_iff huser) (get_eq_some_iff hsession)
  constructor
  · intro hid _ token' htoken' key hkey text htext
    obtain ⟨token'', htoken'', -, hgetU, hgetT⟩ := hid.owner hmode
    obtain rfl := bearerToken_unique htoken htoken'
    obtain rfl := bearerToken_unique htoken htoken''
    obtain ⟨hplainU, hplainT⟩ := hclaims.mp ⟨hgetU.trans hu, hgetT.trans ht⟩
    simp only [List.mem_cons, List.not_mem_nil, or_false] at hkey
    obtain rfl | rfl := hkey
    · cases hu.symm.trans htext
      exact hplainU
    · cases ht.symm.trans htext
      exact hplainT
  · intro hplain
    have hplain := hplain hmode token htoken
    obtain ⟨hgetU, hgetT⟩ := hclaims.mpr ⟨hplain _ (List.mem_cons_self ..) u hu,
      hplain _ (List.mem_cons_of_mem _ (List.mem_cons_self ..)) t ht⟩
    exact ⟨fun h => absurd hmode h,
      fun _ => ⟨token, htoken, hok, hgetU.trans hu.symm, hgetT.trans ht.symm⟩⟩

theorem observe_context (r : HttpTask H × Option (Call H)) :
    observe (r.1, r.2.map Call.context) = observe r := by
  obtain ⟨task, _ | call⟩ := r <;> rfl

/-- After any history a request is served as by a new thread. -/
theorem observe_serveAll (slots : Nat → TaskSlot) (jobs : List (Job H)) (job : Job H) :
    (serve S J K cfg (serveAll S J K cfg { slots := slots } jobs) job).2.map observe =
      (serve S J K cfg {} job).2.map observe := by
  have hcleared := serveAll_cleared S J K cfg (s := { slots := slots }) rfl jobs
  have hserve := congrArg (Option.map observe) (serve_fresh S J K cfg hcleared job)
  simpa only [Option.map_map, comp_def, observe_context] using hserve

/-- What a request gets does not depend on the requests its worker has served before or on what
they have left in the slots; and its handler finds the claims of its own token, exactly when these
are C strings that are not empty. -/
theorem request_isolated_iff (slots slots' : Nat → TaskSlot) (jobs jobs' : List (Job H))
    (job : Job H) :
    ((serve S J K cfg (serveAll S J K cfg { slots := slots } jobs) job).2.map observe =
      (serve S J K cfg (serveAll S J K cfg { slots := slots' } jobs') job).2.map observe) ∧
    ∀ task call,
      (serve S J K cfg (serveAll S J K cfg { slots := slots } jobs) job).2 = some (task, some call) →
        (Identified S J cfg job call ↔ (job.route.authMode = .jwt → PlainClaims S J job.req)) :=
  ⟨(observe_serveAll S J K cfg slots jobs job).trans
      (observe_serveAll S J K cfg slots' jobs' job).symm,
    fun _ _ => identified_iff S J K cfg⟩

end

/-! ## Signed requests -/

section
variable {H : Type} {S : Sodium} {J : JsonC} {K : Tokener} {secret : Bytes}

theorem workerProcessJwt_signed {token : Bytes} {w : WorkerState H} {route : MiddlewareCtx H}
    (hmode : route.authMode = .jwt)
    (hfind : evhttpFindHeader w.task.req.inputHeaders (bytes "Authorization") =
      some (bytes "Bearer " ++ token))
    (hok : (jwtVerify S J secret now token (some 33) (some 37)).status = .ok) :
    workerProcessJwt S J secret now w (some route) =
      let task := w.task.setIdentity (jwtVerify S J secret now token (some 33) (some 37))
      (true, ⟨contextSet w.tls (some task.username.text) (some task.sessionId.text)
        (some task.clientIp.text) (some task.uri.text), task⟩) := by
  have hbearer : startsWithNoCase (bytes "Bearer ") (bytes "Bearer " ++ token) = true := rfl
  have htoken : (bytes "Bearer " ++ token).drop 7 = token := rfl
  unfold workerProcessJwt
  simp only [Option.all_some, hmode, ne_eq, not_true_eq_false, decide_false, Bool.false_eq_true,
    if_false, hfind, hbearer, Bool.not_true, htoken, hok]

/-- A request without a payload, once its token is accepted. -/
theorem workerProcessTask_get {exec : H → Option Json → HandlerState → HandlerState}
    {env : WorkerEnv} {w w₁ : WorkerState H} {route : MiddlewareCtx H}
    (hroute : w.task.middlewareCtx = some route)
    (hjwt : workerProcessJwt S J secret env.now
      { w with tls := loggerSetRequestId w.tls (some w.task.requestId.text) } (some route) = (true, w₁))
    (hget : w₁.task.req.command ≠ .post) (hschema : route.validationCtx = none)
    (hhandler : route.handler = some handler) :
    (workerProcessTask S J K secret exec env w).2 =
      some ⟨handler, w₁.task.parsedBody, w₁.tls⟩ := by
  have hpayload : workerProcessPayload K env.tokenerNew w₁ = (true, w₁) := if_pos hget
  have hvalid : workerProcessValidation J w₁ (some route) = (true, w₁) := by
    unfold workerProcessValidation
    rw [Option.bind_some, hschema]
  unfold workerProcessTask workerHandle
  dsimp only
  rw [hroute, hjwt]
  dsimp only
  rw [hpayload]
  dsimp only
  rw [hvalid]
  dsimp only
  rw [workerInvoke, Option.bind_some, hhandler]

theorem serve_filled {cfg : Config} {s : WorkerThread} {job : Job H} {task : HttpTask H}
    (hfilled : apiMiddlewareWrapper cfg job.startTime job.reactorId
      (some (taskPoolReset (s.slots job.slot))) job.req (some job.route) = .filled headers task)
    (hcancelled : job.cancelled = false)
    (hr : workerProcessTask S J K (jwtSecretBytes cfg) (fun h => (job.handlers h).run) job.env
      ⟨s.tls, task⟩ = r) : (serve S J K cfg s job).2 = some (r.1.task, r.2) := by
  unfold serve
  rw [hfilled, hcancelled]
  dsimp only
  rw [if_neg Bool.false_ne_true, hr]

end

/-- A request for `/shippers` with a token for this payload. -/
def shippersJob (payload : Bytes) : Job Handler where
  slot := 0
  req :=
    { command := .get
      uri := bytes "/shippers"
      inputHeaders := [(bytes "Authorization",
        bytes "Bearer " ++ signedToken .reference (.replicate 32 7) jwtHeader payload)]
      inputBuffer := [] }
  route := route "/shippers" .get none .shippers true .jwt
  env := { now := 9 }
  handlers := databaseProgram .reference (fun _ => []) {} {} {} ⟨fun _ st => st, fun _ _ => rfl⟩

def shippersConfig : Config :=
  { jwtSecret := .strlcpy 1024 (List.replicate 32 (bytes "07")).flatten }

theorem jwtSecretBytes_shippersConfig : jwtSecretBytes shippersConfig = .replicate 32 7 := by
  decide +kernel

theorem zero_notMem_signedToken {S : Sodium} (hS : S.Lawful) (secret header payload : Bytes) :
    0 ∉ signedToken S secret header payload := by
  have halphabet : ∀ b, 0 ∉ S.bin2base64 b := fun b h => absurd (hS.alphabet b 0 h) (by decide)
  simp [signedToken, halphabet]

theorem find_shippersJob (payload : Bytes) :
    evhttpFindHeader (shippersJob payload).req.inputHeaders (bytes "Authorization") =
      some (bytes "Bearer " ++ signedToken .reference (.replicate 32 7) jwtHeader payload) := by
  refine congrArg some (cstr_eq_self fun h => (List.mem_append.mp h).elim (by decide) ?_)
  exact zero_notMem_signedToken Sodium.reference_lawful _ _ _

theorem serve_shippers (s : WorkerThread) (payload : Bytes) (hlen : payload.length ≤ 8191)
    (hparse : jwtParsePayload .reference 9 payload (some 33) (some 37) =
      { status := .ok, username := some u, sessionId := some t }) :
    ∃ task call, (serve .reference .reference .reference shippersConfig s (shippersJob payload)).2 =
        some (task, some call) ∧
      contextGetUser call.tls = (copyOrClear 33 (some (CBuf.strlcpy 33 u).text)).get ∧
      contextGetSessionId call.tls = (copyOrClear 37 (some (CBuf.strlcpy 37 t).text)).get := by
  have hver : jwtVerify .reference .reference (jwtSecretBytes shippersConfig) 9
      (signedToken .reference (.replicate 32 7) jwtHeader payload) (some 33) (some 37) =
        { status := .ok, username := some u, sessionId := some t } := by
    rw [jwtSecretBytes_shippersConfig]
    exact (jwtVerify_signed Sodium.reference_lawful hlen).2.trans hparse
  let task : HttpTask Handler :=
    { req := (shippersJob payload).req
      middlewareCtx := some (shippersJob payload).route
      clientIp := .strlcpy 64 (bytes "unknown")
      uri := .strlcpy 1024 (bytes "/shippers") }
  have hfilled : apiMiddlewareWrapper shippersConfig ⟨0, 0⟩ 0 (some (taskPoolReset (s.slots 0)))
      (shippersJob payload).req (some (shippersJob payload).route) =
        .filled (injectSecurityHeaders []) task := rfl
  have hjwt := workerProcessJwt_signed (S := .reference) (J := .reference)
    (w := ⟨loggerSetRequestId s.tls (some task.requestId.text), task⟩)
    (show (shippersJob payload).route.authMode = .jwt from rfl) (find_shippersJob payload)
    (by rw [hver])
  rw [hver] at hjwt
  have hcall : (workerProcessTask .reference .reference .reference (jwtSecretBytes shippersConfig)
      (fun h => ((shippersJob payload).handlers h).run) (shippersJob payload).env ⟨s.tls, task⟩).2 =
        _ := workerProcessTask_get rfl hjwt nofun rfl rfl
  generalize hr : workerProcessTask .reference .reference .reference (jwtSecretBytes shippersConfig)
    (fun h => ((shippersJob payload).handlers h).run) (shippersJob payload).env ⟨s.tls, task⟩ = r
    at hcall
  exact ⟨r.1.task, _, by rw [serve_filled hfilled rfl hr, hcall], rfl, rfl⟩

/-- The payload of a token for this user. -/
def userPayload (user : Bytes) : Bytes := payloadText user (bytes "s-1") 1 9

/-- A request that the client has given up. -/
def cancelledJob : Job Handler := { shippersJob (userPayload (bytes "bob")) with cancelled := true }

/-- After two requests for others the handler finds the owner of the third token. -/
theorem request_isolated_ann :
    let job := shippersJob (userPayload (bytes "ann"))
    let before := serveAll .reference .reference .reference shippersConfig {}
      [shippersJob nulPayload, cancelledJob]
    ((serve .reference .reference .reference shippersConfig before job).2.map observe =
      (serve .reference .reference .reference shippersConfig {} job).2.map observe) ∧
    ∃ task call, (serve .reference .reference .reference shippersConfig before job).2 =
        some (task, some call) ∧
      contextGetUser call.tls = some (bytes "ann") ∧
      (Identified .reference .reference shippersConfig job call ↔
        (job.route.authMode = .jwt → PlainClaims .reference .reference job.req)) := by
  intro job before
  obtain ⟨hsame, hiff⟩ := request_isolated_iff .reference .reference .reference shippersConfig
    (fun _ => {}) (fun _ => {}) [shippersJob nulPayload, cancelledJob] [] job
  have hparse : jwtParsePayload .reference 9 (userPayload (bytes "ann")) (some 33) (some 37) =
      { status := .ok, username := some (bytes "ann"), sessionId := some (bytes "s-1") } := rfl
  obtain ⟨task, call, hserve, huser, -⟩ := serve_shippers before _ (by decide) hparse
  exact ⟨hsame, task, call, hserve, huser, hiff task call hserve⟩

/-- The handler is told that `a` is logged in, whom the token does not name. -/
theorem request_identity_nul :
    ∃ task call, (serve .reference .reference .reference shippersConfig {}
        (shippersJob nulPayload)).2 = some (task, some call) ∧
      contextGetUser call.tls = some (bytes "a") ∧
      ¬Identified .reference .reference shippersConfig (shippersJob nulPayload) call := by
  have hparse : jwtParsePayload .reference 9 nulPayload (some 33) (some 37) =
      { status := .ok, username := some (bytes "a"), sessionId := some (bytes "s-1") } := rfl
  obtain ⟨task, call, hserve, huser, -⟩ := serve_shippers {} _ (by decide) hparse
  refine ⟨task, call, hserve, huser, fun hid => ?_⟩
  have hclaim : tokenClaim .reference .reference (signedToken .reference (.replicate 32 7) jwtHeader
      nulPayload) (bytes "username") = some [97, 0, 98] := by
    rw [tokenClaim, (@jwtVerify_signed .reference .reference (.replicate 32 7)
      Sodium.reference_lawful nulPayload (by decide) 9 none none).1]
    rfl
  obtain ⟨token, htoken, -, hexact, -⟩ := hid.owner rfl
  obtain rfl := bearerToken_unique htoken ⟨_, rfl, find_shippersJob nulPayload⟩
  rw [huser, hclaim] at hexact
  exact absurd hexact (by decide)

end ApiServer
