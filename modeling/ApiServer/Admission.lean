import ApiServer.Pipeline
import ApiServer.Routes
import ApiServer.Worker.Checks

/-!
# What has been checked when a handler runs

The checks of a request are spread over the reactor, which fills a task only if its own pass, and
the worker that later finds the task in its pool. `Admitted` puts them together, and the run lemma
says that a worker is only ever given tasks that a reactor has filled.
-/

namespace ApiServer
open Bytes Function

/-! ## The reactor's checks -/

theorem evhttpFindHeader_noNul {headers : Headers} (h : evhttpFindHeader headers key = some value) :
    0 ∉ value := by
  obtain ⟨header, _, rfl⟩ := Option.map_eq_some_iff.mp h
  exact zero_notMem_cstr _

theorem presentedKey_noNul {req : Request} (h : presentedKey req = some key) : 0 ∉ key := by
  unfold presentedKey at h
  split at h
  · rename_i hfind
    cases h
    exact evhttpFindHeader_noNul hfind
  · split at h
    · rename_i hfind
      split at h
      · cases h
        exact fun hmem => evhttpFindHeader_noNul hfind (List.mem_of_mem_drop hmem)
      · cases h
    · cases h

/-- A key that leaves room in its array is not cut, so the arrays agree only on the key itself. -/
theorem presentedKey_of_validate {cfg : Config} {req : Request}
    (hlen : cfg.telemetryApiKey.text.length < 1023) (h : validateTelemetryApiKey cfg req = true) :
    cfg.telemetryApiKey.text ≠ [] ∧ presentedKey req = some cfg.telemetryApiKey.text := by
  unfold validateTelemetryApiKey at h
  split at h
  · cases h
  · rename_i hne
    refine ⟨hne, ?_⟩
    dsimp only at h
    rw [Bool.and_eq_true, beq_iff_eq] at h
    have hkey := CBuf.zeroFilled_inj h.1
    split at hkey
    · rename_i key hpresented
      have hcstr : cstr key = key := cstr_eq_self (presentedKey_noNul hpresented)
      have htext : key.take 1023 = cfg.telemetryApiKey.text := by 
        rw [← hkey, CBuf.strlcpy_text, hcstr]; rfl
      rw [← htext, List.length_take] at hlen
      rw [hpresented, ← htext, List.take_of_length_le (by omega)]
    · exact absurd (hkey ▸ rfl) hne

/-- The reactor's checks, as far as they bear on the handler. -/
structure Cleared (cfg : Config) (req : Request) (ctx : MiddlewareCtx H) : Prop where
  cors : ∀ origin, evhttpFindHeader req.inputHeaders (bytes "Origin") = some origin →
    configIsOriginAllowed cfg origin = true
  method : req.command = ctx.allowedMethod
  notOptions : req.command ≠ .options
  apiKey : ctx.authMode = .apiKey → validateTelemetryApiKey cfg req = true

theorem serverValidateCors_passed {cfg : Config} {req : Request} {headers headers' : Headers}
    (h : serverValidateCors cfg req headers = (headers', none))
    (horigin : evhttpFindHeader req.inputHeaders (bytes "Origin") = some origin) :
    configIsOriginAllowed cfg origin = true := by
  unfold serverValidateCors at h
  rw [horigin] at h
  dsimp only at h
  split at h
  · assumption
  · cases h

theorem serverValidateMethodAndAuth_passed {cfg : Config} {req : Request} {ctx : MiddlewareCtx H}
    (h : serverValidateMethodAndAuth cfg req ctx = none) :
    req.command = ctx.allowedMethod ∧
      (ctx.authMode = .apiKey → validateTelemetryApiKey cfg req = true) := by
  unfold serverValidateMethodAndAuth at h
  split at h
  · cases h
  · rename_i hmethod
    split at h
    · cases h
    · rename_i hauth
      refine ⟨Decidable.not_not.mp hmethod, fun hmode => ?_⟩
      simpa [hmode] using hauth

/-- A filled task is the request of the reactor, on the route it came in by. -/
theorem serverEnqueueTask_filled {req : Request} {ctx : MiddlewareCtx H} {slot : Option TaskSlot}
    {headers headers' : Headers} {task : HttpTask H}
    (h : serverEnqueueTask req ctx startTime clientIp reactorId slot headers =
      .filled headers' task) :
    task.req = req ∧ task.middlewareCtx = some ctx ∧ task.parsedBody = none := by
  unfold serverEnqueueTask at h
  split at h
  · cases h
  · dsimp only at h
    split at h
    · cases h
    · cases h
      exact ⟨rfl, rfl, rfl⟩

theorem apiMiddlewareWrapper_filled {cfg : Config} {req : Request} {ctx : MiddlewareCtx H}
    {slot : Option TaskSlot} {headers : Headers} {task : HttpTask H}
    (h : apiMiddlewareWrapper cfg startTime reactorId slot req (some ctx) = .filled headers task) :
    Cleared cfg req ctx ∧ task.req = req ∧ task.middlewareCtx = some ctx ∧
      task.parsedBody = none := by
  unfold apiMiddlewareWrapper at h
  split at h
  · cases h
  · dsimp only at h
    split at h
    · cases h
    · split at h
      · cases h
      · rename_i hcors
        split at h
        · cases h
        · rename_i hoptions
          split at h
          · cases h
          · rename_i hauth
            obtain ⟨hmethod, hkey⟩ := serverValidateMethodAndAuth_passed hauth
            exact ⟨⟨fun _ => serverValidateCors_passed hcors, hmethod, hoptions, hkey⟩,
              serverEnqueueTask_filled h⟩

/-! ## The worker's checks -/

/-- The text after a case-insensitive `Bearer `. -/
def BearerToken (req : Request) (token : Bytes) : Prop :=
  ∃ scheme, eqNoCase scheme (bytes "Bearer ") = true ∧
    evhttpFindHeader req.inputHeaders (bytes "Authorization") = some (scheme ++ token)

theorem bearerToken_of_find {req : Request}
    (hfind : evhttpFindHeader req.inputHeaders (bytes "Authorization") = some authHdr)
    (h : startsWithNoCase (bytes "Bearer ") authHdr = true) :
    BearerToken req (authHdr.drop 7) :=
  ⟨authHdr.take 7, h, by rw [List.take_append_drop]; exact hfind⟩

/-- The media type is JSON: nothing follows it, or a parameter or a blank does. -/
def JsonContentType (req : Request) : Prop :=
  ∃ name rest, eqNoCase name (bytes "application/json") = true ∧
    evhttpFindHeader req.inputHeaders (bytes "Content-Type") = some (name ++ rest) ∧
    (rest = [] ∨ rest.head? = some 59 ∨ rest.head? = some 32)

theorem jsonContentType_of_find {req : Request}
    (hfind : evhttpFindHeader req.inputHeaders (bytes "Content-Type") = some ctype)
    (h : isJsonContentType ctype = true) : JsonContentType req := by
  rw [isJsonContentType, Bool.and_eq_true] at h
  obtain ⟨hname, hend⟩ := h
  refine ⟨ctype.take 16, ctype.drop 16, hname, by rw [List.take_append_drop]; exact hfind, ?_⟩
  rw [List.drop_eq_nil_iff, List.head?_drop]
  by_cases hlen : ctype.length ≤ 16
  · exact .inl hlen
  · right
    have hget : ctype[16]? = some (byteAt ctype 16) := by
      rw [byteAt, List.getD_eq_getElem?_getD, List.getElem?_eq_getElem (by omega)]; rfl
    have hne : byteAt ctype 16 ≠ 0 := by
      intro hzero
      rw [hzero] at hget
      exact evhttpFindHeader_noNul hfind (List.mem_of_getElem? hget)
    rw [hget]
    simpa [hne] using hend

section
variable {H : Type} {S : Sodium} {J : JsonC} {K : Tokener} {secret : Bytes}
  {exec : H → Option Json → HandlerState → HandlerState} {w w' : WorkerState H}

/-- On a route without tokens nobody is logged in, on the others the owner of the token is. -/
theorem workerProcessJwt_passed {ctx : MiddlewareCtx H}
    (h : workerProcessJwt S J secret now w (some ctx) = (true, w')) :
    ctx.authMode ≠ .jwt ∧
        w' = { w with
          tls := contextSet w.tls none none (some w.task.clientIp.text) (some w.task.uri.text) } ∨
      ctx.authMode = .jwt ∧ ∃ token, BearerToken w.task.req token ∧
        let res := jwtVerify S J secret now token (some 33) (some 37)
        let task := w.task.setIdentity res
        res.status = .ok ∧
          w' = ⟨contextSet w.tls (some task.username.text) (some task.sessionId.text)
            (some task.clientIp.text) (some task.uri.text), task⟩ := by
  obtain ⟨ok, set, task', hcheck, heq⟩ := workerProcessJwt_check S J secret now w.task (some ctx)
  cases (heq w.tls).symm.trans h
  cases hcheck with
  | skipped hmode => exact .inl ⟨by simpa using hmode, rfl⟩
  | accepted hmode hfind hbearer hok hknown =>
    subst hknown
    exact .inr ⟨by simpa using hmode, _, bearerToken_of_find hfind hbearer, hok, rfl⟩

theorem workerProcessPayload_passed (h : workerProcessPayload K tokenerNew w = (true, w'))
    (hbody : w.task.parsedBody = none) :
    w.task.req.command ≠ .post ∧ w' = w ∨
      w.task.req.command = .post ∧ JsonContentType w.task.req ∧
        ∃ obj, obj.isObject = true ∧ K.ReturnsFrom w.task.req.inputBuffer.flatten obj ∧
          w' = { w with task := { w.task with parsedBody := some obj } } := by
  obtain ⟨ok, task', hcheck, heq⟩ := workerProcessPayload_check K tokenerNew w.task
  cases (heq w.tls).symm.trans h
  cases hcheck with
  | skipped hcommand => exact .inl ⟨hcommand, rfl⟩
  | read hcommand hreads =>
    obtain ⟨ctype, hfind, hjson⟩ := (Option.any_eq_true ..).mp hreads.contentType
    have hobject := hreads.object
    have hsuccess := hreads.success
    rw [hbody] at hobject hsuccess ⊢
    cases hread : parseInput K none w.task.req.inputBuffer with
    | mk tok parsed =>
      rw [hread] at hobject hsuccess
      cases parsed with
      | none => cases hobject
      | some obj =>
        exact .inr ⟨hcommand, jsonContentType_of_find hfind hjson, obj, hobject,
          parseInput_returns K hread hsuccess, rfl⟩

theorem workerProcessValidation_passed {ctx : MiddlewareCtx H}
    (h : workerProcessValidation J w (some ctx) = (true, w')) :
    w' = w ∧ ∀ validationCtx body, ctx.validationCtx = some validationCtx →
      w.task.parsedBody = some body → (validateJson J validationCtx body ⟨1024, []⟩).1 = true := by
  obtain ⟨ok, task', hcheck, heq⟩ := workerProcessValidation_check J w.task (some ctx)
  cases (heq w.tls).symm.trans h
  cases hcheck with
  | passed hvalid => exact ⟨rfl, hvalid⟩

/-- All that holds of a request when the handler of its route is called. -/
structure Admitted (S : Sodium) (J : JsonC) (K : Tokener) (cfg : Config) (now : Int)
    (req : Request) (ctx : MiddlewareCtx H) (call : Call H) : Prop where
  handler : ctx.handler = some call.handler
  cors : ∀ origin, evhttpFindHeader req.inputHeaders (bytes "Origin") = some origin →
    configIsOriginAllowed cfg origin = true
  method : req.command = ctx.allowedMethod
  notOptions : req.command ≠ .options
  apiKey : ctx.authMode = .apiKey →
    cfg.telemetryApiKey.text ≠ [] ∧ presentedKey req = some cfg.telemetryApiKey.text
  jwt : ctx.authMode = .jwt → ∃ token, BearerToken req token ∧
    (jwtVerify S J (jwtSecretBytes cfg) now token (some 33) (some 37)).status = .ok
  payload : req.command = .post → JsonContentType req ∧
    ∃ obj, obj.isObject = true ∧ K.ReturnsFrom req.inputBuffer.flatten obj ∧ call.body = some obj
  validated : ∀ validationCtx, ctx.validationCtx = some validationCtx →
    ∃ obj, call.body = some obj ∧ (validateJson J validationCtx obj ⟨1024, []⟩).1 = true

/-- A call has gone through the three checks, and gets what the payload check has parsed. -/
theorem workerHandle_call {ctx : MiddlewareCtx H} (hctx : w.task.middlewareCtx = some ctx)
    (h : (workerHandle S J K secret exec env w).2 = some call) :
    ∃ w₁ w₂, workerProcessJwt S J secret env.now w (some ctx) = (true, w₁) ∧
      workerProcessPayload K env.tokenerNew w₁ = (true, w₂) ∧
      workerProcessValidation J w₂ (some ctx) = (true, w₂) ∧
      ctx.handler = some call.handler ∧ call.body = w₂.task.parsedBody ∧ call.tls = w₂.tls := by
  unfold workerHandle at h
  rw [hctx] at h
  dsimp only at h
  split at h
  · cases h
  · rename_i w₁ hjwt
    split at h
    · cases h
    · rename_i w₂ hpayload
      split at h
      · cases h
      · rename_i w₃ hvalid
        obtain ⟨rfl, _⟩ := workerProcessValidation_passed hvalid
        unfold workerInvoke at h
        split at h
        · cases h
        · rename_i handler hhandler
          cases h
          exact ⟨w₁, w₃, hjwt, hpayload, hvalid, hhandler, rfl, rfl⟩

theorem admitted_of_call {cfg : Config} {task : HttpTask H} {ctx : MiddlewareCtx H}
    (hpost : ctx.validationCtx ≠ none → ctx.allowedMethod = .post)
    (hkey : cfg.telemetryApiKey.text.length < 1023) (hcleared : Cleared cfg task.req ctx)
    (hctx : task.middlewareCtx = some ctx) (hbody : task.parsedBody = none)
    (h : (workerProcessTask S J K (jwtSecretBytes cfg) exec env ⟨tls, task⟩).2 = some call) :
    Admitted S J K cfg env.now task.req ctx call := by
  obtain ⟨w₁, w₂, hjwt, hpayload, hvalid, hhandler, hcall, _⟩ := workerHandle_call hctx h
  have hjwt := workerProcessJwt_passed hjwt
  have hsame : w₁.task.req = task.req ∧ w₁.task.parsedBody = none := by
    obtain ⟨_, rfl⟩ | ⟨_, _, _, _, rfl⟩ := hjwt <;> exact ⟨rfl, hbody⟩
  have hpayload := workerProcessPayload_passed hpayload hsame.2
  have hvalid := (workerProcessValidation_passed hvalid).2
  rw [hsame.1] at hpayload
  have hparsed : task.req.command = .post → JsonContentType task.req ∧ ∃ obj, obj.isObject = true ∧
      K.ReturnsFrom task.req.inputBuffer.flatten obj ∧ call.body = some obj := by
    intro hcommand
    obtain ⟨hne, _⟩ | ⟨_, htype, obj, hobj, hreturns, rfl⟩ := hpayload
    · exact absurd hcommand hne
    · exact ⟨htype, obj, hobj, hreturns, hcall⟩
  refine ⟨hhandler, hcleared.cors, hcleared.method, hcleared.notOptions,
    fun hmode => presentedKey_of_validate hkey (hcleared.apiKey hmode), ?_, hparsed, ?_⟩
  · intro hmode
    obtain ⟨hne, _⟩ | ⟨_, token, htoken, hok, _⟩ := hjwt
    · exact absurd hmode hne
    · exact ⟨token, htoken, hok⟩
  · intro validationCtx hv
    -- the route takes a POST, so the payload check has run and left an object
    have hmethod := hpost (by rw [hv]; exact Option.some_ne_none _)
    obtain ⟨_, obj, _, _, hobj⟩ := hparsed (hcleared.method.trans hmethod)
    exact ⟨obj, hobj, hvalid validationCtx obj hv (hcall ▸ hobj)⟩

end

/-! ## Runs of the server -/

/-- The flag `worker_pool_enqueue` reads. -/
def HttpTask.isFast (task : HttpTask H) : Bool := task.middlewareCtx.any (·.isFast)

/-- The wrapper has filled this task for a route of the table, in a slot of any history. -/
def Filled (cfg : Config) (routes : List (MiddlewareCtx H)) (task : HttpTask H) : Prop :=
  ∃ (startTime : Timespec) (reactorId : Nat) (slot : TaskSlot) (req : Request)
    (ctx : MiddlewareCtx H) (headers : Headers), ctx ∈ routes ∧
    apiMiddlewareWrapper cfg startTime reactorId (some (taskPoolReset slot)) req (some ctx) =
      .filled headers task

namespace Pipeline
variable {P : Topology} {Slot Job : Type} [DecidableEq Slot] [DecidableEq P.Worker]

/-- A reactor puts into a slot what the wrapper has filled. -/
def Dispatches (cfg : Config) (routes : List (MiddlewareCtx H)) (_ : State P Slot (HttpTask H)) :
    Event P Slot (HttpTask H) → Prop
  | .receive _ _ task => Filled cfg routes task
  | _ => True

/-- Only a reactor that receives a request writes a job, and only a worker that processes its task
runs one. -/
theorem Step.job_ran {isFast : Job → Bool} {s s' : State P Slot Job} {e : Event P Slot Job}
    (h : Step isFast s e s') :
    s'.job = s.job ∧ s'.hist.ran = s.hist.ran ∨
      (∃ r t job, e = .receive r t job ∧ s'.job = update s.job t (some job) ∧
        s'.hist.ran = s.hist.ran) ∨
      ∃ t, s'.job = s.job ∧ s'.hist.ran = s.hist.ran ++ if s.cancelled t then [] else
        (s.job t).toList := by
  cases h with
  | @receive r t job _ _ => exact .inr (.inl ⟨r, t, job, rfl, rfl, rfl⟩)
  | @process _ t _ => exact .inr (.inr ⟨t, rfl, rfl⟩)
  | enqueue _ hs =>
    obtain ⟨_, _, rfl⟩ := workerPoolEnqueue_eq_some hs
    exact .inl ⟨rfl, rfl⟩
  | _ => exact .inl ⟨rfl, rfl⟩

/-- Slots hold, and workers are given, nothing but filled tasks. -/
structure OnlyFilled (cfg : Config) (routes : List (MiddlewareCtx H))
    (s : State P Slot (HttpTask H)) : Prop where
  job : ∀ t task, s.job t = some task → Filled cfg routes task
  ran : ∀ task ∈ s.hist.ran, Filled cfg routes task

theorem OnlyFilled.step {cfg : Config} {routes : List (MiddlewareCtx H)}
    {s s' : State P Slot (HttpTask H)} {e : Event P Slot (HttpTask H)}
    (hinv : OnlyFilled cfg routes s) (hG : Dispatches cfg routes s e)
    (h : Step HttpTask.isFast s e s') : OnlyFilled cfg routes s' := by
  obtain ⟨hjob, hran⟩ | ⟨r, t, job, rfl, hjob, hran⟩ | ⟨t, hjob, hran⟩ := Step.job_ran h
  · exact ⟨hjob ▸ hinv.job, hran ▸ hinv.ran⟩
  · refine ⟨fun t' task htask => ?_, hran ▸ hinv.ran⟩
    rw [hjob, update_apply] at htask
    split at htask
    · cases htask; exact hG
    · exact hinv.job _ _ htask
  · refine ⟨hjob ▸ hinv.job, fun task htask => ?_⟩
    rw [hran] at htask
    obtain htask | htask := List.mem_append.mp htask
    · exact hinv.ran _ htask
    · split at htask
      · cases htask
      · exact hinv.job t _ (Option.mem_toList.mp htask)

theorem onlyFilled_of_reachable {cfg : Config} {routes : List (MiddlewareCtx H)}
    {s : State P Slot (HttpTask H)}
    (hs : (system P Slot HttpTask.isFast).Reachable (Dispatches cfg routes) s) :
    OnlyFilled cfg routes s := by
  refine hs.invariant (I := OnlyFilled cfg routes) ?_ fun _ _ _ _ hinv hG h => hinv.step hG h
  rintro _ rfl
  exact ⟨fun _ _ htask => absurd htask.symm (Option.some_ne_none _),
    fun _ htask => absurd htask List.not_mem_nil⟩

end Pipeline

/-- A handler runs only for a request that has passed every check of its route: whatever the
requests, the interleaving of reactors and workers, the slots the tasks are in and the state of the
worker's thread. -/
theorem handler_called_admitted {P : Pipeline.Topology} {Slot H : Type} [DecidableEq Slot]
    [DecidableEq P.Worker] (S : Sodium) (J : JsonC) (K : Tokener)
    (exec : H → Option Json → HandlerState → HandlerState) {cfg : Config}
    {routes : List (MiddlewareCtx H)}
    (hroutes : ∀ ctx ∈ routes, ctx.validationCtx ≠ none → ctx.allowedMethod = .post)
    (hkey : cfg.telemetryApiKey.text.length < 1023) {s : Pipeline.State P Slot (HttpTask H)}
    (hs : (Pipeline.system P Slot HttpTask.isFast).Reachable (Pipeline.Dispatches cfg routes) s)
    {task : HttpTask H} (hran : task ∈ s.hist.ran) (env : WorkerEnv) (tls : ThreadLocals)
    {call : Call H}
    (hcall : (workerProcessTask S J K (jwtSecretBytes cfg) exec env ⟨tls, task⟩).2 = some call) :
    ∃ ctx ∈ routes, task.middlewareCtx = some ctx ∧
      Admitted S J K cfg env.now task.req ctx call := by
  obtain ⟨_, _, _, _, ctx, _, hmem, hfilled⟩ := (Pipeline.onlyFilled_of_reachable hs).ran task hran
  obtain ⟨hcleared, rfl, hctx, hbody⟩ := apiMiddlewareWrapper_filled hfilled
  exact ⟨ctx, hmem, hctx, admitted_of_call (hroutes ctx hmem) hkey hcleared hctx hbody hcall⟩

/-- A login in two extents, and the task the reactor fills for it. -/
def loginRequest : Request where
  command := .post
  uri := bytes "/login"
  inputHeaders := [(bytes "content-type", bytes "Application/JSON;")]
  inputBuffer := [bytes "\x7b\"username\":\"a\",", bytes "\"password\":\"b\"\x7d"]

def loginTask : HttpTask Handler where
  req := loginRequest
  middlewareCtx := some (route "/login" .post (some loginContext) .login false .none)
  clientIp := .strlcpy 64 (bytes "unknown")
  uri := .strlcpy 1024 (bytes "/login")

theorem handler_called_admitted_login :
    ∃ (s : Pipeline.State (.ofConfig 1 3 50 10) Nat (HttpTask Handler)) (call : Call Handler),
      (Pipeline.system _ Nat HttpTask.isFast).Reachable
          (Pipeline.Dispatches {} (gRoutes .reference)) s ∧
        loginTask ∈ s.hist.ran ∧ call.handler = .login ∧ ∃ ctx ∈ gRoutes .reference,
          loginTask.middlewareCtx = some ctx ∧
            Admitted .reference .reference .reference {} 0 loginRequest ctx call := by
  have hinit := System.Reachable.init
    (T := Pipeline.system (.ofConfig 1 3 50 10) Nat (HttpTask.isFast (H := Handler)))
    (G := Pipeline.Dispatches {} (gRoutes .reference)) rfl
  have hfilled : Pipeline.Dispatches {} (gRoutes .reference)
      ({} : Pipeline.State (.ofConfig 1 3 50 10) Nat (HttpTask Handler))
      (.receive ⟨0, Nat.one_pos⟩ 7 loginTask) :=
    ⟨⟨0, 0⟩, 0, {}, loginRequest, _, _, List.mem_of_getElem? (i := 11) rfl, rfl⟩
  have hreceive := hinit.step hfilled (.receive rfl rfl)
  have henqueue := hreceive.step (by exact trivial)
    (.enqueue (r := ⟨0, Nat.one_pos⟩) (t := 7) rfl rfl)
  have htake := henqueue.step (by exact trivial)
    (.take (P := .ofConfig 1 3 50 10) (w := Sum.inr ⟨0, Nat.two_pos⟩) (t := 7) rfl rfl)
  have hprocess := htake.step (by exact trivial)
    (.process (w := Sum.inr ⟨0, Nat.two_pos⟩) (t := 7) rfl)
  refine ⟨_, _, hprocess, ?_, ?_, handler_called_admitted .reference .reference .reference
    (fun _ _ st => st) (fun _ => gRoutes_post) (by decide) hprocess ?_ ⟨0, true⟩ {} rfl⟩
  · exact List.mem_singleton_self loginTask
  · rfl
  · exact List.mem_singleton_self loginTask

end ApiServer
