import ApiServer.Worker.ErrorReply

/-!
# The reply to a request (`lib/server.c`)

A reactor answers a request by itself, or `process_completed_task` sends what a worker has left in
the task. `respond` puts the two sides together for one request on its own: it is what a client gets
from a server that has nothing else to do.
-/

namespace ApiServer
open Bytes Json

/-- What a client gets. -/
structure Sent where
  headers : Headers
  reply : Reply
  deriving DecidableEq

/-- All that a request brings to the server, with what its worker and its handler find outside. -/
structure Arrival (H : Type) where
  req : Request
  route : MiddlewareCtx H
  startTime : Timespec := ⟨0, 0⟩
  env : WorkerEnv
  handlers : H → HandlerProgram

section
variable {H : Type}

/-! ## The end of a request -/

/-- `out_buf` holds the body already. A status text that is null would be libevent's own. -/
def sendHttpReply (task : HttpTask H) (outBuf : Bytes) (headers : Headers) (hasBody : Bool) : Sent :=
  let contentType := bytes "Content-Type"
  let reason := task.statusTxt.getD []
  let jsonByDefault :=
    if (evhttpFindHeader headers contentType).isNone then
      evhttpAddHeader headers contentType (bytes "application/json")
    else headers
  if hasBody then
    let headers :=
      if task.outContentType.text ≠ [] then
        evhttpAddHeader headers contentType task.outContentType.text
      else jsonByDefault
    ⟨headers, { code := task.statusCode, reason, body := outBuf }⟩
  else if 400 ≤ task.statusCode then
    if task.statusCode ≠ 500 then
      let errStr := bytes "\x7b\"error\":\"" ++ task.statusTxt.getD (bytes "Error") ++ bytes "\"\x7d"
      ⟨jsonByDefault,
        { code := task.statusCode, reason, body := outBuf ++ snprintf 256 errStr }⟩
    else
      let errStr := bytes "\x7b\"error\":\"Internal Server Error\"\x7d"
      ⟨jsonByDefault,
        { code := 500, reason := bytes "Internal Server Error"
          body := outBuf ++ snprintf 256 errStr }⟩
  else ⟨headers, { code := task.statusCode, reason, body := outBuf }⟩

/-- Nothing was written to the output buffer of the request before. -/
def processCompletedTask (headers : Headers) (task : HttpTask H) : Sent :=
  sendHttpReply task task.workerBuf headers (task.workerBuf ≠ [])

variable (S : Sodium) (J : JsonC) (K : Tokener) (cfg : Config)

/-- A worker takes the task of a request. -/
def Arrival.work (a : Arrival H) (tls : ThreadLocals) (task : HttpTask H) : WorkerState H :=
  (workerProcessTask S J K (jwtSecretBytes cfg) (fun h => (a.handlers h).run) a.env ⟨tls, task⟩).1

/-- The reply to a request that is served alone, by a new slot and a new thread; there is none to a
client that has gone. -/
def respond (reactorId : Nat) (a : Arrival H) : Option Sent :=
  match apiMiddlewareWrapper cfg a.startTime reactorId (some {}) a.req (some a.route) with
  | .ignored => none
  | .replied headers reply => some ⟨headers, reply⟩
  | .filled headers task => some (processCompletedTask headers (a.work S J K cfg {} task).task)

/-! ## The reason of a reply -/

/-- A text that `send_http_reply` can put into an error of its own. -/
def ReasonPhrase (txt : Bytes) : Prop := Plain txt ∧ txt.length ≤ 64

instance : Decidable (ReasonPhrase txt) := inferInstanceAs (Decidable (_ ∧ _))

theorem getHttpStatusText_phrase (code : Int) : ReasonPhrase (getHttpStatusText code) := by
  unfold getHttpStatusText
  repeat' split
  all_goals
    rw [bytes_ofList]
    decide

/-- The worker's checks only ever set these reasons. -/
def Phrased (task : HttpTask H) : Prop := ∀ txt, task.statusTxt = some txt → ReasonPhrase txt

theorem refusalReasons_phrase : ∀ txt ∈ refusalReasons, ReasonPhrase txt := by
  simp only [refusalReasons]
  decide

theorem keeps_phrased : WorkerKeeps (Phrased (H := H)) where
  setIdentity _ _ h := h
  parsedBody _ _ h := h
  refuse := by
    rintro task code txt msg htxt - _ ⟨⟩
    exact refusalReasons_phrase txt htxt
  answer _ _ _ _ h := h

/-- A task comes back from its worker with a reason. -/
theorem Arrival.work_statusTxt (a : Arrival H) (tls : ThreadLocals) {task : HttpTask H}
    (h : task.statusTxt = none) :
    ∃ txt, (a.work S J K cfg tls task).task.statusTxt = some txt ∧ ReasonPhrase txt := by
  let w : WorkerState H := ⟨loggerSetRequestId tls (some task.requestId.text), task⟩
  let left := (workerHandle S J K (jwtSecretBytes cfg) (fun h => (a.handlers h).run) a.env w).1.task
  have hphrased : Phrased left := keeps_phrased.workerHandle S J K (jwtSecretBytes cfg) _ a.env
    (show Phrased w.task from fun txt htxt => by cases h.symm.trans htxt)
  refine ⟨left.statusTxt.getD (getHttpStatusText left.statusCode), rfl, ?_⟩
  cases htxt : left.statusTxt with
  | none => exact getHttpStatusText_phrase _
  | some txt => exact hphrased txt htxt

/-! ## The headers of a reply -/

/-- The values under a name, whatever its case. -/
def headerValues (headers : Headers) (key : Bytes) : List Bytes :=
  (headers.filter (eqNoCase ·.1 key)).map (·.2)

@[simp] theorem headerValues_add (headers : Headers) (key value key' : Bytes) :
    headerValues (evhttpAddHeader headers key value) key' =
      headerValues headers key' ++ if eqNoCase key key' then [value] else [] := by
  simp only [headerValues, evhttpAddHeader, List.filter_append, List.map_append]
  cases h : eqNoCase key key' <;> simp [h]

theorem evhttpFindHeader_eq_none {headers : Headers} :
    evhttpFindHeader headers key = none ↔ headerValues headers key = [] := by
  rw [evhttpFindHeader, Option.map_eq_none_iff, List.find?_eq_none, headerValues,
    List.map_eq_nil_iff, List.filter_eq_nil_iff]

/-- The origin of a request, if it is allowed. -/
def allowedOrigin (req : Request) : Option Bytes :=
  (evhttpFindHeader req.inputHeaders (bytes "Origin")).filter (configIsOriginAllowed cfg)

/-- The headers that the wrapper gives to a request on its way. -/
structure Screened (cfg : Config) (req : Request) (headers : Headers) : Prop where
  security : ∀ h ∈ injectSecurityHeaders [], headerValues headers h.1 = [h.2]
  cors : headerValues headers (bytes "Access-Control-Allow-Origin") = (allowedOrigin cfg req).toList
  contentType : headerValues headers (bytes "Content-Type") = []

section
variable {cfg} {req : Request}

theorem screened_of_notAllowed (h : allowedOrigin cfg req = none) :
    Screened cfg req (injectSecurityHeaders []) where
  security := by decide
  cors := by rw [h]; decide
  contentType := by decide

variable (cfg req) in
theorem serverValidateCors_screened :
    Screened cfg req (serverValidateCors cfg req (injectSecurityHeaders [])).1 := by
  unfold serverValidateCors
  split
  · rename_i hfind
    exact screened_of_notAllowed (by rw [allowedOrigin, hfind]; rfl)
  · rename_i origin hfind
    split
    · rename_i hallowed
      have horigin : allowedOrigin cfg req = some origin := by
        rw [allowedOrigin, hfind, Option.filter_some, if_pos hallowed]
      refine ⟨?_, ?_, rfl⟩
      · intro h hmem
        simp only [injectSecurityHeaders, List.foldl_cons, List.foldl_nil, evhttpAddHeader,
          List.nil_append, List.cons_append, List.mem_cons, List.not_mem_nil, or_false] at hmem
        obtain rfl | rfl | rfl | rfl := hmem <;> rfl
      · rw [horigin]
        rfl
    · rename_i hdenied
      exact screened_of_notAllowed (by rw [allowedOrigin, hfind, Option.filter_some, if_neg hdenied])

/-! ## The reactor's own replies -/

/-- A reply has a reason, and an error has a body. -/
def Told (reply : Reply) : Prop :=
  ReasonPhrase reply.reason ∧ (400 ≤ reply.code → reply.body ≠ [])

instance (reply : Reply) : Decidable (Told reply) := inferInstanceAs (Decidable (_ ∧ _))

theorem serverValidateCors_told {headers headers' : Headers} {reply : Reply}
    (h : serverValidateCors cfg req headers = (headers', some reply)) : Told reply := by
  unfold serverValidateCors at h
  split at h
  · cases h
  · split at h
    · cases h
    · cases h
      decide

theorem serverValidateMethodAndAuth_told {ctx : MiddlewareCtx H} {reply : Reply}
    (h : serverValidateMethodAndAuth cfg req ctx = some reply) : Told reply := by
  unfold serverValidateMethodAndAuth at h
  split at h
  · cases h
    decide
  · split at h
    · cases h
      decide
    · cases h

theorem serverEnqueueTask_told {ctx : MiddlewareCtx H} {slot : Option TaskSlot}
    {headers headers' : Headers} {reply : Reply}
    (h : serverEnqueueTask req ctx startTime clientIp reactorId slot headers =
      .replied headers' reply) : headers' = headers ∧ Told reply := by
  unfold serverEnqueueTask at h
  split at h
  · cases h
    exact ⟨rfl, by decide⟩
  · dsimp only at h
    split at h
    · cases h
      exact ⟨rfl, by decide⟩
    · cases h

theorem serverEnqueueTask_slot {ctx : MiddlewareCtx H} {slot : TaskSlot}
    {headers headers' : Headers} {task : HttpTask H}
    (h : serverEnqueueTask req ctx startTime clientIp reactorId (some slot) headers =
      .filled headers' task) : headers' = headers ∧ task.statusTxt = slot.statusTxt := by
  unfold serverEnqueueTask at h
  dsimp only at h
  split at h
  · cases h
  · cases h
    exact ⟨rfl, rfl⟩

/-- On its way through the wrapper a request is screened, unless its route has no handler. -/
theorem apiMiddlewareWrapper_replied {ctx : MiddlewareCtx H} {slot : Option TaskSlot}
    {headers : Headers} {reply : Reply}
    (h : apiMiddlewareWrapper cfg startTime reactorId slot req (some ctx) =
      .replied headers reply) :
    ctx.handler = none ∧ (headers, reply) = evhttpSendError 500 (bytes "Middleware Routing Fault") ∨
      ctx.handler ≠ none ∧ Told reply ∧ Screened cfg req headers := by
  unfold apiMiddlewareWrapper at h
  split at h
  · cases h
  dsimp only at h
  split at h
  · rename_i hnone
    cases h
    exact .inl ⟨Option.isNone_iff_eq_none.mp hnone, rfl⟩
  rename_i hsome
  have hhandler : ctx.handler ≠ none := fun hnone => hsome (Option.isNone_iff_eq_none.mpr hnone)
  refine .inr ⟨hhandler, ?_⟩
  have hscreened := serverValidateCors_screened cfg req
  split at h
  · rename_i hcors
    rw [hcors] at hscreened
    cases h
    exact ⟨serverValidateCors_told hcors, hscreened⟩
  rename_i hcors
  rw [hcors] at hscreened
  split at h
  · cases h
    exact ⟨by decide, hscreened⟩
  split at h
  · rename_i hauth
    cases h
    exact ⟨serverValidateMethodAndAuth_told hauth, hscreened⟩
  · obtain ⟨rfl, htold⟩ := serverEnqueueTask_told h
    exact ⟨htold, hscreened⟩

theorem apiMiddlewareWrapper_screened {ctx : MiddlewareCtx H} {slot : TaskSlot} {headers : Headers}
    {task : HttpTask H}
    (h : apiMiddlewareWrapper cfg startTime reactorId (some slot) req (some ctx) =
      .filled headers task) :
    Screened cfg req headers ∧ task.statusTxt = slot.statusTxt := by
  unfold apiMiddlewareWrapper at h
  split at h
  · cases h
  dsimp only at h
  split at h
  · cases h
  have hscreened := serverValidateCors_screened cfg req
  split at h
  · cases h
  rename_i hcors
  rw [hcors] at hscreened
  split at h
  · cases h
  split at h
  · cases h
  · obtain ⟨rfl, htxt⟩ := serverEnqueueTask_slot h
    exact ⟨hscreened, htxt⟩

end

/-! ## Every reply -/

/-- What a client gets on a route with a handler, whoever has answered. -/
structure Complete (a : Arrival H) (sent : Sent) : Prop where
  security : ∀ h ∈ injectSecurityHeaders [], headerValues sent.headers h.1 = [h.2]
  cors : headerValues sent.headers (bytes "Access-Control-Allow-Origin") =
    (allowedOrigin cfg a.req).toList
  told : Told sent.reply

/-- On a route without one it gets a page of libevent, which has none of the headers. -/
def Fault (a : Arrival H) (sent : Sent) : Prop :=
  a.route.handler = none ∧
    (sent.headers, sent.reply) = evhttpSendError 500 (bytes "Middleware Routing Fault")

/-- What `send_http_reply` adds: a type for a body, and a body for an error without one. -/
structure Finished (task : HttpTask H) (sent : Sent) : Prop where
  contentType : sent.reply.body ≠ [] →
    headerValues sent.headers (bytes "Content-Type") =
      [if task.workerBuf ≠ [] ∧ task.outContentType.text ≠ [] then task.outContentType.text
        else bytes "application/json"]
  body : task.workerBuf ≠ [] → sent.reply.body = task.workerBuf
  error : task.workerBuf = [] → 400 ≤ task.statusCode →
    Says sent.reply.body sent.reply.reason
  code : sent.reply.code = task.statusCode

/-- Only the type of the body is added at the end. -/
theorem processCompletedTask_headers {headers : Headers} {task : HttpTask H} {key : Bytes}
    (hkey : eqNoCase (bytes "Content-Type") key = false) :
    headerValues (processCompletedTask headers task).headers key = headerValues headers key := by
  have hadd : ∀ value, headerValues (evhttpAddHeader headers (bytes "Content-Type") value) key =
      headerValues headers key := by
    intro value
    rw [headerValues_add, hkey]
    exact List.append_nil _
  have hdefault : ∀ (c : Prop) [Decidable c], headerValues (if c then
      evhttpAddHeader headers (bytes "Content-Type") (bytes "application/json") else headers) key =
        headerValues headers key := by
    intro c _
    split
    · exact hadd _
    · rfl
  unfold processCompletedTask sendHttpReply
  dsimp only
  split
  · dsimp only
    split
    · exact hadd _
    · exact hdefault _
  split
  · split <;> exact hdefault _
  · rfl

theorem processCompletedTask_finished {headers : Headers} {task : HttpTask H}
    (hheaders : headerValues headers (bytes "Content-Type") = [])
    (htxt : task.statusTxt = some txt) (hphrase : ReasonPhrase txt) :
    Finished task (processCompletedTask headers task) ∧
      Told (processCompletedTask headers task).reply := by
  have hadd : ∀ value, headerValues (evhttpAddHeader headers (bytes "Content-Type") value)
      (bytes "Content-Type") = [value] := by
    intro value
    rw [headerValues_add, hheaders]
    rfl
  have hfind : (evhttpFindHeader headers (bytes "Content-Type")).isNone = true := by
    rw [evhttpFindHeader_eq_none.mpr hheaders]
    rfl
  have hfits : snprintf 256 (errorReply txt) = errorReply txt := by
    refine snprintf_eq_self ?_
    have := hphrase.2
    simp only [errorReply, List.length_append]
    change 10 + txt.length + 2 < 256
    omega
  unfold processCompletedTask sendHttpReply
  dsimp only
  rw [if_pos hfind, htxt]
  by_cases hbuf : task.workerBuf = []
  · rw [if_neg (by simpa using hbuf), hbuf, List.nil_append]
    by_cases hcode : 400 ≤ task.statusCode
    · rw [if_pos hcode, List.nil_append]
      by_cases h500 : task.statusCode = 500
      · rw [if_neg (not_not.mpr h500)]
        have hbody : snprintf 256 (bytes "\x7b\"error\":\"Internal Server Error\"\x7d") =
            errorReply (bytes "Internal Server Error") := by decide
        rw [hbody]
        refine ⟨⟨fun _ => ?_, fun h => absurd hbuf h, fun _ _ => ?_, h500.symm⟩, ?_⟩
        · rw [hadd, if_neg fun h => h.1 hbuf]
        · exact says_errorReply (by decide)
        · exact ⟨by dsimp only; decide, fun _ => List.cons_ne_nil _ _⟩
      · rw [if_pos h500]
        refine ⟨⟨fun _ => ?_, fun h => absurd hbuf h, fun _ _ => ?_, rfl⟩, hphrase, fun _ => ?_⟩
        · rw [hadd, if_neg fun h => h.1 hbuf]
        · exact hfits.symm ▸ says_errorReply hphrase.1
        · exact hfits.symm ▸ List.cons_ne_nil _ _
    · rw [if_neg hcode]
      exact ⟨⟨fun h => absurd rfl h, fun h => absurd hbuf h, fun _ h => absurd h hcode, rfl⟩, hphrase,
        fun h => absurd h hcode⟩
  · rw [if_pos (by simpa using hbuf)]
    refine ⟨⟨fun _ => ?_, fun _ => rfl, fun h => absurd h hbuf, rfl⟩, hphrase, fun _ => hbuf⟩
    by_cases htype : task.outContentType.text = []
    · rw [if_neg (not_not.mpr htype), if_neg fun h => h.2 htype]
      exact hadd _
    · rw [if_pos htype, if_pos ⟨hbuf, htype⟩]
      exact hadd _

/-- The reactor has screened the request and filled a new slot for it. -/
def Fills (r : Nat) (a : Arrival H) (headers : Headers) (task : HttpTask H) : Prop :=
  apiMiddlewareWrapper cfg a.startTime r (some {}) a.req (some a.route) = .filled headers task

variable {S J K cfg}

theorem complete_of_replied {a : Arrival H} {x : Option TaskSlot} {headers : Headers} {reply : Reply}
    (h : apiMiddlewareWrapper cfg a.startTime r x a.req (some a.route) = .replied headers reply) :
    Fault a ⟨headers, reply⟩ ∨ a.route.handler ≠ none ∧ Complete cfg a ⟨headers, reply⟩ := by
  obtain hfault | ⟨hhandler, htold, hscreened⟩ := apiMiddlewareWrapper_replied h
  · exact .inl hfault
  · exact .inr ⟨hhandler, hscreened.security, hscreened.cors, htold⟩

theorem complete_of_fills {a : Arrival H} {headers : Headers} {task : HttpTask H}
    (h : Fills cfg r a headers task) :
    Complete cfg a (processCompletedTask headers (a.work S J K cfg {} task).task) ∧
      Finished (a.work S J K cfg {} task).task
        (processCompletedTask headers (a.work S J K cfg {} task).task) := by
  obtain ⟨hscreened, htxt⟩ := apiMiddlewareWrapper_screened h
  obtain ⟨txt, hwork, hphrase⟩ := a.work_statusTxt S J K cfg {} htxt
  obtain ⟨hfinished, htold⟩ := processCompletedTask_finished hscreened.contentType hwork hphrase
  refine ⟨⟨fun h hmem => ?_, ?_, htold⟩, hfinished⟩
  · have hother : ∀ h ∈ injectSecurityHeaders [], eqNoCase (bytes "Content-Type") h.1 = false := by
      decide
    rw [processCompletedTask_headers (hother h hmem)]
    exact hscreened.security h hmem
  · rw [processCompletedTask_headers (by decide)]
    exact hscreened.cors

end

/-- A `GET` that a handler answers with nothing but a status. -/
def silentArrival (status : Int) : Arrival Unit where
  req := { command := .get, uri := bytes "/" }
  route :=
    { path := bytes "/", allowedMethod := .get, handler := some (), isFast := true, authMode := .none }
  env := ⟨0, true⟩
  handlers _ := ⟨fun _ st => { st with outStatus := status }, fun _ _ => rfl⟩

end ApiServer
