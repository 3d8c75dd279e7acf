import ApiServer.HttpClient
import ApiServer.HttpClient.Response
import ApiServer.Lib.JsonText

/-!
# Requests of a thread (`lib/http_client.c`)

A thread keeps one libcurl handle for all its requests. The handle holds pointers to memory of the
call that set them: the buffer of the response, the list of headers and the text of the error. libcurl
is what it answers: the calls of `write_memory_cb`, the result and the status.
-/

namespace ApiServer.HttpClient
open Bytes Function Json

/-! ## The handle -/

/-- The options that the code sets. -/
inductive CurlOption where
  | tcpKeepalive | tcpKeepidle | tcpKeepintvl | writeFunction | noSignal | timeout | connectTimeout
  | sslVerifyPeer | sslVerifyHost | userAgent | sslVersion | protocolsStr | followLocation
  | url | writeData | copyPostFields | post | httpGet | httpHeader | errorBuffer
  deriving DecidableEq

inductive Value where
  | long (n : Int)
  /-- libcurl keeps a copy of the text. -/
  | text (s : Bytes)
  | writeMemoryCb
  /-- The address of a variable of that call. -/
  | address (call : Nat)
  /-- A list that was allocated in that call and is freed at its end. -/
  | slist (call : Nat) (headers : List Bytes)
  deriving DecidableEq

/-- A pointer to memory of a call. -/
def Value.isPointer : Value → Bool
  | .address _ | .slist _ _ => true
  | _ => false

/-- What has been set since the last `curl_easy_reset`; a null pointer is no value. -/
abbrev Handle := CurlOption → Option Value

def curlEasyReset (_ : Handle) : Handle := fun _ => none

def curlEasySetopt (h : Handle) (o : CurlOption) (v : Value) : Handle := update h o (some v)

def curlEasyClearopt (h : Handle) (o : CurlOption) : Handle := update h o none

/-- The calls of `apply_curl_defaults`. -/
def curlDefaults : List (CurlOption × Value) := [
  (.tcpKeepalive, .long 1),
  (.tcpKeepidle, .long 120),
  (.tcpKeepintvl, .long 60),
  (.writeFunction, .writeMemoryCb),
  (.noSignal, .long 1),
  (.timeout, .long 10),
  (.connectTimeout, .long 5),
  (.sslVerifyPeer, .long 1),
  (.sslVerifyHost, .long 2),
  (.userAgent, .text (bytes "evhttp-apiserver/1.0")),
  -- CURL_SSLVERSION_TLSv1_2 | CURL_SSLVERSION_MAX_DEFAULT
  (.sslVersion, .long (6 + 1 * 2 ^ 16)),
  (.protocolsStr, .text (bytes "https,http")),
  (.followLocation, .long 0)]

def applyCurlDefaults (h : Handle) : Handle :=
  curlDefaults.foldl (fun h x => curlEasySetopt h x.1 x.2) h

/-! ## A request -/

/-- The arguments of `do_http_request`. -/
structure Request where
  baseUrl : Option Bytes
  uri : Option Bytes
  body : Option Bytes
  headers : List Bytes

/-- What a request finds outside. -/
structure Outcome where
  /-- `curl_easy_init` returns a handle. -/
  easyInit : Bool
  malloc : Option (Int → UInt8)
  /-- `curl_slist_append` of the header at that position succeeds. -/
  append : Nat → Bool
  writes : List Call
  /-- The text of the error and the details, unless the result is `CURLE_OK`. -/
  res : Option (Bytes × Bytes)
  httpCode : Int

/-- One call of `curl_easy_perform`: for which request it was, and what the handle held. -/
structure Posted where
  call : Nat
  request : Request
  url : Bytes
  handle : Handle

/-- A thread between two requests. -/
structure Thread where
  /-- The value of `g_curl_tls_key`. -/
  curl : Option Handle := none
  tls : ThreadLocals := {}
  /-- How many requests it has made. -/
  calls : Nat := 0
  /-- History. -/
  performed : List Posted := []

/-- The URL, if it fits the buffer. -/
def buildRequestUrl (baseUrl uri : Option Bytes) (maxLen : Nat) : Option Bytes :=
  let written :=
    match baseUrl, uri with
    | some baseUrl, some uri => some (baseUrl ++ uri)
    | some baseUrl, none => some baseUrl
    | none, some uri => some uri
    | none, none => none
  written.filter (·.length < maxLen)

def getThreadCurl (easyInit : Bool) (t : Thread) : Option Handle :=
  match t.curl with
  | some h => some h
  | none => if easyInit then some (applyCurlDefaults fun _ => none) else none

/-- The options that `setup_curl_request` sets before it comes to the headers. -/
def setupOptions (call : Nat) (url : Bytes) (q : Request) (h : Handle) : Handle :=
  let h := curlEasySetopt h .url (.text url)
  let h := curlEasySetopt h .writeData (.address call)
  match q.body with
  | some body => curlEasySetopt (curlEasySetopt h .copyPostFields (.text body)) .post (.long 1)
  | none => curlEasySetopt h .httpGet (.long 1)

/-- The options that it leaves, for a handle it has got. -/
def setupHandle (call : Nat) (url : Bytes) (q : Request) (malloc appended : Bool) (h : Handle) :
    Handle :=
  let h := applyCurlDefaults (curlEasyReset h)
  if !malloc then h
  else
    let h := setupOptions call url q h
    if !appended then curlEasyClearopt h .writeData
    else if q.headers = [] then curlEasyClearopt h .httpHeader
    else curlEasySetopt h .httpHeader (.slist call q.headers)

/-- The options that are cleared behind `curl_easy_perform`. -/
def releaseHandle (h : Handle) : Handle :=
  curlEasyClearopt (curlEasyClearopt (curlEasyClearopt h .httpHeader) .errorBuffer) .writeData

/-- The text that `chunk->memory` points to. -/
def MemoryStruct.text (mem : MemoryStruct) : Option Bytes :=
  mem.memory.map fun block => cstr (block.load 0 mem.capacity.toNat)

/-- What `perform_http_request` returns and stores. -/
structure Performed where
  ok : Bool
  chunk : MemoryStruct := {}
  code : Option Int := none

/-- The messages for `set_thread_error`. -/
def networkFailure (err : Bytes × Bytes) (url : Bytes) : Bytes :=
  bytes "libcurl network failure: " ++ err.1 ++ bytes " (" ++
    (if err.2 = [] then bytes "no details" else err.2) ++ bytes ") | URL: " ++ url

def remoteFailure (code : Int) (url : Bytes) (chunk : MemoryStruct) : Bytes :=
  let truncBody := snprintf 256 (chunk.text.getD [])
  bytes "HTTP " ++ intText code ++ bytes " from " ++ url ++ bytes " | Response: " ++
    if truncBody = [] then bytes "<empty>" else truncBody

section
variable (maxPayload : UInt64) (q : Request) (o : Outcome) (t : Thread)

/-- `perform_http_request` from `curl_easy_perform` on. -/
def curlEasyPerform (url : Bytes) (h : Handle) (chunk : MemoryStruct) (tls : ThreadLocals) :
    Performed × Thread :=
  let h := curlEasySetopt h .errorBuffer (.address t.calls)
  let transfer := o.writes.foldl (Transfer.call maxPayload) { chunk, tls }
  let chunk := transfer.chunk
  let tls := transfer.tls
  let posted : Posted := { call := t.calls, request := q, url, handle := h }
  let t := { t with
    curl := some (releaseHandle h)
    performed := t.performed ++ [posted] }
  match o.res with
  | some err =>
    (⟨false, chunk, some 503⟩, { t with tls := setThreadError tls .error (networkFailure err url) })
  | none =>
    let tls :=
      if 400 ≤ o.httpCode then setThreadError tls .error (remoteFailure o.httpCode url chunk)
      else tls
    (⟨true, chunk, some o.httpCode⟩, { t with tls })

def performHttpRequest : Performed × Thread :=
  match buildRequestUrl q.baseUrl q.uri 1024 with
  | none =>
    ({ ok := false, code := some 500 },
      { t with tls := setThreadError t.tls .error (bytes "URL truncation error") })
  | some url =>
    let appended := (List.range q.headers.length).map o.append
    match getThreadCurl o.easyInit t with
    | none => ({ ok := false }, t)
    | some h =>
      let h := setupHandle t.calls url q o.malloc.isSome (appended.all id) h
      match setupCurlRequest true o.malloc appended {} t.tls with
      | (false, chunk, tls) => ({ ok := false, chunk }, { t with curl := some h, tls })
      | (true, chunk, tls) => curlEasyPerform maxPayload q o t url h chunk tls

variable (jsonTokenerParse : Bytes → Option Json)

/-- `http_client_get_json` is this without a body, `http_client_post_json` with one. -/
def doHttpRequest : HttpAnswer × Thread :=
  let (p, t) := performHttpRequest maxPayload q o t
  let json :=
    if p.ok ∧ 0 < p.chunk.size then p.chunk.text.bind jsonTokenerParse else none
  (⟨json, p.code⟩, { t with calls := t.calls + 1 })

/-- The text that `http_client_post_raw` returns a copy of, and the status. -/
def httpClientPostRaw : Option Bytes × Option Int × Thread :=
  let (p, t) := performHttpRequest maxPayload q o t
  (if p.ok ∧ 0 < p.chunk.size then p.chunk.text else none, p.code, { t with calls := t.calls + 1 })

end

/-! ## Threads -/

inductive ThreadEvent where
  | initThread (easyInit : Bool)
  | request (q : Request) (o : Outcome)
  | cleanupThread

section
variable (maxPayload : UInt64) (jsonTokenerParse : Bytes → Option Json)

def Thread.next (t : Thread) : ThreadEvent → Thread
  | .initThread easyInit => { t with curl := getThreadCurl easyInit t }
  | .request q o => (doHttpRequest maxPayload q o t jsonTokenerParse).2
  | .cleanupThread => { t with curl := none }

/-- A thread from its start on. -/
def Thread.run (es : List ThreadEvent) : Thread :=
  es.foldl (Thread.next maxPayload jsonTokenerParse) {}

end

/-! ## What libcurl is told -/

/-- The options a request is made with. -/
def requestHandle (call : Nat) (url : Bytes) (q : Request) : Handle
  | .url => some (.text url)
  | .writeData | .errorBuffer => some (.address call)
  | .httpHeader => if q.headers = [] then none else some (.slist call q.headers)
  | .copyPostFields => q.body.map .text
  | .post => q.body.map fun _ => .long 1
  | .httpGet => if q.body.isNone then some (.long 1) else none
  | o => curlDefaults.lookup o

/-- Only these options point to memory of a call. -/
def PointsAt (os : List CurlOption) (h : Handle) : Prop :=
  ∀ o v, h o = some v → v.isPointer = true → o ∈ os

section
variable {h : Handle} {os : List CurlOption} {o : CurlOption} {v : Value} {call : Nat} {url : Bytes}
  {q : Request}

theorem setupHandle_errorBuffer :
    curlEasySetopt (setupHandle call url q true true h) .errorBuffer (.address call) =
      requestHandle call url q := by
  funext o
  unfold setupHandle setupOptions
  cases hb : q.body <;> by_cases hh : q.headers = [] <;> cases o <;>
    simp [hb, hh, requestHandle, curlEasySetopt, curlEasyClearopt] <;> rfl

theorem PointsAt.setopt (H : PointsAt os h) (hv : v.isPointer = true → o ∈ os) :
    PointsAt os (curlEasySetopt h o v) := by
  intro o' v' h' hpointer
  by_cases ho : o' = o
  · subst ho
    rw [curlEasySetopt, update_self] at h'
    cases h'
    exact hv hpointer
  · rw [curlEasySetopt, update_of_ne ho] at h'
    exact H o' v' h' hpointer

theorem PointsAt.clearopt (H : PointsAt (o :: os) h) : PointsAt os (curlEasyClearopt h o) := by
  intro o' v' h' hpointer
  by_cases ho : o' = o
  · subst ho
    rw [curlEasyClearopt, update_self] at h'
    cases h'
  · rw [curlEasyClearopt, update_of_ne ho] at h'
    exact List.mem_of_ne_of_mem ho (H o' v' h' hpointer)

theorem pointsAt_defaults : PointsAt os (applyCurlDefaults fun _ => none) := by
  have hopts : ∀ (opts : List (CurlOption × Value)) (h : Handle), PointsAt os h →
      (∀ x ∈ opts, x.2.isPointer = false) →
      PointsAt os (opts.foldl (fun h x => curlEasySetopt h x.1 x.2) h) := by
    intro opts
    induction opts with
    | nil => exact fun _ H _ => H
    | cons x opts ih =>
      intro h H hvalues
      refine ih _ (H.setopt fun hpointer => ?_) fun y hy => hvalues y (.tail _ hy)
      cases (hvalues x (.head _)).symm.trans hpointer
  exact hopts curlDefaults _ (fun _ _ h => by cases h) (by decide)

variable (call url q h) in
/-- Up to the headers a request points to nothing but the variable for its response. -/
theorem pointsAt_setupOptions :
    PointsAt [.writeData] (setupOptions call url q (applyCurlDefaults (curlEasyReset h))) := by
  have hplain : ∀ {h : Handle} {o : CurlOption} {v : Value}, PointsAt [.writeData] h →
      v.isPointer = false → PointsAt [.writeData] (curlEasySetopt h o v) :=
    fun H hv => H.setopt fun hpointer => by cases hv.symm.trans hpointer
  have hdata : PointsAt [.writeData] (curlEasySetopt (curlEasySetopt
      (applyCurlDefaults (curlEasyReset h)) .url (.text url)) .writeData (.address call)) :=
    (hplain pointsAt_defaults rfl).setopt fun _ => List.mem_singleton_self _
  unfold setupOptions
  cases q.body with
  | none => exact hplain hdata rfl
  | some body => exact hplain (hplain hdata rfl) rfl

/-- A setup that fails leaves no pointer behind. -/
theorem pointsAt_setupHandle {malloc appended : Bool} (hfails : (malloc && appended) = false) :
    PointsAt [] (setupHandle call url q malloc appended h) := by
  unfold setupHandle
  cases malloc with
  | false => exact pointsAt_defaults
  | true =>
    cases appended with
    | false => exact (pointsAt_setupOptions h call url q).clearopt
    | true => cases hfails

/-- Neither does a request that has been made. -/
theorem pointsAt_releaseHandle : PointsAt [] (releaseHandle (requestHandle call url q)) := by
  have hplain : ∀ o ∉ [.httpHeader, .errorBuffer, .writeData],
      (requestHandle call url q o).all (!·.isPointer) = true := by
    intro o ho
    cases o with
    | httpHeader | errorBuffer | writeData => exact absurd (by decide) ho
    | copyPostFields | post | httpGet =>
      unfold requestHandle
      cases q.body <;> rfl
    | _ => rfl
  have hpointers : PointsAt [.httpHeader, .errorBuffer, .writeData] (requestHandle call url q) := by
    intro o v hv hpointer
    by_contra ho
    have hvalue := hplain o ho
    rw [hv, Option.all_some, hpointer] at hvalue
    cases hvalue
  exact hpointers.clearopt.clearopt.clearopt

end

/-! ## What holds of a thread -/

/-- A request finds a handle and the memory it needs before libcurl runs. -/
structure Ready (q : Request) (o : Outcome) (t : Thread) : Prop where
  handle : t.curl.isSome ∨ o.easyInit = true
  malloc : o.malloc.isSome
  append : ∀ i < q.headers.length, o.append i = true

instance : Decidable (Ready q o t) :=
  decidable_of_iff ((t.curl.isSome ∨ o.easyInit = true) ∧ o.malloc.isSome ∧
    ∀ i < q.headers.length, o.append i = true)
    ⟨fun h => ⟨h.1, h.2.1, h.2.2⟩, fun h => ⟨h.handle, h.malloc, h.append⟩⟩

section
variable (maxPayload : UInt64) (q : Request) (o : Outcome) (t : Thread)

/-- A request ends early, or libcurl is told what it asks for. -/
inductive Performs : Performed × Thread → Prop
  | noUrl (hurl : buildRequestUrl q.baseUrl q.uri 1024 = none) :
    Performs ({ ok := false, code := some 500 },
      { t with tls := setThreadError t.tls .error (bytes "URL truncation error") })
  | notReady {url : Bytes} {chunk : MemoryStruct} {curl : Option Handle} {tls : ThreadLocals}
    (hurl : buildRequestUrl q.baseUrl q.uri 1024 = some url) (hready : ¬Ready q o t)
    (hcurl : ∀ h, curl = some h → PointsAt [] h) :
    Performs ({ ok := false, chunk }, { t with curl, tls })
  | performed {url : Bytes} {h : Handle} {start : MemoryStruct}
    (hurl : buildRequestUrl q.baseUrl q.uri 1024 = some url) (hready : Ready q o t)
    (hsetup : ∃ appended, setupCurlRequest true o.malloc appended {} t.tls = (true, start, t.tls))
    (hhandle : curlEasySetopt h .errorBuffer (.address t.calls) = requestHandle t.calls url q) :
    Performs (curlEasyPerform maxPayload q o t url h start t.tls)

theorem getThreadCurl_eq_none {easyInit : Bool} :
    getThreadCurl easyInit t = none ↔ ¬(t.curl.isSome ∨ easyInit = true) := by
  unfold getThreadCurl
  cases t.curl <;> cases easyInit <;> simp

/-- With memory for the response, the setup succeeds as long as the headers can be appended. -/
theorem setupCurlRequest_some (fresh : Int → UInt8) (appended : List Bool) (tls : ThreadLocals) :
    setupCurlRequest true (some fresh) appended {} tls =
      (appended.all id, ⟨some (Mem.store { byte := fresh } 0 0), 0, httpClientChunkSize⟩,
        if appended.all id then tls
        else setThreadError tls .error (bytes "Out of memory allocating curl headers")) := by
  unfold setupCurlRequest
  cases appended.all id <;> rfl

theorem performHttpRequest_performs :
    Performs maxPayload q o t (performHttpRequest maxPayload q o t) := by
  unfold performHttpRequest
  cases hurl : buildRequestUrl q.baseUrl q.uri 1024 with
  | none => exact .noUrl hurl
  | some url =>
    dsimp only
    cases hget : getThreadCurl o.easyInit t with
    | none =>
      have hnone := (getThreadCurl_eq_none t).mp hget
      refine .notReady hurl (fun h => hnone h.handle) fun h hcurl => ?_
      exact absurd (.inl (by rw [hcurl]; rfl)) hnone
    | some h =>
      have hhandle : t.curl.isSome ∨ o.easyInit = true := by
        by_contra hnone
        cases hget.symm.trans ((getThreadCurl_eq_none t).mpr hnone)
      have hall : ((List.range q.headers.length).map o.append).all id = true ↔
          ∀ i < q.headers.length, o.append i = true := by
        simp
      dsimp only
      cases hmalloc : o.malloc with
      | none =>
        refine .notReady hurl (fun h => ?_) ?_
        · have := h.malloc
          rw [hmalloc] at this
          cases this
        · rintro _ ⟨⟩
          exact pointsAt_setupHandle rfl
      | some fresh =>
        generalize hlist : (List.range q.headers.length).map o.append = appended at hall
        cases happ : appended.all id with
        | false =>
          rw [setupCurlRequest_some, happ]
          refine .notReady hurl (fun h => ?_) ?_
          · cases happ.symm.trans (hall.mpr h.append)
          · rintro _ ⟨⟩
            exact pointsAt_setupHandle rfl
        | true =>
          have hsetup := setupCurlRequest_some fresh appended t.tls
          rw [happ, if_pos rfl] at hsetup
          rw [hsetup]
          exact .performed hurl ⟨hhandle, by rw [hmalloc]; rfl, hall.mp happ⟩
            ⟨appended, hmalloc ▸ hsetup⟩ setupHandle_errorBuffer

end

/-- Between two requests. -/
structure Thread.Sound (t : Thread) : Prop where
  /-- The handle points to nothing of a call that has returned. -/
  released : ∀ h, t.curl = some h → PointsAt [] h
  /-- libcurl was told what the request at hand asks for, and nothing of an earlier one. -/
  performed : ∀ x ∈ t.performed, buildRequestUrl x.request.baseUrl x.request.uri 1024 = some x.url ∧
    x.handle = requestHandle x.call x.url x.request
  /-- No request was made twice. -/
  ordered : (t.performed.map (·.call)).Pairwise (· < ·)
  past : ∀ x ∈ t.performed, x.call < t.calls

section
variable {maxPayload : UInt64} {q : Request} {o : Outcome} {t t' : Thread}

theorem Thread.Sound.init : Thread.Sound {} where
  released _ h := by cases h
  performed _ h := by cases h
  ordered := .nil
  past _ h := by cases h

/-- Nothing is said to libcurl. -/
theorem Thread.Sound.frame (H : t.Sound) (hcurl : ∀ h, t'.curl = some h → PointsAt [] h)
    (hperformed : t'.performed = t.performed) (hcalls : t.calls ≤ t'.calls) : t'.Sound where
  released := hcurl
  performed := hperformed ▸ H.performed
  ordered := hperformed ▸ H.ordered
  past x hx := Nat.lt_of_lt_of_le (H.past x (hperformed ▸ hx)) hcalls

theorem Thread.Sound.getThreadCurl (H : t.Sound) {easyInit : Bool} {h : Handle}
    (hget : getThreadCurl easyInit t = some h) : PointsAt [] h := by
  unfold HttpClient.getThreadCurl at hget
  split at hget
  · rename_i hcurl
    cases hget
    exact H.released _ hcurl
  · split at hget
    · cases hget
      exact pointsAt_defaults
    · cases hget

variable (maxPayload q o t) in
theorem curlEasyPerform_thread (url : Bytes) (h : Handle) (chunk : MemoryStruct) (tls : ThreadLocals) :
    let h' := curlEasySetopt h .errorBuffer (.address t.calls)
    ∃ tls', (curlEasyPerform maxPayload q o t url h chunk tls).2 =
      { t with
        curl := some (releaseHandle h')
        tls := tls'
        performed := t.performed ++ [⟨t.calls, q, url, h'⟩] } := by
  unfold curlEasyPerform
  cases o.res <;> exact ⟨_, rfl⟩

theorem Performs.sound {r : Performed × Thread} (hr : Performs maxPayload q o t r) (H : t.Sound) :
    Thread.Sound { r.2 with calls := r.2.calls + 1 } := by
  cases hr with
  | noUrl => exact H.frame H.released rfl (Nat.le_succ _)
  | notReady _ _ hcurl => exact H.frame hcurl rfl (Nat.le_succ _)
  | @performed url h start hurl _ _ hhandle =>
    obtain ⟨tls', hthread⟩ := curlEasyPerform_thread maxPayload q o t url h start t.tls
    rw [hthread, hhandle]
    refine ⟨?_, fun x hx => ?_, ?_, fun x hx => ?_⟩
    · rintro _ ⟨⟩
      exact pointsAt_releaseHandle
    · obtain hx | hx := List.mem_append.mp hx
      · exact H.performed x hx
      · cases List.mem_singleton.mp hx
        exact ⟨hurl, rfl⟩
    · rw [List.map_append]
      refine List.pairwise_append.mpr ⟨H.ordered, List.pairwise_singleton .., fun n hn m hm => ?_⟩
      obtain ⟨x, hx, rfl⟩ := List.mem_map.mp hn
      cases List.mem_singleton.mp hm
      exact H.past x hx
    · obtain hx | hx := List.mem_append.mp hx
      · exact Nat.lt_succ_of_lt (H.past x hx)
      · cases List.mem_singleton.mp hx
        exact Nat.lt_succ_self _

theorem Thread.Sound.next (H : t.Sound) (jsonTokenerParse : Bytes → Option Json) (e : ThreadEvent) :
    (t.next maxPayload jsonTokenerParse e).Sound := by
  cases e with
  | initThread easyInit => exact H.frame (fun _ hget => H.getThreadCurl hget) rfl (Nat.le_refl _)
  | request q o => exact (performHttpRequest_performs maxPayload q o t).sound H
  | cleanupThread => exact H.frame (fun _ h => by cases h) rfl (Nat.le_refl _)

variable (maxPayload) in
/-- Whatever requests a thread makes and however they end, libcurl is run with the options of the
request at hand and with no other, once for each, and between two requests the handle that is kept
points to nothing that is gone. -/
theorem sound_of_run (jsonTokenerParse : Bytes → Option Json) (es : List ThreadEvent) :
    (Thread.run maxPayload jsonTokenerParse es).Sound := by
  have hrun : ∀ (es : List ThreadEvent) (t : Thread), t.Sound →
      (es.foldl (Thread.next maxPayload jsonTokenerParse) t).Sound := by
    intro es
    induction es with
    | nil => exact fun _ H => H
    | cons e es ih => exact fun t H => ih _ (H.next jsonTokenerParse e)
  exact hrun es {} .init

end

/-! ## What a request comes to -/

/-- Every chunk is taken. -/
def Accepts (maxPayload : UInt64) : Transfer → List Call → Prop
  | _, [] => True
  | t, c :: calls =>
    (writeMemoryCb maxPayload t.tls t.chunk c).ret.toNat = c.length ∧
      Accepts maxPayload (t.call maxPayload c) calls

/-- libcurl does not report success for a transfer that `write_memory_cb` has ended. -/
def Outcome.Obeys (maxPayload : UInt64) (o : Outcome) (tls : ThreadLocals) : Prop :=
  o.res = none → ∀ appended start,
    setupCurlRequest true o.malloc appended {} tls = (true, start, tls) →
      Accepts maxPayload { chunk := start, tls } o.writes

def Outcome.data (o : Outcome) : Bytes := (o.writes.map Call.chunk).flatten

/-- The text and the status that a request comes to. -/
def expected (q : Request) (o : Outcome) (t : Thread) : Option Bytes × Option Int :=
  if (buildRequestUrl q.baseUrl q.uri 1024).isNone then (none, some 500)
  else if ¬Ready q o t then (none, none)
  else
    match o.res with
    | some _ => (none, some 503)
    | none => (if o.data = [] then none else some (cstr o.data), some o.httpCode)

section
variable {maxPayload : UInt64} {q : Request} {o : Outcome} {t : Thread}

theorem Buffered.call {data : Bytes} {t : Transfer} {c : Call} (H : Buffered maxPayload data t.chunk)
    (hret : (writeMemoryCb maxPayload t.tls t.chunk c).ret.toNat = c.length) :
    Buffered maxPayload (data ++ c.chunk) (t.call maxPayload c).chunk := by
  have hlt := UInt64.lt_iff_toNat_lt.mp H.size_lt
  have hle := UInt64.le_iff_toNat_le.mp H.size_le
  have hcap := t.chunk.capacity.toNat_lt
  -- a chunk that is refused is not empty, since the block has room for its zero
  have hfits : ¬TooLarge maxPayload t.chunk c := by
    intro hlarge
    rw [writeMemoryCb_refused hlarge] at hret
    have hzero : c.length = 0 := hret.symm
    unfold TooLarge at hlarge
    omega
  have hmemory : ¬LacksMemory maxPayload t.chunk c := by
    intro hlacks
    rw [writeMemoryCb_lacksMemory hlacks] at hret
    have hzero : c.length = 0 := hret.symm
    have := hlacks.2.1
    omega
  exact (writeMemoryCb_accepted t.tls (.inl H) hfits hmemory).2.2

theorem Buffered.calls {calls : List Call} {data : Bytes} {t : Transfer}
    (H : Buffered maxPayload data t.chunk) (haccepts : Accepts maxPayload t calls) :
    Buffered maxPayload (data ++ (calls.map Call.chunk).flatten)
      (calls.foldl (Transfer.call maxPayload) t).chunk := by
  induction calls generalizing data t with
  | nil => simpa using H
  | cons c calls ih =>
    rw [List.map_cons, List.flatten_cons, ← List.append_assoc]
    exact ih (H.call haccepts.1) haccepts.2

/-- The block is read up to the zero behind the text. -/
theorem Buffered.text {data : Bytes} {mem : MemoryStruct} (H : Buffered maxPayload data mem) :
    mem.text = some (cstr data) := by
  obtain ⟨block, hblock, hload, -⟩ := H.holds
  have hlt := UInt64.lt_iff_toNat_lt.mp H.size_lt
  rw [H.size_eq] at hlt
  obtain ⟨k, hk⟩ := Nat.exists_eq_add_of_lt hlt
  rw [MemoryStruct.text, hblock, Option.map_some, hk, Nat.add_right_comm, Mem.load_append, hload,
    List.append_assoc, List.singleton_append, cstr_append_zero]

theorem Buffered.received {data : Bytes} {mem : MemoryStruct} (H : Buffered maxPayload data mem) :
    (if 0 < mem.size then mem.text else none) = if data = [] then none else some (cstr data) := by
  have hpos : 0 < mem.size ↔ data ≠ [] := by
    rw [UInt64.lt_iff_toNat_lt, H.size_eq]
    exact List.length_pos_iff
  rw [H.text]
  simp only [hpos, ne_eq, ite_not]

/-- The text that a request leaves for its caller, and the status. -/
def Performed.outcome (p : Performed) : Option Bytes × Option Int :=
  (if p.ok ∧ 0 < p.chunk.size then p.chunk.text else none, p.code)

theorem Outcome.Obeys.buffered {tls : ThreadLocals} {appended : List Bool} {start : MemoryStruct}
    (hobeys : o.Obeys maxPayload tls) (hres : o.res = none)
    (hsetup : setupCurlRequest true o.malloc appended {} tls = (true, start, tls)) :
    Buffered maxPayload o.data
      (o.writes.foldl (Transfer.call maxPayload) { chunk := start, tls }).chunk := by
  have hstart : Buffered maxPayload [] start := by
    obtain hbuffered | ⟨-, hempty⟩ := (inv_of_setup hsetup).holds
    · exact hbuffered
    · obtain ⟨fresh, rfl⟩ := setupCurlRequest_true hsetup
      cases hempty
  exact hstart.calls (t := { chunk := start, tls }) (hobeys hres _ _ hsetup)

theorem Outcome.Obeys.length_le {tls : ThreadLocals} (hobeys : o.Obeys maxPayload tls)
    (hres : o.res = none) (hmalloc : o.malloc.isSome) : o.data.length ≤ maxPayload.toNat := by
  obtain ⟨fresh, hfresh⟩ := Option.isSome_iff_exists.mp hmalloc
  have hbuffered := hobeys.buffered hres (hfresh ▸ setupCurlRequest_some fresh [] tls)
  rw [← hbuffered.size_eq]
  exact UInt64.le_iff_toNat_le.mp hbuffered.size_le

theorem Performs.outcome {r : Performed × Thread} (hr : Performs maxPayload q o t r)
    (hobeys : o.Obeys maxPayload t.tls) : r.1.outcome = expected q o t := by
  unfold expected
  cases hr with
  | noUrl hurl =>
    rw [hurl]
    rfl
  | notReady hurl hready =>
    rw [hurl, if_neg (by simp), if_pos hready]
    rfl
  | performed hurl hready hsetup =>
    rw [hurl, if_neg (by simp), if_neg (not_not.mpr hready)]
    unfold curlEasyPerform Performed.outcome
    cases hres : o.res with
    | some err => rfl
    | none =>
      obtain ⟨appended, hsetup⟩ := hsetup
      refine Prod.ext ?_ rfl
      simpa using (hobeys.buffered hres hsetup).received

variable (maxPayload q o t) in
/-- A request without a URL that fits comes to 500, one for which there is no handle or no memory to
nothing, and one that libcurl could not make to 503. Any other one comes to the status and, if it has
a body, to what this is as a C string; and this is no longer than allowed. -/
theorem request_answer (jsonTokenerParse : Bytes → Option Json) (hobeys : o.Obeys maxPayload t.tls) :
    (doHttpRequest maxPayload q o t jsonTokenerParse).1 =
        ⟨(expected q o t).1.bind jsonTokenerParse, (expected q o t).2⟩ ∧
      ((httpClientPostRaw maxPayload q o t).1, (httpClientPostRaw maxPayload q o t).2.1) =
        expected q o t ∧
      (o.res = none → Ready q o t → o.data.length ≤ maxPayload.toNat) := by
  rw [← (performHttpRequest_performs maxPayload q o t).outcome hobeys]
  refine ⟨?_, rfl, fun hres hready => hobeys.length_le hres hready.malloc⟩
  unfold doHttpRequest Performed.outcome
  dsimp only
  split <;> rfl

end

/-- A response of two bytes that comes in two chunks. -/
def twoChunks : Outcome where
  easyInit := true
  malloc := some fun _ => 0
  append _ := true
  writes := [byteCall 123, byteCall 125]
  res := none
  httpCode := 200

theorem request_answer_two :
    let q : Request := ⟨some (bytes "http://a"), some (bytes "/"), none, []⟩
    twoChunks.Obeys 5242880 {} ∧
      (httpClientPostRaw 5242880 q twoChunks {}).1 = some (bytes "\x7b\x7d") ∧
      (httpClientPostRaw 5242880 q twoChunks {}).2.1 = some 200 := by
  intro q
  have hobeys : twoChunks.Obeys 5242880 {} := by
    intro _ appended start hsetup
    obtain rfl : ⟨some (Mem.store { byte := fun _ => 0 } 0 0), 0, httpClientChunkSize⟩ = start :=
      congrArg (·.2.1) ((setupCurlRequest_some (fun _ => 0) appended {}).symm.trans hsetup)
    exact ⟨by decide, by decide, trivial⟩
  obtain ⟨-, hraw, -⟩ := request_answer 5242880 q twoChunks {} (fun _ => none) hobeys
  have hexpected : expected q twoChunks {} = (some (bytes "\x7b\x7d"), some 200) := by decide
  rw [hexpected] at hraw
  exact ⟨hobeys, congrArg Prod.fst hraw, congrArg Prod.snd hraw⟩

end ApiServer.HttpClient
