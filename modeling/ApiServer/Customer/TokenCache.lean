import ApiServer.Customer

/-!
# The cached token under any interleaving

One thread at a time logs in, and only that thread and a 401 change the token. A thread gets the
token that is fresh or just installed, unless its own login fails behind an expired one; failed
logins keep every thread away for five seconds, unless they were answered; and a 401 clears the
token it is about, unless another one has come in between.
-/

namespace ApiServer
open Bytes Json SingleFlight

variable {S : Sodium} {J : JsonC} {cfg : Config} {now : Int} {cache : JwtCache} {a : HttpAnswer}

/-! ## The cache -/

/-- The request has had no answer that is worth a look at its members. -/
def LoginFails (a : HttpAnswer) : Prop := a.code ≠ some 200 ∨ a.json = none

/-- The token of a login response, if it is there and the cache has room for it. -/
def usableToken (J : JsonC) (loginResponse : Json) : Option Bytes :=
  (((objectGetEx loginResponse (bytes "id_token")).bind J.getString).map cstr).filter fun token =>
    token ≠ [] ∧ token.length < 1024

/-- The token that a login brings into the cache. -/
def installedToken (J : JsonC) (a : HttpAnswer) : Option Bytes :=
  if a.code = some 200 then a.json.bind (usableToken J) else none

/-- The credentials always fit their buffers. -/
theorem executeLoginRequest_eq :
    executeLoginRequest cfg a = if a.code = some 200 then a.json else none := by
  obtain ⟨call, -, -, hcall, -⟩ := @credentialsRequest_ok maxConfigStr "Login payload truncated"
    cfg.apiUrl.text (bytes "/api/login") _ _ cfg.apiUser.noNul cfg.apiPass.noNul
  rw [executeLoginRequest, apiLoginRequest, hcall]

theorem LoginFails.response (h : LoginFails a) : executeLoginRequest cfg a = none := by
  rw [executeLoginRequest_eq]
  split
  · exact h.resolve_left (not_not_intro ‹_›)
  · rfl

theorem LoginFails.installed (h : LoginFails a) : installedToken J a = none := by
  rw [installedToken]
  split
  · rw [h.resolve_left (not_not_intro ‹_›)]
    rfl
  · rfl

theorem exists_response (h : ¬LoginFails a) :
    ∃ response, executeLoginRequest cfg a = some response ∧
      installedToken J a = usableToken J response := by
  obtain ⟨hcode, hjson⟩ := not_or.mp h
  rw [not_not] at hcode
  obtain ⟨response, hresponse⟩ := Option.ne_none_iff_exists'.mp hjson
  rw [executeLoginRequest_eq, installedToken, if_pos hcode, if_pos hcode, hresponse]
  exact ⟨response, rfl, rfl⟩

theorem copyTokenSafely_token : copyTokenSafely 1024 cache.token.text = cache.token.text :=
  List.take_of_length_le cache.token.fits

theorem loginToken_eq : loginToken cache = cache.token.get := by
  rw [loginToken, copyTokenSafely_token, CBuf.get, ite_not]

theorem loginHit_eq_some {token : Bytes} :
    loginHit now cache = some token ↔ cache.token.get = some token ∧ now < cache.expiresAt := by
  rw [loginHit, copyTokenSafely_token, CBuf.get]
  split <;> split <;> simp_all

theorem loginHit_eq_none :
    loginHit now cache = none ↔ cache.token.text = [] ∨ cache.expiresAt ≤ now := by
  rw [loginHit, ← Int.not_lt, ite_eq_right_iff]
  simp [imp_iff_not_or]

theorem updateJwtCache_token (h : cache.token = .empty) (response : Json) :
    (updateJwtCache S J now cache response).1.token.get = usableToken J response := by
  rw [updateJwtCache, usableToken]
  cases (objectGetEx response (bytes "id_token")).bind J.getString with
  | none => rw [h]; rfl
  | some idToken =>
    rw [Option.map_some, Option.filter_some]
    by_cases hlong : 1024 ≤ (cstr idToken).length
    · simp [if_pos hlong, Nat.not_lt.mpr hlong, h, CBuf.get, CBuf.empty]
    · have htext : (CBuf.strlcpy 1024 idToken).text = cstr idToken :=
        CBuf.strlcpy_of_lt (Nat.not_le.mp hlong)
      dsimp only
      rw [if_neg hlong, CBuf.get, htext]
      by_cases hempty : cstr idToken = []
      · simp [hempty]
      · simp [hempty, Nat.not_le.mp hlong]

theorem loginFinish_failed (h : LoginFails a) :
    loginFinish S J cfg now a cache = { cache with lastFailedAuth := now } := by
  rw [loginFinish, h.response]

/-- An answer clears what the cache had, and resets the back-off. -/
theorem loginFinish_answered (h : ¬LoginFails a) :
    (loginFinish S J cfg now a cache).token.get = installedToken J a ∧
      (loginFinish S J cfg now a cache).lastFailedAuth = 0 := by
  obtain ⟨response, hresponse, hinstalled⟩ := @exists_response J cfg a h
  rw [loginFinish, hresponse, hinstalled]
  exact ⟨updateJwtCache_token rfl response, rfl⟩

/-! ## Single flight -/

section
variable {ι : Type} [DecidableEq ι] {s t u : TokenState ι} {e : TokenEvent ι} {i : ι}

/-- What a step does to the cache. -/
inductive CacheStep (S : Sodium) (J : JsonC) (cfg : Config) (s t : TokenState ι) : TokenEvent ι → Prop
  | same {e : TokenEvent ι} : t.data = s.data → CacheStep S J cfg s t e
  | finish {i : ι} {a : HttpAnswer} : (s.thread i).leads = true →
    t.data = loginFinish S J cfg s.now a s.data → CacheStep S J cfg s t (.finish i a)
  | invalidate {i : ι} : s.thread i = .out (.unauthorized json token) →
    t.data = { s.data with token := .empty } → CacheStep S J cfg s t (.act i .invalidate)

theorem callerNext_cache {b : CallerEvent} {l l' : Caller} {cache' : JwtCache}
    (h : callerNext cfg cache b l = some (cache', l')) :
    cache' = cache ∨ b = .invalidate ∧ (∃ json token, l = .unauthorized json token) ∧
      cache' = { cache with token := .empty } := by
  unfold callerNext at h
  split at h
  · cases h
    exact .inl rfl
  · split at h
    all_goals
      cases h
      exact .inl rfl
  · cases h
    exact .inl rfl
  · cases h
    exact .inr ⟨rfl, ⟨_, _, rfl⟩, rfl⟩
  · cases h

theorem cacheStep (h : (tokenProtocol S J cfg).Step s e t) : CacheStep S J cfg s t e := by
  cases h with
  | finish hlead hfinish =>
    cases hfinish
    exact .finish (by rw [hlead]; rfl) rfl
  | act hout hact =>
    obtain hsame | ⟨rfl, ⟨json, token, rfl⟩, hcleared⟩ := callerNext_cache hact
    · exact .same hsame
    · exact .invalidate hout hcleared
  | _ => exact .same rfl

/-- The section behind a login. -/
theorem finish_step (h : (tokenProtocol S J cfg).Step s (.finish i a) t) :
    ∃ customerId, s.thread i = .leading customerId ∧ t.now = s.now ∧ t.busy = false ∧
      t.data = loginFinish S J cfg s.now a s.data ∧
      t.thread i = .out (loginReturns customerId (loginToken t.data)) := by
  cases h with
  | finish hlead hfinish =>
    cases hfinish
    exact ⟨_, hlead, rfl, rfl, rfl, by simp only [Function.update_self]⟩

theorem login_single_flight (hs : (customerSystem S J cfg ι).Reachable (fun _ _ => True) s) :
    (∀ i j, (s.thread i).leads = true → (s.thread j).leads = true → i = j) ∧
      (s.busy = true ↔ ∃! i, (s.thread i).leads = true) ∧
      (∀ e t, (customerSystem S J cfg ι).step s e t →
        (t.data.token = s.data.token ∧ t.data.expiresAt = s.data.expiresAt) ∨
          (∃ i a, e = .finish i a ∧ (s.thread i).leads = true) ∨
          (∃ i json token, e = .act i .invalidate ∧ s.thread i = .out (.unauthorized json token) ∧
            t.data = { s.data with token := .empty })) ∧
      ∀ i, (s.thread i).waits = true → s.busy = true := by
  obtain ⟨leader, hled⟩ := led_of_reachable hs
  refine ⟨fun i j => hled.unique, hled.busy_iff, fun e t hstep => ?_, hled.awake⟩
  cases cacheStep (Protocol.step_of_next hstep) with
  | same h => exact .inl (by rw [h]; exact ⟨rfl, rfl⟩)
  | finish hlead => exact .inr (.inl ⟨_, _, rfl, hlead⟩)
  | invalidate hout h => exact .inr (.inr ⟨_, _, _, rfl, hout, h⟩)

/-! Two threads, with a server and a clock that are given step by step. -/

def coldStart : TokenState Bool where
  now := 100
  data := {}
  busy := false
  thread _ := .out (.returned {})

def referenceNext : TokenState Bool → TokenEvent Bool → Option (TokenState Bool) :=
  (tokenProtocol .reference .reference {}).next

def replay (es : List (TokenEvent Bool)) : Option (TokenState Bool) :=
  es.foldlM referenceNext coldStart

theorem init_coldStart : (customerSystem .reference .reference {} Bool).init coldStart :=
  ⟨⟨rfl, fun _ => ⟨_, rfl⟩⟩, rfl, fun _ => ⟨_, rfl⟩⟩

theorem reachable_replay {s : TokenState Bool} {es : List (TokenEvent Bool)}
    (h : replay es = some s) :
    (customerSystem .reference .reference {} Bool).Reachable (fun _ _ => True) s :=
  System.Reachable.replay id (fun _ _ _ => trivial) (.init init_coldStart)
    (show es.foldlM referenceNext coldStart = some s from h)

/-- A thread comes as far as its first look at the cache. -/
def asks (i : Bool) : List (TokenEvent Bool) := [.act i (.call none), .enter i, .look i]

def loginAnswer (idToken : Json) : HttpAnswer :=
  { json := some (.object [(bytes "id_token", idToken)]), code := some 200 }

theorem login_single_flight_two :
    ∃ s, (customerSystem .reference .reference {} Bool).Reachable (fun _ _ => True) s ∧
      (s.thread false).waits = true ∧ ∃! i, (s.thread i).leads = true := by
  have hrun : ∃ s, replay (asks true ++ asks false) = some s ∧ (s.thread false).waits = true :=
    ⟨_, rfl, rfl⟩
  obtain ⟨s, hs, hwaits⟩ := hrun
  obtain ⟨-, hbusy, -, hawake⟩ := login_single_flight (reachable_replay hs)
  exact ⟨s, reachable_replay hs, hwaits, hbusy.mp (hawake false hwaits)⟩

/-! ## Freshness -/

/-- Whoever logs in has found no token, or an expired one. -/
def Missed (s : TokenState ι) : Prop :=
  s.busy = true → s.data.token.text = [] ∨ s.data.expiresAt ≤ s.now

theorem missed_step (h : (tokenProtocol S J cfg).Step s e t) (H : Missed s) : Missed t := by
  intro hbusy
  cases h with
  | tick hle => exact (H hbusy).imp_right (Int.le_trans · hle)
  | lead _ hmiss =>
    exact loginHit_eq_none.mp (Option.map_eq_none_iff.mp hmiss)
  | finish => cases hbusy
  | act hout hact =>
    obtain hsame | ⟨-, -, hcleared⟩ := callerNext_cache hact
    · rw [hsame]
      exact H hbusy
    · rw [hcleared]
      exact .inl rfl
  | _ => exact H hbusy

theorem missed_of_reachable {G : TokenState ι → TokenEvent ι → Prop}
    (h : (customerSystem S J cfg ι).Reachable G s) : Missed s := by
  refine System.Reachable.invariant (I := Missed) (fun s hinit hbusy => ?_)
    (fun s e t _ H _ hstep => missed_step (Protocol.step_of_next hstep) H) h
  rw [hinit.2.1] at hbusy
  cases hbusy

/-- In this step `login_and_get_token` returns true to a thread, with this token. -/
def Grants (s t : TokenState ι) (i : ι) (token : Bytes) : Prop :=
  (∀ l, s.thread i ≠ .out l) ∧ ∃ customerId, t.thread i = .out (.granted customerId token)

theorem loginReturns_eq_granted {id customerId returned : Option Bytes} {token : Bytes} :
    loginReturns id returned = .granted customerId token ↔ id = customerId ∧ returned = some token := by
  cases returned <;> simp [loginReturns]

/-- A token comes from a cache where it is fresh, or out of the section behind a login. -/
theorem Grants.cases {token : Bytes} (h : (tokenProtocol S J cfg).Step s e t)
    (hgrants : Grants s t i token) :
    t.data.token.get = some token ∧
      (t.now < t.data.expiresAt ∨
        ∃ a, e = .finish i a ∧ t.data = loginFinish S J cfg s.now a s.data) := by
  obtain ⟨hin, customerId, hout⟩ := hgrants
  obtain ⟨hnow, ⟨hdata, q, hhit | hrefuse⟩ | ⟨a, q, rfl, hfinish⟩⟩ := h.exit hin hout
  · obtain ⟨token', htoken, hreturns⟩ := Option.map_eq_some_iff.mp hhit
    obtain ⟨-, heq⟩ := loginReturns_eq_granted.mp hreturns
    cases heq
    obtain ⟨hget, hfresh⟩ := loginHit_eq_some.mp htoken
    rw [hnow, hdata]
    exact ⟨hget, .inl hfresh⟩
  · obtain ⟨-, hreturns⟩ := Option.ite_none_right_eq_some.mp hrefuse
    cases hreturns
  · obtain ⟨hdata, hreturns⟩ := Prod.mk.inj hfinish
    obtain ⟨-, htoken⟩ := loginReturns_eq_granted.mp hreturns
    rw [loginToken_eq, hdata] at htoken
    exact ⟨htoken, .inr ⟨a, rfl, hdata.symm⟩⟩

theorem login_token_fresh_iff (hs : (customerSystem S J cfg ι).Reachable (fun _ _ => True) s)
    (hstep : (customerSystem S J cfg ι).step s e t) :
    (∀ i token, Grants s t i token →
      (t.data.token.text = token ∧ t.now < t.data.expiresAt) ∨
        ∃ a, e = .finish i a ∧ installedToken J a = some token) ↔
    ∀ i a, e = .finish i a → LoginFails a → s.data.token.text = [] := by
  have hnext := Protocol.step_of_next hstep
  constructor
  · -- a failed login leaves the token that was missed, and its thread returns it
    rintro hfresh i a rfl hfails
    by_contra htoken
    obtain ⟨customerId, hlead, hnow, -, hdata, hthread⟩ := finish_step hnext
    obtain ⟨leader, hled⟩ := led_of_reachable hs
    have hexpired := (missed_of_reachable hs (hled.busy_of_leading hlead)).resolve_left htoken
    rw [loginFinish_failed hfails] at hdata
    have hget : t.data.token.get = some s.data.token.text := by
      rw [hdata]
      exact CBuf.get_eq_some.mpr ⟨htoken, rfl⟩
    rw [loginToken_eq, hget] at hthread
    obtain ⟨-, hlt⟩ | ⟨_, heq, hinstalled⟩ := hfresh i _ ⟨by rw [hlead]; nofun, customerId, hthread⟩
    · rw [hnow, hdata] at hlt
      exact absurd hexpired (Int.not_le.mpr hlt)
    · cases heq
      rw [hfails.installed] at hinstalled
      cases hinstalled
  · intro hfailed i token hgrants
    obtain ⟨hget, hlt | ⟨a, rfl, hdata⟩⟩ := hgrants.cases hnext
    · exact .inl ⟨(CBuf.get_eq_some.mp hget).2, hlt⟩
    · by_cases hfails : LoginFails a
      · rw [hdata, loginFinish_failed hfails] at hget
        exact absurd (hfailed i a rfl hfails) (CBuf.get_eq_some.mp hget).1
      · rw [hdata, (loginFinish_answered hfails).1] at hget
        exact .inr ⟨a, rfl, hget⟩

theorem login_token_fresh_first :
    ∃ s t : TokenState Bool, Grants s t true (bytes "t1") ∧
      ∀ i token, Grants s t i token →
        (t.data.token.text = token ∧ t.now < t.data.expiresAt) ∨
          ∃ a, (.finish true (loginAnswer (.string (bytes "t1"))) : TokenEvent Bool) = .finish i a ∧
            installedToken .reference a = some token := by
  have hrun : ∃ s t, replay (asks true) = some s ∧
      referenceNext s (.finish true (loginAnswer (.string (bytes "t1")))) = some t ∧
      Grants s t true (bytes "t1") := ⟨_, _, rfl, rfl, nofun, none, rfl⟩
  obtain ⟨s, t, hs, ht, hgrants⟩ := hrun
  refine ⟨s, t, hgrants, (login_token_fresh_iff (reachable_replay hs) ht).mpr fun i a heq hfails => ?_⟩
  cases heq
  obtain hcode | hjson := hfails
  · exact absurd rfl hcode
  · cases hjson

/-- The second thread asks when the token has expired, and its login gets no answer. -/
theorem login_token_stale :
    ∃ s t : TokenState Bool,
      (customerSystem .reference .reference {} Bool).Reachable (fun _ _ => True) s ∧
      (customerSystem .reference .reference {} Bool).step s (.finish false {}) t ∧
      Grants s t false (bytes "t1") ∧ t.data.expiresAt < t.now := by
  have hrun : ∃ s t, replay (asks true ++ [.finish true (loginAnswer (.string (bytes "t1"))),
        .tick 300] ++ asks false) = some s ∧
      referenceNext s (.finish false {}) = some t ∧
      Grants s t false (bytes "t1") ∧ t.data.expiresAt < t.now :=
    ⟨_, _, rfl, rfl, ⟨nofun, none, rfl⟩, by decide⟩
  obtain ⟨s, t, hs, ht, hstale⟩ := hrun
  exact ⟨s, t, reachable_replay hs, ht, hstale⟩

/-! ## Back-off -/

/-- Before `bound` nobody logs in, and the cache says so. -/
def BacksOff (bound : Int) (s : TokenState ι) : Prop :=
  s.now < bound → s.busy = false ∧ s.data.lastFailedAuth + 5 = bound

theorem not_backoff {customerId : Option Bytes}
    (h : (tokenProtocol S J cfg).refuse now cache customerId = none) :
    cache.lastFailedAuth + 5 ≤ now := by
  refine Int.not_lt.mp fun hlt => ?_
  simp [tokenProtocol, loginBackoff, hlt] at h

theorem backsOff_step {bound : Int} {leader : Option ι} (h : (tokenProtocol S J cfg).Step s e t)
    (hled : Led s leader) (H : BacksOff bound s) : BacksOff bound t := by
  intro hlt
  cases h with
  | tick hle => exact H (Int.lt_of_le_of_lt hle hlt)
  | lead _ _ _ hrefuse =>
    have hbackoff := not_backoff hrefuse
    rw [(H hlt).2] at hbackoff
    exact absurd hlt (Int.not_lt.mpr hbackoff)
  | finish hlead =>
    -- the flag is down, so that nobody is behind a login
    cases (H hlt).1.symm.trans (hled.busy_of_leading hlead)
  | act _ hact =>
    obtain ⟨hbusy, hbound⟩ := H hlt
    obtain hsame | ⟨-, -, hcleared⟩ := callerNext_cache hact
    · exact ⟨hbusy, by rw [hsame]; exact hbound⟩
    · exact ⟨hbusy, by rw [hcleared]; exact hbound⟩
  | _ => exact H hlt

theorem backsOff_since {G : TokenState ι → TokenEvent ι → Prop}
    (ht : (customerSystem S J cfg ι).Reachable G t) (hbusy : t.busy = false)
    (hu : ((customerSystem S J cfg ι).since t).Reachable G u) :
    BacksOff (t.data.lastFailedAuth + 5) u := by
  refine System.Reachable.invariant (I := BacksOff (t.data.lastFailedAuth + 5)) ?_ ?_ hu
  · rintro s rfl -
    exact ⟨hbusy, rfl⟩
  · intro s e t' hs H _ hstep
    obtain ⟨leader, hled⟩ := led_of_reachable (ht.trans hs)
    exact backsOff_step (Protocol.step_of_next hstep) hled H

/-- Without a token a thread logs in as soon as the back-off allows. -/
theorem exists_login {n : Int} {a : HttpAnswer} (hthread : t.thread i = .out (.returned a))
    (hbusy : t.busy = false) (htoken : t.data.token.text = []) (hnow : t.now ≤ n)
    (hbackoff : t.data.lastFailedAuth + 5 ≤ n) :
    ∃ u v, ((customerSystem S J cfg ι).since t).Reachable (fun _ _ => True) u ∧
      (customerSystem S J cfg ι).step u (.look i) v ∧ u.now = n ∧
      (u.thread i).leads = false ∧ (v.thread i).leads = true := by
  let called : TokenState ι := t.goto i (.out (.called none))
  let entered : TokenState ι := called.goto i (.entering none)
  have hcall : (customerSystem S J cfg ι).step t (.act i (.call none)) called := by
    simp [customerSystem, Protocol.system, Protocol.next, hthread, tokenProtocol, callerNext, called,
      State.goto]
  have henter : (customerSystem S J cfg ι).step called (.enter i) entered := by
    simp [customerSystem, Protocol.system, Protocol.next, tokenProtocol, called, entered,
      State.goto_self]
  have htick : (customerSystem S J cfg ι).step entered (.tick n) { entered with now := n } := by
    simp [customerSystem, Protocol.system, Protocol.next, called, entered, State.goto, hnow]
  have hentering : entered.thread i = .entering none := State.goto_self ..
  have hlook : (customerSystem S J cfg ι).step { entered with now := n } (.look i)
      { entered.goto i (.leading none) with now := n, busy := true } := by
    have hmiss : loginHit n t.data = none := loginHit_eq_none.mpr (.inl htoken)
    have hopen : loginBackoff n t.data = false := decide_eq_false (Int.not_lt.mpr hbackoff)
    simp [customerSystem, Protocol.system, Protocol.next, Protocol.look, tokenProtocol,
      entered, called, State.goto, hmiss, hbusy, hopen]
  refine ⟨_, _, .step (.step (.step (.init rfl) trivial hcall) trivial henter) trivial htick, hlook,
    rfl, ?_, ?_⟩
  · change (entered.thread i).leads = false
    rw [hentering]
    rfl
  · change ((entered.goto i (.leading none)).thread i).leads = true
    rw [State.goto_self]
    rfl

theorem login_backoff_iff (hs : (customerSystem S J cfg ι).Reachable (fun _ _ => True) s)
    (hstep : (customerSystem S J cfg ι).step s (.finish i a) t) (hfailed : installedToken J a = none) :
    (∀ u e v j, ((customerSystem S J cfg ι).since t).Reachable (fun _ _ => True) u →
      (customerSystem S J cfg ι).step u e v →
      (u.thread j).leads = false → (v.thread j).leads = true → s.now + 5 ≤ u.now) ↔
    LoginFails a ∨ s.now ≤ 0 := by
  have ht : (customerSystem S J cfg ι).Reachable (fun _ _ => True) t := .step hs trivial hstep
  obtain ⟨customerId, -, hnow, hbusy, hdata, hthread⟩ := finish_step (Protocol.step_of_next hstep)
  constructor
  · -- the same thread may ask again at once
    intro hwait
    by_contra hnot
    obtain ⟨hanswered, hpos⟩ := not_or.mp hnot
    have hcache := @loginFinish_answered S J cfg s.now s.data a hanswered
    rw [← hdata, hfailed] at hcache
    obtain ⟨htoken, hreset⟩ := hcache
    rw [loginToken_eq, htoken] at hthread
    obtain ⟨u, v, hu, hlook, hclock, hbefore, hafter⟩ := exists_login (n := max s.now 5) hthread hbusy
      (CBuf.get_eq_none.mp htoken) (by rw [hnow]; exact Int.le_max_left ..) (by rw [hreset]; omega)
    have hearly := hwait u _ v i hu hlook hbefore hafter
    omega
  · intro hcond u e v j hu hstart hbefore hafter
    have hbound : s.now ≤ t.data.lastFailedAuth := by
      rw [hdata]
      by_cases hfails : LoginFails a
      · exact Int.le_of_eq (by rw [loginFinish_failed hfails])
      · rw [(loginFinish_answered hfails).2]
        exact hcond.resolve_left hfails
    obtain ⟨-, _, -, hrefuse⟩ := (Protocol.step_of_next hstart).starts hbefore hafter
    have hallowed := not_backoff hrefuse
    by_contra hearly
    have hlast := (backsOff_since ht hbusy hu (by omega)).2
    omega

theorem login_backoff_no_answer :
    ∃ s t : TokenState Bool, s.now = 100 ∧
      (customerSystem .reference .reference {} Bool).step s (.finish true {}) t ∧
      ∀ u e v j,
        ((customerSystem .reference .reference {} Bool).since t).Reachable (fun _ _ => True) u →
        (customerSystem .reference .reference {} Bool).step u e v →
        (u.thread j).leads = false → (v.thread j).leads = true → s.now + 5 ≤ u.now := by
  have hrun : ∃ s t, replay (asks true) = some s ∧ referenceNext s (.finish true {}) = some t ∧
      s.now = 100 := ⟨_, _, rfl, rfl, rfl⟩
  obtain ⟨s, t, hs, ht, hnow⟩ := hrun
  exact ⟨s, t, hnow, ht, (login_backoff_iff (reachable_replay hs) ht rfl).mpr (.inl (.inl nofun))⟩

/-- The follower is woken by a login whose response has no token, and logs in itself at once. -/
theorem login_backoff_skipped :
    ∃ s t u v : TokenState Bool,
      (customerSystem .reference .reference {} Bool).Reachable (fun _ _ => True) s ∧
      (customerSystem .reference .reference {} Bool).step s (.finish true (loginAnswer .null)) t ∧
      installedToken .reference (loginAnswer .null) = none ∧
      ((customerSystem .reference .reference {} Bool).since t).Reachable (fun _ _ => True) u ∧
      (customerSystem .reference .reference {} Bool).step u (.look false) v ∧
      (u.thread false).leads = false ∧ (v.thread false).leads = true ∧ u.now < s.now + 5 := by
  have hrun : ∃ s t v, replay (asks true ++ asks false) = some s ∧
      referenceNext s (.finish true (loginAnswer .null)) = some t ∧
      referenceNext t (.look false) = some v ∧
      (t.thread false).leads = false ∧ (v.thread false).leads = true ∧ t.now < s.now + 5 :=
    ⟨_, _, _, rfl, rfl, rfl, rfl, rfl, by decide⟩
  obtain ⟨s, t, v, hs, ht, hv, hrest⟩ := hrun
  exact ⟨s, t, t, v, reachable_replay hs, ht, rfl, .init rfl, hv, hrest⟩

/-! ## Late answers -/

/-- A 401 comes while the cache still has the token of the request, and no login brings another one
before the cache is cleared. -/
def NoLateAnswer (J : JsonC) (s : TokenState ι) : TokenEvent ι → Prop
  | .act i (.answer a) => ∀ call token, s.thread i = .out (.calling call token) → a.code = some 401 →
    s.data.token.text = token ∨ s.data.token.text = []
  | .finish _ a => ∀ i json token, s.thread i = .out (.unauthorized json token) →
    installedToken J a = some token ∨ installedToken J a = none
  | _ => True

/-- Every 401 that waits for the lock is about the token in the cache, if there is one. -/
def ClearsOwn (s : TokenState ι) : Prop :=
  ∀ i json token, s.thread i = .out (.unauthorized json token) →
    s.data.token.text = token ∨ s.data.token.text = []

theorem ClearsOwn.goto {p : Phase Caller (Option Bytes)} (H : ClearsOwn s)
    (hp : ∀ json token, p = .out (.unauthorized json token) →
      s.data.token.text = token ∨ s.data.token.text = []) (i : ι) :
    ClearsOwn (s.goto i p) := by
  intro j json token hj
  by_cases hij : j = i
  · subst hij
    rw [State.goto_self] at hj
    exact hp json token hj
  · rw [State.goto_of_ne s hij] at hj
    exact H j json token hj

theorem loginReturns_ne_unauthorized {id returned : Option Bytes} {json : Option Json} {token : Bytes} :
    loginReturns id returned ≠ .unauthorized json token := by
  cases returned <;> nofun

theorem callerNext_unauthorized {b : CallerEvent} {l : Caller} {cache' : JwtCache}
    {json : Option Json} {token : Bytes}
    (h : callerNext cfg cache b l = some (cache', .unauthorized json token)) :
    ∃ a call, b = .answer a ∧ l = .calling call token ∧ a.code = some 401 := by
  unfold callerNext at h
  split at h
  · cases h
  · split at h <;> cases h
  · split at h
    · cases h
      exact ⟨_, _, rfl, rfl, ‹_›⟩
    · cases h
  · cases h
  · cases h

theorem clearsOwn_step (h : (tokenProtocol S J cfg).Step s e t) (hG : NoLateAnswer J s e)
    (H : ClearsOwn s) : ClearsOwn t := by
  cases h with
  | tick => exact H
  | hit _ hhit =>
    obtain ⟨_, -, rfl⟩ := Option.map_eq_some_iff.mp hhit
    exact H.goto (fun _ _ h => absurd (Phase.out.inj h) loginReturns_ne_unauthorized) _
  | refuse _ _ _ hrefuse =>
    cases (Option.ite_none_right_eq_some.mp hrefuse).2
    exact H.goto (fun _ _ h => absurd (Phase.out.inj h) loginReturns_ne_unauthorized) _
  | @finish a q _ _ _ i _ hfinish =>
    cases hfinish
    intro j json token hj
    have hwaits : s.thread j = .out (.unauthorized json token) := by
      change Function.update (fun j => (s.thread j).wakeUp) i _ j = _ at hj
      by_cases hij : j = i
      · subst hij
        rw [Function.update_self] at hj
        exact absurd (Phase.out.inj hj) loginReturns_ne_unauthorized
      · rw [Function.update_of_ne hij] at hj
        exact Phase.wakeUp_eq_out hj
    by_cases hfails : LoginFails a
    · rw [loginFinish_failed hfails]
      exact H j json token hwaits
    · have hget := (@loginFinish_answered S J cfg s.now s.data a hfails).1
      obtain hsome | hnone := hG j json token hwaits
      · exact .inl (CBuf.get_eq_some.mp (hget.trans hsome)).2
      · exact .inr (CBuf.get_eq_none.mp (hget.trans hnone))
  | @act b l data l' _ i hout hact =>
    obtain rfl | ⟨-, -, rfl⟩ := callerNext_cache hact
    · refine H.goto (fun json token hl => ?_) i
      cases hl
      obtain ⟨a, call, rfl, rfl, hcode⟩ := callerNext_unauthorized hact
      exact hG call token hout hcode
    · exact fun _ _ _ _ => .inr rfl
  | enter => exact H.goto (p := .entering _) nofun _
  | wait => exact H.goto (p := .waiting _) nofun _
  | lead => exact H.goto (p := .leading _) nofun _
  | wake => exact H.goto (p := .entering _) nofun _

theorem unauthorized_clears_own
    (hs : (customerSystem S J cfg ι).Reachable (NoLateAnswer J) s) {json : Option Json} {token : Bytes}
    (hthread : s.thread i = .out (.unauthorized json token))
    (hstep : (customerSystem S J cfg ι).step s (.act i .invalidate) t)
    (hcleared : t.data.token ≠ s.data.token) : s.data.token.text = token := by
  have hclears : ClearsOwn s := by
    refine System.Reachable.invariant (I := ClearsOwn) (fun s hinit i json token hi => ?_)
      (fun s e t _ H hG hstep => clearsOwn_step (Protocol.step_of_next hstep) hG H) hs
    obtain ⟨a, ha⟩ := hinit.1.2 i
    cases ha.symm.trans hi
  refine (hclears i json token hthread).resolve_right fun hempty => hcleared ?_
  cases cacheStep (Protocol.step_of_next hstep) with
  | same h => rw [h]
  | invalidate _ h =>
    rw [h]
    exact CBuf.ext hempty.symm

/-- Two threads have got one token, both requests are refused, and one of the threads clears it. -/
theorem unauthorized_clears_own_both :
    ∃ s t : TokenState Bool, (∀ i, s.thread i = .out (.unauthorized none (bytes "t1"))) ∧
      (customerSystem .reference .reference {} Bool).step s (.act true .invalidate) t ∧
      t.data.token.text = [] ∧ s.data.token.text = bytes "t1" := by
  have hrun : ∃ s1 s2 s3 s4 s t, replay (asks true ++ asks false) = some s1 ∧
      s1.thread = (fun i => if i then .leading none else .waiting none) ∧
      referenceNext s1 (.finish true (loginAnswer (.string (bytes "t1")))) = some s2 ∧
      [.look false, .act true .send, .act false .send].foldlM referenceNext s2 = some s3 ∧
      (∀ i, ∃ call, s3.thread i = .out (.calling call (bytes "t1"))) ∧
      s3.data.token.text = bytes "t1" ∧
      referenceNext s3 (.act false (.answer { code := some 401 })) = some s4 ∧
      s4.thread true = s3.thread true ∧ s4.data.token.text = bytes "t1" ∧
      referenceNext s4 (.act true (.answer { code := some 401 })) = some s ∧
      (∀ i, s.thread i = .out (.unauthorized none (bytes "t1"))) ∧
      referenceNext s (.act true .invalidate) = some t ∧
      t.data.token.text = [] ∧ s.data.token.text ≠ [] := by
    refine ⟨_, _, _, _, _, _, rfl, funext fun i => by cases i <;> rfl, rfl, rfl, ?_, rfl, rfl, rfl, rfl,
      rfl, ?_, rfl, rfl, nofun⟩
    · rintro (_ | _) <;> exact ⟨_, rfl⟩
    · rintro (_ | _) <;> rfl
  obtain ⟨s1, s2, s3, s4, s, t, h1, hthreads, h2, h3, hcalling, hcached, h4, hkept, hcached', hs,
    hrefused, ht, hempty, hfull⟩ := hrun
  have hlogin : NoLateAnswer .reference s1 (.finish true (loginAnswer (.string (bytes "t1")))) := by
    intro i json token hi
    rw [hthreads] at hi
    cases i <;> cases hi
  have hanswer : ∀ (u : TokenState Bool) (i : Bool), u.thread i = s3.thread i →
      u.data.token.text = bytes "t1" →
      NoLateAnswer .reference u (.act i (.answer { code := some 401 })) := by
    intro u i hu htoken call token hi _
    obtain ⟨call', hcall⟩ := hcalling i
    rw [hu, hcall] at hi
    cases hi
    exact .inl htoken
  have hreach : (customerSystem .reference .reference {} Bool).Reachable (NoLateAnswer .reference) s1 :=
    System.Reachable.replay id (by simp [asks, NoLateAnswer]) (.init init_coldStart) h1
  have hreach : (customerSystem .reference .reference {} Bool).Reachable (NoLateAnswer .reference) s3 :=
    System.Reachable.replay id (by simp [NoLateAnswer]) (.step hreach hlogin h2) h3
  have hreach := System.Reachable.step hreach (hanswer s3 false rfl hcached) h4
  have hreach := System.Reachable.step hreach (hanswer s4 true hkept hcached') hs
  exact ⟨s, t, hrefused, ht, hempty, unauthorized_clears_own hreach (hrefused true) ht fun heq =>
    hfull (by rw [← heq]; exact hempty)⟩

/-- The second request still carries the first token when the first thread has a new one. -/
theorem unauthorized_clears_other :
    ∃ s t : TokenState Bool,
      (customerSystem .reference .reference {} Bool).Reachable (fun _ _ => True) s ∧
      s.thread false = .out (.unauthorized none (bytes "t1")) ∧
      (customerSystem .reference .reference {} Bool).step s (.act false .invalidate) t ∧
      s.data.token.text = bytes "t2" ∧ t.data.token.text = [] := by
  have hrun : ∃ s t, replay (asks true ++ [.finish true (loginAnswer (.string (bytes "t1")))] ++
        asks false ++ [.act true .send, .act false .send, .act true (.answer { code := some 401 }),
          .act true .invalidate] ++ asks true ++
        [.finish true (loginAnswer (.string (bytes "t2"))),
          .act false (.answer { code := some 401 })]) = some s ∧
      s.thread false = .out (.unauthorized none (bytes "t1")) ∧
      referenceNext s (.act false .invalidate) = some t ∧
      s.data.token.text = bytes "t2" ∧ t.data.token.text = [] := ⟨_, _, rfl, rfl, rfl, rfl, rfl⟩
  obtain ⟨s, t, hs, hthread, ht, htokens⟩ := hrun
  exact ⟨s, t, reachable_replay hs, hthread, ht, htokens⟩

end
end ApiServer
