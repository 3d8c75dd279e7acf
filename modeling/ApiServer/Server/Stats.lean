import ApiServer.Server.Liveness
import Mathlib.Algebra.BigOperators.Fin
import Mathlib.Algebra.Order.BigOperators.Group.Finset

/-!
# The request counters

Each reactor counts what it answers (`server_record_request_stats`), with two additions that are
atomic one by one. Any thread may sum the counters up at any time (`server_get_request_stats`), one
load after the other, while the reactors go on. `request_on_complete_cb` comes from the reactor's own
event loop, so never while it is in `process_completed_task`.
-/

namespace ApiServer.Server.Stats
open Function Pipeline

/-- `struct reactor_stats`. -/
structure ReactorStats where
  totalRequestsFast : UInt64 := 0
  totalTimeFastMs : UInt64 := 0
  totalRequestsSlow : UInt64 := 0
  totalTimeSlowMs : UInt64 := 0

/-- `server_request_stats_t`. -/
structure RequestStats where
  totalRequests : UInt64
  totalRequestsFast : UInt64
  totalRequestsSlow : UInt64
  totalTimeMs : UInt64
  totalTimeFastMs : UInt64
  totalTimeSlowMs : UInt64
  avgTimeFastMs : UInt64
  avgTimeSlowMs : UInt64

def measureElapsedMs (start stop : Timespec) : Int :=
  (stop.sec - start.sec) * 1000 + (stop.nsec - start.nsec).tdiv 1000000

/-- The first addition of `server_record_request_stats`. -/
def ReactorStats.addRequest (st : ReactorStats) (isFast : Bool) : ReactorStats :=
  if isFast then { st with totalRequestsFast := st.totalRequestsFast + 1 }
  else { st with totalRequestsSlow := st.totalRequestsSlow + 1 }

/-- The second one. -/
def ReactorStats.addTime (st : ReactorStats) (isFast : Bool) (elapsedMs : Int) : ReactorStats :=
  if isFast then { st with totalTimeFastMs := st.totalTimeFastMs + .ofInt elapsedMs }
  else { st with totalTimeSlowMs := st.totalTimeSlowMs + .ofInt elapsedMs }

/-- One round of the loop of `server_get_request_stats`. -/
def ReactorStats.add (acc st : ReactorStats) : ReactorStats where
  totalRequestsFast := acc.totalRequestsFast + st.totalRequestsFast
  totalTimeFastMs := acc.totalTimeFastMs + st.totalTimeFastMs
  totalRequestsSlow := acc.totalRequestsSlow + st.totalRequestsSlow
  totalTimeSlowMs := acc.totalTimeSlowMs + st.totalTimeSlowMs

/-- The argument is what the loads have found, reactor by reactor. -/
def serverGetRequestStats (loads : List ReactorStats) : RequestStats :=
  let sum : ReactorStats := loads.foldl ReactorStats.add {}
  { totalRequestsFast := sum.totalRequestsFast
    totalRequestsSlow := sum.totalRequestsSlow
    totalRequests := sum.totalRequestsFast + sum.totalRequestsSlow
    totalTimeFastMs := sum.totalTimeFastMs
    totalTimeSlowMs := sum.totalTimeSlowMs
    totalTimeMs := sum.totalTimeFastMs + sum.totalTimeSlowMs
    avgTimeFastMs :=
      if sum.totalRequestsFast ≠ 0 then sum.totalTimeFastMs / sum.totalRequestsFast else 0
    avgTimeSlowMs :=
      if sum.totalRequestsSlow ≠ 0 then sum.totalTimeSlowMs / sum.totalRequestsSlow else 0 }

/-- A request that has been counted. -/
structure Record where
  ticket : Nat
  isFast : Bool
  elapsedMs : Int

/-- Where a reactor is in `server_record_request_stats`. -/
inductive Recording where
  | idle
  | counted (isFast : Bool) (elapsedMs : Int)
  | recorded

structure State (P : Topology) (Slot H : Type) where
  server : Server.State P Slot H := {}
  stats : Fin P.numReactors → ReactorStats := fun _ => {}
  recording : Fin P.numReactors → Recording := fun _ => .idle
  /-- History: what has been counted. -/
  records : Fin P.numReactors → List Record := fun _ => []

inductive Event (P : Topology) (Slot H : Type) where
  | server (e : Server.Event P Slot H)
  | count (r : Fin P.numReactors)
  | time (r : Fin P.numReactors)

section
variable {P : Topology} {Slot H : Type} [DecidableEq Slot] [DecidableEq P.Worker]
  (S : Sodium) (J : JsonC) (K : Tokener) (cfg : Config)

/-- The event is not one of a reactor that is in `process_completed_task`. -/
def Outside (s : Server.State P Slot H) : Server.Event P Slot H → Prop
  | .pipe (.finalize _) => False
  | .pipe (.cancel t) => ∀ r c, s.base.reactor r ≠ .finalizing t c
  | _ => True

inductive Step : State P Slot H → Event P Slot H → State P Slot H → Prop where
  | count {s r t c task} (now : Timespec) : s.server.base.reactor r = .finalizing t c →
    s.server.base.cancelled t = false → s.server.task t = some task → s.recording r = .idle →
    Step s (.count r) { s with
      stats := update s.stats r ((s.stats r).addRequest task.isFast)
      recording := update s.recording r
        (.counted task.isFast (measureElapsedMs task.startTime now))
      records := update s.records r (s.records r ++
        [⟨s.server.base.hist.ticket t, task.isFast, measureElapsedMs task.startTime now⟩]) }
  | time {s r isFast elapsedMs} : s.recording r = .counted isFast elapsedMs →
    Step s (.time r) { s with
      stats := update s.stats r ((s.stats r).addTime isFast elapsedMs)
      recording := update s.recording r .recorded }
  /-- The rest of `process_completed_task`. -/
  | answer {s r t c} : s.server.base.reactor r = .finalizing t c →
    s.server.base.cancelled t = false → s.recording r = .recorded →
    Step s (.server (.pipe (.finalize r))) { s with
      server := answerTask s.server r t c
      recording := update s.recording r .idle }
  | cleanup {s r t c} : s.server.base.reactor r = .finalizing t c →
    s.server.base.cancelled t = true → s.recording r = .idle →
    Step s (.server (.pipe (.finalize r))) { s with server := answerTask s.server r t c }
  | other {s e server} : Outside s.server e → Server.Step S J K cfg s.server e server →
    Step s (.server e) { s with server }

def system (P : Topology) [DecidableEq P.Worker] (Slot H : Type) [DecidableEq Slot] :
    System (State P Slot H) (Event P Slot H) where
  init s := s = {}
  step := Step S J K cfg

end

/-! ## What the counters hold -/

/-- The counters after these requests. -/
def total (records : List Record) : ReactorStats :=
  records.foldl (fun st x => (st.addRequest x.isFast).addTime x.isFast x.elapsedMs) {}

theorem total_concat (records : List Record) (x : Record) :
    total (records ++ [x]) = ((total records).addRequest x.isFast).addTime x.isFast x.elapsedMs :=
  List.foldl_concat ..

def Counts (records : List Record) (st : ReactorStats) : Recording → Prop
  | .counted isFast elapsedMs => ∃ init x, records = init ++ [x] ∧ x.isFast = isFast ∧
    x.elapsedMs = elapsedMs ∧ st = (total init).addRequest isFast
  | .idle | .recorded => st = total records

section
variable {P : Topology} {Slot H : Type}

/-- The tickets a reactor has sent a reply for. -/
def sent (s : Server.State P Slot H) (r : Fin P.numReactors) : List Nat :=
  (s.answered r).filterMap fun x => x.2.map fun _ => x.1

/-- The requests a reactor has counted are those it has answered, and the one it is about to. -/
def Tickets (s : State P Slot H) (r : Fin P.numReactors) : Recording → Prop
  | .idle => (s.records r).map Record.ticket = sent s.server r
  | .counted .. | .recorded => ∃ t c, s.server.base.reactor r = .finalizing t c ∧
    s.server.base.cancelled t = false ∧
    (s.records r).map Record.ticket = sent s.server r ++ [s.server.base.hist.ticket t]

structure Inv (s : State P Slot H) : Prop where
  counts : ∀ r, Counts (s.records r) (s.stats r) (s.recording r)
  tickets : ∀ r, Tickets s r (s.recording r)
  routes : ∀ r, ∀ x ∈ s.records r, ∃ a, s.server.admitted x.ticket = some a ∧ x.isFast = isFast a

variable {u u' : State P Slot H} {r : Fin P.numReactors}

/-- The other reactors do not see what one of them counts. -/
theorem Tickets.frame {ph : Recording} (h : Tickets u r ph) (hrecords : u'.records r = u.records r)
    (hsent : sent u'.server r = sent u.server r)
    (hkeep : ∀ t c, u.server.base.reactor r = .finalizing t c → u.server.base.cancelled t = false →
      u'.server.base.reactor r = .finalizing t c ∧ u'.server.base.cancelled t = false ∧
        u'.server.base.hist.ticket t = u.server.base.hist.ticket t) : Tickets u' r ph := by
  cases ph with
  | idle =>
    rw [Tickets, hrecords, hsent]
    exact h
  | counted | recorded =>
    obtain ⟨t, c, hr, hc, heq⟩ := h
    obtain ⟨hr', hc', hticket⟩ := hkeep t c hr hc
    exact ⟨t, c, hr', hc', by rw [hrecords, hsent, hticket]; exact heq⟩

theorem Inv.time (h : Inv u) {isFast : Bool} {ms : Int} (hr : u.recording r = .counted isFast ms) :
    Inv { u with
      stats := update u.stats r ((u.stats r).addTime isFast ms)
      recording := update u.recording r .recorded } where
  counts q := by
    by_cases hq : q = r
    · subst hq
      have := h.counts q
      rw [hr] at this
      obtain ⟨init, x, hx, rfl, rfl, hst⟩ := this
      simp only [update_self]
      rw [hst, hx]
      exact (total_concat init x).symm
    · simp only [update_of_ne hq]
      exact h.counts q
  tickets q := by
    by_cases hq : q = r
    · subst hq
      have := h.tickets q
      rw [hr] at this
      simp only [update_self]
      exact this
    · simp only [update_of_ne hq]
      exact (h.tickets q).frame rfl rfl fun t c hr hc => ⟨hr, hc, rfl⟩
  routes := h.routes

theorem Inv.init : Inv ({} : State P Slot H) where
  counts _ := rfl
  tickets _ := rfl
  routes _ _ h := by cases h

end

/-! ## One step -/

section
variable {H : Type} {S : Sodium} {J : JsonC} {K : Tokener} {cfg : Config}

/-- A worker leaves the route of a task as it is. -/
theorem keeps_middlewareCtx (ctx : Option (MiddlewareCtx H)) :
    WorkerKeeps fun task : HttpTask H => task.middlewareCtx = ctx where
  setIdentity _ _ h := h
  parsedBody _ _ h := h
  refuse _ _ _ _ _ h := h
  answer _ _ _ _ h := h

theorem work_isFast {r : Nat} {a : Arrival H} {headers : Headers} {task : HttpTask H}
    (h : Fills cfg r a headers task) (tls : ThreadLocals) :
    (a.work S J K cfg tls task).task.isFast = isFast a := by
  have hctx := (apiMiddlewareWrapper_filled h).2.2.1
  have hkept := (keeps_middlewareCtx (some a.route)).workerHandle S J K (jwtSecretBytes cfg)
    (fun h => (a.handlers h).run) a.env
    (w := ⟨loggerSetRequestId tls (some task.requestId.text), task⟩) hctx
  rw [HttpTask.isFast, Arrival.work, workerProcessTask]
  simp only [hkept]
  rfl

variable {P : Topology} {Slot : Type} [DecidableEq Slot] {s : Server.State P Slot H}
  {r : Fin P.numReactors}
  {own : Slot → Place P} {v : Lane P.numReactors → List Slot} {t : Slot} {c : Option Slot}

theorem own_of_finalizing (hinv : Pipeline.Inv s.base v own)
    (hr : s.base.reactor r = .finalizing t c) : own t = .lane (.batch r) := by
  obtain ⟨l, hl, -⟩ := hinv.layout.finalize hr
  exact (hinv.layout.lane_iff t (.batch r)).mp (by rw [hl]; exact .head l)

/-- The flag that is counted is the one of the route of the request. -/
theorem isFast_of_finalizing (hinv : Pipeline.Inv s.base v own) (D : Data S J K cfg s own)
    (hr : s.base.reactor r = .finalizing t c) (hc : s.base.cancelled t = false)
    {task : HttpTask H} (ht : s.task t = some task) :
    ∃ a, s.admitted (s.base.hist.ticket t) = some a ∧ task.isFast = isFast a := by
  have hown := own_of_finalizing hinv hr
  obtain ⟨a, task₀, -, hadmitted, hfills, -, hdone⟩ := D.inFlight t (by rw [hown]; trivial)
  obtain hgone | htask := hdone (by rw [hown]; exact id)
  · rw [hc] at hgone
    cases hgone
  · rw [ht] at htask
    cases htask
    exact ⟨a, hadmitted, work_isFast hfills {}⟩

theorem sent_answerTask (r' : Fin P.numReactors) :
    sent (answerTask s r t c) r' =
      sent s r' ++ if r' = r then ((replyTo s t).map fun _ => s.base.hist.ticket t).toList else [] := by
  unfold sent answerTask
  dsimp only
  split
  · subst r'
    rw [update_self, List.filterMap_append]
    cases replyTo s t <;> rfl
  · rename_i h
    rw [update_of_ne h, List.append_nil]

theorem replyTo_of_finalizing (hinv : Pipeline.Inv s.base v own) (D : Data S J K cfg s own)
    (hr : s.base.reactor r = .finalizing t c) (hc : s.base.cancelled t = false) :
    (replyTo s t).isSome := by
  have hown := own_of_finalizing hinv hr
  obtain ⟨a, task, -, -, -, -, hdone⟩ := D.inFlight t (by rw [hown]; trivial)
  obtain hgone | htask := hdone (by rw [hown]; exact id)
  · rw [hc] at hgone
    cases hgone
  · rw [replyTo, hc, htask]
    rfl

variable {u u' : State P Slot H}

theorem Inv.count (h : Inv u) (hinv : Pipeline.Inv u.server.base v own)
    (D : Data S J K cfg u.server own) {task : HttpTask H} (ms : Int)
    (hr : u.server.base.reactor r = .finalizing t c) (hc : u.server.base.cancelled t = false)
    (ht : u.server.task t = some task) (hidle : u.recording r = .idle) :
    Inv { u with
      stats := update u.stats r ((u.stats r).addRequest task.isFast)
      recording := update u.recording r (.counted task.isFast ms)
      records := update u.records r (u.records r ++
        [⟨u.server.base.hist.ticket t, task.isFast, ms⟩]) } where
  counts q := by
    by_cases hq : q = r
    · subst hq
      simp only [update_self]
      have := h.counts q
      rw [hidle] at this
      exact ⟨u.records q, _, rfl, rfl, rfl, by rw [this]⟩
    · simp only [update_of_ne hq]
      exact h.counts q
  tickets q := by
    by_cases hq : q = r
    · subst hq
      have := h.tickets q
      rw [hidle] at this
      simp only [update_self]
      refine ⟨t, c, hr, hc, ?_⟩
      simp only [update_self, List.map_append, List.map_singleton]
      rw [this]
    · simp only [update_of_ne hq]
      exact (h.tickets q).frame (update_of_ne hq ..) rfl fun t c hr hc => ⟨hr, hc, rfl⟩
  routes q x hx := by
    obtain ⟨rfl, rfl⟩ | hx := mem_update_snoc.mp hx
    · exact isFast_of_finalizing hinv D hr hc ht
    · exact h.routes q x hx

/-- The reactor has sent what it has counted, or has nothing to count. -/
theorem Inv.finalize (h : Inv u) (hcounts : Counts (u.records r) (u.stats r) .idle)
    (htickets : (u.records r).map Record.ticket = sent (answerTask u.server r t c) r) :
    Inv { u with server := answerTask u.server r t c, recording := update u.recording r .idle } where
  counts q := by
    by_cases hq : q = r
    · subst hq
      simp only [update_self]
      exact hcounts
    · simp only [update_of_ne hq]
      exact h.counts q
  tickets q := by
    by_cases hq : q = r
    · subst hq
      simp only [update_self]
      exact htickets
    · simp only [update_of_ne hq]
      refine (h.tickets q).frame rfl ?_ fun t c hr hc => ⟨(update_of_ne hq ..).trans hr, hc, rfl⟩
      rw [sent_answerTask, if_neg hq, List.append_nil]
  routes := h.routes

variable [DecidableEq P.Worker] {e : Pipeline.Event P Slot (Arrival H)}
  {b b' : Pipeline.State P Slot (Arrival H)}

/-- A reactor in `process_completed_task` is disturbed by nobody. -/
theorem finalizing_stays (hst : Pipeline.Step isFast b e b') (hr : b.reactor r = .finalizing t c)
    (hne : e ≠ .finalize r) : b'.reactor r = .finalizing t c := by
  by_cases he : reactorOf e = some r
  · cases hst with
    | finalize => cases he; exact absurd rfl hne
    | receive h | enqueue h | refuse h | wake h | read h | readFails h | detach h | visit h
    | visited h | quit h =>
      cases he
      cases hr.symm.trans h
    | _ => cases he
  · exact (reactor_frame hst he).trans hr

theorem task_stays (hinv : Pipeline.Inv b v own) (hst : Pipeline.Step isFast b e b')
    (hown : own t = .lane (.batch r)) (hcancel : e ≠ .cancel t) (hc : b.cancelled t = false) :
    b'.cancelled t = false ∧ b'.hist.ticket t = b.hist.ticket t := by
  cases hst with
  | @receive r' t' a _ hfree =>
    refine ⟨?_, rfl⟩
    by_cases ht : t = t'
    · subst ht
      exact update_self ..
    · exact (update_of_ne ht ..).trans hc
  | @enqueue _ r' t' h hs =>
    obtain ⟨-, -, rfl⟩ := workerPoolEnqueue_eq_some hs
    refine ⟨hc, update_of_ne ?_ ..⟩
    rintro rfl
    cases hown.symm.trans (hinv.layout.reactor_own h)
  | @cancel t' =>
    refine ⟨(update_of_ne ?_ ..).trans hc, rfl⟩
    rintro rfl
    exact hcancel rfl
  | _ => exact ⟨hc, rfl⟩

/-- Only `finalize` answers. -/
theorem answered_stays {e : Server.Event P Slot H} {s' : Server.State P Slot H}
    (hst : Server.Step S J K cfg s e s') (hout : Outside s e) : s'.answered = s.answered := by
  cases hst with
  | process =>
    unfold workOn
    dsimp only
    split
    · rfl
    · split <;> rfl
  | finalize => exact hout.elim
  | _ => rfl

variable {ev : Event P Slot H}

theorem Step.refines (h : Step S J K cfg u ev u') :
    u'.server = u.server ∨ ∃ e, Server.Step S J K cfg u.server e u'.server := by
  cases h with
  | count | time => exact .inl rfl
  | answer hr | cleanup hr => exact .inr ⟨_, .finalize hr⟩
  | other _ hst => exact .inr ⟨_, hst⟩

theorem refines_server :
    (system S J K cfg P Slot H).Refines (Server.system S J K cfg P Slot H) State.server := by
  refine ⟨?_, fun _ _ _ h => Step.refines h⟩
  rintro s rfl
  rfl

theorem Inv.other (h : Inv u) {e : Server.Event P Slot H} {server : Server.State P Slot H}
    (hs : (Server.system S J K cfg P Slot H).Reachable (fun _ _ => True) u.server)
    (hout : Outside u.server e) (hst : Server.Step S J K cfg u.server e server) :
    Inv { u with server } where
  counts := h.counts
  tickets q := by
    obtain ⟨v, own, hinv, D⟩ := data_of_reachable hs
    refine (h.tickets q).frame rfl (by rw [sent, answered_stays hst hout]; rfl) fun t c hr hc => ?_
    obtain heq | ⟨e', rfl, hst'⟩ := hst.refines
    · dsimp only
      rw [heq]
      exact ⟨hr, hc, rfl⟩
    · have hcancel : e' ≠ .cancel t := by
        rintro rfl
        exact hout q c hr
      have hfin : e' ≠ .finalize q := by
        rintro rfl
        exact hout
      exact ⟨finalizing_stays hst' hr hfin, task_stays hinv hst' (own_of_finalizing hinv hr) hcancel hc⟩
  routes q x hx := by
    obtain ⟨a, ha, hfast⟩ := h.routes q x hx
    exact ⟨a, admitted_next hs ha hst, hfast⟩

theorem Inv.step (h : Inv u)
    (hs : (Server.system S J K cfg P Slot H).Reachable (fun _ _ => True) u.server)
    (hst : Step S J K cfg u ev u') : Inv u' := by
  obtain ⟨v, own, hinv, D⟩ := data_of_reachable hs
  cases hst with
  | count now hr hc ht hidle => exact h.count hinv D _ hr hc ht hidle
  | time hr => exact h.time hr
  | @answer r t c hr hc hrec =>
    have hcounts := h.counts r
    have htickets := h.tickets r
    rw [hrec] at hcounts htickets
    obtain ⟨t', c', hr', -, heq⟩ := htickets
    obtain ⟨rfl, rfl⟩ : t' = t ∧ c' = c := by simpa using hr'.symm.trans hr
    obtain ⟨reply, hreply⟩ := Option.isSome_iff_exists.mp (replyTo_of_finalizing hinv D hr hc)
    refine h.finalize hcounts ?_
    rw [sent_answerTask, if_pos rfl, hreply]
    exact heq
  | @cleanup r t c hr hc hidle =>
    have hcounts := h.counts r
    have htickets := h.tickets r
    rw [hidle] at hcounts htickets
    have hinv' := h.finalize (t := t) (c := c) hcounts <| by
      rw [sent_answerTask, if_pos rfl, replyTo, hc]
      exact htickets.trans (List.append_nil _).symm
    rwa [← hidle, update_eq_self] at hinv'
  | other hout hst => exact h.other hs hout hst

theorem inv_of_reachable {G : State P Slot H → Event P Slot H → Prop}
    (h : (system S J K cfg P Slot H).Reachable G u) : Inv u := by
  refine h.invariant ?_ fun s e s' hs hinv _ hst => hinv.step (refines_server.reachable hs) hst
  rintro s rfl
  exact .init

/-- What is counted stays counted. -/
theorem Step.records_prefix (hst : Step S J K cfg u ev u') (r : Fin P.numReactors) :
    u.records r <+: u'.records r := by
  cases hst with
  | @count r' =>
    by_cases h : r = r'
    · subst h
      simp only [update_self]
      exact List.prefix_append ..
    · simp only [update_of_ne h]
      exact List.prefix_rfl
  | _ => exact List.prefix_rfl

end

/-! ## Readings -/

def ReactorStats.requests (st : ReactorStats) (fast : Bool) : UInt64 :=
  if fast then st.totalRequestsFast else st.totalRequestsSlow

def RequestStats.requests (st : RequestStats) (fast : Bool) : UInt64 :=
  if fast then st.totalRequestsFast else st.totalRequestsSlow

theorem requests_addRequest (st : ReactorStats) (b fast : Bool) :
    (st.addRequest b).requests fast = st.requests fast + if b = fast then 1 else 0 := by
  cases b <;> cases fast <;> simp [ReactorStats.addRequest, ReactorStats.requests]

theorem requests_addTime (st : ReactorStats) (b fast : Bool) (ms : Int) :
    (st.addTime b ms).requests fast = st.requests fast := by
  cases b <;> rfl

theorem requests_add (acc st : ReactorStats) (fast : Bool) :
    (acc.add st).requests fast = acc.requests fast + st.requests fast := by
  cases fast <;> rfl

/-- The loads of `server_get_request_stats` add up without a carry as long as the sum fits. -/
theorem requests_foldl (fast : Bool) (loads : List ReactorStats) (acc : ReactorStats)
    (h : (acc.requests fast).toNat + (loads.map fun st => (st.requests fast).toNat).sum < 2 ^ 64) :
    ((loads.foldl ReactorStats.add acc).requests fast).toNat =
      (acc.requests fast).toNat + (loads.map fun st => (st.requests fast).toNat).sum := by
  induction loads generalizing acc with
  | nil => rfl
  | cons st loads ih =>
    rw [List.map_cons, List.sum_cons, ← Nat.add_assoc] at h ⊢
    have hadd : ((acc.add st).requests fast).toNat =
        (acc.requests fast).toNat + (st.requests fast).toNat := by
      rw [requests_add, UInt64.toNat_add, Nat.mod_eq_of_lt]
      exact Nat.lt_of_le_of_lt (Nat.le_add_right ..) h
    rw [List.foldl_cons, ih, hadd]
    rwa [hadd]

theorem requests_serverGetRequestStats (fast : Bool) (loads : List ReactorStats)
    (h : (loads.map fun st => (st.requests fast).toNat).sum < 2 ^ 64) :
    ((serverGetRequestStats loads).requests fast).toNat =
      (loads.map fun st => (st.requests fast).toNat).sum := by
  have hzero : (({} : ReactorStats).requests fast).toNat = 0 := by cases fast <;> rfl
  have hfold := requests_foldl fast loads {} (by rwa [hzero, Nat.zero_add])
  rw [hzero, Nat.zero_add] at hfold
  cases fast <;> exact hfold

/-- How many of them were on fast routes, or on slow ones. -/
def numRecords (fast : Bool) (records : List Record) : Nat :=
  records.countP fun x => x.isFast == fast

theorem requests_total (fast : Bool) (records : List Record) :
    (total records).requests fast = .ofNat (numRecords fast records) := by
  induction records using List.reverseRecOn with
  | nil => cases fast <;> rfl
  | append_singleton records x ih =>
    rw [total_concat, requests_addTime, requests_addRequest, ih, numRecords, numRecords,
      List.countP_append, UInt64.ofNat_add]
    cases h : (x.isFast == fast) <;> simp_all

section
variable {P : Topology} {Slot H : Type} {u : State P Slot H} {r : Fin P.numReactors}

theorem Inv.requests (h : Inv u) (fast : Bool) (r : Fin P.numReactors) :
    (u.stats r).requests fast = .ofNat (numRecords fast (u.records r)) := by
  have hcounts := h.counts r
  cases hph : u.recording r with
  | idle | recorded =>
    rw [hph] at hcounts
    rw [hcounts, requests_total]
  | counted b ms =>
    rw [hph] at hcounts
    obtain ⟨init, x, hx, rfl, rfl, hst⟩ := hcounts
    rw [hst, hx, ← requests_total, total_concat, requests_addTime]

/-- How many requests on fast routes, or on slow ones, a reactor has answered with the result of a
worker. -/
def numAnswered (fast : Bool) (s : Server.State P Slot H) (r : Fin P.numReactors) : Nat :=
  (s.answered r).countP fun x => x.2.isSome && (s.admitted x.1).any fun a => isFast a == fast

/-- Whether the reactor is about to answer a request it has counted. -/
def pending (u : State P Slot H) (r : Fin P.numReactors) : Nat :=
  match u.recording r with
  | .idle => 0
  | .counted .. | .recorded => 1

theorem countP_sent (fast : Bool) (s : Server.State P Slot H) (r : Fin P.numReactors) :
    (sent s r).countP (fun n => (s.admitted n).any fun a => isFast a == fast) =
      numAnswered fast s r := by
  rw [sent, List.countP_filterMap, numAnswered]
  congr 1
  funext x
  cases x.2 <;> rfl

/-- What is counted is what is answered, but for the request in progress. -/
theorem Inv.numRecords_bounds (h : Inv u) (fast : Bool) (r : Fin P.numReactors) :
    numAnswered fast u.server r ≤ numRecords fast (u.records r) ∧
      numRecords fast (u.records r) ≤ numAnswered fast u.server r + pending u r := by
  have hroute : numRecords fast (u.records r) = ((u.records r).map Record.ticket).countP
      fun n => (u.server.admitted n).any fun a => isFast a == fast := by
    rw [numRecords, List.countP_map]
    refine List.countP_congr fun x hx => ?_
    obtain ⟨a, ha, hfast⟩ := h.routes r x hx
    simp [ha, hfast]
  have htickets := h.tickets r
  rw [hroute, pending, ← countP_sent]
  cases hph : u.recording r with
  | idle =>
    rw [hph] at htickets
    rw [htickets]
    exact ⟨Nat.le_refl _, Nat.le_refl _⟩
  | counted | recorded =>
    rw [hph] at htickets
    obtain ⟨t, c, -, -, heq⟩ := htickets
    rw [heq, List.countP_append]
    exact ⟨Nat.le_add_right .., Nat.add_le_add_left List.countP_le_length _⟩

end

section
variable {P : Topology} {Slot H : Type} [DecidableEq Slot] [DecidableEq P.Worker]
  {S : Sodium} {J : JsonC} {K : Tokener} {cfg : Config}

theorem numRecords_mono {ρ : (system S J K cfg P Slot H).Run} (fast : Bool) (r : Fin P.numReactors)
    {i j : Nat} (hij : i ≤ j) :
    numRecords fast ((ρ.state i).records r) ≤ numRecords fast ((ρ.state j).records r) := by
  have hprefix : (ρ.state i).records r <+: (ρ.state j).records r :=
    System.Run.preserved (ρ := ρ) (P := fun s => (ρ.state i).records r <+: s.records r)
      (fun _ _ _ _ h hst => h.trans (Step.records_prefix hst r)) hij List.prefix_rfl
  exact hprefix.sublist.countP_le

theorem numRecords_add (records : List Record) :
    numRecords true records + numRecords false records = records.length := by
  rw [numRecords, numRecords, List.length_eq_countP_add_countP (fun x : Record => x.isFast == true)]
  congr 2
  funext x
  cases x.isFast <;> rfl

/-- One load: the counter holds what has been counted by then. -/
theorem toNat_load {ρ : (system S J K cfg P Slot H).Run} {i j k : Nat} (fast : Bool)
    (r : Fin P.numReactors) (hik : i ≤ k) (hkj : k ≤ j)
    (hfew : ((ρ.state j).records r).length < 2 ^ 64) :
    numAnswered fast (ρ.state i).server r ≤ (((ρ.state k).stats r).requests fast).toNat ∧
      (((ρ.state k).stats r).requests fast).toNat ≤ numRecords fast ((ρ.state j).records r) := by
  have hmono := numRecords_mono (ρ := ρ) fast r hkj
  have hlt : numRecords fast ((ρ.state k).records r) < 2 ^ 64 :=
    Nat.lt_of_le_of_lt (hmono.trans List.countP_le_length) hfew
  rw [(inv_of_reachable (ρ.reachable k)).requests, UInt64.toNat_ofNat_of_lt' hlt]
  refine ⟨?_, hmono⟩
  exact ((inv_of_reachable (ρ.reachable i)).numRecords_bounds fast r).1.trans
    (numRecords_mono fast r hik)

/-- A reading of the counters while the server runs, with one load after the other between the moments
`i` and `j`. No request is missed that was answered before, none is counted twice, and none that
nobody has begun to answer. -/
theorem requests_of_run (ρ : (system S J K cfg P Slot H).Run) {i j : Nat}
    {loads : Fin P.numReactors → ReactorStats}
    (hloads : ∀ r fast, ∃ k, i ≤ k ∧ k ≤ j ∧
      (loads r).requests fast = ((ρ.state k).stats r).requests fast)
    (hfew : ∑ r, ((ρ.state j).records r).length < 2 ^ 64) :
    let out := serverGetRequestStats (List.ofFn loads)
    (∀ fast, ∑ r, numAnswered fast (ρ.state i).server r ≤ (out.requests fast).toNat ∧
      (out.requests fast).toNat ≤
        ∑ r, (numAnswered fast (ρ.state j).server r + pending (ρ.state j) r)) ∧
    out.totalRequests.toNat = (out.requests true).toNat + (out.requests false).toNat := by
  have hload : ∀ fast r, numAnswered fast (ρ.state i).server r ≤ ((loads r).requests fast).toNat ∧
      ((loads r).requests fast).toNat ≤ numRecords fast ((ρ.state j).records r) := by
    intro fast r
    obtain ⟨k, hik, hkj, heq⟩ := hloads r fast
    rw [heq]
    refine toNat_load fast r hik hkj (Nat.lt_of_le_of_lt ?_ hfew)
    exact Finset.single_le_sum (f := fun r => ((ρ.state j).records r).length)
      (fun _ _ => Nat.zero_le _) (Finset.mem_univ r)
  have hsum : ∀ fast, ∑ r, ((loads r).requests fast).toNat ≤
      ∑ r, numRecords fast ((ρ.state j).records r) :=
    fun fast => Finset.sum_le_sum fun r _ => (hload fast r).2
  -- both sums fit, and their sum too
  have hfit :
      ∑ r, ((loads r).requests true).toNat + ∑ r, ((loads r).requests false).toNat < 2 ^ 64 := by
    refine Nat.lt_of_le_of_lt (Nat.add_le_add (hsum true) (hsum false)) ?_
    rw [← Finset.sum_add_distrib]
    simpa only [numRecords_add] using hfew
  have hread : ∀ fast, ((serverGetRequestStats (List.ofFn loads)).requests fast).toNat =
      ∑ r, ((loads r).requests fast).toNat := by
    intro fast
    have hlist : ((List.ofFn loads).map fun st => (st.requests fast).toNat).sum =
        ∑ r, ((loads r).requests fast).toNat := by
      rw [List.map_ofFn, List.sum_ofFn]
      rfl
    rw [requests_serverGetRequestStats, hlist]
    rw [hlist]
    cases fast <;> omega
  refine ⟨fun fast => ?_, ?_⟩
  · rw [hread]
    refine ⟨Finset.sum_le_sum fun r _ => (hload fast r).1, (hsum fast).trans ?_⟩
    exact Finset.sum_le_sum fun r _ =>
      ((inv_of_reachable (ρ.reachable j)).numRecords_bounds fast r).2
  · have htotal : (serverGetRequestStats (List.ofFn loads)).totalRequests =
        (serverGetRequestStats (List.ofFn loads)).requests true +
          (serverGetRequestStats (List.ofFn loads)).requests false := rfl
    rw [htotal, UInt64.toNat_add, hread, hread, Nat.mod_eq_of_lt hfit]

theorem exists_recorded {u : State P Slot H}
    (hu : (system S J K cfg P Slot H).Reachable (fun _ _ => True) u)
    (hidle : ∀ r, u.recording r = .idle) {r : Fin P.numReactors} {t : Slot} {c : Option Slot}
    (hr : u.server.base.reactor r = .finalizing t c) :
    ∃ u', (system S J K cfg P Slot H).Reachable (fun _ _ => True) u' ∧
      u'.server = answerTask u.server r t c ∧ ∀ r, u'.recording r = .idle := by
  cases hc : u.server.base.cancelled t with
  | true => exact ⟨_, hu.next (.cleanup hr hc (hidle r)) trivial, rfl, hidle⟩
  | false =>
    obtain ⟨v, own, hinv, D⟩ := data_of_reachable (refines_server.reachable hu)
    have hown := own_of_finalizing hinv hr
    obtain ⟨task, ht⟩ : ∃ task, u.server.task t = some task := by
      have := replyTo_of_finalizing hinv D hr hc
      rw [replyTo, hc] at this
      simpa [Option.isSome_iff_exists] using this
    have hu := hu.next (.count ⟨0, 0⟩ hr hc ht (hidle r)) trivial
    have hu := hu.next (.time (r := r) (update_self ..)) trivial
    have hu := hu.next (.answer (r := r) hr hc (update_self ..)) trivial
    refine ⟨_, hu, rfl, fun q => ?_⟩
    by_cases hq : q = r
    · subst hq
      simp only [update_self]
    · simp only [update_of_ne hq]
      exact hidle q

/-- The counters can follow every run of the server in which no client goes away. -/
theorem exists_follows {s : Server.State P Slot H}
    (h : (Server.system S J K cfg P Slot H).Reachable (fun _ e => ∀ t, e ≠ .pipe (.cancel t)) s) :
    ∃ u, (system S J K cfg P Slot H).Reachable (fun _ _ => True) u ∧ u.server = s ∧
      ∀ r, u.recording r = .idle := by
  induction h with
  | init h => exact ⟨{}, .init rfl, h.symm, fun _ => rfl⟩
  | @step s e s' _ hG hst ih =>
    obtain ⟨u, hu, rfl, hidle⟩ := ih
    have hnext : Outside u.server e → ∃ u', (system S J K cfg P Slot H).Reachable (fun _ _ => True) u' ∧
        u'.server = s' ∧ ∀ r, u'.recording r = .idle :=
      fun hout => ⟨_, hu.next (.other hout hst) trivial, rfl, hidle⟩
    cases hst with
    | finalize hr => exact exists_recorded hu hidle hr
    | @carry e _ he =>
      cases e with
      | cancel t => exact absurd rfl (hG t)
      | finalize => exact he.elim
      | _ => exact hnext trivial
    | _ => exact hnext trivial

end

/-- One request has been answered, and the counters say so. -/
theorem requests_of_run_one :
    ∃ (ρ : (system .reference .reference .reference {} (.ofConfig 1 3 50 10) Nat Unit).Run) (i : Nat),
      (serverGetRequestStats (List.ofFn (ρ.state i).stats)).totalRequests.toNat = 1 := by
  obtain ⟨s, hs, reply, hanswered, -⟩ := exists_answered
  obtain ⟨u, hu, rfl, hidle⟩ := exists_follows hs
  have hone : ∀ f : Fin (Topology.ofConfig 1 3 50 10).numReactors → Nat,
      ∑ r, f r = f ⟨0, Nat.one_pos⟩ := fun f => Fin.sum_univ_one f
  obtain ⟨v, own, -, D⟩ := data_of_reachable hs
  obtain ⟨a, ha, -⟩ := D.answers ⟨0, Nat.one_pos⟩ 0 reply
    (by rw [hanswered]; exact List.mem_singleton_self _)
  have hnum : ∀ fast,
      numAnswered fast u.server ⟨0, Nat.one_pos⟩ = if isFast a = fast then 1 else 0 := by
    intro fast
    simp [numAnswered, hanswered, ha, List.countP_cons]
  have hlen : (u.records ⟨0, Nat.one_pos⟩).length = 1 := by
    have := (inv_of_reachable hu).tickets ⟨0, Nat.one_pos⟩
    rw [hidle] at this
    rw [← List.length_map (f := Record.ticket), this, sent, hanswered]
    rfl
  obtain ⟨ρ, m, hm⟩ := System.Run.exists_resting hu
  have hstate := hm m (Nat.le_refl m)
  have hloads : ∀ r fast, ∃ k, m ≤ k ∧ k ≤ m ∧
      (u.stats r).requests fast = ((ρ.state k).stats r).requests fast :=
    fun r fast => ⟨m, Nat.le_refl m, Nat.le_refl m, by rw [hstate]⟩
  obtain ⟨hbounds, htotal⟩ := requests_of_run ρ hloads (by rw [hone, hstate, hlen]; decide)
  have hread : ∀ fast, ((serverGetRequestStats (List.ofFn u.stats)).requests fast).toNat =
      if isFast a = fast then 1 else 0 := by
    intro fast
    obtain ⟨hlow, hhigh⟩ := hbounds fast
    rw [hone, hstate, hnum] at hlow hhigh
    rw [pending, hidle] at hhigh
    exact Nat.le_antisymm hhigh hlow
  refine ⟨ρ, m, ?_⟩
  rw [hstate, htotal, hread, hread]
  cases isFast a <;> rfl

end ApiServer.Server.Stats
