import ApiServer.Pipeline.ExactlyOnce
import ApiServer.Pipeline.Frame
import ApiServer.Pipeline.Stages
import ApiServer.Reply

/-!
# The server as a whole

The pipeline with its data: what a reactor writes into a task, what a worker makes of it, and what
goes to the client at the end. The steps of reactors, workers and the main thread are those of
`Pipeline`, in any order. Whatever the order, a client gets the reply that the server would give if
it had nothing else to do.
-/

namespace ApiServer.Server
open Bytes Function Pipeline

structure State (P : Topology) (Slot H : Type) where
  base : Pipeline.State P Slot (Arrival H) := {}
  /-- What the slots of the task pool hold. -/
  task : Slot → Option (HttpTask H) := fun _ => none
  /-- The output headers of the request in a slot. -/
  headers : Slot → Headers := fun _ => []
  tls : P.Worker → ThreadLocals := fun _ => {}
  /-- History: the requests by ticket. -/
  admitted : Nat → Option (Arrival H) := fun _ => none
  /-- History: the tickets a reactor has finalized, with the reply if the client was still there. -/
  answered : Fin P.numReactors → List (Nat × Option Sent) := fun _ => []
  /-- History: what the reactors have answered by themselves. -/
  direct : List (Arrival H × Sent) := []

section
variable {P : Topology} {Slot H : Type} [DecidableEq Slot] [DecidableEq P.Worker]
  (S : Sodium) (J : JsonC) (K : Tokener) (cfg : Config) (s : State P Slot H)

/-! ## The steps that touch data -/

/-- `task_pool_alloc` finds in the slot what the last request has left there. -/
def slot (t : Slot) : TaskSlot := ((s.task t).map (·.toTaskSlot)).getD {}

/-- What `task_pool_alloc` may return. -/
def Allocates (x : Option TaskSlot) : Prop :=
  x = none ∨ ∃ t, s.base.leased t = false ∧ x = some (taskPoolReset (slot s t))

def receiveTask (r : Fin P.numReactors) (t : Slot) (a : Arrival H) (headers : Headers)
    (task : HttpTask H) : State P Slot H :=
  { s with
    base := fillTask s.base r t a
    task := update s.task t (some task)
    headers := update s.headers t headers }

/-- `worker_pool_enqueue` has accepted the task. -/
def admitTask (r : Fin P.numReactors) (t : Slot) (base : Pipeline.State P Slot (Arrival H)) :
    State P Slot H :=
  { s with
    base := setReactor base r .loop
    admitted := update s.admitted s.base.hist.clock (s.base.job t) }

/-- The answer when `worker_pool_enqueue` fails. -/
def tooBusy : Reply :=
  { code := 503, reason := bytes "Service Unavailable"
    body := bytes "\x7b\"error\":\"Server Too Busy\"\x7d" }

def refuseTask (r : Fin P.numReactors) (t : Slot) : State P Slot H :=
  { s with
    base := release s.base r t .loop
    direct := s.direct ++ (s.base.job t).toList.map fun a => (a, ⟨s.headers t, tooBusy⟩) }

/-- `worker_process_task` on the task of a slot. -/
def worked (w : P.Worker) (t : Slot) : Option (WorkerState H) :=
  match s.base.job t, s.task t with
  | some a, some task => some (a.work S J K cfg (s.tls w) task)
  | _, _ => none

def workOn (w : P.Worker) (t : Slot) : State P Slot H :=
  let base := processTask s.base w t
  if s.base.cancelled t then { s with base }
  else
    match worked S J K cfg s w t with
    | some ws =>
      { s with
        base
        task := update s.task t (some ws.task)
        tls := update s.tls w ws.tls }
    | none => { s with base }

/-- `process_completed_task`, or `cleanup_cancelled_task` when the client has gone. -/
def replyTo (t : Slot) : Option Sent :=
  if s.base.cancelled t then none
  else (s.task t).map (processCompletedTask (s.headers t))

def answerTask (r : Fin P.numReactors) (t : Slot) (curr : Option Slot) : State P Slot H :=
  { s with
    base := finalizeTask s.base r t curr
    answered := update s.answered r (s.answered r ++ [(s.base.hist.ticket t, replyTo s t)]) }

/-! ## Steps -/

inductive Event (P : Topology) (Slot H : Type) where
  | pipe (e : Pipeline.Event P Slot (Arrival H))
  /-- A reactor answers by itself. -/
  | reply (r : Fin P.numReactors) (a : Arrival H)

/-- The flag of the route. -/
def isFast (a : Arrival H) : Bool := a.route.isFast

inductive Step : State P Slot H → Event P Slot H → State P Slot H → Prop where
  | reply {s r a x headers reply} : s.base.reactor r = .loop → Allocates s x →
    apiMiddlewareWrapper cfg a.startTime r.val x a.req (some a.route) = .replied headers reply →
    Step s (.reply r a) { s with direct := s.direct ++ [(a, ⟨headers, reply⟩)] }
  | receive {s r t a headers task} : s.base.reactor r = .loop → s.base.leased t = false →
    apiMiddlewareWrapper cfg a.startTime r.val (some (taskPoolReset (slot s t))) a.req
      (some a.route) = .filled headers task →
    Step s (.pipe (.receive r t a)) (receiveTask s r t a headers task)
  | enqueue {s r t base} : s.base.reactor r = .accepting t →
    workerPoolEnqueue isFast s.base t = some base →
    Step s (.pipe (.enqueue r)) (admitTask s r t base)
  | refuse {s r t} : s.base.reactor r = .accepting t → workerPoolEnqueue isFast s.base t = none →
    Step s (.pipe (.enqueue r)) (refuseTask s r t)
  | process {s w t} : s.base.worker w = .holding t →
    Step s (.pipe (.process w)) (workOn S J K cfg s w t)
  | finalize {s r t c} : s.base.reactor r = .finalizing t c →
    Step s (.pipe (.finalize r)) (answerTask s r t c)
  | carry {s e base} : e.Carries → Pipeline.Step isFast s.base e base →
    Step s (.pipe e) { s with base }

/-- The server in operation. -/
def system (P : Topology) [DecidableEq P.Worker] (Slot H : Type) [DecidableEq Slot] :
    System (State P Slot H) (Event P Slot H) where
  init s := s = {}
  step := Step S J K cfg

end

/-! ## What the tasks hold -/

section
variable {P : Topology} {Slot H : Type} (S : Sodium) (J : JsonC) (K : Tokener) (cfg : Config)

/-- A worker has made the reply, on a thread that is as good as new. -/
def ByWorker (r : Nat) (a : Arrival H) (sent : Sent) : Prop :=
  ∃ headers task, Fills cfg r a headers task ∧
    processCompletedTask headers (a.work S J K cfg {} task).task = sent

/-- A reactor has made the reply, with a new slot or with none. -/
def ByReactor (a : Arrival H) (sent : Sent) : Prop :=
  ∃ r x, (x = none ∨ x = some {}) ∧
    apiMiddlewareWrapper cfg a.startTime r x a.req (some a.route) = .replied sent.headers sent.reply

/-- The reply to a request that finds the server full. -/
def overload (a : Arrival H) : Option Sent :=
  match apiMiddlewareWrapper cfg a.startTime 0 none a.req (some a.route) with
  | .replied headers reply => some ⟨headers, reply⟩
  | _ => none

/-- What is known of the data, with `own` the places of the slots. -/
structure Data (s : State P Slot H) (own : Slot → Place P) : Prop where
  /-- Between two tasks the thread-local variables are clear, but for the native error. -/
  cleared : ∀ w, (s.tls w).context = {}
  reactor : ∀ t r, own t = .reactor r → ∃ a task, s.base.job t = some a ∧
    Fills cfg r.val a (s.headers t) task ∧ s.task t = some task
  /-- A task that waits is as its reactor has filled it. Once processed it is what a new thread would
  have made of it, unless the client has gone. -/
  inFlight : ∀ t, (own t).InFlight → ∃ a task, s.base.job t = some a ∧
    s.admitted (s.base.hist.ticket t) = some a ∧
    Fills cfg (s.base.reactorId t) a (s.headers t) task ∧
    (WaitsAt s.base t (own t) → s.task t = some task) ∧
    (¬WaitsAt s.base t (own t) → s.base.cancelled t = true ∨
      s.task t = some (a.work S J K cfg {} task).task)
  admitted : ∀ n, (s.admitted n).isSome ↔ n < s.base.hist.clock
  answered : ∀ r, (s.answered r).map Prod.fst = s.base.hist.finalized r
  answers : ∀ r n sent, (n, some sent) ∈ s.answered r →
    ∃ a, s.admitted n = some a ∧ ByWorker S J K cfg r.val a sent
  direct : ∀ x ∈ s.direct, ByReactor cfg x.1 x.2

variable {S J K cfg}

theorem ByWorker.respond {r : Nat} {a : Arrival H} {sent : Sent} (h : ByWorker S J K cfg r a sent) :
    respond S J K cfg r a = some sent := by
  obtain ⟨headers, task, hfills, rfl⟩ := h
  rw [ApiServer.respond, hfills]

/-- What a reactor answers by itself does not depend on the task pool, unless this is empty. -/
theorem ByReactor.respond_or_overload {a : Arrival H} {sent : Sent} (h : ByReactor cfg a sent) :
    (∃ r, respond S J K cfg r a = some sent) ∨ overload cfg a = some sent := by
  obtain ⟨r, x, rfl | rfl, hreplied⟩ := h
  · right
    have hzero : apiMiddlewareWrapper cfg a.startTime 0 none a.req (some a.route) =
        .replied sent.headers sent.reply := hreplied
    rw [overload, hzero]
  · exact .inl ⟨r, by rw [respond, hreplied]⟩

theorem Data.init : Data S J K cfg ({} : State P Slot H) fun _ => .free where
  cleared _ := rfl
  reactor _ _ h := by cases h
  inFlight _ := False.elim
  admitted n := iff_of_false (by intro h; cases h) (Nat.not_lt_zero n)
  answered _ := rfl
  answers _ _ _ h := by cases h
  direct _ h := by cases h

/-- A worker serves a task as a new thread does. -/
theorem work_fresh {tls : ThreadLocals} (h : tls.context = {}) (a : Arrival H) (task : HttpTask H) :
    (a.work S J K cfg tls task).task = (a.work S J K cfg {} task).task := by
  have hseen := workerProcessTask_context S J K (jwtSecretBytes cfg) a.handlers ⟨tls, task⟩ a.env
  rw [WorkerState.context, h] at hseen
  have htask := congrArg (fun r : WorkerState H × Option (Call H) => r.1.task) hseen
  exact htask.symm

theorem work_cleared (a : Arrival H) (tls : ThreadLocals) (task : HttpTask H) :
    (a.work S J K cfg tls task).tls.context = {} :=
  rfl

/-- A request that is refused for its task is answered like one that gets no task. -/
theorem byReactor_of_fills {r : Nat} {a : Arrival H} {headers : Headers} {task : HttpTask H}
    (h : Fills cfg r a headers task) : ByReactor cfg a ⟨headers, tooBusy⟩ := by
  refine ⟨r, none, .inl rfl, ?_⟩
  unfold Fills apiMiddlewareWrapper at h
  unfold apiMiddlewareWrapper
  split at h
  · cases h
  rename_i hconnected
  rw [if_neg hconnected]
  dsimp only at h ⊢
  split at h
  · cases h
  rename_i hhandler
  rw [if_neg hhandler]
  split at h
  · cases h
  split at h
  · cases h
  rename_i hoptions
  rw [if_neg hoptions]
  split at h
  · cases h
  obtain ⟨rfl, -⟩ := serverEnqueueTask_slot h
  rfl

variable {s : State P Slot H} {own : Slot → Place P} {v : Lane P.numReactors → List Slot}

/-- The reply that leaves with a task in flight. -/
theorem Data.replyTo (D : Data S J K cfg s own) {t : Slot} {r : Fin P.numReactors}
    (hinv : Inv s.base v own) (hown : own t = .lane (.batch r)) {sent : Sent}
    (hsent : replyTo s t = some sent) :
    ∃ a, s.admitted (s.base.hist.ticket t) = some a ∧ ByWorker S J K cfg r.val a sent := by
  obtain ⟨a, task, -, hadmitted, hfills, -, hdone⟩ := D.inFlight t (by rw [hown]; trivial)
  have hrid : s.base.reactorId t = r.val := by
    have := hinv.tickets.home t
    rwa [hown] at this
  rw [hrid] at hfills
  refine ⟨a, hadmitted, s.headers t, task, hfills, ?_⟩
  unfold Server.replyTo at hsent
  split at hsent
  · cases hsent
  · rename_i hlive
    obtain hgone | htask := hdone (by rw [hown]; exact id)
    · exact absurd hgone hlive
    · rw [htask] at hsent
      exact Option.some.inj hsent

end

section
variable {P : Topology} {Slot H : Type} [DecidableEq Slot]
  {S : Sodium} {J : JsonC} {K : Tokener} {cfg : Config} {s : State P Slot H}
  {own : Slot → Place P} {v : Lane P.numReactors → List Slot} {t : Slot} {r : Fin P.numReactors}

theorem Data.receive (D : Data S J K cfg s own) (hown : own t = .free) {a : Arrival H}
    {headers : Headers} {task : HttpTask H} (h : Fills cfg r.val a headers task) :
    Data S J K cfg (receiveTask s r t a headers task) (update own t (.reactor r)) where
  cleared := D.cleared
  reactor u r' hu := by
    by_cases hne : u = t
    · subst hne
      rw [update_self] at hu
      cases hu
      refine ⟨a, task, update_self .., ?_, update_self ..⟩
      simp only [receiveTask, update_self]
      exact h
    · rw [update_of_ne hne] at hu
      simp only [receiveTask, fillTask, update_of_ne hne]
      exact D.reactor u r' hu
  inFlight u hu := by
    have hne : u ≠ t := by
      rintro rfl
      rw [update_self] at hu
      exact hu
    rw [update_of_ne hne] at hu ⊢
    simp only [receiveTask, fillTask, update_of_ne hne]
    exact D.inFlight u hu
  admitted := D.admitted
  answered := D.answered
  answers := D.answers
  direct := D.direct

theorem Data.enqueue (D : Data S J K cfg s own) (hinv : Inv s.base v own)
    (hown : own t = .reactor r) (p : PoolId) :
    Data S J K cfg (admitTask s r t (appendTask s.base p t)) (update own t (.lane (.pool p))) where
  cleared := D.cleared
  reactor u r' hu := by
    have hne : u ≠ t := by
      rintro rfl
      rw [update_self] at hu
      cases hu
    rw [update_of_ne hne] at hu
    exact D.reactor u r' hu
  inFlight u hu := by
    by_cases hne : u = t
    · subst hne
      obtain ⟨a, task, hjob, hfills, htask⟩ := D.reactor u r hown
      have hrid : s.base.reactorId u = r.val := by
        have := hinv.tickets.home u
        rwa [hown] at this
      refine ⟨a, task, hjob, ?_, hrid ▸ hfills, fun _ => htask, fun h => absurd ?_ h⟩
      · simp only [admitTask, setReactor, appendTask, update_self]
        exact hjob
      · rw [update_self]
        trivial
    · rw [update_of_ne hne] at hu ⊢
      obtain ⟨a, task, hjob, hadmitted, hfills, hwait, hdone⟩ := D.inFlight u hu
      rw [waitsAt_congr s.base (admitTask s r t (appendTask s.base p t)).base fun _ => Iff.rfl]
      refine ⟨a, task, hjob, ?_, hfills, hwait, hdone⟩
      -- the tickets given out before are smaller
      simp only [admitTask, setReactor, appendTask, update_of_ne hne]
      rw [update_of_ne (Nat.ne_of_lt (hinv.tickets.lt u hu))]
      exact hadmitted
  admitted n := by
    obtain ⟨a, -, hjob, -⟩ := D.reactor t r hown
    simp only [admitTask, setReactor, appendTask]
    by_cases hn : n = s.base.hist.clock
    · subst hn
      rw [update_self, hjob]
      exact iff_of_true rfl (Nat.lt_succ_self _)
    · rw [update_of_ne hn, D.admitted n]
      omega
  answered := D.answered
  answers r' n sent h := by
    obtain ⟨a, hadmitted, hworker⟩ := D.answers r' n sent h
    refine ⟨a, ?_, hworker⟩
    have hlt := (D.admitted n).mp (by rw [hadmitted]; rfl)
    exact (update_of_ne (Nat.ne_of_lt hlt) ..).trans hadmitted
  direct := D.direct

/-- A slot goes back to the pool and nobody looks at it any more. -/
theorem Data.free (D : Data S J K cfg s own) (t : Slot) : Data S J K cfg s (update own t .free) where
  cleared := D.cleared
  reactor u r hu := by
    have hne : u ≠ t := by
      rintro rfl
      rw [update_self] at hu
      cases hu
    rw [update_of_ne hne] at hu
    exact D.reactor u r hu
  inFlight u hu := by
    have hne : u ≠ t := by
      rintro rfl
      rw [update_self] at hu
      exact hu
    rw [update_of_ne hne] at hu ⊢
    exact D.inFlight u hu
  admitted := D.admitted
  answered := D.answered
  answers := D.answers
  direct := D.direct

theorem Data.refuse (D : Data S J K cfg s own) (hown : own t = .reactor r) :
    Data S J K cfg (refuseTask s r t) (update own t .free) := by
  obtain ⟨a, task, hjob, hfills, -⟩ := D.reactor t r hown
  have D' := D.free t
  refine ⟨D.cleared, D'.reactor, fun u hu => ?_, D.admitted, D.answered, D.answers, fun x hx => ?_⟩
  · rw [waitsAt_congr s.base (refuseTask s r t).base fun _ => Iff.rfl]
    exact D'.inFlight u hu
  · simp only [refuseTask, hjob, Option.toList_some, List.map_singleton, List.mem_append,
      List.mem_singleton] at hx
    obtain hx | rfl := hx
    · exact D.direct x hx
    · exact byReactor_of_fills hfills

theorem Data.finalize (D : Data S J K cfg s own) (hinv : Inv s.base v own)
    (hown : own t = .lane (.batch r)) (curr : Option Slot) :
    Data S J K cfg (answerTask s r t curr) (update own t .free) := by
  have D' := D.free t
  refine ⟨D.cleared, D'.reactor, fun u hu => ?_, D.admitted, fun r' => ?_, fun r' n sent h => ?_,
    D.direct⟩
  · rw [waitsAt_congr s.base (answerTask s r t curr).base fun _ => Iff.rfl]
    exact D'.inFlight u hu
  · simp only [answerTask, finalizeTask]
    by_cases h : r' = r
    · subst h
      rw [update_self, update_self, List.map_append, D.answered]
      rfl
    · rw [update_of_ne h, update_of_ne h]
      exact D.answered r'
  · obtain ⟨hx, rfl⟩ | hmem := mem_update_snoc.mp h
    · obtain ⟨rfl, hsent⟩ := Prod.mk.inj hx
      exact D.replyTo hinv hown hsent.symm
    · exact D.answers r' n sent hmem

variable [DecidableEq P.Worker]

theorem Data.work (D : Data S J K cfg s own) (hinv : Inv s.base v own) {w : P.Worker}
    (hw : s.base.worker w = .holding t) : Data S J K cfg (workOn S J K cfg s w t) own := by
  have hown := hinv.layout.worker_own hw rfl
  have hother : ∀ u, u ≠ t → (WaitsAt (processTask s.base w t) u (own u) ↔
      WaitsAt s.base u (own u)) := by
    intro u hu
    refine waitsAt_congr s.base _ (fun w' => holding_update ?_ (by intro h; cases h) w') _
    rw [hw]
    rintro ⟨⟩
    exact hu rfl
  have hself : ¬WaitsAt (processTask s.base w t) t (own t) := by
    rw [hown]
    intro h
    rw [WaitsAt, processTask] at h
    simp only [update_self] at h
    cases h
  obtain ⟨a, task, hjob, hadmitted, hfills, hwait, -⟩ := D.inFlight t (by rw [hown]; trivial)
  have htask : s.task t = some task := hwait (by rw [hown]; exact hw)
  unfold workOn
  dsimp only
  split
  · rename_i hgone
    refine ⟨D.cleared, D.reactor, fun u hu => ?_, D.admitted, D.answered, D.answers, D.direct⟩
    by_cases hne : u = t
    · subst hne
      exact ⟨a, task, hjob, hadmitted, hfills, fun h => absurd h hself, fun _ => .inl hgone⟩
    · dsimp only
      rw [hother u hne]
      exact D.inFlight u hu
  · rw [worked, hjob, htask]
    refine ⟨fun w' => ?_, fun u r' hu => ?_, fun u hu => ?_, D.admitted, D.answered, D.answers,
      D.direct⟩
    · dsimp only
      by_cases h : w' = w
      · subst h
        rw [update_self]
        exact work_cleared ..
      · rw [update_of_ne h]
        exact D.cleared w'
    · have hne : u ≠ t := by
        rintro rfl
        cases hown.symm.trans hu
      dsimp only
      rw [update_of_ne hne]
      exact D.reactor u r' hu
    · dsimp only
      by_cases hne : u = t
      · subst hne
        refine ⟨a, task, hjob, hadmitted, hfills, fun h => absurd h hself, fun _ => .inr ?_⟩
        rw [update_self, work_fresh (D.cleared w)]
      · rw [update_of_ne hne, hother u hne]
        exact D.inFlight u hu

omit [DecidableEq Slot] [DecidableEq P.Worker] in
theorem Data.carry (D : Data S J K cfg s own) {base : Pipeline.State P Slot (Arrival H)}
    {own' : Slot → Place P} (C : Carried s.base base own own') :
    Data S J K cfg { s with base } own' where
  cleared := D.cleared
  reactor t r h := by
    dsimp only
    rw [C.job]
    exact D.reactor t r (C.reactor t r h)
  inFlight t h := by
    obtain ⟨a, task, hjob, hadmitted, hfills, hwait, hdone⟩ := D.inFlight t (C.inFlight t h)
    dsimp only
    rw [C.job, C.ticket, C.reactorId, C.waits]
    exact ⟨a, task, hjob, hadmitted, hfills, hwait, fun h => (hdone h).imp_left (C.cancelled t)⟩
  admitted n := by
    dsimp only
    rw [C.clock]
    exact D.admitted n
  answered r := by
    dsimp only
    rw [C.finalized]
    exact D.answered r
  answers := D.answers
  direct := D.direct

/-! ## Runs -/

theorem workOn_base (w : P.Worker) : (workOn S J K cfg s w t).base = processTask s.base w t := by
  unfold workOn
  dsimp only
  split
  · rfl
  · split <;> rfl

variable {s' : State P Slot H} {e : Event P Slot H}

/-- The server refines the pipeline: a step is one of the pipeline or leaves it as it is. -/
theorem Step.refines (h : Step S J K cfg s e s') :
    s'.base = s.base ∨ ∃ e', e = .pipe e' ∧ Pipeline.Step isFast s.base e' s'.base := by
  cases h with
  | reply => exact .inl rfl
  | receive hr ht _ => exact .inr ⟨_, rfl, .receive hr ht⟩
  | enqueue hr hs => exact .inr ⟨_, rfl, .enqueue hr hs⟩
  | refuse hr hs => exact .inr ⟨_, rfl, .refuse hr hs⟩
  | process hw => exact .inr ⟨_, rfl, by rw [workOn_base]; exact .process hw⟩
  | finalize hr => exact .inr ⟨_, rfl, .finalize hr⟩
  | carry _ hs => exact .inr ⟨_, rfl, hs⟩

theorem refines_pipeline :
    (system S J K cfg P Slot H).Refines (Pipeline.system P Slot isFast) State.base := by
  refine ⟨?_, fun s e t h => (Step.refines h).imp_right fun ⟨e', _, h'⟩ => ⟨e', h'⟩⟩
  rintro s rfl
  rfl

/-- The step lemma. -/
theorem Data.step (D : Data S J K cfg s own) (hinv : Inv s.base v own)
    (h : Step S J K cfg s e s') : ∃ v' own', Inv s'.base v' own' ∧ Data S J K cfg s' own' := by
  cases h with
  | reply _ hx hreplied =>
    refine ⟨v, own, hinv, D.cleared, D.reactor, D.inFlight, D.admitted, D.answered, D.answers,
      fun x hmem => ?_⟩
    obtain hmem | hmem := List.mem_append.mp hmem
    · exact D.direct x hmem
    · rw [List.mem_singleton] at hmem
      subst hmem
      refine ⟨_, _, hx.imp_right ?_, hreplied⟩
      rintro ⟨t, -, rfl⟩
      rfl
  | receive hr ht hfills =>
    exact ⟨_, _, hinv.receive hr ht _, D.receive ((hinv.layout.free_iff _).mp ht) hfills⟩
  | enqueue hr hs =>
    have hinv' := hinv.enqueue hr hs
    obtain ⟨-, -, rfl⟩ := workerPoolEnqueue_eq_some hs
    exact ⟨_, _, hinv', D.enqueue hinv (hinv.layout.reactor_own hr) _⟩
  | refuse hr _ => exact ⟨_, _, hinv.refuse hr, D.refuse (hinv.layout.reactor_own hr)⟩
  | process hw => exact ⟨v, own, by rw [workOn_base]; exact hinv.process hw, D.work hinv hw⟩
  | @finalize r t curr hr =>
    obtain ⟨v', hinv'⟩ := hinv.finalize hr
    obtain ⟨l, hl, -⟩ := hinv.layout.finalize hr
    have hown := (hinv.layout.lane_iff t (.batch r)).mp (by rw [hl]; exact .head l)
    exact ⟨v', _, hinv', D.finalize hinv hown curr⟩
  | carry he hs =>
    obtain ⟨v', own', hinv', C⟩ := hinv.carry he hs
    exact ⟨v', own', hinv', D.carry C⟩

theorem data_of_reachable {G : State P Slot H → Event P Slot H → Prop}
    (h : (system S J K cfg P Slot H).Reachable G s) :
    ∃ v own, Inv s.base v own ∧ Data S J K cfg s own := by
  refine h.invariant (I := fun s => ∃ v own, Inv s.base v own ∧ Data S J K cfg s own) ?_ ?_
  · rintro s rfl
    exact ⟨_, _, .init, .init⟩
  · rintro s e s' - ⟨v, own, hinv, D⟩ - hs
    exact D.step hinv hs

/-- Nobody has given up. -/
structure Patient (s : State P Slot H) : Prop where
  cancelled : ∀ t, s.base.cancelled t = false
  answered : ∀ r, ∀ x ∈ s.answered r, x.2 ≠ none

theorem Patient.answered_step (Q : Patient s) (D : Data S J K cfg s own) (hinv : Inv s.base v own)
    (h : Step S J K cfg s e s') : ∀ r, ∀ x ∈ s'.answered r, x.2 ≠ none := by
  cases h with
  | @finalize r t curr hr =>
    obtain ⟨l, hl, -⟩ := hinv.layout.finalize hr
    have hown := (hinv.layout.lane_iff t (.batch r)).mp (by rw [hl]; exact .head l)
    obtain ⟨a, task, -, -, -, -, hdone⟩ := D.inFlight t (by rw [hown]; trivial)
    obtain hgone | htask := hdone (by rw [hown]; exact id)
    · rw [Q.cancelled] at hgone
      cases hgone
    intro r' x hx
    obtain ⟨rfl, -⟩ | hx := mem_update_snoc.mp hx
    · dsimp only
      rw [Server.replyTo, Q.cancelled, htask]
      intro hnone
      cases hnone
    · exact Q.answered r' x hx
  | process =>
    unfold workOn
    dsimp only
    split
    · exact Q.answered
    · split <;> exact Q.answered
  | _ => exact Q.answered

theorem Patient.step (Q : Patient s) (D : Data S J K cfg s own) (hinv : Inv s.base v own)
    (hstay : ∀ t, e ≠ .pipe (.cancel t)) (h : Step S J K cfg s e s') : Patient s' := by
  have hkeep : ∀ {u : Pipeline.State P Slot (Arrival H)} {e'}, Pipeline.Step isFast s.base e' u →
      (∀ t, e' ≠ .cancel t) → ∀ t, u.cancelled t = false := by
    intro u e' hs he t
    cases hs with
    | @receive r t' a _ _ =>
      by_cases ht : t = t'
      · subst ht
        exact update_self ..
      · exact (update_of_ne ht ..).trans (Q.cancelled t)
    | enqueue _ hs =>
      obtain ⟨-, -, rfl⟩ := workerPoolEnqueue_eq_some hs
      exact Q.cancelled t
    | cancel => exact absurd rfl (he _)
    | _ => exact Q.cancelled t
  refine ⟨?_, Q.answered_step D hinv h⟩
  obtain heq | ⟨e', rfl, hs⟩ := h.refines
  · rw [heq]
    exact Q.cancelled
  · exact hkeep hs fun t he => hstay t (by rw [he])

variable (S J K cfg) in
/-- What the clients get from a run. -/
structure Served (s : State P Slot H) : Prop where
  run : (Pipeline.system P Slot isFast).Reachable (fun _ _ => True) s.base
  /-- The accepted requests are numbered. -/
  admitted : ∀ n, (s.admitted n).isSome ↔ n < s.base.hist.clock
  /-- A worker's reply is the one the request would get from a server with nothing else to do. -/
  answers : ∀ r n sent, (n, some sent) ∈ s.answered r →
    ∃ a, s.admitted n = some a ∧ respond S J K cfg r.val a = some sent
  /-- So is the reply of a reactor, or else the server is full. -/
  direct : ∀ x ∈ s.direct, (∃ r, respond S J K cfg r x.1 = some x.2) ∨ overload cfg x.1 = some x.2
  /-- The reactor that answers a request is the one that has accepted it. -/
  owner : ∀ r n, n ∈ (s.answered r).map Prod.fst → s.base.hist.owner n = r.val
  /-- Nobody is answered twice. -/
  nodup : ∀ r, ((s.answered r).map Prod.fst).Nodup
  disjoint : ∀ r r' n, n ∈ (s.answered r).map Prod.fst → n ∈ (s.answered r').map Prod.fst → r = r'
  /-- After a shutdown nobody waits. -/
  halted : s.base.main = .halted → ∀ n a, s.admitted n = some a →
    ∃ r, n ∈ (s.answered r).map Prod.fst

end

/-- A run of one reactor, three workers and queues of ten: one request goes through a worker and back
to its client. -/
theorem exists_answered :
    ∃ s, (system .reference .reference .reference {} (.ofConfig 1 3 50 10) Nat Unit).Reachable
        (fun _ e => ∀ t, e ≠ .pipe (.cancel t)) s ∧
      ∃ sent, s.answered ⟨0, Nat.one_pos⟩ = [(0, some sent)] ∧ sent.reply.code = 404 := by
  let r : Fin (Topology.ofConfig 1 3 50 10).numReactors := ⟨0, Nat.one_pos⟩
  let w : (Topology.ofConfig 1 3 50 10).Worker := Sum.inl ⟨0, Nat.one_pos⟩
  have hinit := System.Reachable.init (T := system .reference .reference .reference {}
    (.ofConfig 1 3 50 10) Nat Unit) (G := fun _ e => ∀ t, e ≠ .pipe (.cancel t)) rfl
  have hfilled := hinit.next (.receive (r := r) (t := 7) (a := silentArrival 404) rfl rfl rfl) (by simp)
  have hadmitted := hfilled.next (.enqueue (r := r) (t := 7) rfl rfl) (by simp)
  have htaken :=
    hadmitted.next (.carry (e := .take w) trivial (.take (w := w) (t := 7) rfl rfl)) (by simp)
  have hworked := htaken.next (.process (w := w) (t := 7) rfl) (by simp)
  have hunlinked := hworked.next
    (.carry (e := .unlink w) trivial (.unlink (w := w) (t := 7) rfl Nat.one_pos)) (by simp)
  have happended := hunlinked.next
    (.carry (e := .append w) trivial (.append (w := w) (t := 7) (r := r) rfl rfl)) (by simp)
  have hwoken := happended.next (.carry (e := .wake r) trivial (.wake (r := r) rfl)) (by simp)
  have hread := hwoken.next (.carry (e := .read r) trivial (.readFails (r := r) rfl rfl)) (by simp)
  have hdetached := hread.next (.carry (e := .detach r) trivial (.detach (r := r) rfl)) (by simp)
  have hvisited :=
    hdetached.next (.carry (e := .visit r) trivial (.visit (r := r) (t := 7) rfl)) (by simp)
  have hfinal := hvisited.next (.finalize (r := r) (t := 7) (c := none) rfl) (by simp)
  exact ⟨_, hfinal, _, rfl, rfl⟩

end ApiServer.Server
