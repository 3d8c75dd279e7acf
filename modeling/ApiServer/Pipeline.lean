import ApiServer.Lib.Intrusive
import ApiServer.Lib.Placement
import ApiServer.Lib.Transition

/-!
# From the reactors to the workers and back

Reactors hand tasks to two worker pools (`worker_pool_enqueue`), workers hand them back through one
completion queue a reactor (`server_notify_task_done`), and a reactor finalizes what it finds there
(`reactor_eventfd_cb`). The main thread shuts all of it down (`wait_and_shutdown`). A section under
a mutex, an access to an eventfd and a write to a task outside a mutex are one step each.

The task pool is here only as the set of leased slots: `task_pool_alloc` returns a slot that is not
leased.
-/

namespace ApiServer.Pipeline
open Function

inductive PoolId where
  | fast | slow
  deriving DecidableEq

/-- The threads of the server. -/
structure Topology where
  numReactors : Nat
  Worker : Type
  poolOf : Worker → PoolId
  /-- Each pool has a worker. -/
  served : ∀ p, ∃ w, poolOf w = p
  maxQueueSize : Nat

/-- `worker_pool_init`: how many of the workers are fast. -/
def fastWorkers (numWorkers pct : Nat) : Nat :=
  let fast := numWorkers * pct / 100
  let fast := if fast = 0 then 1 else fast
  if fast = numWorkers ∧ 1 < numWorkers then numWorkers - 1 else fast

def slowWorkers (numWorkers pct : Nat) : Nat :=
  let fast := fastWorkers numWorkers pct
  if fast < numWorkers then numWorkers - fast else 1

theorem fastWorkers_pos (numWorkers pct : Nat) : 0 < fastWorkers numWorkers pct := by
  unfold fastWorkers
  dsimp only
  split <;> split <;> omega

theorem slowWorkers_pos (numWorkers pct : Nat) : 0 < slowWorkers numWorkers pct := by
  unfold slowWorkers
  dsimp only
  split <;> omega

/-- The threads that `worker_pool_init` starts. -/
def Topology.ofConfig (numReactors numWorkers pct maxQueueSize : Nat) : Topology where
  numReactors
  Worker := Fin (fastWorkers numWorkers pct) ⊕ Fin (slowWorkers numWorkers pct)
  poolOf
    | .inl _ => .fast
    | .inr _ => .slow
  served
    | .fast => ⟨.inl ⟨0, fastWorkers_pos ..⟩, rfl⟩
    | .slow => ⟨.inr ⟨0, slowWorkers_pos ..⟩, rfl⟩
  maxQueueSize

instance (a b c d : Nat) : DecidableEq (Topology.ofConfig a b c d).Worker :=
  inferInstanceAs (DecidableEq (Fin _ ⊕ Fin _))

/-- `pool_t`. -/
structure Pool (Slot : Type) where
  links : Links Slot := {}
  size : Nat := 0
  shutdown : Bool := false

/-- A reactor's completion queue and its eventfd counter. -/
structure Completion (Slot : Type) where
  links : Links Slot := {}
  eventfd : Nat := 0

/-- Where a worker is in `worker_thread_main`. -/
inductive WorkerPhase (Slot : Type) (R : Nat) where
  | loop
  | holding (t : Slot)
  /-- Done with `worker_process_task`, at the start of `server_notify_task_done`. -/
  | processed (t : Slot)
  /-- `next` is cleared, the queue's lock not taken yet. -/
  | unlinked (t : Slot)
  /-- The queue was empty: the eventfd is still to be written. -/
  | signalling (r : Fin R)
  | exited

def WorkerPhase.task : WorkerPhase Slot R → Option Slot
  | .holding t | .processed t | .unlinked t => some t
  | .loop | .signalling _ | .exited => none

/-- Where a reactor is in its callbacks. -/
inductive ReactorPhase (Slot : Type) where
  | loop
  /-- `server_enqueue_task` has filled the task. -/
  | accepting (t : Slot)
  /-- `reactor_eventfd_cb` reads the eventfd; the flag says whether a read has succeeded. -/
  | reading (drained : Bool)
  | drained
  /-- At the loop over the detached list. -/
  | batch (curr : Option Slot)
  /-- In `process_completed_task` or `cleanup_cancelled_task`, with `curr` already moved on. -/
  | finalizing (t : Slot) (curr : Option Slot)
  | exited

/-- The task a reactor has leased and not enqueued yet. -/
def ReactorPhase.task : ReactorPhase Slot → Option Slot
  | .accepting t => some t
  | _ => none

/-- Where the main thread is in `wait_and_shutdown`. -/
inductive MainPhase where
  | running
  | fastStopped
  /-- `worker_pool_stop` joins the workers. -/
  | stopped
  /-- `server_drain_reactor_queues`, at that queue. -/
  | draining (i : Nat)
  /-- `server_shutdown_workers`, at that event base. -/
  | breaking (i : Nat)
  | joining
  | halted

/-- History: a ticket for each accepted task, and the order in which tickets pass the queues. -/
structure History (R : Nat) (Slot Job : Type) where
  clock : Nat := 0
  ticket : Slot → Nat := fun _ => 0
  /-- The reactor that had the task accepted. -/
  owner : Nat → Nat := fun _ => 0
  accepted : PoolId → List Nat := fun _ => []
  taken : PoolId → List Nat := fun _ => []
  completed : Fin R → List Nat := fun _ => []
  finalized : Fin R → List Nat := fun _ => []
  /-- What `worker_process_task` has been called with. -/
  ran : List Job := []

structure State (P : Topology) (Slot Job : Type) where
  next : Slot → Option Slot := fun _ => none
  job : Slot → Option Job := fun _ => none
  reactorId : Slot → Nat := fun _ => 0
  cancelled : Slot → Bool := fun _ => false
  leased : Slot → Bool := fun _ => false
  pool : PoolId → Pool Slot := fun _ => {}
  completion : Fin P.numReactors → Completion Slot := fun _ => {}
  worker : P.Worker → WorkerPhase Slot P.numReactors := fun _ => .loop
  reactor : Fin P.numReactors → ReactorPhase Slot := fun _ => .loop
  main : MainPhase := .running
  loopbreak : Fin P.numReactors → Bool := fun _ => false
  hist : History P.numReactors Slot Job := {}

section
variable {P : Topology} {Slot Job : Type} [DecidableEq Slot] [DecidableEq P.Worker]
  (isFast : Job → Bool) (s : State P Slot Job)

/-! ## The sections under a mutex -/

def poolFor (t : Slot) : PoolId :=
  match s.job t with
  | some job => if isFast job then .fast else .slow
  | none => .slow

/-- `worker_pool_enqueue`, once the task is accepted. -/
def appendTask (p : PoolId) (t : Slot) : State P Slot Job :=
  let pool := s.pool p
  let pushed := pool.links.push (update s.next t none) t
  { s with
    next := pushed.1
    pool := update s.pool p { pool with links := pushed.2, size := pool.size + 1 }
    hist := { s.hist with
      clock := s.hist.clock + 1
      ticket := update s.hist.ticket t s.hist.clock
      owner := update s.hist.owner s.hist.clock (s.reactorId t)
      accepted := update s.hist.accepted p (s.hist.accepted p ++ [s.hist.clock]) } }

def workerPoolEnqueue (t : Slot) : Option (State P Slot Job) :=
  let p := poolFor isFast s t
  let pool := s.pool p
  if pool.shutdown then none
  else if 0 < P.maxQueueSize ∧ P.maxQueueSize ≤ pool.size then none
  else some (appendTask s p t)

/-- The dequeue of `worker_thread_main`, when `t` is at the head. -/
def workerDequeue (w : P.Worker) (t : Slot) : State P Slot Job :=
  let p := P.poolOf w
  let pool := s.pool p
  { s with
    pool := update s.pool p { pool with links := pool.links.pop s.next t, size := pool.size - 1 }
    worker := update s.worker w (.holding t)
    hist := { s.hist with
      taken := update s.hist.taken p (s.hist.taken p ++ [s.hist.ticket t]) } }

def serverNotifyTaskDone (w : P.Worker) (t : Slot) (r : Fin P.numReactors) : State P Slot Job :=
  let queue := s.completion r
  let wasEmpty := queue.links.tail = none
  let pushed := queue.links.push s.next t
  { s with
    next := pushed.1
    completion := update s.completion r { queue with links := pushed.2 }
    worker := update s.worker w (if wasEmpty then .signalling r else .loop)
    hist := { s.hist with
      completed := update s.hist.completed r (s.hist.completed r ++ [s.hist.ticket t]) } }

/-- The section of `reactor_eventfd_cb`. -/
def detachQueue (r : Fin P.numReactors) : State P Slot Job :=
  { s with
    completion := update s.completion r { s.completion r with links := {} }
    reactor := update s.reactor r (.batch (s.completion r).links.head) }

/-! ## The steps outside -/

/-- `task_pool_alloc` and the assignments of `server_enqueue_task`. -/
def fillTask (r : Fin P.numReactors) (t : Slot) (job : Job) : State P Slot Job :=
  { s with
    next := update s.next t none
    job := update s.job t (some job)
    reactorId := update s.reactorId t r
    cancelled := update s.cancelled t false
    leased := update s.leased t true
    reactor := update s.reactor r (.accepting t) }

/-- `task_pool_free`, by a reactor that goes on with `phase`. -/
def release (r : Fin P.numReactors) (t : Slot) (phase : ReactorPhase Slot) : State P Slot Job :=
  { s with
    leased := update s.leased t false
    reactor := update s.reactor r phase }

def setWorker (w : P.Worker) (phase : WorkerPhase Slot P.numReactors) : State P Slot Job :=
  { s with worker := update s.worker w phase }

def setReactor (r : Fin P.numReactors) (phase : ReactorPhase Slot) : State P Slot Job :=
  { s with reactor := update s.reactor r phase }

def setEventfd (r : Fin P.numReactors) (n : Nat) : State P Slot Job :=
  { s with completion := update s.completion r { s.completion r with eventfd := n } }

def setShutdown (p : PoolId) (main : MainPhase) : State P Slot Job :=
  { s with pool := update s.pool p { s.pool p with shutdown := true }, main }

/-- `worker_process_task` runs, unless the task is cancelled. -/
def processTask (w : P.Worker) (t : Slot) : State P Slot Job :=
  { s with
    worker := update s.worker w (.processed t)
    hist := { s.hist with
      ran := s.hist.ran ++ (if s.cancelled t then [] else (s.job t).toList) } }

def finalizeTask (r : Fin P.numReactors) (t : Slot) (curr : Option Slot) : State P Slot Job :=
  { s with
    leased := update s.leased t false
    reactor := update s.reactor r (.batch curr)
    hist := { s.hist with
      finalized := update s.hist.finalized r (s.hist.finalized r ++ [s.hist.ticket t]) } }

end

theorem workerPoolEnqueue_eq_some {P : Topology} {Slot Job : Type} [DecidableEq Slot]
    {isFast : Job → Bool} {s s' : State P Slot Job} {t : Slot}
    (h : workerPoolEnqueue isFast s t = some s') :
    (s.pool (poolFor isFast s t)).shutdown = false ∧
      (0 < P.maxQueueSize → (s.pool (poolFor isFast s t)).size < P.maxQueueSize) ∧
      s' = appendTask s (poolFor isFast s t) t := by
  unfold workerPoolEnqueue at h
  dsimp only at h
  split at h
  · cases h
  · rename_i hdown
    split at h
    · cases h
    · rename_i hfull
      cases h
      exact ⟨Bool.not_eq_true _ ▸ hdown, fun hpos => Nat.lt_of_not_le fun hle => hfull ⟨hpos, hle⟩,
        rfl⟩

inductive Event (P : Topology) (Slot Job : Type) where
  | receive (r : Fin P.numReactors) (t : Slot) (job : Job)
  | enqueue (r : Fin P.numReactors)
  | cancel (t : Slot)
  | take (w : P.Worker)
  | process (w : P.Worker)
  | unlink (w : P.Worker)
  | append (w : P.Worker)
  | signal (w : P.Worker)
  | leave (w : P.Worker)
  | wake (r : Fin P.numReactors)
  | read (r : Fin P.numReactors)
  | detach (r : Fin P.numReactors)
  | visit (r : Fin P.numReactors)
  | finalize (r : Fin P.numReactors)
  | quit (r : Fin P.numReactors)
  | main

section
variable {P : Topology} {Slot Job : Type} [DecidableEq Slot] [DecidableEq P.Worker]

/-- One step of one thread. -/
inductive Step (isFast : Job → Bool) :
    State P Slot Job → Event P Slot Job → State P Slot Job → Prop where
  | receive {s r t job} : s.reactor r = .loop → s.leased t = false →
    Step isFast s (.receive r t job) (fillTask s r t job)
  | enqueue {s s' r t} : s.reactor r = .accepting t → workerPoolEnqueue isFast s t = some s' →
    Step isFast s (.enqueue r) (setReactor s' r .loop)
  /-- The pool is shut down or full: the reactor answers 503 and frees the task. -/
  | refuse {s r t} : s.reactor r = .accepting t → workerPoolEnqueue isFast s t = none →
    Step isFast s (.enqueue r) (release s r t .loop)
  /-- `request_on_complete_cb`. -/
  | cancel {s t} : s.leased t = true →
    Step isFast s (.cancel t) { s with cancelled := update s.cancelled t true }
  | take {s w t} : s.worker w = .loop → (s.pool (P.poolOf w)).links.head = some t →
    Step isFast s (.take w) (workerDequeue s w t)
  | process {s w t} : s.worker w = .holding t → Step isFast s (.process w) (processTask s w t)
  | unlink {s w t} : s.worker w = .processed t → s.reactorId t < P.numReactors →
    Step isFast s (.unlink w) { setWorker s w (.unlinked t) with next := update s.next t none }
  /-- The guard of `server_notify_task_done`, which would lose the task. -/
  | lose {s w t} : s.worker w = .processed t → P.numReactors ≤ s.reactorId t →
    Step isFast s (.unlink w) (setWorker s w .loop)
  | append {s w t r} : s.worker w = .unlinked t → s.reactorId t = r.val →
    Step isFast s (.append w) (serverNotifyTaskDone s w t r)
  | signal {s w r} : s.worker w = .signalling r →
    Step isFast s (.signal w) (setEventfd (setWorker s w .loop) r ((s.completion r).eventfd + 1))
  /-- The write fails only when the counter is positive. -/
  | signalFails {s w r} : s.worker w = .signalling r → 0 < (s.completion r).eventfd →
    Step isFast s (.signal w) (setWorker s w .loop)
  | leave {s w} : s.worker w = .loop → (s.pool (P.poolOf w)).shutdown = true →
    (s.pool (P.poolOf w)).links.head = none → Step isFast s (.leave w) (setWorker s w .exited)
  | wake {s r} : s.reactor r = .loop → Step isFast s (.wake r) (setReactor s r (.reading false))
  | read {s r b} : s.reactor r = .reading b → 0 < (s.completion r).eventfd →
    Step isFast s (.read r) (setEventfd (setReactor s r (.reading true)) r 0)
  | readFails {s r b} : s.reactor r = .reading b → (s.completion r).eventfd = 0 →
    Step isFast s (.read r) (setReactor s r .drained)
  | detach {s r} : s.reactor r = .drained → Step isFast s (.detach r) (detachQueue s r)
  | visit {s r t} : s.reactor r = .batch (some t) →
    Step isFast s (.visit r) (setReactor s r (.finalizing t (s.next t)))
  | visited {s r} : s.reactor r = .batch none → Step isFast s (.visit r) (setReactor s r .loop)
  | finalize {s r t curr} : s.reactor r = .finalizing t curr →
    Step isFast s (.finalize r) (finalizeTask s r t curr)
  /-- A reactor leaves its loop only between callbacks. -/
  | quit {s r} : s.reactor r = .loop → s.loopbreak r = true →
    Step isFast s (.quit r) (setReactor s r .exited)
  | stopFast {s} : s.main = .running → Step isFast s .main (setShutdown s .fast .fastStopped)
  | stopSlow {s} : s.main = .fastStopped → Step isFast s .main (setShutdown s .slow .stopped)
  | joinWorkers {s} : s.main = .stopped → (∀ w, s.worker w = .exited) →
    Step isFast s .main { s with main := .draining 0 }
  | drain {s i r} : s.main = .draining i → r.val = i → (s.completion r).links.head = none →
    Step isFast s .main { s with main := .draining (i + 1) }
  | drained {s} : s.main = .draining P.numReactors →
    Step isFast s .main { s with main := .breaking 0 }
  | loopbreak {s i r} : s.main = .breaking i → r.val = i →
    Step isFast s .main { s with main := .breaking (i + 1), loopbreak := update s.loopbreak r true }
  | broken {s} : s.main = .breaking P.numReactors → Step isFast s .main { s with main := .joining }
  | joinReactors {s} : s.main = .joining → (∀ r, s.reactor r = .exited) →
    Step isFast s .main { s with main := .halted }

/-- The server, with `isFast` the flag of a task's route. -/
def system (P : Topology) [DecidableEq P.Worker] (Slot : Type) [DecidableEq Slot] {Job : Type}
    (isFast : Job → Bool) : System (State P Slot Job) (Event P Slot Job) where
  init s := s = {}
  step := Step isFast

end

end ApiServer.Pipeline
