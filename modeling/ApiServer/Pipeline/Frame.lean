import ApiServer.Pipeline.Delivery
import ApiServer.Pipeline.Shutdown
import ApiServer.Pipeline.Wakeup
import Mathlib.Data.Fintype.Sum

/-!
# One step, seen from one thread

A step is one of one thread. `Turn` and `Shift` say what such a step makes of the phase of a reactor
and of a worker, and all other phases stay. The logs of the queues only grow.
-/

namespace ApiServer.Pipeline
open Function

instance (a b c d : Nat) : Fintype (Topology.ofConfig a b c d).Worker :=
  inferInstanceAs (Fintype (Fin _ ⊕ Fin _))

section
variable {P : Topology} {Slot Job : Type}

/-- The reactor whose step it is. -/
def reactorOf : Event P Slot Job → Option (Fin P.numReactors)
  | .receive r _ _ | .enqueue r | .wake r | .read r | .detach r | .visit r | .finalize r | .quit r =>
    some r
  | _ => none

/-- The worker whose step it is. -/
def workerOf : Event P Slot Job → Option P.Worker
  | .take w | .process w | .unlink w | .append w | .signal w | .leave w => some w
  | _ => none

/-- A step is one of one thread. -/
theorem reactorOf_of_workerOf {e : Event P Slot Job} {w : P.Worker} (h : workerOf e = some w) :
    reactorOf e = none := by
  cases e with
  | take | process | unlink | append | signal | leave => rfl
  | _ => cases h

/-- A step of a reactor. -/
inductive Turn (s s' : State P Slot Job) (r : Fin P.numReactors) :
    ReactorPhase Slot → ReactorPhase Slot → Prop where
  | receive (t) : Turn s s' r .loop (.accepting t)
  | answer (t) : Turn s s' r (.accepting t) .loop
  | wake : Turn s s' r .loop (.reading false)
  | read (b) : 0 < (s.completion r).eventfd → (s'.completion r).eventfd = 0 →
    s'.worker = s.worker → Turn s s' r (.reading b) (.reading true)
  | readFails (b) : Turn s s' r (.reading b) .drained
  | detach : Turn s s' r .drained (.batch (s.completion r).links.head)
  | visit (t) : Turn s s' r (.batch (some t)) (.finalizing t (s.next t))
  | visited : Turn s s' r (.batch none) .loop
  | finalize (t curr) : s'.hist.finalized r = s.hist.finalized r ++ [s.hist.ticket t] →
    Turn s s' r (.finalizing t curr) (.batch curr)
  | quit : s.loopbreak r = true → Turn s s' r .loop .exited

/-- A step of a worker. -/
inductive Shift (s s' : State P Slot Job) (w : P.Worker) :
    WorkerPhase Slot P.numReactors → WorkerPhase Slot P.numReactors → Prop where
  | take (t) : (s.pool (P.poolOf w)).links.head = some t →
    s'.hist.taken (P.poolOf w) = s.hist.taken (P.poolOf w) ++ [s.hist.ticket t] →
    Shift s s' w .loop (.holding t)
  | process (t) : Shift s s' w (.holding t) (.processed t)
  | unlink (t) : Shift s s' w (.processed t) (.unlinked t)
  | lose (t) : P.numReactors ≤ s.reactorId t → Shift s s' w (.processed t) .loop
  | append (t r) : s'.hist.completed r = s.hist.completed r ++ [s.hist.ticket t] →
    Shift s s' w (.unlinked t) (if (s.completion r).links.tail = none then .signalling r else .loop)
  | signal (r) : 0 < (s'.completion r).eventfd → Shift s s' w (.signalling r) .loop
  | leave : (s.pool (P.poolOf w)).shutdown = true → (s.pool (P.poolOf w)).links.head = none →
    Shift s s' w .loop .exited

/-- No thread has anything to do. -/
structure Resting (s : State P Slot Job) : Prop where
  main : s.main = .running
  worker : ∀ w, s.worker w = .loop
  reactor : ∀ r, s.reactor r = .loop
  pool : ∀ p, (s.pool p).links.head = none
  completion : ∀ r, (s.completion r).links.head = none ∧ (s.completion r).eventfd = 0

end

section
variable {P : Topology} {Slot Job : Type} [DecidableEq Slot] [DecidableEq P.Worker]
  {s s' : State P Slot Job} {isFast : Job → Bool} {e : Event P Slot Job}

theorem reactor_frame (h : Step isFast s e s') {r : Fin P.numReactors}
    (hr : reactorOf e ≠ some r) : s'.reactor r = s.reactor r := by
  have hne : ∀ {r'}, reactorOf e = some r' → r ≠ r' := by
    rintro r' h rfl
    exact hr h
  cases h with
  | enqueue _ hs =>
    obtain ⟨-, -, rfl⟩ := workerPoolEnqueue_eq_some hs
    exact update_of_ne (hne rfl) ..
  | receive | refuse | wake | read | readFails | detach | visit | visited | finalize | quit =>
    exact update_of_ne (hne rfl) ..
  | _ => rfl

theorem worker_frame (h : Step isFast s e s') {w : P.Worker} (hw : workerOf e ≠ some w) :
    s'.worker w = s.worker w := by
  have hne : ∀ {w'}, workerOf e = some w' → w ≠ w' := by
    rintro w' h rfl
    exact hw h
  cases h with
  | enqueue _ hs =>
    obtain ⟨-, -, rfl⟩ := workerPoolEnqueue_eq_some hs
    rfl
  | take | process | unlink | lose | append | signal | signalFails | leave =>
    exact update_of_ne (hne rfl) ..
  | _ => rfl

theorem Step.turn (h : Step isFast s e s') {r : Fin P.numReactors} (hr : reactorOf e = some r) :
    Turn s s' r (s.reactor r) (s'.reactor r) := by
  have hset : ∀ {ph ph' : ReactorPhase Slot}, s.reactor r = ph → s'.reactor r = ph' →
      Turn s s' r ph ph' → Turn s s' r (s.reactor r) (s'.reactor r) := by
    rintro _ _ rfl rfl h
    exact h
  cases h with
  | receive h _ =>
    cases hr
    exact hset h (update_self ..) (.receive _)
  | enqueue h hs =>
    cases hr
    exact hset h (update_self ..) (.answer _)
  | refuse h _ =>
    cases hr
    exact hset h (update_self ..) (.answer _)
  | wake h =>
    cases hr
    exact hset h (update_self ..) .wake
  | read h hfd =>
    cases hr
    refine hset h (update_self ..) (.read _ hfd ?_ rfl)
    simp only [setEventfd, update_self]
  | readFails h _ =>
    cases hr
    exact hset h (update_self ..) (.readFails _)
  | detach h =>
    cases hr
    exact hset h (update_self ..) .detach
  | visit h =>
    cases hr
    exact hset h (update_self ..) (.visit _)
  | visited h =>
    cases hr
    exact hset h (update_self ..) .visited
  | finalize h =>
    cases hr
    exact hset h (update_self ..) (.finalize _ _ (update_self ..))
  | quit h hbreak =>
    cases hr
    exact hset h (update_self ..) (.quit hbreak)
  | _ => cases hr

theorem Step.shift (h : Step isFast s e s') {w : P.Worker} (hw : workerOf e = some w) :
    Shift s s' w (s.worker w) (s'.worker w) := by
  have hset : ∀ {ph ph' : WorkerPhase Slot P.numReactors}, s.worker w = ph → s'.worker w = ph' →
      Shift s s' w ph ph' → Shift s s' w (s.worker w) (s'.worker w) := by
    rintro _ _ rfl rfl h
    exact h
  cases h with
  | take h hhead =>
    cases hw
    exact hset h (update_self ..) (.take _ hhead (update_self ..))
  | process h =>
    cases hw
    exact hset h (update_self ..) (.process _)
  | unlink h _ =>
    cases hw
    exact hset h (update_self ..) (.unlink _)
  | lose h hrid =>
    cases hw
    exact hset h (update_self ..) (.lose _ hrid)
  | append h _ =>
    cases hw
    exact hset h (update_self ..) (.append _ _ (update_self ..))
  | signal h =>
    cases hw
    refine hset h (update_self ..) (.signal _ ?_)
    simp only [setEventfd, update_self]
    exact Nat.succ_pos _
  | signalFails h hfd =>
    cases hw
    exact hset h (update_self ..) (.signal _ hfd)
  | leave h hdown hhead =>
    cases hw
    exact hset h (update_self ..) (.leave hdown hhead)
  | _ => cases hw

/-! ## The logs -/

theorem prefix_update {ι : Type} [DecidableEq ι] {f : ι → List Nat} (i j : ι) (n : Nat) :
    f j <+: update f i (f i ++ [n]) j := by
  by_cases h : j = i
  · subst h
    rw [update_self]
    exact List.prefix_append ..
  · rw [update_of_ne h]

theorem Step.accepted_prefix (h : Step isFast s e s') (p : PoolId) :
    s.hist.accepted p <+: s'.hist.accepted p := by
  cases h with
  | enqueue _ hs =>
    obtain ⟨-, -, rfl⟩ := workerPoolEnqueue_eq_some hs
    exact prefix_update ..
  | _ => exact List.prefix_rfl

theorem Step.taken_prefix (h : Step isFast s e s') (p : PoolId) :
    s.hist.taken p <+: s'.hist.taken p := by
  cases h with
  | enqueue _ hs =>
    obtain ⟨-, -, rfl⟩ := workerPoolEnqueue_eq_some hs
    exact List.prefix_rfl
  | take => exact prefix_update ..
  | _ => exact List.prefix_rfl

theorem Step.completed_prefix (h : Step isFast s e s') (r : Fin P.numReactors) :
    s.hist.completed r <+: s'.hist.completed r := by
  cases h with
  | enqueue _ hs =>
    obtain ⟨-, -, rfl⟩ := workerPoolEnqueue_eq_some hs
    exact List.prefix_rfl
  | append => exact prefix_update ..
  | _ => exact List.prefix_rfl

theorem Step.finalized_prefix (h : Step isFast s e s') (r : Fin P.numReactors) :
    s.hist.finalized r <+: s'.hist.finalized r := by
  cases h with
  | enqueue _ hs =>
    obtain ⟨-, -, rfl⟩ := workerPoolEnqueue_eq_some hs
    exact List.prefix_rfl
  | finalize => exact prefix_update ..
  | _ => exact List.prefix_rfl

end
end ApiServer.Pipeline
