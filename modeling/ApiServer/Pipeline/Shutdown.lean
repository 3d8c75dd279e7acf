import ApiServer.Pipeline.Delivery

/-!
# Shutdown

A worker leaves only when its pool is shut down and empty, and a pool that is shut down accepts
nothing, so it stays empty. The main thread waits for the workers before it looks at the completion
queues, so these stay empty once they are, and a reactor leaves its loop only between callbacks.
-/

namespace ApiServer.Pipeline
open Function

/-- The main thread has joined the workers. -/
def MainPhase.Joined : MainPhase → Prop
  | .draining _ | .breaking _ | .joining | .halted => True
  | _ => False

/-- How many completion queues the main thread has seen empty since then. -/
def MainPhase.seen (R : Nat) : MainPhase → Nat
  | .draining i => i
  | .breaking _ | .joining | .halted => R
  | _ => 0

section
variable {P : Topology} {Slot Job : Type}

structure Closing (s : State P Slot Job) : Prop where
  exited : ∀ w, s.worker w = .exited →
    (s.pool (P.poolOf w)).shutdown = true ∧ (s.pool (P.poolOf w)).links.head = none
  joined : s.main.Joined → ∀ w, s.worker w = .exited
  seen : ∀ r : Fin P.numReactors, r.val < s.main.seen P.numReactors →
    (s.completion r).links.head = none
  halted : s.main = .halted → ∀ r, s.reactor r = .exited

theorem Closing.init : Closing ({} : State P Slot Job) where
  exited _ := nofun
  joined := False.elim
  seen _ := nofun
  halted := nofun

variable {s s' : State P Slot Job}

/-- Steps that neither touch the queues nor let a thread leave. -/
theorem Closing.congr (H : Closing s) (hpool : s'.pool = s.pool) (hmain : s'.main = s.main)
    (hlinks : ∀ r, (s'.completion r).links = (s.completion r).links)
    (hworker : ∀ w, s'.worker w = .exited ↔ s.worker w = .exited)
    (hreactor : ∀ r, s.reactor r = .exited → s'.reactor r = .exited) : Closing s' where
  exited w h := by rw [hpool]; exact H.exited w ((hworker w).mp h)
  joined h w := (hworker w).mpr (H.joined (hmain ▸ h) w)
  seen r h := by
    rw [hmain] at h
    rw [hlinks]
    exact H.seen r h
  halted h r := by
    rw [hmain] at h
    exact hreactor r (H.halted h r)

theorem Closing.eventfd (H : Closing s) (r : Fin P.numReactors) (n : Nat) :
    Closing (setEventfd s r n) := by
  refine H.congr rfl rfl (fun r' => ?_) (fun _ => Iff.rfl) fun _ h => h
  by_cases h : r' = r
  · subst h
    simp only [setEventfd, update_self]
  · simp only [setEventfd, update_of_ne h]

/-- `worker_pool_stop` sets the flags before the workers are joined. -/
theorem Closing.shutdown (H : Closing s) {main : MainPhase} (p : PoolId) (hjoin : ¬main.Joined)
    (hseen : main.seen P.numReactors = 0) (hhalt : main ≠ .halted) :
    Closing (setShutdown s p main) where
  exited w hw := by
    obtain ⟨h1, h2⟩ := H.exited w hw
    by_cases h : P.poolOf w = p
    · simp only [setShutdown, h, update_self]
      rw [h] at h2
      exact ⟨trivial, h2⟩
    · simp only [setShutdown, update_of_ne h]
      exact ⟨h1, h2⟩
  joined h := (hjoin h).elim
  seen r h := absurd h (by simp only [setShutdown]; rw [hseen]; exact Nat.not_lt_zero _)
  halted h := (hhalt h).elim

theorem seen_of_not_joined {main : MainPhase} {R : Nat} (h : ¬main.Joined) : main.seen R = 0 := by
  cases main with
  | running => rfl
  | fastStopped => rfl
  | stopped => rfl
  | draining => exact (h trivial).elim
  | breaking => exact (h trivial).elim
  | joining => exact (h trivial).elim
  | halted => exact (h trivial).elim

end

section
variable {P : Topology} {Slot Job : Type} [DecidableEq Slot] [DecidableEq P.Worker]
  {s s' : State P Slot Job} {isFast : Job → Bool}

omit [DecidableEq Slot] in
theorem exited_update {w w' : P.Worker} {ph : WorkerPhase Slot P.numReactors}
    (hw : s.worker w ≠ .exited) (hph : ph ≠ .exited) :
    update s.worker w ph w' = .exited ↔ s.worker w' = .exited := by
  by_cases h : w' = w
  · subst h
    rw [update_self]
    exact iff_of_false hph hw
  · rw [update_of_ne h]

omit [DecidableEq Slot] [DecidableEq P.Worker] in
theorem exited_update_reactor {r r' : Fin P.numReactors} {ph : ReactorPhase Slot}
    (hr : s.reactor r ≠ .exited) (h : s.reactor r' = .exited) :
    update s.reactor r ph r' = .exited := by
  rw [update_of_ne]
  · exact h
  · rintro rfl
    exact hr h

omit [DecidableEq Slot] in
theorem Closing.worker_phase (H : Closing s) {w : P.Worker} {ph : WorkerPhase Slot P.numReactors}
    (hw : s.worker w ≠ .exited) (hph : ph ≠ .exited) : Closing (setWorker s w ph) :=
  H.congr rfl rfl (fun _ => rfl) (fun _ => exited_update hw hph) fun _ h => h

omit [DecidableEq Slot] [DecidableEq P.Worker] in
theorem Closing.reactor_phase (H : Closing s) {r : Fin P.numReactors} {ph : ReactorPhase Slot}
    (hr : s.reactor r ≠ .exited) : Closing (setReactor s r ph) :=
  H.congr rfl rfl (fun _ => rfl) (fun _ => Iff.rfl) fun _ => exited_update_reactor hr

omit [DecidableEq P.Worker] in
/-- A pool that accepts is not shut down, so no worker of it has left. -/
theorem Closing.accept (H : Closing s) {p : PoolId} {r : Fin P.numReactors} {t : Slot}
    {ph : ReactorPhase Slot} (hdown : (s.pool p).shutdown = false) (hr : s.reactor r ≠ .exited) :
    Closing (setReactor (appendTask s p t) r ph) := by
  refine ⟨fun w hw => ?_, H.joined, H.seen, fun hm r' => ?_⟩
  · obtain ⟨h1, h2⟩ := H.exited w hw
    have hne : P.poolOf w ≠ p := fun e => by
      rw [e, hdown] at h1
      cases h1
    simp only [setReactor, appendTask, update_of_ne hne]
    exact ⟨h1, h2⟩
  · exact exited_update_reactor (s := s) hr (H.halted hm r')

omit [DecidableEq Slot] in
/-- A pool with a task has no worker that has left. -/
theorem Closing.take (H : Closing s) {w : P.Worker} (hw : s.worker w = .loop)
    (ht : (s.pool (P.poolOf w)).links.head = some t) : Closing (workerDequeue s w t) := by
  have hstay : ∀ w', (workerDequeue s w t).worker w' = .exited ↔ s.worker w' = .exited :=
    fun w' => exited_update (by rw [hw]; exact nofun) nofun
  refine ⟨fun w' hw' => ?_, fun hm w' => (hstay w').mpr (H.joined hm w'), H.seen, H.halted⟩
  obtain ⟨h1, h2⟩ := H.exited w' ((hstay w').mp hw')
  have hne : P.poolOf w' ≠ P.poolOf w := fun e => by
    rw [e, ht] at h2
    cases h2
  simp only [workerDequeue, update_of_ne hne]
  exact ⟨h1, h2⟩

/-- As long as a worker is there to append a task, no queue has been looked at. -/
theorem Closing.append (H : Closing s) {w : P.Worker} (hw : s.worker w = .unlinked t)
    (r : Fin P.numReactors) : Closing (serverNotifyTaskDone s w t r) := by
  have hlive : ¬s.main.Joined := fun hm => by cases (H.joined hm w).symm.trans hw
  have hstay : ∀ w', (serverNotifyTaskDone s w t r).worker w' = .exited ↔
      s.worker w' = .exited := by
    intro w'
    refine exited_update (by rw [hw]; exact nofun) ?_
    split <;> exact nofun
  refine ⟨fun w' hw' => H.exited w' ((hstay w').mp hw'), fun hm => (hlive hm).elim, ?_, H.halted⟩
  intro r' hr'
  have hseen : s.main.seen P.numReactors = 0 := seen_of_not_joined hlive
  exact absurd (hseen ▸ hr') (Nat.not_lt_zero _)

omit [DecidableEq Slot] in
theorem Closing.leave (H : Closing s) {w : P.Worker} (hw : s.worker w = .loop)
    (hdown : (s.pool (P.poolOf w)).shutdown = true)
    (hempty : (s.pool (P.poolOf w)).links.head = none) : Closing (setWorker s w .exited) := by
  refine ⟨fun w' hw' => ?_, fun hm w' => ?_, H.seen, H.halted⟩
  · by_cases hne : w' = w
    · rw [hne]
      exact ⟨hdown, hempty⟩
    · simp only [setWorker, update_of_ne hne] at hw'
      exact H.exited w' hw'
  · cases (H.joined hm w).symm.trans hw

omit [DecidableEq Slot] [DecidableEq P.Worker] in
theorem Closing.detach (H : Closing s) {r : Fin P.numReactors} (hr : s.reactor r = .drained) :
    Closing (detachQueue s r) := by
  refine ⟨H.exited, H.joined, fun r' h => ?_, fun hm r' => ?_⟩
  · simp only [detachQueue]
    by_cases hne : r' = r
    · subst hne
      rw [update_self]
    · rw [update_of_ne hne]
      exact H.seen r' h
  · exact exited_update_reactor (by rw [hr]; intro h; cases h) (H.halted hm r')

omit [DecidableEq Slot] [DecidableEq P.Worker] in
/-- The main thread goes on behind the workers' end. -/
theorem Closing.advance (H : Closing s) {main : MainPhase} {loopbreak : Fin P.numReactors → Bool}
    (hjoined : s.main.Joined)
    (hseen : ∀ r : Fin P.numReactors, r.val < main.seen P.numReactors →
      r.val < s.main.seen P.numReactors ∨ (s.completion r).links.head = none)
    (hhalt : main = .halted → ∀ r, s.reactor r = .exited) :
    Closing { s with main, loopbreak } :=
  ⟨H.exited, fun _ => H.joined hjoined, fun r h => (hseen r h).elim (H.seen r) id, hhalt⟩

theorem Closing.step (H : Closing s) {e : Event P Slot Job} (h : Step isFast s e s') :
    Closing s' := by
  cases h with
  | receive hr _ =>
    exact H.congr rfl rfl (fun _ => rfl) (fun _ => Iff.rfl)
      fun _ => exited_update_reactor (by rw [hr]; exact nofun)
  | enqueue hr hs =>
    obtain ⟨hdown, -, rfl⟩ := workerPoolEnqueue_eq_some hs
    exact H.accept hdown (by rw [hr]; exact nofun)
  | refuse hr _ =>
    exact H.congr rfl rfl (fun _ => rfl) (fun _ => Iff.rfl)
      fun _ => exited_update_reactor (by rw [hr]; exact nofun)
  | cancel _ => exact H.congr rfl rfl (fun _ => rfl) (fun _ => Iff.rfl) fun _ h => h
  | take hw ht => exact H.take hw ht
  | process hw =>
    exact H.congr rfl rfl (fun _ => rfl)
      (fun _ => exited_update (by rw [hw]; exact nofun) nofun) fun _ h => h
  | unlink hw _ =>
    exact H.congr rfl rfl (fun _ => rfl)
      (fun _ => exited_update (by rw [hw]; exact nofun) nofun) fun _ h => h
  | lose hw _ => exact H.worker_phase (by rw [hw]; exact nofun) nofun
  | @append w t r hw _ => exact H.append hw r
  | @signal w r hw =>
    have H' : Closing (setWorker s w .loop) := H.worker_phase (by rw [hw]; exact nofun) nofun
    exact H'.eventfd r _
  | signalFails hw _ => exact H.worker_phase (by rw [hw]; exact nofun) nofun
  | leave hw hdown hempty => exact H.leave hw hdown hempty
  | wake hr => exact H.reactor_phase (by rw [hr]; exact nofun)
  | @read r _ hr _ =>
    have H' : Closing (setReactor s r (.reading true)) :=
      H.reactor_phase (by rw [hr]; exact nofun)
    exact H'.eventfd r 0
  | readFails hr _ => exact H.reactor_phase (by rw [hr]; exact nofun)
  | detach hr => exact H.detach hr
  | visit hr => exact H.reactor_phase (by rw [hr]; exact nofun)
  | visited hr => exact H.reactor_phase (by rw [hr]; exact nofun)
  | finalize hr =>
    exact H.congr rfl rfl (fun _ => rfl) (fun _ => Iff.rfl)
      fun _ => exited_update_reactor (by rw [hr]; exact nofun)
  | quit hr _ => exact H.reactor_phase (by rw [hr]; exact nofun)
  | stopFast _ => exact H.shutdown .fast id rfl nofun
  | stopSlow _ => exact H.shutdown .slow id rfl nofun
  | joinWorkers _ hall => exact ⟨H.exited, fun _ => hall, fun _ => nofun, nofun⟩
  | @drain i r hm hr hempty =>
    refine H.advance (by rw [hm]; trivial) (fun r' h => ?_) nofun
    rcases Nat.lt_succ_iff_lt_or_eq.mp h with h | h
    · exact .inl (by rw [hm]; exact h)
    · rw [Fin.ext (h.trans hr.symm)]
      exact .inr hempty
  | drained hm => exact H.advance (by rw [hm]; trivial) (fun r h => .inl (by rw [hm]; exact h)) nofun
  | loopbreak hm _ =>
    exact H.advance (by rw [hm]; trivial) (fun r h => .inl (by rw [hm]; exact h)) nofun
  | broken hm => exact H.advance (by rw [hm]; trivial) (fun r h => .inl (by rw [hm]; exact h)) nofun
  | joinReactors hm hall =>
    exact H.advance (by rw [hm]; trivial) (fun r h => .inl (by rw [hm]; exact h)) fun _ => hall

theorem closing_of_reachable {G : State P Slot Job → Event P Slot Job → Prop}
    (H : (system P Slot isFast).Reachable G s) : Closing s := by
  refine H.invariant (I := Closing) ?_ fun _ _ _ _ h _ hs => h.step hs
  rintro s rfl
  exact .init

end

end ApiServer.Pipeline
