import ApiServer.Pipeline.ExactlyOnce
import ApiServer.Pipeline.Liveness

/-!
# The shutdown comes to its end

`wait_and_shutdown` waits three times: for the workers, for the completion queues and for the
reactors. In a fair run each wait ends. The pools accept nothing any more, so the workers empty them
and leave; without workers nothing is completed, so the reactors empty their queues; and a reactor
returns to its event loop again and again, where it sees that the loop is broken.
-/

namespace ApiServer.Pipeline
open Function System System.Run

section
variable {P : Topology} {Slot Job : Type}

/-- How far the main thread is in `wait_and_shutdown`. -/
def MainPhase.level (R : Nat) : MainPhase → Nat
  | .running => 0
  | .fastStopped => 1
  | .stopped => 2
  | .draining i => i + 3
  | .breaking i => R + i + 4
  | .joining => R + R + 5
  | .halted => R + R + 6

def MainPhase.Within (R : Nat) : MainPhase → Prop
  | .draining i | .breaking i => i ≤ R
  | _ => True

/-- A run that is also fair to the threads that end. The main thread may wait for a signal. -/
structure FairStop [DecidableEq Slot] [DecidableEq P.Worker] {isFast : Job → Bool}
    (ρ : (system P Slot isFast).Run) : Prop extends Fair ρ where
  leaves : ∀ w, ρ.WeakFair fun _ e => e = .leave w
  quits : ∀ r, ρ.StrongFair fun _ e => e = .quit r
  main : ρ.WeakFair fun s e => e = .main ∧ s.main ≠ .running

/-- What the main thread has done so far. -/
structure Stopping (s : State P Slot Job) : Prop where
  within : s.main.Within P.numReactors
  fast : 1 ≤ s.main.level P.numReactors → (s.pool .fast).shutdown = true
  slow : 2 ≤ s.main.level P.numReactors → (s.pool .slow).shutdown = true
  broken : ∀ r : Fin P.numReactors, P.numReactors + r + 4 < s.main.level P.numReactors →
    s.loopbreak r = true

variable {s s' : State P Slot Job} {v : Lane P.numReactors → List Slot} {own : Slot → Place P}
  {p : PoolId} {r : Fin P.numReactors} {w : P.Worker}

/-- A pool that is shut down, and has had all taken that it had accepted. -/
def Emptied (p : PoolId) (s : State P Slot Job) : Prop :=
  (s.pool p).shutdown = true ∧ numAccepted p s ≤ numTaken p s

def AllExited (s : State P Slot Job) : Prop := ∀ w, s.worker w = .exited

/-- How many steps a reactor is away from its event loop, when nobody completes a task any more. -/
def ReactorPhase.left (todo eventfd : Nat) : ReactorPhase Slot → Nat
  | .loop | .exited => 0
  | .accepting _ => 1
  | .finalizing .. => 2 * todo
  | .batch _ => 2 * todo + 1
  | .drained => 2 * todo + 2
  | .reading _ => 2 * todo + 3 + if eventfd = 0 then 0 else 1

def callbackLeft (r : Fin P.numReactors) (s : State P Slot Job) : Nat :=
  (s.reactor r).left (numCompleted r s - numFinalized r s) (s.completion r).eventfd

theorem head_of_emptied (H : Inv s v own) (h : Emptied p s) : (s.pool p).links.head = none := by
  rw [(H.layout.pool p).head_eq_none]
  have hlog := congrArg List.length (H.logs.pool p)
  rw [List.length_append, List.length_map] at hlog
  have hle : (s.hist.accepted p).length ≤ (s.hist.taken p).length := h.2
  exact List.length_eq_zero_iff.mp (by omega)

theorem head_of_settled (H : Inv s v own) (h : numCompleted r s ≤ numFinalized r s) :
    (s.completion r).links.head = none := by
  rw [(H.layout.done r).head_eq_none]
  have hlog := congrArg List.length (H.logs.done r)
  rw [List.length_append, List.length_map, List.length_append] at hlog
  have hle : (s.hist.completed r).length ≤ (s.hist.finalized r).length := h
  exact List.length_eq_zero_iff.mp (by omega)

/-- The task that is being finalized is one of those not finalized yet. -/
theorem todo_of_finalizing (H : Inv s v own) {t : Slot} {curr : Option Slot}
    (hr : s.reactor r = .finalizing t curr) : numFinalized r s < numCompleted r s := by
  have hbatch := H.layout.batch r
  rw [hr] at hbatch
  obtain ⟨l, hl, -⟩ := hbatch
  have hlog := congrArg List.length (H.logs.done r)
  rw [hl, List.length_append, List.length_map, List.length_append, List.length_cons] at hlog
  unfold numFinalized numCompleted
  omega

end

section
variable {P : Topology} {Slot Job : Type} [DecidableEq Slot] [DecidableEq P.Worker]
  {isFast : Job → Bool} {s s' : State P Slot Job} {e : Event P Slot Job}
  {p : PoolId} {r : Fin P.numReactors} {w : P.Worker}

/-! ## The main thread -/

/-- A step of the main thread takes it one level up. -/
theorem Step.level (h : Step isFast s e s') :
    e ≠ .main ∧ s'.main = s.main ∨
      e = .main ∧ s'.main.level P.numReactors = s.main.level P.numReactors + 1 := by
  cases h with
  | enqueue _ hs =>
    obtain ⟨-, -, rfl⟩ := workerPoolEnqueue_eq_some hs
    exact .inl ⟨nofun, rfl⟩
  | stopFast hm | stopSlow hm | joinWorkers hm _ | drain hm _ _ | drained hm | loopbreak hm _
  | broken hm | joinReactors hm _ =>
    rw [hm]
    exact .inr ⟨rfl, rfl⟩
  | _ => exact .inl ⟨nofun, rfl⟩

theorem Step.loopbreak_mono (h : Step isFast s e s') (hr : s.loopbreak r = true) :
    s'.loopbreak r = true := by
  cases h with
  | enqueue _ hs =>
    obtain ⟨-, -, rfl⟩ := workerPoolEnqueue_eq_some hs
    exact hr
  | @loopbreak i r' _ _ =>
    by_cases h : r = r'
    · subst h
      exact update_self ..
    · exact (update_of_ne h ..).trans hr
  | _ => exact hr

theorem Stopping.step (H : Stopping s) (h : Step isFast s e s') : Stopping s' := by
  have hsame : s'.main = s.main → Stopping s' := by
    intro hm
    refine ⟨hm ▸ H.within, ?_, ?_, ?_⟩ <;> rw [hm]
    · exact fun hl => (h.shutdown (H.fast hl)).1
    · exact fun hl => (h.shutdown (H.slow hl)).1
    · exact fun r hl => h.loopbreak_mono (H.broken r hl)
  -- past the flags of the pools
  have hlater : 2 ≤ s.main.level P.numReactors → s'.main.Within P.numReactors →
      (∀ r : Fin P.numReactors, s.main.level P.numReactors = P.numReactors + r + 4 →
        s'.loopbreak r = true) → Stopping s' := by
    intro hl hwithin hbroken
    refine ⟨hwithin, fun _ => (h.shutdown (H.fast (by omega))).1,
      fun _ => (h.shutdown (H.slow hl)).1, fun r hr => ?_⟩
    by_cases heq : s.main.level P.numReactors = P.numReactors + r + 4
    · exact hbroken r heq
    · refine h.loopbreak_mono (H.broken r ?_)
      obtain ⟨-, hm⟩ | ⟨-, hm⟩ := h.level
      · rwa [hm] at hr
      · omega
  cases h with
  | enqueue _ hs =>
    obtain ⟨-, -, rfl⟩ := workerPoolEnqueue_eq_some hs
    exact hsame rfl
  | stopFast hm =>
    refine ⟨trivial, fun _ => rfl, fun hl => ?_, fun r hl => ?_⟩
    · exact absurd hl (by simp only [setShutdown, MainPhase.level]; decide)
    · simp only [setShutdown, MainPhase.level] at hl
      omega
  | stopSlow hm =>
    refine ⟨trivial, fun _ => H.fast (by rw [hm]; exact Nat.le_refl 1), fun _ => rfl, fun r hl => ?_⟩
    simp only [setShutdown, MainPhase.level] at hl
    omega
  | joinWorkers hm _ =>
    refine hlater (by rw [hm]; exact Nat.le_refl 2) (Nat.zero_le _) fun r hr => ?_
    rw [hm] at hr
    simp only [MainPhase.level] at hr
    omega
  | @drain i r hm hi _ =>
    refine hlater (by rw [hm]; exact Nat.le_add_left ..) (hi ▸ r.isLt) fun r' hr => ?_
    rw [hm] at hr
    have := r.isLt
    simp only [MainPhase.level] at hr
    omega
  | drained hm =>
    refine hlater (by rw [hm]; exact Nat.le_add_left ..) (Nat.zero_le _) fun r hr => ?_
    rw [hm] at hr
    simp only [MainPhase.level] at hr
    omega
  | @loopbreak i r hm hi =>
    refine hlater (by rw [hm]; exact Nat.le_add_left ..) (hi ▸ r.isLt) fun r' hr => ?_
    rw [hm] at hr
    simp only [MainPhase.level] at hr
    obtain rfl : r' = r := Fin.ext (by omega)
    exact update_self ..
  | broken hm =>
    refine hlater (by rw [hm]; exact Nat.le_add_left ..) trivial fun r hr => ?_
    rw [hm] at hr
    have := r.isLt
    simp only [MainPhase.level] at hr
    omega
  | joinReactors hm _ =>
    refine hlater (by rw [hm]; exact Nat.le_add_left ..) trivial fun r hr => ?_
    rw [hm] at hr
    have := r.isLt
    simp only [MainPhase.level] at hr
    omega
  | _ => exact hsame rfl

theorem stopping_of_reachable {G : State P Slot Job → Event P Slot Job → Prop}
    (H : (system P Slot isFast).Reachable G s) : Stopping s := by
  refine H.invariant (I := Stopping) ?_ fun _ _ _ _ h _ hs => h.step hs
  rintro s rfl
  exact ⟨trivial, fun h => absurd h (Nat.not_succ_le_zero _),
    fun h => absurd h (Nat.not_succ_le_zero _), fun r h => absurd h (Nat.not_lt_zero _)⟩

variable {ρ : (system P Slot isFast).Run}

/-- The main thread gets past a phase, if what it waits for there comes to last. -/
theorem FairStop.advances (hfair : FairStop ρ) {ph : MainPhase} (hph : ph ≠ .running)
    {W : State P Slot Job → Prop}
    (hW : ∀ s e t, (system P Slot isFast).Reachable (fun _ _ => True) s → W s →
      Step isFast s e t → W t)
    (hwait : ρ.LeadsTo (fun s => s.main = ph) W)
    (hen : ∀ s, (system P Slot isFast).Reachable (fun _ _ => True) s → s.main = ph → W s →
      ∃ t, Step isFast s .main t) :
    ρ.LeadsTo (fun s => s.main = ph) fun s =>
      ph.level P.numReactors < s.main.level P.numReactors := by
  have hstay : ∀ s e t, (system P Slot isFast).Reachable (fun _ _ => True) s →
      s.main = ph ∨ ph.level P.numReactors < s.main.level P.numReactors → Step isFast s e t →
      t.main = ph ∨ ph.level P.numReactors < t.main.level P.numReactors := by
    intro s e t _ h hst
    obtain ⟨-, hm⟩ | ⟨-, hm⟩ := hst.level
    · rwa [hm]
    · rw [hm]
      rcases h with rfl | h
      · exact .inr (Nat.lt_succ_self _)
      · exact .inr (Nat.lt_succ_of_lt h)
  have hready : ρ.LeadsTo (fun s => s.main = ph ∧ W s) fun s =>
      ph.level P.numReactors < s.main.level P.numReactors := by
    refine hfair.main.leadsTo (fun s e t hs ⟨hm, hw⟩ hst => ?_) fun s hs ⟨hm, hw⟩ => ?_
    · obtain ⟨hne, hm'⟩ | ⟨-, hm'⟩ := hst.level
      · exact .inr ⟨⟨hm'.trans hm, hW s e t hs hw hst⟩, fun h => hne h.1⟩
      · rw [hm', hm]
        exact .inl (Nat.lt_succ_self _)
    · obtain ⟨t, ht⟩ := hen s hs hm hw
      exact ⟨.main, t, ⟨rfl, hm ▸ hph⟩, ht⟩
  intro i hi
  obtain ⟨j, hij, hj, hstayed⟩ := hwait.keep hstay i ⟨hi, .inl hi⟩
  rcases hstayed with hm | hlt
  · obtain ⟨l, hjl, hl⟩ := hready j ⟨hm, hj⟩
    exact ⟨l, Nat.le_trans hij hjl, hl⟩
  · exact ⟨j, hij, hlt⟩

/-! ## The workers leave -/

theorem Emptied.step (h : Emptied p s) (hst : Step isFast s e s') : Emptied p s' := by
  obtain ⟨hdown, haccepted⟩ := hst.shutdown h.1
  refine ⟨hdown, ?_⟩
  have hle : numTaken p s ≤ numTaken p s' := (hst.taken_prefix p).length_le
  rw [numAccepted, haccepted]
  exact Nat.le_trans h.2 hle

theorem Fair.empties (hfair : Fair ρ) (p : PoolId) :
    ρ.LeadsTo (fun s => (s.pool p).shutdown = true) (Emptied p) := by
  refine LeadsTo.settles (fun s e t _ h hst => ?_)
    (fun s e t _ hst => (Step.accepted_prefix hst p).length_le) (hfair.taken_next p)
  obtain ⟨hdown, haccepted⟩ := Step.shutdown hst h
  exact ⟨hdown, congrArg List.length haccepted⟩

theorem exited_next (h : s.worker w = .exited) (hst : Step isFast s e s') :
    s'.worker w = .exited := by
  by_cases hw : workerOf e = some w
  · have hshift := hst.shift hw
    rw [h] at hshift
    cases hshift
  · exact (worker_frame hst hw).trans h

/-- A worker of an emptied pool leaves. -/
theorem FairStop.worker_leaves (hfair : FairStop ρ) (w : P.Worker) :
    ρ.LeadsTo (Emptied (P.poolOf w)) fun s => s.worker w = .exited := by
  have hback : ρ.LeadsTo (Emptied (P.poolOf w)) fun s =>
      Emptied (P.poolOf w) s ∧ (s.worker w).rank = 0 := by
    refine (hfair.works w).leadsTo_rank (fun s => (s.worker w).rank)
      (fun s e t hs h hnot hst => ?_)
      fun s hs h hnot => works_enabled hs (Nat.pos_of_ne_zero fun h0 => hnot ⟨h, h0⟩)
    have hpos : 0 < (s.worker w).rank := Nat.pos_of_ne_zero fun h0 => hnot ⟨h, h0⟩
    by_cases hw : workerOf e = some w
    · have hlt := (hst.shift hw).rank_lt hpos
      exact .inr ⟨h.step hst, Nat.le_of_lt hlt, fun _ => hlt⟩
    · rw [worker_frame hst hw]
      exact .inr ⟨h.step hst, Nat.le_refl _, fun h => absurd h.1 hw⟩
  have hleave : ρ.LeadsTo (fun s => Emptied (P.poolOf w) s ∧ s.worker w = .loop)
      fun s => s.worker w = .exited := by
    refine (hfair.leaves w).leadsTo (fun s e t hs ⟨h, hloop⟩ hst => ?_) fun s hs ⟨h, hloop⟩ => ?_
    · obtain ⟨v, own, hinv⟩ := inv_of_reachable hs
      by_cases hw : workerOf e = some w
      · have hshift := hst.shift hw
        obtain ⟨ph, hph⟩ : ∃ ph, t.worker w = ph := ⟨_, rfl⟩
        rw [hloop, hph] at hshift
        cases hshift with
        | take u hhead => cases hhead.symm.trans (head_of_emptied hinv h)
        | leave => exact .inl hph
      · refine .inr ⟨⟨h.step hst, (worker_frame hst hw).trans hloop⟩, ?_⟩
        rintro rfl
        exact hw rfl
    · obtain ⟨v, own, hinv⟩ := inv_of_reachable hs
      exact ⟨.leave w, _, rfl, .leave hloop h.1 (head_of_emptied hinv h)⟩
  intro i hi
  obtain ⟨j, hij, h, hrank⟩ := hback i hi
  by_cases hloop : (ρ.state j).worker w = .loop
  · obtain ⟨l, hjl, hl⟩ := hleave j ⟨h, hloop⟩
    exact ⟨l, Nat.le_trans hij hjl, hl⟩
  · refine ⟨j, hij, by_contra fun hexited => ?_⟩
    exact Nat.ne_of_gt (WorkerPhase.rank_pos hloop hexited) hrank

/-- `worker_pool_stop` returns. -/
theorem FairStop.workers_leave [Fintype P.Worker] (hfair : FairStop ρ) :
    ρ.LeadsTo (fun s => s.main = .stopped) AllExited := by
  refine LeadsTo.all (fun w => ?_) fun w s e t _ h hst => exited_next h hst
  have hdown : ρ.LeadsTo (fun s => s.main = .stopped)
      fun s => (s.pool (P.poolOf w)).shutdown = true := by
    refine LeadsTo.of_imp fun s hs hm => ?_
    have hstop := stopping_of_reachable hs
    cases P.poolOf w with
    | fast => exact hstop.fast (by rw [hm]; exact Nat.le_succ 1)
    | slow => exact hstop.slow (by rw [hm]; exact Nat.le_refl 2)
  exact hdown.trans ((hfair.empties _).trans (hfair.worker_leaves w))

/-! ## The reactors come to an end -/

theorem AllExited.step (h : AllExited s) (hst : Step isFast s e s') : AllExited s' :=
  fun w => exited_next (h w) hst

/-- Without workers only the reactor itself touches what its callbacks are about. -/
theorem AllExited.frame (h : AllExited s) (hst : Step isFast s e s') :
    s'.hist.completed r = s.hist.completed r ∧
      (reactorOf e ≠ some r → s'.hist.finalized r = s.hist.finalized r ∧
        (s'.completion r).eventfd = (s.completion r).eventfd) := by
  have hgone : ∀ {w ph}, s.worker w = ph → ph = .exited := fun hw => hw.symm.trans (h _)
  cases hst with
  | enqueue _ hs =>
    obtain ⟨-, -, rfl⟩ := workerPoolEnqueue_eq_some hs
    exact ⟨rfl, fun _ => ⟨rfl, rfl⟩⟩
  | append hw _ | signal hw => cases hgone hw
  | @read r' _ _ _ =>
    refine ⟨rfl, fun hr => ⟨rfl, ?_⟩⟩
    have hne : r ≠ r' := fun heq => hr (congrArg some heq.symm)
    simp only [setEventfd, setReactor, update_of_ne hne]
  | @detach r' _ =>
    refine ⟨rfl, fun hr => ⟨rfl, ?_⟩⟩
    have hne : r ≠ r' := fun heq => hr (congrArg some heq.symm)
    simp only [detachQueue, update_of_ne hne]
  | @finalize r' _ _ _ =>
    refine ⟨rfl, fun hr => ⟨?_, rfl⟩⟩
    exact update_of_ne (fun heq => hr (congrArg some heq.symm)) ..
  | _ => exact ⟨rfl, fun _ => ⟨rfl, rfl⟩⟩

/-- `server_drain_reactor_queues` gets past the queue. -/
theorem Fair.queue_drains [Fintype P.Worker] (hfair : Fair ρ) (r : Fin P.numReactors) :
    ρ.LeadsTo AllExited fun s => AllExited s ∧ numCompleted r s ≤ numFinalized r s := by
  refine LeadsTo.settles (fun s e t _ h hst => ?_)
    (fun s e t _ hst => (Step.completed_prefix hst r).length_le) (hfair.finalized_next r)
  exact ⟨h.step hst, congrArg List.length (h.frame hst).1⟩

/-- A step of the reactor takes it nearer to its event loop. -/
theorem callbackLeft_lt (H : (system P Slot isFast).Reachable (fun _ _ => True) s)
    (h : AllExited s) (hst : Step isFast s e s') (hr : reactorOf e = some r)
    (hloop : s.reactor r ≠ .loop) : callbackLeft r s' < callbackLeft r s := by
  obtain ⟨v, own, hinv⟩ := inv_of_reachable H
  have hcompleted : numCompleted r s' = numCompleted r s := congrArg List.length (h.frame hst).1
  have hfinalized : numFinalized r s ≤ numFinalized r s' := (hst.finalized_prefix r).length_le
  have hturn := hst.turn hr
  unfold callbackLeft
  obtain ⟨ph, hph⟩ : ∃ ph, s.reactor r = ph := ⟨_, rfl⟩
  obtain ⟨ph', hph'⟩ : ∃ ph', s'.reactor r = ph' := ⟨_, rfl⟩
  rw [hph] at hturn hloop ⊢
  rw [hph'] at hturn ⊢
  rw [hcompleted]
  cases hturn with
  | receive | wake | quit => exact absurd rfl hloop
  | read b hfd hfd' _ =>
    simp only [ReactorPhase.left, if_pos hfd', if_neg (Nat.ne_of_gt hfd)]
    omega
  | finalize t curr hlog =>
    have hlt := todo_of_finalizing hinv hph
    have hstep : numFinalized r s' = numFinalized r s + 1 := by
      rw [numFinalized, hlog, List.length_append]
      rfl
    simp only [ReactorPhase.left]
    omega
  | answer | readFails | detach | visit | visited =>
    simp only [ReactorPhase.left]
    omega

/-- A reactor whose loop is broken leaves it. -/
theorem FairStop.reactor_leaves (hfair : FairStop ρ) (r : Fin P.numReactors) :
    ρ.LeadsTo (fun s => AllExited s ∧ s.loopbreak r = true) fun s => s.reactor r = .exited := by
  have hstay : ∀ {s t : State P Slot Job} {e}, Step isFast s e t →
      AllExited s ∧ s.loopbreak r = true → AllExited t ∧ t.loopbreak r = true :=
    fun hst h => ⟨h.1.step hst, hst.loopbreak_mono h.2⟩
  have hreturn : ρ.LeadsTo (fun s => AllExited s ∧ s.loopbreak r = true) fun s =>
      s.reactor r = .exited ∨ s.reactor r = .loop ∧ s.loopbreak r = true := by
    refine (hfair.callbacks r).leadsTo_rank (callbackLeft r) (fun s e t hs h hnot hst => ?_)
      fun s hs h hnot => callback_enabled (fun hl => hnot (.inr ⟨hl, h.2⟩)) fun he => hnot (.inl he)
    by_cases hr : reactorOf e = some r
    · have hlt := callbackLeft_lt hs h.1 hst hr fun hl => hnot (.inr ⟨hl, h.2⟩)
      exact .inr ⟨hstay hst h, Nat.le_of_lt hlt, fun _ => hlt⟩
    · obtain ⟨hcompleted, hother⟩ := h.1.frame (r := r) hst
      obtain ⟨hfinalized, hfd⟩ := hother hr
      refine .inr ⟨hstay hst h, Nat.le_of_eq ?_, fun h => absurd h.1 hr⟩
      rw [callbackLeft, callbackLeft, reactor_frame hst hr, hfd, numCompleted, numCompleted,
        hcompleted, numFinalized, numFinalized, hfinalized]
  refine (hfair.quits r).leadsTo (fun s e t hs h hst => ?_)
    (hreturn.trans (LeadsTo.of_imp fun s _ h => ?_))
  · by_cases he : e = .quit r
    · subst he
      cases hst with
      | quit => exact .inl (update_self ..)
    · exact .inr ⟨hstay hst h, he⟩
  · rcases h with h | ⟨hloop, hbreak⟩
    · exact .inl h
    · exact .inr ⟨.quit r, _, rfl, .quit hloop hbreak⟩

theorem reactor_exited_next (h : s.reactor r = .exited) (hst : Step isFast s e s') :
    s'.reactor r = .exited := by
  by_cases hr : reactorOf e = some r
  · have hturn := hst.turn hr
    rw [h] at hturn
    cases hturn
  · exact (reactor_frame hst hr).trans h

/-! ## The whole shutdown -/

/-- Whatever the main thread waits for in a phase comes. -/
theorem FairStop.level_next [Fintype P.Worker] (hfair : FairStop ρ) (ph : MainPhase)
    (hrunning : ph ≠ .running) (hhalted : ph ≠ .halted) (hwithin : ph.Within P.numReactors) :
    ρ.LeadsTo (fun s => s.main = ph) fun s =>
      ph.level P.numReactors < s.main.level P.numReactors := by
  -- the phases in which it does not wait
  have hready : (∀ s : State P Slot Job, s.main = ph → ∃ t, Step isFast s .main t) →
      ρ.LeadsTo (fun s => s.main = ph) fun s =>
        ph.level P.numReactors < s.main.level P.numReactors := fun hen =>
    hfair.advances hrunning (W := fun _ => True) (fun _ _ _ _ _ _ => trivial)
      (LeadsTo.of_imp fun _ _ _ => trivial) fun s _ hm _ => hen s hm
  cases ph with
  | running => exact absurd rfl hrunning
  | halted => exact absurd rfl hhalted
  | fastStopped => exact hready fun s hm => ⟨_, .stopSlow hm⟩
  | stopped =>
    exact hfair.advances hrunning (fun _ _ _ _ h hst => h.step hst) hfair.workers_leave
      fun s _ hm h => ⟨_, .joinWorkers hm h⟩
  | draining i =>
    obtain hlt | rfl := Nat.lt_or_eq_of_le hwithin
    · have hjoined : ρ.LeadsTo (fun s => s.main = .draining i) AllExited :=
        LeadsTo.of_imp fun s hs hm => (closing_of_reachable hs).joined (by rw [hm]; trivial)
      refine hfair.advances hrunning (fun s e t _ h hst => ?_)
        (hjoined.trans (hfair.queue_drains ⟨i, hlt⟩)) fun s hs hm h => ?_
      · refine ⟨h.1.step hst, ?_⟩
        rw [numCompleted, (h.1.frame hst).1]
        exact Nat.le_trans h.2 (hst.finalized_prefix _).length_le
      · obtain ⟨v, own, hinv⟩ := inv_of_reachable hs
        exact ⟨_, .drain (r := ⟨i, hlt⟩) hm rfl (head_of_settled hinv h.2)⟩
    · exact hready fun s hm => ⟨_, .drained hm⟩
  | breaking i =>
    obtain hlt | rfl := Nat.lt_or_eq_of_le hwithin
    · exact hready fun s hm => ⟨_, .loopbreak (r := ⟨i, hlt⟩) hm rfl⟩
    · exact hready fun s hm => ⟨_, .broken hm⟩
  | joining =>
    have hbroken : ∀ r, ρ.LeadsTo (fun s => s.main = .joining)
        fun s => AllExited s ∧ s.loopbreak r = true := by
      refine fun r => LeadsTo.of_imp fun s hs hm => ⟨?_, ?_⟩
      · exact (closing_of_reachable hs).joined (by rw [hm]; trivial)
      · refine (stopping_of_reachable hs).broken r ?_
        have := r.isLt
        rw [hm]
        simp only [MainPhase.level]
        omega
    exact hfair.advances hrunning
      (fun _ _ _ _ h hst r => reactor_exited_next (h r) hst)
      (LeadsTo.all (fun r => (hbroken r).trans (hfair.reactor_leaves r))
        fun _ _ _ _ _ h hst => reactor_exited_next h hst)
      fun s _ hm h => ⟨_, .joinReactors hm h⟩

theorem level_le {R : Nat} {ph : MainPhase} (h : ph.Within R) : ph.level R ≤ R + R + 6 := by
  cases ph <;> simp only [MainPhase.level, MainPhase.Within] at * <;> omega

/-- In a fair run a shutdown that has begun comes to its end, with every thread gone, every accepted
task finalized on its reactor and nothing left in a queue. -/
theorem halts_of_fair [Fintype P.Worker] (hfair : FairStop ρ) :
    ρ.LeadsTo (fun s => s.main ≠ .running) fun s => s.main = .halted ∧ AllExited s ∧
      (∀ r, s.reactor r = .exited) ∧ (∀ p, (s.pool p).links.head = none) ∧
      (∀ r, (s.completion r).links.head = none) ∧
      ∀ n, n < s.hist.clock → ∃ r, n ∈ s.hist.finalized r ∧ s.hist.owner n = r := by
  have hrank : ρ.LeadsTo (fun s => s.main ≠ .running) fun s => s.main = .halted := by
    have hlevels : ∀ m, ρ.LeadsTo
        (fun s => s.main ≠ .running ∧
          P.numReactors + P.numReactors + 6 - s.main.level P.numReactors = m)
        fun s => s.main = .halted := by
      refine LeadsTo.rank fun m i ⟨hrun, hm⟩ => ?_
      by_cases hhalted : (ρ.state i).main = .halted
      · exact ⟨i, Nat.le_refl i, .inl hhalted⟩
      have hwithin := (stopping_of_reachable (ρ.reachable i)).within
      obtain ⟨j, hij, hlt⟩ := hfair.level_next _ hrun hhalted hwithin i rfl
      have hle := level_le (stopping_of_reachable (ρ.reachable j)).within
      refine ⟨j, hij, .inr ⟨_, ?_, fun h => ?_, rfl⟩⟩
      · omega
      · rw [h] at hlt
        exact absurd hlt (Nat.not_lt_zero _)
    exact fun i hi => hlevels _ i ⟨hi, rfl⟩
  refine hrank.trans (LeadsTo.of_imp fun s hs hm => ?_)
  obtain ⟨v, own, hinv⟩ := inv_of_reachable hs
  have hclosing := closing_of_reachable hs
  have hexited : AllExited s := hclosing.joined (by rw [hm]; trivial)
  refine ⟨hm, hexited, hclosing.halted hm, fun p => ?_, fun r => ?_,
    fun n hn => hinv.finalized_of_halted hclosing hm hn⟩
  · obtain ⟨w, rfl⟩ := P.served p
    exact (hclosing.exited w (hexited w)).2
  · exact hclosing.seen r (by rw [hm]; exact r.isLt)

/-- After the shutdown no thread takes a step. -/
theorem quiet_of_halted (H : (system P Slot isFast).Reachable (fun _ _ => True) s)
    (hm : s.main = .halted) (hst : Step isFast s e s') :
    workerOf e = none ∧ reactorOf e = none ∧ e ≠ .main := by
  have hclosing := closing_of_reachable H
  refine ⟨?_, ?_, ?_⟩
  · refine Option.eq_none_iff_forall_ne_some.mpr fun w hw => ?_
    have hshift := hst.shift hw
    rw [hclosing.joined (by rw [hm]; trivial) w] at hshift
    cases hshift
  · refine Option.eq_none_iff_forall_ne_some.mpr fun r hr => ?_
    have hturn := hst.turn hr
    rw [hclosing.halted hm r] at hturn
    cases hturn
  · rintro rfl
    have hle := level_le (stopping_of_reachable (H.step trivial hst)).within
    obtain ⟨hne, -⟩ | ⟨-, hl⟩ := hst.level
    · exact hne rfl
    · rw [hl, hm] at hle
      exact absurd hle (Nat.not_succ_le_self _)

/-- A run that ends with the shutdown is fair. -/
theorem FairStop.of_halted {m : Nat} (hrest : ∀ i, m ≤ i → ρ.state i = s) (hm : s.main = .halted) :
    FairStop ρ := by
  have hs : (system P Slot isFast).Reachable (fun _ _ => True) s :=
    hrest m (Nat.le_refl m) ▸ ρ.reachable m
  have hfair : ∀ A : State P Slot Job → Event P Slot Job → Prop,
      (∀ e, A s e → workerOf e ≠ none ∨ reactorOf e ≠ none ∨ e = .main) → ρ.StrongFair A := by
    refine fun A hA => StrongFair.of_resting hrest ?_
    rintro ⟨e, t, he, hst⟩
    obtain ⟨hw, hr, hmain⟩ := quiet_of_halted hs hm hst
    exact (hA e he).elim (· hw) (·.elim (· hr) hmain)
  refine ⟨⟨fun w => (hfair _ ?_).weakFair, fun p => (hfair _ ?_).weakFair,
    fun r => (hfair _ ?_).weakFair, fun r => hfair _ ?_⟩, fun w => (hfair _ ?_).weakFair,
    fun r => hfair _ ?_, (hfair _ ?_).weakFair⟩
  · exact fun e he => .inl (by rw [he.1]; nofun)
  · rintro _ ⟨w, -, rfl⟩
    exact .inl nofun
  · exact fun e he => .inr (.inl (by rw [he.1]; nofun))
  · rintro _ ⟨rfl, -⟩
    exact .inr (.inl nofun)
  · rintro _ rfl
    exact .inl nofun
  · rintro _ rfl
    exact .inr (.inl nofun)
  · exact fun e he => .inr (.inr he.1)

end

/-! ## A run -/

/-- Only that job is received. -/
def Event.Only {P : Topology} {Slot Job : Type} (job : Job) : Event P Slot Job → Prop
  | .receive _ _ j => j = job
  | _ => True

/-- One reactor and two workers: a task of a fast route goes all the way. -/
theorem exists_resting_served {Job : Type} {isFast : Job → Bool} {job : Job}
    (hjob : isFast job = true)
    {G : State (.ofConfig 1 2 50 10) Nat Job → Event (.ofConfig 1 2 50 10) Nat Job → Prop}
    (hG : ∀ s e, e.Only job → G s e) :
    ∃ s, (system (.ofConfig 1 2 50 10) Nat isFast).Reachable G s ∧ Resting s ∧ s.hist.clock = 1 := by
  let r : Fin (Topology.ofConfig 1 2 50 10).numReactors := ⟨0, Nat.one_pos⟩
  let w : (Topology.ofConfig 1 2 50 10).Worker := Sum.inl ⟨0, Nat.one_pos⟩
  have hreceive : Step isFast ({} : State (.ofConfig 1 2 50 10) Nat Job) (.receive r 7 job) _ :=
    .receive rfl rfl
  have haccept : workerPoolEnqueue isFast (fillTask ({} : State (.ofConfig 1 2 50 10) Nat Job) r 7 job)
      7 = some (appendTask (fillTask {} r 7 job) .fast 7) := by
    have hpool : poolFor isFast (fillTask ({} : State (.ofConfig 1 2 50 10) Nat Job) r 7 job) 7 =
        .fast := by
      simp only [poolFor, fillTask, update_self, hjob, if_true]
    rw [workerPoolEnqueue, hpool]
    rfl
  have h := System.Reachable.init (T := system (.ofConfig 1 2 50 10) Nat isFast) (G := G) rfl
  have h := h.next hreceive (hG _ _ rfl)
  have h := h.next (.enqueue (r := r) (t := 7) rfl haccept) (hG _ _ trivial)
  have h := h.next (.take (w := w) (t := 7) rfl rfl) (hG _ _ trivial)
  have h := h.next (.process (w := w) (t := 7) rfl) (hG _ _ trivial)
  have h := h.next (.unlink (w := w) (t := 7) rfl Nat.one_pos) (hG _ _ trivial)
  have h := h.next (.append (w := w) (t := 7) (r := r) rfl rfl) (hG _ _ trivial)
  have h := h.next (.signal (w := w) (r := r) rfl) (hG _ _ trivial)
  have h := h.next (.wake (r := r) rfl) (hG _ _ trivial)
  have h := h.next (.read (r := r) (b := false) rfl (by exact Nat.one_pos)) (hG _ _ trivial)
  have h := h.next (.readFails (r := r) (b := true) rfl rfl) (hG _ _ trivial)
  have h := h.next (.detach (r := r) rfl) (hG _ _ trivial)
  have h := h.next (.visit (r := r) (t := 7) rfl) (hG _ _ trivial)
  have h := h.next (.finalize (r := r) (t := 7) rfl) (hG _ _ trivial)
  have h := h.next (.visited (r := r) rfl) (hG _ _ trivial)
  refine ⟨_, h, ⟨rfl, ?_, fun r => ?_, ?_, fun r => ?_⟩, rfl⟩
  · rintro (i | i)
    · obtain rfl : i = ⟨0, Nat.one_pos⟩ := Subsingleton.elim (α := Fin 1) _ _
      rfl
    · rfl
  · obtain rfl : r = ⟨0, Nat.one_pos⟩ := Subsingleton.elim (α := Fin 1) _ _
    rfl
  · rintro (_ | _) <;> rfl
  · obtain rfl : r = ⟨0, Nat.one_pos⟩ := Subsingleton.elim (α := Fin 1) _ _
    exact ⟨rfl, rfl⟩

/-- From there the server is shut down. -/
theorem exists_halted {s : State (.ofConfig 1 2 50 10) Nat Bool} (hs : Resting s)
    (h : (system (.ofConfig 1 2 50 10) Nat id).Reachable (fun _ _ => True) s) :
    ∃ t, (system (.ofConfig 1 2 50 10) Nat id).Reachable (fun _ _ => True) t ∧ t.main = .halted ∧
      t.hist = s.hist := by
  have h := h.step trivial (.stopFast hs.main)
  have h := h.step trivial (.stopSlow rfl)
  have h := h.step trivial (.leave (P := .ofConfig 1 2 50 10) (w := Sum.inl ⟨0, Nat.one_pos⟩)
    (by exact hs.worker _) rfl (by exact hs.pool .fast))
  have h := h.step trivial (.leave (P := .ofConfig 1 2 50 10) (w := Sum.inr ⟨0, Nat.one_pos⟩)
    (by exact hs.worker _) rfl (by exact hs.pool .slow))
  have h := h.step trivial (.joinWorkers rfl (by
    rintro (i | i)
    · obtain rfl : i = ⟨0, Nat.one_pos⟩ := Subsingleton.elim (α := Fin 1) _ _
      rfl
    · obtain rfl : i = ⟨0, Nat.one_pos⟩ := Subsingleton.elim (α := Fin 1) _ _
      rfl))
  have h := h.step trivial (.drain (r := ⟨0, Nat.one_pos⟩) rfl rfl (hs.completion _).1)
  have h := h.step trivial (.drained rfl)
  have h := h.step trivial (.loopbreak (r := ⟨0, Nat.one_pos⟩) rfl rfl)
  have h := h.step trivial (.broken rfl)
  have h := h.step trivial (.quit (r := ⟨0, Nat.one_pos⟩) (hs.reactor _) rfl)
  have hexited : ∀ r, update s.reactor ⟨0, Nat.one_pos⟩ .exited r = .exited := by
    intro r
    obtain rfl : r = ⟨0, Nat.one_pos⟩ := Subsingleton.elim (α := Fin 1) _ _
    rfl
  have h := h.step trivial (.joinReactors rfl (by exact hexited))
  exact ⟨_, h, rfl, rfl⟩

/-- That run, after which nothing happens. -/
theorem halts_of_fair_one :
    ∃ ρ : (system (.ofConfig 1 2 50 10) Nat id).Run, FairStop ρ ∧
      ρ.LeadsTo (fun s => s.main ≠ .running) fun s => s.main = .halted ∧ AllExited s ∧
        (∀ r, s.reactor r = .exited) ∧ (∀ p, (s.pool p).links.head = none) ∧
        (∀ r, (s.completion r).links.head = none) ∧
        ∀ n, n < s.hist.clock → ∃ r, n ∈ s.hist.finalized r ∧ s.hist.owner n = r := by
  obtain ⟨s, hs, hrest, -⟩ := exists_resting_served (show id true = true from rfl)
    (G := fun _ _ => True) fun _ _ _ => trivial
  obtain ⟨t, ht, hm, -⟩ := exists_halted hrest hs
  obtain ⟨ρ, m, hrest⟩ := exists_resting ht
  have hfair := FairStop.of_halted hrest hm
  exact ⟨ρ, hfair, halts_of_fair hfair⟩

end ApiServer.Pipeline
