import ApiServer.Pipeline.Liveness

/-!
# The pools as monitors

`Pipeline` lets a worker take a task whenever there is one. In the code a worker that finds its pool
empty sleeps in `pthread_cond_wait`. A reactor wakes one up after it has enqueued a task, but only
after it has released the mutex, and `worker_pool_stop` wakes up all of them after it has set the
flag, again outside the mutex. Here these moments are steps of their own. No wakeup is lost: a worker
sleeps on a pool with `n` tasks only if `n` others are about to be told, or are up already.
-/

namespace ApiServer.Pipeline

def WorkerPhase.atLoop : WorkerPhase Slot R → Bool
  | .loop => true
  | _ => false

section
open Function
variable {P : Topology} {Slot Job : Type} [DecidableEq Slot] [DecidableEq P.Worker]
  {isFast : Job → Bool} {s s' : State P Slot Job} {e : Event P Slot Job} {w : P.Worker} {p : PoolId}

/-- A worker at its wait leaves it only with a task, or for good. -/
theorem loop_stays (h : Step isFast s e s') (hloop : s.worker w = .loop) (htake : e ≠ .take w)
    (hleave : e ≠ .leave w) : s'.worker w = .loop := by
  by_cases hw : workerOf e = some w
  · cases h with
    | take =>
      cases hw
      exact absurd rfl htake
    | leave =>
      cases hw
      exact absurd rfl hleave
    | process hph | unlink hph | lose hph | append hph | signal hph | signalFails hph =>
      cases hw
      cases hloop.symm.trans hph
    | _ => cases hw
  · exact (worker_frame h hw).trans hloop

theorem head_of_leave (h : Step isFast s (.leave w) s') :
    (s.pool (P.poolOf w)).links.head = none := by
  cases h with
  | leave _ _ hhead => exact hhead

theorem size_stays (h : Step isFast s e s') (henqueue : ∀ r, e ≠ .enqueue r)
    (htake : ∀ w, P.poolOf w = p → e ≠ .take w) : (s'.pool p).size = (s.pool p).size := by
  have hset : ∀ {q : PoolId} {x : Pool Slot}, (p = q → x.size = (s.pool q).size) →
      (update s.pool q x p).size = (s.pool p).size := by
    intro q x hx
    by_cases hp : p = q
    · subst hp
      rw [update_self]
      exact hx rfl
    · rw [update_of_ne hp]
  cases h with
  | enqueue => exact absurd rfl (henqueue _)
  | take => exact hset fun hp => absurd rfl (htake _ hp.symm)
  | stopFast | stopSlow => exact hset fun _ => rfl
  | _ => rfl

variable {v : Lane P.numReactors → List Slot} {own : Slot → Place P}

omit [DecidableEq Slot] [DecidableEq P.Worker] in
theorem size_eq_zero (H : Inv s v own) : (s.pool p).size = 0 ↔ (s.pool p).links.head = none := by
  rw [H.layout.size p, List.length_eq_zero_iff, (H.layout.pool p).head_eq_none]

theorem size_of_take (H : Inv s v own) (h : Step isFast s (.take w) s') :
    (s'.pool (P.poolOf w)).size + 1 = (s.pool (P.poolOf w)).size := by
  cases h with
  | take _ hhead =>
    simp only [workerDequeue, update_self]
    refine Nat.sub_add_cancel (Nat.pos_of_ne_zero fun hzero => ?_)
    cases hhead.symm.trans ((size_eq_zero H).mp hzero)

end

namespace Monitor
open Function System System.Run

structure State (P : Topology) (Slot Job : Type) where
  base : Pipeline.State P Slot Job := {}
  /-- In `pthread_cond_wait`. -/
  asleep : P.Worker → Bool := fun _ => false
  /-- The reactor has enqueued a task there, and `pthread_cond_signal` is still to come. -/
  signal : Fin P.numReactors → Option PoolId := fun _ => none
  /-- The main thread has set the flag there, and `pthread_cond_broadcast` is still to come. -/
  broadcast : Option PoolId := none

inductive Event (P : Topology) (Slot Job : Type) where
  | pipe (e : Pipeline.Event P Slot Job)
  | sleep (w : P.Worker)
  | wakeUp (w : P.Worker)
  | signal (r : Fin P.numReactors)
  | broadcast

section
variable {P : Topology} {Slot Job : Type} [DecidableEq Slot] [DecidableEq P.Worker]

/-- The thread is not asleep and has nobody to wake up, and its step is none that wakes up others. -/
def Unblocked (s : State P Slot Job) : Pipeline.Event P Slot Job → Prop
  | .take w | .process w | .unlink w | .append w | .signal w | .leave w => s.asleep w = false
  | .receive r _ _ | .wake r | .read r | .detach r | .visit r | .finalize r | .quit r =>
    s.signal r = none
  | .main => s.broadcast = none ∧ s.base.main ≠ .running ∧ s.base.main ≠ .fastStopped
  | .cancel _ => True
  | .enqueue _ => False

inductive Step (isFast : Job → Bool) :
    State P Slot Job → Event P Slot Job → State P Slot Job → Prop where
  | enqueue {s r t b} : s.signal r = none → s.base.reactor r = .accepting t →
    workerPoolEnqueue isFast s.base t = some b →
    Step isFast s (.pipe (.enqueue r)) { s with
      base := setReactor b r .loop
      signal := update s.signal r (some (poolFor isFast s.base t)) }
  | refuse {s r t} : s.signal r = none → s.base.reactor r = .accepting t →
    workerPoolEnqueue isFast s.base t = none →
    Step isFast s (.pipe (.enqueue r)) { s with base := release s.base r t .loop }
  | stopFast {s} : s.broadcast = none → s.base.main = .running →
    Step isFast s (.pipe .main) { s with
      base := setShutdown s.base .fast .fastStopped
      broadcast := some .fast }
  | stopSlow {s} : s.broadcast = none → s.base.main = .fastStopped →
    Step isFast s (.pipe .main) { s with
      base := setShutdown s.base .slow .stopped
      broadcast := some .slow }
  /-- The loop around `pthread_cond_wait`, which releases the mutex and sleeps in one step. -/
  | sleep {s w} : s.asleep w = false → s.base.worker w = .loop →
    (s.base.pool (P.poolOf w)).links.head = none → (s.base.pool (P.poolOf w)).shutdown = false →
    Step isFast s (.sleep w) { s with asleep := update s.asleep w true }
  /-- A worker may wake up by itself. -/
  | wakeUp {s w} : s.asleep w = true →
    Step isFast s (.wakeUp w) { s with asleep := update s.asleep w false }
  | signal {s r w} : s.signal r = some (P.poolOf w) → s.asleep w = true →
    Step isFast s (.signal r) { s with
      asleep := update s.asleep w false
      signal := update s.signal r none }
  /-- Nobody sleeps there. -/
  | unheard {s r p} : s.signal r = some p → (∀ w, P.poolOf w = p → s.asleep w = false) →
    Step isFast s (.signal r) { s with signal := update s.signal r none }
  | broadcast {s p} : s.broadcast = some p →
    Step isFast s .broadcast { s with
      asleep := fun w => if P.poolOf w = p then false else s.asleep w
      broadcast := none }
  | other {s e b} : Unblocked s e → Pipeline.Step isFast s.base e b →
    Step isFast s (.pipe e) { s with base := b }

def system (P : Topology) [DecidableEq P.Worker] (Slot : Type) [DecidableEq Slot] {Job : Type}
    (isFast : Job → Bool) : System (State P Slot Job) (Event P Slot Job) where
  init s := s = {}
  step := Step isFast

variable {isFast : Job → Bool} {s s' : State P Slot Job} {e : Event P Slot Job}

/-- The monitors refine the pipeline. -/
theorem Step.refines (h : Step isFast s e s') :
    s'.base = s.base ∨ ∃ e', e = .pipe e' ∧ Pipeline.Step isFast s.base e' s'.base := by
  cases h with
  | enqueue _ hr hq => exact .inr ⟨_, rfl, .enqueue hr hq⟩
  | refuse _ hr hq => exact .inr ⟨_, rfl, .refuse hr hq⟩
  | stopFast _ hm => exact .inr ⟨_, rfl, .stopFast hm⟩
  | stopSlow _ hm => exact .inr ⟨_, rfl, .stopSlow hm⟩
  | other _ hst => exact .inr ⟨_, rfl, hst⟩
  | sleep | wakeUp | signal | unheard | broadcast => exact .inl rfl

theorem refines_pipeline :
    (system P Slot isFast).Refines (Pipeline.system P Slot isFast) State.base := by
  refine ⟨?_, fun s e t h => (Step.refines h).imp_right fun ⟨e', _, h'⟩ => ⟨e', h'⟩⟩
  rintro s rfl
  rfl

/-- A worker that takes a step is up, and a reactor that does has nobody to wake up. -/
theorem Step.unblocked {e : Pipeline.Event P Slot Job} (h : Step isFast s (.pipe e) s') :
    (∀ w, workerOf e = some w → s.asleep w = false) ∧
      ∀ r, reactorOf e = some r → s.signal r = none := by
  cases h with
  | enqueue hs | refuse hs =>
    refine ⟨nofun, ?_⟩
    rintro r ⟨⟩
    exact hs
  | stopFast | stopSlow => exact ⟨nofun, nofun⟩
  | other hfree _ =>
    cases e with
    | take | process | unlink | append | signal | leave =>
      refine ⟨?_, nofun⟩
      rintro w ⟨⟩
      exact hfree
    | receive | wake | read | detach | visit | finalize | quit =>
      refine ⟨nofun, ?_⟩
      rintro r ⟨⟩
      exact hfree
    | main | cancel => exact ⟨nofun, nofun⟩
    | enqueue => exact hfree.elim

end

/-! ## No lost wakeup -/

section
variable {P : Topology} {Slot Job : Type}

/-- The worker is up and will look at its pool. -/
def isUp (s : State P Slot Job) (p : PoolId) (w : P.Worker) : Bool :=
  decide (P.poolOf w = p) && (!s.asleep w && (s.base.worker w).atLoop)

/-- How many reactors are about to wake up a worker of the pool. -/
def pending (s : State P Slot Job) (p : PoolId) : Nat := tally fun r => decide (s.signal r = some p)

structure Sound [Fintype P.Worker] (s : State P Slot Job) : Prop where
  asleep : ∀ w, s.asleep w = true → s.base.worker w = .loop
  signal : ∀ r p, s.signal r = some p → s.base.reactor r = .loop
  stopped : ∀ w, (s.base.pool (P.poolOf w)).shutdown = true →
    s.broadcast ≠ some (P.poolOf w) → s.asleep w = false
  counted : ∀ w, s.asleep w = true →
    (s.base.pool (P.poolOf w)).size ≤ pending s (P.poolOf w) + tally (isUp s (P.poolOf w))

variable {s s' : State P Slot Job} {p : PoolId} {w : P.Worker} {r : Fin P.numReactors}

theorem isUp_iff :
    isUp s p w = true ↔ P.poolOf w = p ∧ s.asleep w = false ∧ s.base.worker w = .loop := by
  have hloop : (s.base.worker w).atLoop = true ↔ s.base.worker w = .loop := by
    cases s.base.worker w <;> simp [WorkerPhase.atLoop]
  rw [isUp, Bool.and_eq_true, Bool.and_eq_true, decide_eq_true_iff, Bool.not_eq_true', hloop]

theorem pending_le (h : ∀ r, s.signal r = some p → s'.signal r = some p) :
    pending s p ≤ pending s' p :=
  tally_le fun r hr => decide_eq_true (h r (of_decide_eq_true hr))

/-- A reactor that has told nobody so far is about to. -/
theorem pending_lt (hr : s.signal r = none) (hr' : s'.signal r = some p)
    (h : ∀ r', r' ≠ r → s'.signal r' = s.signal r') : pending s p < pending s' p := by
  refine tally_lt (k := r) (fun r' hr₁ => ?_) (decide_eq_false ?_) (decide_eq_true hr')
  · have hsome := of_decide_eq_true hr₁
    refine decide_eq_true ((h r' ?_).trans hsome)
    rintro rfl
    cases hr.symm.trans hsome
  · rw [hr]
    exact nofun

theorem pending_le_succ (h : ∀ r', r' ≠ r → s'.signal r' = s.signal r') :
    pending s p ≤ pending s' p + 1 :=
  tally_le_succ (k := r) fun r' hne hr' =>
    decide_eq_true ((h r' hne).trans (of_decide_eq_true hr'))

variable [Fintype P.Worker]

theorem tally_isUp_le (h : ∀ w, P.poolOf w = p → s.asleep w = false → s.base.worker w = .loop →
    s'.asleep w = false ∧ s'.base.worker w = .loop) : tally (isUp s p) ≤ tally (isUp s' p) := by
  refine tally_le fun w hw => ?_
  obtain ⟨hp, hup, hloop⟩ := isUp_iff.mp hw
  exact isUp_iff.mpr ⟨hp, h w hp hup hloop⟩

theorem Sound.init : Sound ({} : State P Slot Job) where
  asleep _ h := by cases h
  signal _ _ h := by cases h
  stopped _ _ _ := rfl
  counted _ h := by cases h

/-- Nobody falls asleep, the pools stay as they are, and no fewer workers are up or about to be told. -/
theorem Sound.mono (H : Sound s) (hworker : s'.base.worker = s.base.worker)
    (hsize : ∀ p, (s'.base.pool p).size = (s.base.pool p).size)
    (hreactor : ∀ r p, s'.signal r = some p → s'.base.reactor r = .loop)
    (hasleep : ∀ w, s'.asleep w = true → s.asleep w = true)
    (hstopped : ∀ w, (s'.base.pool (P.poolOf w)).shutdown = true →
      s'.broadcast ≠ some (P.poolOf w) → s'.asleep w = false)
    (hpending : ∀ w, s'.asleep w = true → pending s (P.poolOf w) ≤ pending s' (P.poolOf w)) :
    Sound s' := by
  refine ⟨fun w h => ?_, hreactor, hstopped, fun w h => ?_⟩
  · rw [hworker]
    exact H.asleep w (hasleep w h)
  · have hup : tally (isUp s (P.poolOf w)) ≤ tally (isUp s' (P.poolOf w)) := by
      refine tally_isUp_le fun w' _ hup hloop => ⟨?_, by rw [hworker]; exact hloop⟩
      refine Bool.eq_false_iff.mpr fun h' => ?_
      rw [hasleep w' h'] at hup
      cases hup
    have := H.counted w (hasleep w h)
    have := hpending w h
    rw [hsize]
    omega

variable {v : Lane P.numReactors → List Slot} {own : Slot → Place P} [DecidableEq P.Worker]

/-- A worker sleeps only on an empty pool. -/
theorem Sound.sleep (H : Sound s) (hinv : Inv s.base v own) (hloop : s.base.worker w = .loop)
    (hhead : (s.base.pool (P.poolOf w)).links.head = none)
    (hdown : (s.base.pool (P.poolOf w)).shutdown = false) :
    Sound { s with asleep := update s.asleep w true } := by
  have hother : ∀ {w'}, w' ≠ w → update s.asleep w true w' = s.asleep w' :=
    fun hne => update_of_ne hne ..
  refine ⟨fun w' h => ?_, H.signal, fun w' hstop hcast => ?_, fun w' h => ?_⟩
  · by_cases hne : w' = w
    · exact hne ▸ hloop
    · exact H.asleep w' ((hother hne).symm.trans h)
  · by_cases hne : w' = w
    · subst hne
      cases hdown.symm.trans hstop
    · exact (hother hne).trans (H.stopped w' hstop hcast)
  · by_cases hp : P.poolOf w' = P.poolOf w
    · dsimp only
      rw [hp, (size_eq_zero hinv).mpr hhead]
      exact Nat.zero_le _
    · have hne : w' ≠ w := by
        rintro rfl
        exact hp rfl
      have hup : tally (isUp s (P.poolOf w')) ≤
          tally (isUp { s with asleep := update s.asleep w true } (P.poolOf w')) := by
        refine tally_isUp_le fun u hu hup hl => ⟨(hother ?_).trans hup, hl⟩
        rintro rfl
        exact hp hu.symm
      exact Nat.le_trans (H.counted w' ((hother hne).symm.trans h)) (Nat.add_le_add_left hup _)

/-- One reactor has told one worker, which is up now. -/
theorem Sound.wake (H : Sound s) (hr : s.signal r = some (P.poolOf w)) (hw : s.asleep w = true) :
    Sound { s with asleep := update s.asleep w false, signal := update s.signal r none } := by
  have hasleep : ∀ {w'}, update s.asleep w false w' = true → w' ≠ w ∧ s.asleep w' = true := by
    intro w' h
    have hne : w' ≠ w := by
      rintro rfl
      rw [update_self] at h
      cases h
    exact ⟨hne, (update_of_ne hne ..).symm.trans h⟩
  have hsignal : ∀ {r'}, r' ≠ r → update s.signal r none r' = s.signal r' :=
    fun hne => update_of_ne hne ..
  refine ⟨fun w' h => H.asleep w' (hasleep h).2, fun r' p h => ?_, fun w' hstop hcast => ?_,
    fun w' h => ?_⟩
  · have hne : r' ≠ r := by
      rintro rfl
      exact absurd ((update_self ..).symm.trans h) nofun
    exact H.signal r' p ((hsignal hne).symm.trans h)
  · refine Bool.eq_false_iff.mpr fun h => ?_
    cases (hasleep h).2.symm.trans (H.stopped w' hstop hcast)
  · obtain ⟨hne, h⟩ := hasleep h
    have hcounted := H.counted w' h
    have hkeep : ∀ u, P.poolOf u = P.poolOf w' → s.asleep u = false → s.base.worker u = .loop →
        update s.asleep w false u = false ∧ s.base.worker u = .loop := by
      intro u _ hup hl
      refine ⟨?_, hl⟩
      by_cases hu : u = w
      · subst hu
        exact update_self ..
      · exact (update_of_ne hu ..).trans hup
    by_cases hp : P.poolOf w' = P.poolOf w
    · have hpending : pending s (P.poolOf w') ≤ pending
          { s with asleep := update s.asleep w false, signal := update s.signal r none }
          (P.poolOf w') + 1 := pending_le_succ (r := r) fun r' hne => hsignal hne
      have hup : tally (isUp s (P.poolOf w')) < tally (isUp
          { s with asleep := update s.asleep w false, signal := update s.signal r none }
          (P.poolOf w')) := by
        refine tally_lt (k := w) (fun u hu => ?_) ?_ ?_
        · obtain ⟨hu, hup, hl⟩ := isUp_iff.mp hu
          exact isUp_iff.mpr ⟨hu, hkeep u hu hup hl⟩
        · refine Bool.eq_false_iff.mpr fun hu => ?_
          cases hw.symm.trans (isUp_iff.mp hu).2.1
        · exact isUp_iff.mpr ⟨hp.symm, update_self .., H.asleep w hw⟩
      dsimp only at hcounted ⊢
      omega
    · have hpending : pending s (P.poolOf w') ≤ pending
          { s with asleep := update s.asleep w false, signal := update s.signal r none }
          (P.poolOf w') := by
        refine pending_le fun r' h' => ?_
        have hne : r' ≠ r := by
          rintro rfl
          exact hp (Option.some.inj (h'.symm.trans hr))
        exact (hsignal hne).trans h'
      exact Nat.le_trans hcounted (Nat.add_le_add hpending (tally_isUp_le hkeep))

variable [DecidableEq Slot] {isFast : Job → Bool}

omit [DecidableEq P.Worker] in
/-- A reactor has enqueued a task and is about to tell somebody. -/
theorem Sound.enqueue (H : Sound s) (hr : s.signal r = none) {t : Slot} :
    Sound { s with
      base := setReactor (appendTask s.base p t) r .loop
      signal := update s.signal r (some p) } := by
  refine ⟨H.asleep, fun r' q h => ?_, fun w hstop hcast => ?_, fun w h => ?_⟩
  · by_cases hne : r' = r
    · subst hne
      exact update_self ..
    · refine (update_of_ne hne ..).trans (H.signal r' q ?_)
      exact (update_of_ne hne ..).symm.trans h
  · refine H.stopped w ?_ hcast
    by_cases hp : P.poolOf w = p
    · subst hp
      simp only [setReactor, appendTask, update_self] at hstop
      exact hstop
    · simp only [setReactor, appendTask, update_of_ne hp] at hstop
      exact hstop
  · have hcounted := H.counted w h
    by_cases hp : P.poolOf w = p
    · subst hp
      have hpending : pending s (P.poolOf w) < pending { s with
          base := setReactor (appendTask s.base (P.poolOf w) t) r .loop
          signal := update s.signal r (some (P.poolOf w)) } (P.poolOf w) :=
        pending_lt hr (update_self ..) fun r' hne => update_of_ne hne ..
      have hup : tally (isUp s (P.poolOf w)) ≤ tally (isUp { s with
          base := setReactor (appendTask s.base (P.poolOf w) t) r .loop
          signal := update s.signal r (some (P.poolOf w)) } (P.poolOf w)) :=
        tally_isUp_le fun _ _ hup hl => ⟨hup, hl⟩
      simp only [setReactor, appendTask, update_self] at hpending hup ⊢
      omega
    · have hpending : pending s (P.poolOf w) ≤ pending { s with
          base := setReactor (appendTask s.base p t) r .loop
          signal := update s.signal r (some p) } (P.poolOf w) := by
        refine pending_le fun r' h' => ?_
        have hne : r' ≠ r := by
          rintro rfl
          cases hr.symm.trans h'
        exact (update_of_ne hne ..).trans h'
      simp only [setReactor, appendTask, update_of_ne hp] at hpending ⊢
      exact Nat.le_trans hcounted (Nat.add_le_add hpending (tally_isUp_le fun _ _ hup hl => ⟨hup, hl⟩))

/-- The steps of the pipeline that wake up nobody: a worker that takes a task was up. -/
theorem Sound.other (H : Sound s) (hinv : Inv s.base v own) {e : Pipeline.Event P Slot Job}
    {b : Pipeline.State P Slot Job} (hfree : Unblocked s e) (hst : Pipeline.Step isFast s.base e b) :
    Sound { s with base := b } := by
  obtain ⟨hworker, hreactor⟩ := (Step.other hfree hst).unblocked
  have henqueue : ∀ r, e ≠ .enqueue r := by
    rintro r rfl
    exact hfree
  have hsleeps : ∀ {w}, s.asleep w = true → b.worker w = .loop := by
    intro w hw
    have hne : workerOf e ≠ some w := by
      intro he
      cases hw.symm.trans (hworker w he)
    exact (worker_frame hst hne).trans (H.asleep w hw)
  refine ⟨fun w => hsleeps, fun r p h => ?_, fun w hstop hcast => ?_, fun w h => ?_⟩
  · have hne : reactorOf e ≠ some r := by
      intro he
      cases h.symm.trans (hreactor r he)
    exact (reactor_frame hst hne).trans (H.signal r p h)
  · refine H.stopped w ?_ hcast
    -- the flag is set by the steps that wake up all
    cases hst with
    | enqueue => exact absurd rfl (henqueue _)
    | @take w' t _ _ =>
      by_cases hp : P.poolOf w = P.poolOf w'
      · simp only [workerDequeue, hp, update_self] at hstop ⊢
        exact hstop
      · simp only [workerDequeue, update_of_ne hp] at hstop
        exact hstop
    | stopFast hm => exact absurd hm hfree.2.1
    | stopSlow hm => exact absurd hm hfree.2.2
    | _ => exact hstop
  · have hcounted := H.counted w h
    change (b.pool _).size ≤ pending s _ + _
    by_cases htake : ∃ w', P.poolOf w' = P.poolOf w ∧ e = .take w'
    · obtain ⟨w', hp, rfl⟩ := htake
      have hup : tally (isUp s (P.poolOf w)) ≤
          tally (isUp { s with base := b } (P.poolOf w)) + 1 := by
        refine tally_le_succ (k := w') fun u hne hu => ?_
        obtain ⟨hu, hup, hl⟩ := isUp_iff.mp hu
        refine isUp_iff.mpr ⟨hu, hup, loop_stays hst hl ?_ (by intro h; cases h)⟩
        rintro ⟨⟩
        exact hne rfl
      have hsize := size_of_take hinv hst
      rw [hp] at hsize
      omega
    · have hsize : (b.pool (P.poolOf w)).size = (s.base.pool (P.poolOf w)).size :=
        size_stays hst henqueue fun w' hp he => htake ⟨w', hp, he⟩
      by_cases hleave : ∃ w', P.poolOf w' = P.poolOf w ∧ e = .leave w'
      · obtain ⟨w', hp, rfl⟩ := hleave
        have hzero := (size_eq_zero hinv).mpr (hp ▸ head_of_leave hst)
        omega
      · have hup : tally (isUp s (P.poolOf w)) ≤ tally (isUp { s with base := b } (P.poolOf w)) :=
          tally_isUp_le fun u hu hup hl => ⟨hup, loop_stays hst hl
            (fun he => htake ⟨u, hu, he⟩) fun he => hleave ⟨u, hu, he⟩⟩
        omega

theorem Sound.step (H : Sound s) (hinv : Inv s.base v own) {e : Event P Slot Job}
    (h : Step isFast s e s') : Sound s' := by
  have hflag : ∀ {q p : PoolId} {main : MainPhase},
      ((setShutdown s.base q main).pool p).size = (s.base.pool p).size ∧
        (p ≠ q → (setShutdown s.base q main).pool p = s.base.pool p) := by
    intro q p main
    by_cases hp : p = q
    · subst hp
      refine ⟨?_, fun h => absurd rfl h⟩
      simp only [setShutdown, update_self]
    · have heq : (setShutdown s.base q main).pool p = s.base.pool p := update_of_ne hp ..
      exact ⟨by rw [heq], fun _ => heq⟩
  have hstop : ∀ {q : PoolId} {main : MainPhase}, s.broadcast = none → Sound { s with
      base := setShutdown s.base q main
      broadcast := some q } := by
    intro q main hnone
    refine H.mono rfl (fun p => hflag.1) H.signal (fun _ h => h) (fun w hdown hcast => ?_)
      fun _ _ => Nat.le_refl _
    have hp : P.poolOf w ≠ q := fun heq => hcast (by rw [heq])
    dsimp only at hdown
    rw [hflag.2 hp] at hdown
    exact H.stopped w hdown (by rw [hnone]; intro h; cases h)
  cases h with
  | enqueue hr _ hq =>
    obtain ⟨-, -, rfl⟩ := workerPoolEnqueue_eq_some hq
    exact H.enqueue hr
  | @refuse r t hr _ _ =>
    refine H.mono rfl (fun _ => rfl) (fun r' p h => ?_) (fun _ h => h) H.stopped
      fun _ _ => Nat.le_refl _
    by_cases hne : r' = r
    · subst hne
      exact update_self ..
    · exact (update_of_ne hne ..).trans (H.signal r' p h)
  | stopFast hnone _ => exact hstop hnone
  | stopSlow hnone _ => exact hstop hnone
  | sleep _ hloop hhead hdown => exact H.sleep hinv hloop hhead hdown
  | @wakeUp w _ =>
    have hasleep : ∀ w', update s.asleep w false w' = true → s.asleep w' = true := by
      intro w' h
      have hne : w' ≠ w := by
        rintro rfl
        rw [update_self] at h
        cases h
      exact (update_of_ne hne ..).symm.trans h
    refine H.mono rfl (fun _ => rfl) H.signal hasleep (fun w' hdown hcast => ?_)
      fun _ _ => Nat.le_refl _
    exact Bool.eq_false_iff.mpr fun h => Bool.false_ne_true
      ((H.stopped w' hdown hcast).symm.trans (hasleep w' h))
  | signal hr hw => exact H.wake hr hw
  | @unheard r p hr hnobody =>
    have hsignal : ∀ {r'}, r' ≠ r → update s.signal r none r' = s.signal r' :=
      fun hne => update_of_ne hne ..
    refine H.mono rfl (fun _ => rfl) (fun r' q h => ?_) (fun _ h => h) H.stopped fun w hw => ?_
    · have hne : r' ≠ r := by
        rintro rfl
        cases (update_self ..).symm.trans h
      exact H.signal r' q ((hsignal hne).symm.trans h)
    · -- who sleeps is of the other pool
      refine pending_le fun r' h' => (hsignal ?_).trans h'
      rintro rfl
      have hp : P.poolOf w = p := Option.some.inj (h'.symm.trans hr)
      exact Bool.false_ne_true ((hnobody w hp).symm.trans hw)
  | @broadcast p hcast =>
    have hasleep : ∀ w, (if P.poolOf w = p then false else s.asleep w) = true →
        P.poolOf w ≠ p ∧ s.asleep w = true := by
      intro w h
      split at h
      · cases h
      · exact ⟨‹_›, h⟩
    refine H.mono rfl (fun _ => rfl) H.signal (fun w h => (hasleep w h).2) (fun w hdown _ => ?_)
      fun _ _ => Nat.le_refl _
    refine Bool.eq_false_iff.mpr fun h => ?_
    obtain ⟨hp, h⟩ := hasleep w h
    refine Bool.false_ne_true ((H.stopped w hdown ?_).symm.trans h)
    rw [hcast]
    exact fun heq => hp (Option.some.inj heq).symm
  | other hfree hst => exact H.other hinv hfree hst

theorem sound_of_reachable {G : State P Slot Job → Event P Slot Job → Prop}
    (h : (system P Slot isFast).Reachable G s) : Sound s := by
  refine h.invariant (I := Sound) ?_ fun s e s' hs H _ hst => ?_
  · rintro s rfl
    exact .init
  · obtain ⟨v, own, hinv⟩ := inv_of_reachable (refines_pipeline.reachable hs)
    exact H.step hinv hst

/-- No wakeup is lost. Workers sleep on a pool with tasks only if as many others are up, or are about
to be told; and on a pool that is shut down only until they are told. -/
theorem woken_of_reachable {G : State P Slot Job → Event P Slot Job → Prop}
    (h : (system P Slot isFast).Reachable G s) :
    (Pipeline.system P Slot isFast).Reachable (fun _ _ => True) s.base ∧
      ∀ w, s.asleep w = true → s.base.worker w = .loop ∧
        (s.base.pool (P.poolOf w)).size ≤ pending s (P.poolOf w) + tally (isUp s (P.poolOf w)) ∧
        ((s.base.pool (P.poolOf w)).shutdown = true → s.broadcast = some (P.poolOf w)) := by
  have hsound := sound_of_reachable h
  refine ⟨refines_pipeline.reachable h, fun w hw => ⟨hsound.asleep w hw, hsound.counted w hw, ?_⟩⟩
  intro hdown
  by_contra hcast
  cases hw.symm.trans (hsound.stopped w hdown hcast)

end

/-- A worker has gone to sleep, then a task is enqueued: the reactor is about to tell it. -/
theorem woken_of_reachable_one :
    ∃ s : State (.ofConfig 1 2 50 10) Nat Bool, (s.base.pool .fast).size = 1 ∧
      s.asleep (Sum.inl ⟨0, Nat.one_pos⟩) = true ∧
      (s.base.pool .fast).size ≤ pending s .fast + tally (isUp s .fast) := by
  let r : Fin (Topology.ofConfig 1 2 50 10).numReactors := ⟨0, Nat.one_pos⟩
  let w : (Topology.ofConfig 1 2 50 10).Worker := Sum.inl ⟨0, Nat.one_pos⟩
  have h := System.Reachable.init (T := system (.ofConfig 1 2 50 10) Nat id) (G := fun _ _ => True) rfl
  have h := h.next (.sleep (w := w) rfl rfl rfl rfl) trivial
  have h := h.next (.other (e := .receive r 7 true) rfl (.receive rfl rfl)) trivial
  have h := h.next (.enqueue (r := r) (t := 7) rfl rfl rfl) trivial
  exact ⟨_, rfl, rfl, ((woken_of_reachable h).2 w rfl).2.1⟩

end Monitor
end ApiServer.Pipeline
