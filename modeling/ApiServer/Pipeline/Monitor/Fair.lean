import ApiServer.Pipeline.Halting
import ApiServer.Pipeline.Monitor

/-!
# The monitors let every task be taken

`Fair` asks that some worker takes a task as long as there is one and a worker waits. Of the monitors
only this is asked: a worker that is up and finds a task takes it, and `pthread_cond_signal` is
called in the end. As no wakeup is lost, the one follows from the other.
-/

namespace ApiServer.Pipeline

section
variable {P : Topology} {Slot Job : Type} {s : State P Slot Job} {p : PoolId}
  {v : Lane P.numReactors → List Slot} {own : Slot → Place P}

theorem behind_of_head (H : Inv s v own) {t : Slot} (h : (s.pool p).links.head = some t) :
    numTaken p s < numAccepted p s := by
  have hlog := congrArg List.length (H.logs.pool p)
  rw [List.length_append, List.length_map] at hlog
  have hpos : 0 < (v (.pool p)).length := by
    refine List.length_pos_iff.mpr fun hnil => ?_
    cases h.symm.trans ((H.layout.pool p).head_eq_none.mpr hnil)
  unfold numTaken numAccepted
  omega

end

theorem numTaken_stays {P : Topology} {Slot Job : Type} [DecidableEq Slot] [DecidableEq P.Worker]
    {isFast : Job → Bool} {s s' : State P Slot Job} {e : Event P Slot Job} {p : PoolId}
    (h : Step isFast s e s') (htake : ∀ w, P.poolOf w = p → e ≠ .take w) :
    numTaken p s' = numTaken p s := by
  cases h with
  | enqueue _ hs =>
    obtain ⟨-, -, rfl⟩ := workerPoolEnqueue_eq_some hs
    rfl
  | take =>
    have hne : p ≠ P.poolOf _ := fun hp => htake _ hp.symm rfl
    simp only [numTaken, workerDequeue, Function.update_of_ne hne]
  | _ => rfl

namespace Monitor
open Function System System.Run

section
variable {P : Topology} {Slot Job : Type}

/-- An action of the pipeline. -/
def Lifted (A : Pipeline.State P Slot Job → Pipeline.Event P Slot Job → Prop) (s : State P Slot Job)
    (e : Event P Slot Job) : Prop :=
  ∃ e', e = .pipe e' ∧ A s.base e'

structure FairMonitor [DecidableEq Slot] [DecidableEq P.Worker] {isFast : Job → Bool}
    (ρ : (system P Slot isFast).Run) : Prop where
  works : ∀ w, ρ.WeakFair (Lifted (Works w))
  callbacks : ∀ r, ρ.WeakFair (Lifted (RunsCallback r))
  wakes : ∀ r, ρ.StrongFair (Lifted (Wakes r))
  takes : ∀ w, ρ.WeakFair fun _ e => e = .pipe (.take w)
  signals : ∀ r, ρ.WeakFair fun _ e => e = .signal r

end

section
variable {P : Topology} {Slot Job : Type} [DecidableEq Slot] [DecidableEq P.Worker]
  {isFast : Job → Bool} {s s' : State P Slot Job} {p : PoolId} {r : Fin P.numReactors} {w : P.Worker}
  {k : Nat}

theorem Step.pipe {e : Pipeline.Event P Slot Job} (h : Step isFast s (.pipe e) s') :
    Pipeline.Step isFast s.base e s'.base := by
  cases h with
  | enqueue _ hr hq => exact .enqueue hr hq
  | refuse _ hr hq => exact .refuse hr hq
  | stopFast _ hm => exact .stopFast hm
  | stopSlow _ hm => exact .stopSlow hm
  | other _ hst => exact hst

/-- A thread that is not held up can do what it does in the pipeline. -/
theorem exists_step {e : Pipeline.Event P Slot Job} {b : Pipeline.State P Slot Job}
    (h : Pipeline.Step isFast s.base e b) (hworker : ∀ w, workerOf e = some w → s.asleep w = false)
    (hreactor : ∀ r, reactorOf e = some r → s.signal r = none) (hmain : e ≠ .main) :
    ∃ s', Step isFast s (.pipe e) s' ∧ s'.base = b := by
  cases e with
  | enqueue r =>
    cases h with
    | enqueue hr hq => exact ⟨_, .enqueue (hreactor r rfl) hr hq, rfl⟩
    | refuse hr hq => exact ⟨_, .refuse (hreactor r rfl) hr hq, rfl⟩
  | main => exact absurd rfl hmain
  | cancel => exact ⟨_, .other trivial h, rfl⟩
  | take | process | unlink | append | signal | leave =>
    exact ⟨_, .other (hworker _ rfl) h, rfl⟩
  | receive | wake | read | detach | visit | finalize | quit =>
    exact ⟨_, .other (hreactor _ rfl) h, rfl⟩

theorem signal_enabled (hr : s.signal r = some p) :
    (system P Slot isFast).Enabled (fun _ e => e = .signal r) s := by
  by_cases h : ∃ w, P.poolOf w = p ∧ s.asleep w = true
  · obtain ⟨w, rfl, hw⟩ := h
    exact ⟨.signal r, _, rfl, .signal hr hw⟩
  · refine ⟨.signal r, _, rfl, .unheard hr fun w hp => ?_⟩
    exact Bool.eq_false_iff.mpr fun hw => h ⟨w, hp, hw⟩

/-- A reactor has somebody to tell until it does. -/
theorem signal_stays {e : Event P Slot Job} (h : Step isFast s e s') (hr : s.signal r = some p)
    (he : e ≠ .signal r) : s'.signal r = some p := by
  have hne : ∀ {r' : Fin P.numReactors} {x : Option PoolId}, r ≠ r' →
      update s.signal r' x r = some p := fun hne => (update_of_ne hne ..).trans hr
  cases h with
  | enqueue hnone =>
    refine hne ?_
    rintro rfl
    cases hr.symm.trans hnone
  | signal => exact hne fun heq => he (by rw [heq])
  | unheard => exact hne fun heq => he (by rw [heq])
  | _ => exact hr

/-- What a step makes of the pipeline. -/
theorem Step.base_cases {e : Event P Slot Job} (h : Step isFast s e s') :
    s'.base = s.base ∨ ∃ e', e = .pipe e' ∧ Pipeline.Step isFast s.base e' s'.base ∧
      (∀ w, workerOf e' = some w → s.asleep w = false) ∧
      ∀ r, reactorOf e' = some r → s.signal r = none := by
  obtain heq | ⟨e', rfl, hst⟩ := h.refines
  · exact .inl heq
  · exact .inr ⟨e', rfl, hst, h.unblocked⟩

/-- A reactor that has told everybody looks at its eventfd. -/
theorem wakes_enabled (hloop : s.base.reactor r = .loop) (hfd : 0 < (s.base.completion r).eventfd)
    (hsignal : s.signal r = none) : (system P Slot isFast).Enabled (Lifted (Wakes r)) s :=
  ⟨_, _, ⟨.wake r, rfl, rfl, hfd⟩, .other hsignal (.wake hloop)⟩

theorem behind_next {e : Event P Slot Job} (hb : Behind (numTaken p) (numAccepted p) k s.base)
    (hst : Step isFast s e s') :
    k < numTaken p s'.base ∨ Behind (numTaken p) (numAccepted p) k s'.base := by
  obtain heq | ⟨e', -, hst'⟩ := hst.refines
  · rw [heq]
    exact .inr hb
  · exact pool_next hb hst'

variable [Fintype P.Worker] {ρ : (system P Slot isFast).Run}

/-! ## What the pipeline asks for besides the tasks -/

theorem works_of_works (H : (system P Slot isFast).Reachable (fun _ _ => True) s)
    (h : (Pipeline.system P Slot isFast).Enabled (Works w) s.base) :
    (system P Slot isFast).Enabled (Lifted (Works w)) s := by
  obtain ⟨e, b, ⟨hw, hloop⟩, hst⟩ := h
  obtain ⟨s', hs', -⟩ := exists_step hst
    (fun w' hw' => by
      obtain rfl : w = w' := Option.some.inj (hw.symm.trans hw')
      exact Bool.eq_false_iff.mpr fun h => hloop ((sound_of_reachable H).asleep w h))
    (fun r hr => by cases (reactorOf_of_workerOf hw).symm.trans hr)
    (by rintro rfl; cases hw)
  exact ⟨_, s', ⟨e, rfl, hw, hloop⟩, hs'⟩

theorem callbacks_of_callbacks (H : (system P Slot isFast).Reachable (fun _ _ => True) s)
    (h : (Pipeline.system P Slot isFast).Enabled (RunsCallback r) s.base) :
    (system P Slot isFast).Enabled (Lifted (RunsCallback r)) s := by
  obtain ⟨e, b, ⟨hr, hloop⟩, hst⟩ := h
  obtain ⟨s', hs', -⟩ := exists_step hst
    (fun w hw => by cases (reactorOf_of_workerOf hw).symm.trans hr)
    (fun r' hr' => by
      obtain rfl : r = r' := Option.some.inj (hr.symm.trans hr')
      refine Option.eq_none_iff_forall_ne_some.mpr fun p hp => ?_
      exact hloop ((sound_of_reachable H).signal r p hp))
    (by rintro rfl; cases hr)
  exact ⟨_, s', ⟨e, rfl, hr, hloop⟩, hs'⟩

omit [Fintype P.Worker] in
theorem FairMonitor.wakes_of_wakes (hfair : FairMonitor ρ) (r : Fin P.numReactors) :
    ρ.LeadsTo (fun s => (Pipeline.system P Slot isFast).Enabled (Wakes r) s.base)
      ((system P Slot isFast).Enabled (Lifted (Wakes r))) := by
  have htell : ∀ p, ρ.LeadsTo
      (fun s => s.signal r = some p ∧ s.base.reactor r = .loop ∧ 0 < (s.base.completion r).eventfd)
      ((system P Slot isFast).Enabled (Lifted (Wakes r))) := by
    intro p
    refine (hfair.signals r).leadsTo (fun s e s' _ h hst => ?_) fun s _ h => signal_enabled h.1
    obtain ⟨hr, hloop, hfd⟩ := h
    by_cases he : e = .signal r
    · subst he
      cases hst with
      | signal => exact .inl (wakes_enabled hloop hfd (update_self ..))
      | unheard => exact .inl (wakes_enabled hloop hfd (update_self ..))
    · refine .inr ⟨⟨signal_stays hst hr he, ?_⟩, he⟩
      obtain heq | ⟨e', -, hst', -, hreactor⟩ := Step.base_cases hst
      · rw [heq]
        exact ⟨hloop, hfd⟩
      · have hne : reactorOf e' ≠ some r := fun h' => by cases hr.symm.trans (hreactor r h')
        refine ⟨(reactor_frame hst' hne).trans hloop, eventfd_pos_next hfd hst' ?_⟩
        rintro rfl
        exact hne rfl
  intro i hi
  obtain ⟨e, b, ⟨rfl, hfd⟩, hst⟩ := hi
  have hloop : (ρ.state i).base.reactor r = .loop := by
    cases hst with
    | wake hloop => exact hloop
  cases hr : (ρ.state i).signal r with
  | none => exact ⟨i, Nat.le_refl i, wakes_enabled hloop hfd hr⟩
  | some p => exact htell p i ⟨hr, hloop, hfd⟩

/-! ## The tasks are taken -/

omit [Fintype P.Worker] in
/-- A worker that is up stays so as long as there is a task, unless it takes one. -/
theorem isUp_stays {e : Event P Slot Job} (H : (system P Slot isFast).Reachable (fun _ _ => True) s)
    (hb : Behind (numTaken p) (numAccepted p) k s.base) (hup : isUp s p w = true)
    (hst : Step isFast s e s') (he : e ≠ .pipe (.take w)) : isUp s' p w = true := by
  obtain ⟨v, own, hinv⟩ := inv_of_reachable (refines_pipeline.reachable H)
  obtain ⟨t, hhead⟩ := head_of_behind hinv hb
  obtain ⟨rfl, hawake, hloop⟩ := isUp_iff.mp hup
  refine isUp_iff.mpr ⟨rfl, ?_, ?_⟩
  · cases hst with
    | @sleep w' _ _ hnone _ =>
      have hne : w ≠ w' := by
        rintro rfl
        cases hhead.symm.trans hnone
      exact (update_of_ne hne ..).trans hawake
    | @wakeUp w' _ | @signal _ w' _ _ =>
      by_cases hne : w = w'
      · subst hne
        exact update_self ..
      · exact (update_of_ne hne ..).trans hawake
    | broadcast =>
      dsimp only
      split
      · rfl
      · exact hawake
    | _ => exact hawake
  · obtain heq | ⟨e', rfl, hst'⟩ := hst.refines
    · rw [heq]
      exact hloop
    · refine loop_stays hst' hloop (fun h => he (by rw [h])) ?_
      rintro rfl
      cases hhead.symm.trans (head_of_leave hst')

omit [Fintype P.Worker] in
/-- A worker that is up takes a task, or another one does. -/
theorem FairMonitor.up_takes (hfair : FairMonitor ρ) (p : PoolId) (w : P.Worker) (k : Nat) :
    ρ.LeadsTo (fun s => Behind (numTaken p) (numAccepted p) k s.base ∧ isUp s p w = true)
      fun s => k < numTaken p s.base := by
  refine (hfair.takes w).leadsTo (fun s e s' hs h hst => ?_) fun s hs h => ?_
  · obtain ⟨hb, hup⟩ := h
    obtain hlt | hb' := behind_next hb hst
    · exact .inl hlt
    have hne : e ≠ .pipe (.take w) := by
      rintro rfl
      obtain ⟨rfl, -⟩ := isUp_iff.mp hup
      have htaken := numTaken_of_take (Step.pipe hst)
      rw [hb.1, hb'.1] at htaken
      exact Nat.succ_ne_self k htaken.symm
    exact .inr ⟨⟨hb', isUp_stays hs hb hup hst hne⟩, hne⟩
  · obtain ⟨v, own, hinv⟩ := inv_of_reachable (refines_pipeline.reachable hs)
    obtain ⟨t, hhead⟩ := head_of_behind hinv h.1
    obtain ⟨rfl, hawake, hloop⟩ := isUp_iff.mp h.2
    exact ⟨_, _, rfl, .other hawake (.take hloop hhead)⟩

/-- Somebody who is told gets up. -/
theorem FairMonitor.told_up (hfair : FairMonitor ρ) (r : Fin P.numReactors) (w : P.Worker)
    (k : Nat) :
    ρ.LeadsTo
      (fun s => Behind (numTaken (P.poolOf w)) (numAccepted (P.poolOf w)) k s.base ∧
        s.signal r = some (P.poolOf w) ∧ s.asleep w = true)
      fun s => k < numTaken (P.poolOf w) s.base := by
  have hup : ρ.LeadsTo
      (fun s => Behind (numTaken (P.poolOf w)) (numAccepted (P.poolOf w)) k s.base ∧
        s.signal r = some (P.poolOf w) ∧ s.asleep w = true)
      fun s => k < numTaken (P.poolOf w) s.base ∨ ∃ w',
        Behind (numTaken (P.poolOf w)) (numAccepted (P.poolOf w)) k s.base ∧
          isUp s (P.poolOf w) w' = true := by
    refine (hfair.signals r).leadsTo (fun s e s' hs h hst => ?_) fun s _ h => signal_enabled h.2.1
    obtain ⟨hb, hr, hw⟩ := h
    have hsound := sound_of_reachable hs
    obtain hlt | hb' := behind_next hb hst
    · exact .inl (.inl hlt)
    by_cases he : e = .signal r
    · subst he
      cases hst with
      | @signal _ w' hr' hw' =>
        have hp : P.poolOf w' = P.poolOf w := Option.some.inj (hr'.symm.trans hr)
        exact .inl (.inr ⟨w', hb', isUp_iff.mpr ⟨hp, update_self .., hsound.asleep w' hw'⟩⟩)
      | unheard hr' hnobody =>
        have hp := Option.some.inj (hr.symm.trans hr')
        cases hw.symm.trans (hnobody w hp)
    · -- the worker sleeps on, or is up for another reason
      by_cases hw' : s'.asleep w = true
      · exact .inr ⟨⟨hb', signal_stays hst hr he, hw'⟩, he⟩
      · refine .inl (.inr ⟨w, hb', isUp_iff.mpr ⟨rfl, Bool.eq_false_iff.mpr hw', ?_⟩⟩)
        obtain heq | ⟨e', -, hst', hworker, -⟩ := Step.base_cases hst
        · rw [heq]
          exact hsound.asleep w hw
        · have hne : workerOf e' ≠ some w := fun h' => by cases hw.symm.trans (hworker w h')
          exact (worker_frame hst' hne).trans (hsound.asleep w hw)
  refine hup.trans fun i hi => ?_
  obtain hlt | ⟨w', hw'⟩ := hi
  · exact ⟨i, Nat.le_refl i, hlt⟩
  · exact hfair.up_takes _ w' k i hw'

/-- As long as a worker of the pool waits, up or asleep, a task of the pool is taken. -/
theorem FairMonitor.taken (hfair : FairMonitor ρ) (w : P.Worker) (k : Nat) :
    ρ.LeadsTo
      (fun s => Behind (numTaken (P.poolOf w)) (numAccepted (P.poolOf w)) k s.base ∧
        s.base.worker w = .loop)
      fun s => k < numTaken (P.poolOf w) s.base := by
  intro i ⟨hb, hloop⟩
  cases hw : (ρ.state i).asleep w with
  | false => exact hfair.up_takes _ w k i ⟨hb, isUp_iff.mpr ⟨rfl, hw, hloop⟩⟩
  | true =>
    -- the pool is not empty, so somebody is up or about to be told
    obtain ⟨v, own, hinv⟩ := inv_of_reachable (refines_pipeline.reachable (ρ.reachable i))
    obtain ⟨t, hhead⟩ := head_of_behind hinv hb
    have hpos : 0 < ((ρ.state i).base.pool (P.poolOf w)).size := by
      refine Nat.pos_of_ne_zero fun hzero => ?_
      cases hhead.symm.trans ((size_eq_zero hinv).mp hzero)
    have hcounted := (sound_of_reachable (ρ.reachable i)).counted w hw
    by_cases hpending : 0 < pending (ρ.state i) (P.poolOf w)
    · obtain ⟨r, hr⟩ := exists_of_tally_pos hpending
      exact hfair.told_up r w k i ⟨hb, of_decide_eq_true hr, hw⟩
    · obtain ⟨w', hw'⟩ := exists_of_tally_pos (f := isUp (ρ.state i) (P.poolOf w)) (by omega)
      exact hfair.up_takes _ w' k i ⟨hb, hw'⟩

/-- The monitors are as fair as the pipeline asks. -/
theorem FairMonitor.fair (hfair : FairMonitor ρ) : Fair (ρ.project refines_pipeline) := by
  have hact : ∀ {A : Pipeline.State P Slot Job → Pipeline.Event P Slot Job → Prop} (s e t),
      Lifted A s e → Step isFast s e t → ∃ e', A s.base e' ∧ Pipeline.Step isFast s.base e' t.base := by
    rintro A s _ t ⟨e', rfl, he⟩ hst
    exact ⟨e', he, hst.pipe⟩
  refine ⟨fun w => (hfair.works w).project hact fun s hs => works_of_works hs, fun p i hen => ?_,
    fun r => (hfair.callbacks r).project hact fun s hs => callbacks_of_callbacks hs,
    fun r => (hfair.wakes r).project hact (hfair.wakes_of_wakes r)⟩
  obtain ⟨_, b, ⟨w, rfl, rfl⟩, hst⟩ := hen i (Nat.le_refl i)
  obtain ⟨v, own, hinv⟩ := inv_of_reachable (refines_pipeline.reachable (ρ.reachable i))
  have hwaits : (ρ.state i).base.worker w = .loop ∧
      numTaken (P.poolOf w) (ρ.state i).base < numAccepted (P.poolOf w) (ρ.state i).base := by
    cases hst with
    | take hloop hhead => exact ⟨hloop, behind_of_head hinv hhead⟩
  obtain ⟨j, hij, hlt⟩ := hfair.taken w _ i ⟨⟨rfl, hwaits.2⟩, hwaits.1⟩
  -- the number has changed, so there was a step that takes
  obtain ⟨l, hil, e, hst, hne⟩ := exists_change
    (fun s : State P Slot Job => numTaken (P.poolOf w) s.base) hij (Nat.ne_of_gt hlt)
  refine ⟨l, hil, ?_⟩
  obtain heq | ⟨e', rfl, hst'⟩ := Step.refines hst
  · exact absurd (by rw [heq]) hne
  · by_contra hnot
    refine hne (numTaken_stays hst' fun w' hp he => hnot ⟨e', ⟨w', hp, he⟩, hst'⟩)

/-- In a fair run every accepted task is finalized by the reactor that has accepted it, though the
workers sleep in between. -/
theorem finalized_of_fairMonitor (hfair : FairMonitor ρ) (n : Nat) :
    ρ.LeadsTo (fun s => n < s.base.hist.clock) fun s =>
      ∃ r, n ∈ s.base.hist.finalized r ∧ s.base.hist.owner n = r := by
  intro i hi
  obtain ⟨j, hij, r, hr⟩ := hfair.fair.finalizes n i hi
  obtain ⟨v, own, hinv⟩ := inv_of_reachable (refines_pipeline.reachable (ρ.reachable j))
  exact ⟨j, hij, r, hr, hinv.tickets.finalized_owner r n hr⟩

/-! ## Runs in which nobody sleeps -/

/-- Nobody sleeps and nobody is to be told. -/
structure Quiet (s : State P Slot Job) : Prop where
  asleep : ∀ w, s.asleep w = false
  signal : ∀ r, s.signal r = none
  broadcast : s.broadcast = none

omit [Fintype P.Worker] in
/-- The monitors allow every run of the pipeline. -/
theorem exists_follows {G : Pipeline.State P Slot Job → Pipeline.Event P Slot Job → Prop}
    {b : Pipeline.State P Slot Job} (h : (Pipeline.system P Slot isFast).Reachable G b) :
    ∃ s, (system P Slot isFast).Reachable (fun _ _ => True) s ∧ Quiet s ∧ s.base = b := by
  induction h with
  | init h => exact ⟨{}, .init rfl, ⟨fun _ => rfl, fun _ => rfl, rfl⟩, h.symm⟩
  | @step _ e b' _ _ hst ih =>
    obtain ⟨s, hs, hquiet, rfl⟩ := ih
    have hother : Unblocked s e →
        ∃ s, (system P Slot isFast).Reachable (fun _ _ => True) s ∧ Quiet s ∧ s.base = b' :=
      fun hfree => ⟨_, hs.step trivial (.other hfree hst), ⟨hquiet.asleep, hquiet.signal,
        hquiet.broadcast⟩, rfl⟩
    cases e with
    | enqueue r =>
      cases hst with
      | enqueue hr hq =>
        -- the signal is heard by nobody
        have hs := hs.step trivial (.enqueue (hquiet.signal r) hr hq)
        have hs := hs.step trivial (.unheard (r := r) (update_self ..) fun w _ => hquiet.asleep w)
        refine ⟨_, hs, ⟨hquiet.asleep, fun r' => ?_, hquiet.broadcast⟩, rfl⟩
        by_cases hne : r' = r
        · subst hne
          exact update_self ..
        · exact (update_of_ne hne ..).trans ((update_of_ne hne ..).trans (hquiet.signal r'))
      | refuse hr hq =>
        exact ⟨_, hs.step trivial (.refuse (hquiet.signal r) hr hq), ⟨hquiet.asleep, hquiet.signal,
          hquiet.broadcast⟩, rfl⟩
    | main =>
      have hcast : ∀ {s' : State P Slot Job} {p}, (∀ w, s'.asleep w = false) →
          ∀ w, (if P.poolOf w = p then false else s'.asleep w) = false := by
        intro s' p h w
        split
        · rfl
        · exact h w
      cases hst with
      | stopFast hm =>
        have hs := (hs.step trivial (.stopFast hquiet.broadcast hm)).step trivial (.broadcast rfl)
        exact ⟨_, hs, ⟨hcast hquiet.asleep, hquiet.signal, rfl⟩, rfl⟩
      | stopSlow hm =>
        have hs := (hs.step trivial (.stopSlow hquiet.broadcast hm)).step trivial (.broadcast rfl)
        exact ⟨_, hs, ⟨hcast hquiet.asleep, hquiet.signal, rfl⟩, rfl⟩
      | joinWorkers hm | drain hm | drained hm | loopbreak hm | broken hm | joinReactors hm =>
        exact hother ⟨hquiet.broadcast, by rw [hm]; nofun, by rw [hm]; nofun⟩
    | take | process | unlink | append | signal | leave => exact hother (hquiet.asleep _)
    | receive | wake | read | detach | visit | finalize | quit => exact hother (hquiet.signal _)
    | cancel => exact hother trivial

omit [Fintype P.Worker] in
/-- A run that comes to rest when all is done is fair. -/
theorem FairMonitor.of_resting {m : Nat} (hrest : ∀ i, m ≤ i → ρ.state i = s) (h : Resting s.base)
    (hquiet : Quiet s) : FairMonitor ρ := by
  refine ⟨fun w => StrongFair.weakFair (.of_resting hrest ?_),
    fun r => StrongFair.weakFair (.of_resting hrest ?_), fun r => .of_resting hrest ?_,
    fun w => StrongFair.weakFair (.of_resting hrest ?_),
    fun r => StrongFair.weakFair (.of_resting hrest ?_)⟩
  · rintro ⟨_, t, ⟨e, -, he⟩, -⟩
    exact he.2 (h.worker w)
  · rintro ⟨_, t, ⟨e, -, he⟩, -⟩
    exact he.2 (h.reactor r)
  · rintro ⟨_, t, ⟨e, -, he⟩, -⟩
    exact Nat.ne_of_gt he.2 (h.completion r).2
  · rintro ⟨_, t, rfl, hst⟩
    have hst := Step.pipe hst
    generalize t.base = b at hst
    cases hst with
    | take _ hhead => cases hhead.symm.trans (h.pool _)
  · rintro ⟨_, t, rfl, hst⟩
    cases hst with
    | signal hr => cases hr.symm.trans (hquiet.signal r)
    | unheard hr => cases hr.symm.trans (hquiet.signal r)

end

/-- One reactor and two workers: a task goes all the way. -/
theorem finalized_of_fairMonitor_one :
    ∃ ρ : (system (.ofConfig 1 2 50 10) Nat id).Run, FairMonitor ρ ∧
      (∃ i, 0 < (ρ.state i).base.hist.clock) ∧ ∃ j r, 0 ∈ (ρ.state j).base.hist.finalized r ∧
        (ρ.state j).base.hist.owner 0 = r := by
  obtain ⟨b, hb, hrest, hclock⟩ := exists_resting_served (show id true = true from rfl)
    (G := fun _ _ => True) fun _ _ _ => trivial
  obtain ⟨s, hs, hquiet, rfl⟩ := exists_follows hb
  obtain ⟨ρ, m, hm⟩ := exists_resting hs
  have hfair := FairMonitor.of_resting hm hrest hquiet
  have hpos : 0 < (ρ.state m).base.hist.clock := by
    rw [hm m (Nat.le_refl m), hclock]
    exact Nat.one_pos
  obtain ⟨j, -, r, hr⟩ := finalized_of_fairMonitor hfair 0 m hpos
  exact ⟨ρ, hfair, ⟨m, hpos⟩, j, r, hr⟩

end Monitor
end ApiServer.Pipeline
