import ApiServer.Lib.Fair
import ApiServer.Lib.Tally
import ApiServer.Pipeline.Frame

/-!
# Every accepted task is finalized

In a fair run each pool takes what it has accepted, a worker hands on what it has taken, and a
reactor finalizes what it has been handed. The reactor is the hard part: between two callbacks it
waits for its eventfd, which is positive or about to be written as long as its completion queue is
not empty, and the loop that clears the counter ends because a non-empty queue is not announced
again.
-/

namespace ApiServer.Pipeline
open Function System System.Run

section
variable {P : Topology} {Slot Job : Type}

/-! ## Fairness -/

/-- A worker past its wait for a task goes on. -/
def Works (w : P.Worker) (s : State P Slot Job) (e : Event P Slot Job) : Prop :=
  workerOf e = some w ∧ s.worker w ≠ .loop

/-- A worker of the pool takes a task. -/
def TakesFrom (p : PoolId) (_ : State P Slot Job) (e : Event P Slot Job) : Prop :=
  ∃ w, P.poolOf w = p ∧ e = .take w

/-- A reactor in a callback goes on. -/
def RunsCallback (r : Fin P.numReactors) (s : State P Slot Job) (e : Event P Slot Job) : Prop :=
  reactorOf e = some r ∧ s.reactor r ≠ .loop

/-- The event loop calls `reactor_eventfd_cb` for a readable eventfd. -/
def Wakes (r : Fin P.numReactors) (s : State P Slot Job) (e : Event P Slot Job) : Prop :=
  e = .wake r ∧ 0 < (s.completion r).eventfd

/-- Only the event loop has to be strongly fair: between two looks at the eventfd it may run other
callbacks. -/
structure Fair [DecidableEq Slot] [DecidableEq P.Worker] {isFast : Job → Bool}
    (ρ : (system P Slot isFast).Run) : Prop where
  works : ∀ w, ρ.WeakFair (Works w)
  takes : ∀ p, ρ.WeakFair (TakesFrom p)
  callbacks : ∀ r, ρ.WeakFair (RunsCallback r)
  wakes : ∀ r, ρ.StrongFair (Wakes r)

/-! ## Measures -/

def numAccepted (p : PoolId) (s : State P Slot Job) : Nat := (s.hist.accepted p).length

def numTaken (p : PoolId) (s : State P Slot Job) : Nat := (s.hist.taken p).length

def numCompleted (r : Fin P.numReactors) (s : State P Slot Job) : Nat := (s.hist.completed r).length

def numFinalized (r : Fin P.numReactors) (s : State P Slot Job) : Nat := (s.hist.finalized r).length

/-- How many steps a worker is away from its wait. -/
def WorkerPhase.rank : WorkerPhase Slot R → Nat
  | .holding _ => 4
  | .processed _ => 3
  | .unlinked _ => 2
  | .signalling _ => 1
  | .loop | .exited => 0

/-- The worker has the task with that ticket. -/
def Carrying (w : P.Worker) (n : Nat) (s : State P Slot Job) : Prop :=
  ∃ t, (s.worker w).task = some t ∧ s.hist.ticket t = n

/-- How many steps a reactor that has drained its eventfd is away from finalizing a task. -/
def ReactorPhase.rank : ReactorPhase Slot → Nat
  | .drained => 3
  | .batch (some _) => 2
  | .finalizing .. => 1
  | _ => 0

/-- A reactor at its event loop, or in a callback that leads there. -/
def ReactorPhase.Idle : ReactorPhase Slot → Prop
  | .loop | .accepting _ => True
  | _ => False

def WorkerPhase.signals (r : Fin R) : WorkerPhase Slot R → Bool
  | .signalling r' => r' = r
  | _ => false

/-- How often the counter can still be found positive: the workers that are about to write it count
twice, as long as nobody else comes. -/
def noise [Fintype P.Worker] (s : State P Slot Job) (r : Fin P.numReactors) : Nat :=
  2 * tally (fun w => (s.worker w).signals r) + if (s.completion r).eventfd = 0 then 0 else 1

variable {s s' : State P Slot Job} {v : Lane P.numReactors → List Slot} {own : Slot → Place P}
  {p : PoolId} {r : Fin P.numReactors} {w : P.Worker} {k n : Nat}

theorem WorkerPhase.rank_pos {ph : WorkerPhase Slot R} (hloop : ph ≠ .loop) (hexited : ph ≠ .exited) :
    0 < ph.rank := by
  cases ph with
  | loop => exact absurd rfl hloop
  | exited => exact absurd rfl hexited
  | holding | processed | unlinked | signalling => exact Nat.succ_pos _

theorem Shift.rank_lt {ph ph' : WorkerPhase Slot P.numReactors} (h : Shift s s' w ph ph')
    (hpos : 0 < ph.rank) : ph'.rank < ph.rank := by
  cases h with
  | take | leave => exact absurd hpos (Nat.lt_irrefl 0)
  | process | unlink | lose | signal =>
    simp only [WorkerPhase.rank]
    decide
  | append t r =>
    split <;>
    · simp only [WorkerPhase.rank]
      decide

theorem Carrying.rank_pos (h : Carrying w n s) : 0 < (s.worker w).rank := by
  obtain ⟨t, ht, -⟩ := h
  refine WorkerPhase.rank_pos ?_ ?_ <;>
  · intro hph
    rw [hph] at ht
    cases ht

theorem ReactorPhase.ne_of_rank_pos {ph : ReactorPhase Slot} (h : 0 < ph.rank) :
    ph ≠ .loop ∧ ph ≠ .exited := by
  constructor <;>
  · rintro rfl
    exact absurd h (Nat.lt_irrefl 0)

theorem head_of_behind (H : Inv s v own) (h : Behind (numTaken p) (numAccepted p) k s) :
    ∃ t, (s.pool p).links.head = some t := by
  obtain ⟨rfl, hlt⟩ := h
  rw [← Option.ne_none_iff_exists']
  intro hhead
  have hlog := congrArg List.length (H.logs.pool p)
  rw [(H.layout.pool p).head_eq_none.mp hhead] at hlog
  simp only [List.map_nil, List.append_nil] at hlog
  exact Nat.ne_of_gt hlt hlog

/-- What is completed and not finalized is in the list the reactor walks or in its queue. -/
theorem done_ne_nil (H : Inv s v own) (h : Behind (numFinalized r) (numCompleted r) k s) :
    v (.batch r) ++ v (.done r) ≠ [] := by
  obtain ⟨rfl, hlt⟩ := h
  intro hnil
  have hlog := congrArg List.length (H.logs.done r)
  rw [hnil, List.map_nil, List.append_nil] at hlog
  exact Nat.ne_of_gt hlt hlog

/-- Outside the walk the queue itself is not empty. -/
theorem links_of_behind (H : Inv s v own) (h : Behind (numFinalized r) (numCompleted r) k s)
    (hbatch : v (.batch r) = []) :
    (s.completion r).links.head ≠ none ∧ (s.completion r).links.tail ≠ none := by
  have hdone := done_ne_nil H h
  rw [hbatch, List.nil_append] at hdone
  exact ⟨fun h => hdone ((H.layout.done r).head_eq_none.mp h),
    fun h => hdone ((H.layout.done r).tail_eq_none.mp h)⟩

theorem noise_le [Fintype P.Worker] (hfd : (s'.completion r).eventfd = (s.completion r).eventfd)
    (hw : ∀ w, (s'.worker w).signals r = true → (s.worker w).signals r = true) :
    noise s' r ≤ noise s r := by
  unfold noise
  rw [hfd]
  have hle := tally_le hw
  omega

theorem noise_lt [Fintype P.Worker] (hw : (s.worker w).signals r = true)
    (hw' : (s'.worker w).signals r = false)
    (hother : ∀ w', (s'.worker w').signals r = true → (s.worker w').signals r = true) :
    noise s' r < noise s r := by
  have hlt := tally_lt hother hw' hw
  unfold noise
  split <;> split <;> omega

end

section
variable {P : Topology} {Slot Job : Type} [DecidableEq Slot] [DecidableEq P.Worker]
  {isFast : Job → Bool} {s s' : State P Slot Job} {e : Event P Slot Job}
  {p : PoolId} {r : Fin P.numReactors} {w : P.Worker} {k n : Nat}

/-! ## What holds in every reachable state -/

theorem awake_of_reachable {G : State P Slot Job → Event P Slot Job → Prop}
    (H : (system P Slot isFast).Reachable G s) : Awake s := by
  refine H.invariant (I := Awake) ?_ fun _ _ _ _ h _ hs => h.step hs
  rintro s rfl r hr
  exact absurd rfl hr

/-- The main thread has come to `server_shutdown_workers`. -/
def MainPhase.Breaks : MainPhase → Prop
  | .breaking _ | .joining | .halted => True
  | _ => False

theorem MainPhase.Breaks.seen {main : MainPhase} (h : main.Breaks) (R : Nat) : main.seen R = R := by
  cases main with
  | breaking | joining | halted => rfl
  | running | fastStopped | stopped | draining => exact h.elim

/-- A reactor has left only after its loop was broken, which is after the queues were drained. -/
def BreaksLast (s : State P Slot Job) : Prop :=
  ∀ r, (s.reactor r = .exited → s.loopbreak r = true) ∧ (s.loopbreak r = true → s.main.Breaks)

theorem BreaksLast.step (H : BreaksLast s) (h : Step isFast s e s') : BreaksLast s' := by
  intro r
  have hexited : s'.reactor r = .exited → s.loopbreak r = true := by
    intro hr
    by_cases he : reactorOf e = some r
    · have hturn := h.turn he
      rw [hr] at hturn
      cases hturn' : s.reactor r <;> rw [hturn'] at hturn <;> cases hturn
      assumption
    · exact (H r).1 ((reactor_frame h he).symm.trans hr)
  have hmain : s.main = .running ∨ s.main = .fastStopped ∨ s.main = .stopped ∨
      (∃ i, s.main = .draining i) → s.loopbreak r ≠ true := by
    intro hm hbreak
    have := (H r).2 hbreak
    rcases hm with hm | hm | hm | ⟨i, hm⟩ <;> rw [hm] at this <;> exact this
  cases h with
  | enqueue _ hs =>
    obtain ⟨-, -, rfl⟩ := workerPoolEnqueue_eq_some hs
    exact ⟨hexited, (H r).2⟩
  | stopFast hm => exact ⟨hexited, fun h => absurd h (hmain (.inl hm))⟩
  | stopSlow hm => exact ⟨hexited, fun h => absurd h (hmain (.inr (.inl hm)))⟩
  | joinWorkers hm _ => exact ⟨hexited, fun h => absurd h (hmain (.inr (.inr (.inl hm))))⟩
  | drain hm _ _ => exact ⟨hexited, fun h => absurd h (hmain (.inr (.inr (.inr ⟨_, hm⟩))))⟩
  | drained | broken | joinReactors => exact ⟨hexited, fun _ => trivial⟩
  | @loopbreak i r' hm _ =>
    refine ⟨fun hr => ?_, fun _ => trivial⟩
    by_cases hne : r = r'
    · subst hne
      exact update_self ..
    · exact (update_of_ne hne ..).trans (hexited hr)
  | _ => exact ⟨hexited, (H r).2⟩

theorem breaksLast_of_reachable {G : State P Slot Job → Event P Slot Job → Prop}
    (H : (system P Slot isFast).Reachable G s) : BreaksLast s := by
  refine H.invariant (I := BreaksLast) ?_ fun _ _ _ _ h _ hs => h.step hs
  rintro s rfl r
  exact ⟨nofun, nofun⟩

/-- A reactor with work left has not gone. -/
theorem not_exited_of_behind (H : (system P Slot isFast).Reachable (fun _ _ => True) s)
    (h : Behind (numFinalized r) (numCompleted r) k s) : s.reactor r ≠ .exited := by
  intro hr
  obtain ⟨v, own, hinv⟩ := inv_of_reachable H
  have hbatch : v (.batch r) = [] := by
    have := hinv.layout.batch r
    rwa [hr] at this
  refine (links_of_behind hinv h hbatch).1 ((closing_of_reachable H).seen r ?_)
  obtain ⟨hexited, hbreaks⟩ := breaksLast_of_reachable H r
  rw [(hbreaks (hexited hr)).seen]
  exact r.isLt

/-! ## From the pools to the workers -/

theorem works_enabled (H : (system P Slot isFast).Reachable (fun _ _ => True) s)
    (hw : 0 < (s.worker w).rank) : (system P Slot isFast).Enabled (Works w) s := by
  obtain ⟨v, own, hinv⟩ := inv_of_reachable H
  -- a worker's task belongs to a reactor
  have hhome : ∀ t, (s.worker w).task = some t → s.reactorId t < P.numReactors := by
    intro t ht
    have := hinv.tickets.home t
    rwa [(hinv.layout.worker_iff t w).mp ht] at this
  cases hph : s.worker w with
  | loop | exited =>
    rw [hph] at hw
    exact absurd hw (Nat.lt_irrefl 0)
  | holding t => exact ⟨.process w, _, ⟨rfl, by rw [hph]; nofun⟩, .process hph⟩
  | processed t =>
    exact ⟨.unlink w, _, ⟨rfl, by rw [hph]; nofun⟩, .unlink hph (hhome t (by rw [hph]; rfl))⟩
  | unlinked t =>
    have ht := hhome t (by rw [hph]; rfl)
    exact ⟨.append w, _, ⟨rfl, by rw [hph]; nofun⟩, .append (r := ⟨_, ht⟩) hph rfl⟩
  | signalling r => exact ⟨.signal w, _, ⟨rfl, by rw [hph]; nofun⟩, .signal hph⟩

theorem pool_next (h : Behind (numTaken p) (numAccepted p) k s) (hst : Step isFast s e s') :
    k < numTaken p s' ∨ Behind (numTaken p) (numAccepted p) k s' :=
  h.next (hst.taken_prefix p).length_le (hst.accepted_prefix p).length_le

theorem numTaken_of_take (h : Step isFast s (.take w) s') :
    numTaken (P.poolOf w) s' = numTaken (P.poolOf w) s + 1 := by
  cases h with
  | take _ _ =>
    simp only [numTaken, workerDequeue, update_self, List.length_append, List.length_singleton]

variable {ρ : (system P Slot isFast).Run}

/-- The workers of a pool with a task are there. -/
theorem rank_of_behind (H : (system P Slot isFast).Reachable (fun _ _ => True) s)
    (h : Behind (numTaken (P.poolOf w)) (numAccepted (P.poolOf w)) k s)
    (hloop : s.worker w ≠ .loop) : 0 < (s.worker w).rank := by
  refine WorkerPhase.rank_pos hloop fun hexited => ?_
  obtain ⟨v, own, hinv⟩ := inv_of_reachable H
  obtain ⟨t, hhead⟩ := head_of_behind hinv h
  cases hhead.symm.trans ((closing_of_reachable H).exited w hexited).2

/-- A worker of a pool that is behind comes back to its wait, if no other one takes the task. -/
theorem Fair.comes_back (hfair : Fair ρ) (w : P.Worker) (k : Nat) :
    ρ.LeadsTo (Behind (numTaken (P.poolOf w)) (numAccepted (P.poolOf w)) k)
      fun s => k < numTaken (P.poolOf w) s ∨
        Behind (numTaken (P.poolOf w)) (numAccepted (P.poolOf w)) k s ∧ s.worker w = .loop := by
  refine (hfair.works w).leadsTo_rank (fun s => (s.worker w).rank)
    (fun s e s' hs hb hnot hst => ?_) fun s hs hb hnot => ?_
  · have hpos := rank_of_behind hs hb fun hloop => hnot (.inr ⟨hb, hloop⟩)
    obtain hlt | hb := pool_next hb hst
    · exact .inl (.inl hlt)
    by_cases hw : workerOf e = some w
    · have hlt := (hst.shift hw).rank_lt hpos
      exact .inr ⟨hb, Nat.le_of_lt hlt, fun _ => hlt⟩
    · rw [worker_frame hst hw]
      exact .inr ⟨hb, Nat.le_refl _, fun h => absurd h.1 hw⟩
  · exact works_enabled hs (rank_of_behind hs hb fun hloop => hnot (.inr ⟨hb, hloop⟩))

/-- A pool that is behind has its next task taken. -/
theorem Fair.taken_next (hfair : Fair ρ) (p : PoolId) (k : Nat) :
    ρ.LeadsTo (Behind (numTaken p) (numAccepted p) k) fun s => k < numTaken p s := by
  obtain ⟨w, rfl⟩ := P.served p
  have htake : ρ.LeadsTo
      (fun s => Behind (numTaken (P.poolOf w)) (numAccepted (P.poolOf w)) k s ∧
        s.worker w = .loop)
      fun s => k < numTaken (P.poolOf w) s := by
    refine (hfair.takes (P.poolOf w)).leadsTo (fun s e s' hs ⟨hb, hloop⟩ hst => ?_)
      fun s hs ⟨hb, hloop⟩ => ?_
    · obtain hlt | hb' := pool_next hb hst
      · exact .inl hlt
      have htaken : numTaken (P.poolOf w) s' = numTaken (P.poolOf w) s := hb'.1.trans hb.1.symm
      refine .inr ⟨⟨hb', ?_⟩, ?_⟩
      · by_cases hw : workerOf e = some w
        · have hshift := hst.shift hw
          rw [hloop] at hshift
          by_contra hne
          have hpos := rank_of_behind (hs.step trivial hst) hb' hne
          obtain ⟨ph, hph⟩ : ∃ ph, s'.worker w = ph := ⟨_, rfl⟩
          rw [hph] at hshift hpos
          cases hshift with
          | take u _ heq =>
            rw [numTaken, heq, List.length_append] at htaken
            exact absurd htaken (Nat.succ_ne_self _)
          | leave => exact absurd hpos (Nat.lt_irrefl 0)
        · exact (worker_frame hst hw).trans hloop
      · rintro ⟨w', hp, rfl⟩
        have := numTaken_of_take hst
        rw [hp, htaken] at this
        exact Nat.succ_ne_self _ this.symm
    · obtain ⟨v, own, hinv⟩ := inv_of_reachable hs
      obtain ⟨u, hhead⟩ := head_of_behind hinv hb
      exact ⟨.take w, _, ⟨w, rfl, rfl⟩, .take hloop hhead⟩
  exact (hfair.comes_back w k).trans (LeadsTo.or (LeadsTo.of_imp fun _ _ h => h) htake)

/-! ## From the workers to the reactors -/

/-- Only a task that is being accepted gets a ticket. -/
theorem ticket_frame {v : Lane P.numReactors → List Slot} {own : Slot → Place P} {t : Slot}
    (H : Inv s v own) (h : Step isFast s e s') (ht : (own t).InFlight) :
    s'.hist.ticket t = s.hist.ticket t := by
  cases h with
  | @enqueue _ r u hr hs =>
    obtain ⟨-, -, rfl⟩ := workerPoolEnqueue_eq_some hs
    refine update_of_ne ?_ ..
    rintro rfl
    rw [H.layout.reactor_own hr] at ht
    exact ht
  | _ => rfl

/-- A worker hands its task on. -/
theorem Fair.completed_next (hfair : Fair ρ) (w : P.Worker) (n : Nat) :
    ρ.LeadsTo (Carrying w n) fun s => ∃ r, n ∈ s.hist.completed r := by
  refine (hfair.works w).leadsTo_rank (fun s => (s.worker w).rank)
    (fun s e s' hs hc _ hst => ?_) fun s hs hc _ => works_enabled hs hc.rank_pos
  have hpos := hc.rank_pos
  obtain ⟨t, ht, hn⟩ := hc
  obtain ⟨v, own, hinv⟩ := inv_of_reachable hs
  have hown := (hinv.layout.worker_iff t w).mp ht
  have hticket : s'.hist.ticket t = n := (ticket_frame hinv hst (by rw [hown]; trivial)).trans hn
  by_cases hw : workerOf e = some w
  · have hshift := hst.shift hw
    have hlt := hshift.rank_lt hpos
    obtain ⟨ph, hph⟩ : ∃ ph, s.worker w = ph := ⟨_, rfl⟩
    obtain ⟨ph', hph'⟩ : ∃ ph', s'.worker w = ph' := ⟨_, rfl⟩
    rw [hph] at hshift ht
    rw [hph'] at hshift
    cases hshift with
    | take | signal | leave => cases ht
    | process u | unlink u =>
      exact .inr ⟨⟨t, by rw [hph']; exact ht, hticket⟩, Nat.le_of_lt hlt, fun _ => hlt⟩
    | lose u hrid =>
      cases ht
      have hhome := hinv.tickets.home t
      rw [hown] at hhome
      exact absurd hhome (Nat.not_lt.mpr hrid)
    | append u r hlog =>
      cases ht
      refine .inl ⟨r, ?_⟩
      rw [hlog, hn]
      exact List.mem_append_right _ (List.mem_singleton_self n)
  · rw [← worker_frame hst hw] at ht ⊢
    exact .inr ⟨⟨t, ht, hticket⟩, Nat.le_refl _, fun h => absurd h.1 hw⟩

/-! ## On the reactors -/

theorem callback_enabled (hloop : s.reactor r ≠ .loop) (hexited : s.reactor r ≠ .exited) :
    (system P Slot isFast).Enabled (RunsCallback r) s := by
  cases hph : s.reactor r with
  | loop => exact absurd hph hloop
  | exited => exact absurd hph hexited
  | accepting t =>
    cases hq : workerPoolEnqueue isFast s t with
    | none => exact ⟨.enqueue r, _, ⟨rfl, hloop⟩, .refuse hph hq⟩
    | some s' => exact ⟨.enqueue r, _, ⟨rfl, hloop⟩, .enqueue hph hq⟩
  | reading b =>
    by_cases hfd : (s.completion r).eventfd = 0
    · exact ⟨.read r, _, ⟨rfl, hloop⟩, .readFails hph hfd⟩
    · exact ⟨.read r, _, ⟨rfl, hloop⟩, .read hph (Nat.pos_of_ne_zero hfd)⟩
  | drained => exact ⟨.detach r, _, ⟨rfl, hloop⟩, .detach hph⟩
  | batch curr =>
    cases curr with
    | none => exact ⟨.visit r, _, ⟨rfl, hloop⟩, .visited hph⟩
    | some t => exact ⟨.visit r, _, ⟨rfl, hloop⟩, .visit hph⟩
  | finalizing t curr => exact ⟨.finalize r, _, ⟨rfl, hloop⟩, .finalize hph⟩

theorem done_next (h : Behind (numFinalized r) (numCompleted r) k s)
    (hst : Step isFast s e s') :
    k < numFinalized r s' ∨ Behind (numFinalized r) (numCompleted r) k s' :=
  h.next (hst.finalized_prefix r).length_le (hst.completed_prefix r).length_le

/-- A reactor with a detached list, or about to detach one, finalizes a task. -/
theorem Fair.serves (hfair : Fair ρ) (r : Fin P.numReactors) (k : Nat) :
    ρ.LeadsTo
      (fun s => Behind (numFinalized r) (numCompleted r) k s ∧ 0 < (s.reactor r).rank)
      fun s => k < numFinalized r s := by
  refine (hfair.callbacks r).leadsTo_rank (fun s => (s.reactor r).rank)
    (fun s e s' hs ⟨hb, hpos⟩ _ hst => ?_)
    fun s _ ⟨_, hpos⟩ _ =>
      callback_enabled (ReactorPhase.ne_of_rank_pos hpos).1 (ReactorPhase.ne_of_rank_pos hpos).2
  obtain hlt | hb' := done_next hb hst
  · exact .inl hlt
  by_cases hr : reactorOf e = some r
  · have hturn := hst.turn hr
    obtain ⟨ph, hph⟩ : ∃ ph, s.reactor r = ph := ⟨_, rfl⟩
    obtain ⟨ph', hph'⟩ : ∃ ph', s'.reactor r = ph' := ⟨_, rfl⟩
    rw [hph] at hturn hpos ⊢
    rw [hph'] at hturn ⊢
    have hnext : 0 < ph'.rank → ph'.rank < ph.rank → 0 < ph'.rank ∧ ph'.rank ≤ ph.rank ∧
        (RunsCallback r s e → ph'.rank < ph.rank) :=
      fun h h' => ⟨h, Nat.le_of_lt h', fun _ => h'⟩
    cases hturn with
    | detach =>
      -- the list is not empty, because the queue is not
      obtain ⟨v, own, hinv⟩ := inv_of_reachable hs
      have hbatch : v (.batch r) = [] := by
        have := hinv.layout.batch r
        rwa [hph] at this
      obtain ⟨t, ht⟩ := Option.ne_none_iff_exists'.mp (links_of_behind hinv hb hbatch).1
      rw [ht] at hnext ⊢
      obtain ⟨h, h'⟩ := hnext Nat.two_pos (Nat.lt_succ_self 2)
      exact .inr ⟨⟨hb', h⟩, h'⟩
    | visit t =>
      obtain ⟨h, h'⟩ := hnext Nat.one_pos (Nat.lt_succ_self 1)
      exact .inr ⟨⟨hb', h⟩, h'⟩
    | finalize t curr hlog =>
      refine .inl ?_
      rw [numFinalized, hlog, List.length_append, ← hb.1]
      exact Nat.lt_succ_self _
    | _ => exact absurd hpos (Nat.lt_irrefl 0)
  · rw [reactor_frame hst hr]
    exact .inr ⟨⟨hb', hpos⟩, Nat.le_refl _, fun h => absurd h.1 hr⟩

/-- The counter is cleared by its own reactor only. -/
theorem eventfd_pos_next (hfd : 0 < (s.completion r).eventfd) (h : Step isFast s e s')
    (he : e ≠ .read r) : 0 < (s'.completion r).eventfd := by
  have hset : ∀ {r' : Fin P.numReactors} {c : Completion Slot}, (r = r' → 0 < c.eventfd) →
      0 < (update s.completion r' c r).eventfd := by
    intro r' c hc
    by_cases hr : r = r'
    · subst hr
      rw [update_self]
      exact hc rfl
    · rwa [update_of_ne hr]
  cases h with
  | enqueue _ hs =>
    obtain ⟨-, -, rfl⟩ := workerPoolEnqueue_eq_some hs
    exact hfd
  | append => exact hset fun h => h ▸ hfd
  | signal => exact hset fun _ => Nat.succ_pos _
  | read => exact hset fun h => absurd (congrArg Event.read h.symm) he
  | detach => exact hset fun h => h ▸ hfd
  | _ => exact hfd

/-- A reactor that is behind cannot leave: it goes on accepting, or looks at its eventfd. -/
theorem idle_next (H : (system P Slot isFast).Reachable (fun _ _ => True) s)
    (hst : Step isFast s e s') (hb : Behind (numFinalized r) (numCompleted r) k s)
    (hidle : (s.reactor r).Idle) :
    (k < numFinalized r s' ∨
      Behind (numFinalized r) (numCompleted r) k s' ∧ ∃ b, s'.reactor r = .reading b) ∨
    Behind (numFinalized r) (numCompleted r) k s' ∧ (s'.reactor r).Idle := by
  obtain hlt | hb' := done_next hb hst
  · exact .inl (.inl hlt)
  by_cases hr : reactorOf e = some r
  · have hexited := not_exited_of_behind (H.step trivial hst) hb'
    have hturn := hst.turn hr
    obtain ⟨ph, hph⟩ : ∃ ph, s.reactor r = ph := ⟨_, rfl⟩
    obtain ⟨ph', hph'⟩ : ∃ ph', s'.reactor r = ph' := ⟨_, rfl⟩
    rw [hph] at hturn hidle
    rw [hph'] at hturn hexited ⊢
    cases hturn with
    | receive | answer => exact .inr ⟨hb', trivial⟩
    | wake => exact .inl (.inr ⟨hb', false, rfl⟩)
    | quit => exact absurd rfl hexited
    | _ => exact hidle.elim
  · rw [reactor_frame hst hr]
    exact .inr ⟨hb', hidle⟩

theorem not_read_of_idle (h : Step isFast s e s') (hidle : (s.reactor r).Idle) : e ≠ .read r := by
  rintro rfl
  cases h with
  | read hph _ | readFails hph _ =>
    rw [hph] at hidle
    exact hidle

/-- A reactor with a readable eventfd comes to its event loop, at the latest when the running
callback returns. -/
theorem Fair.returns (hfair : Fair ρ) (r : Fin P.numReactors) (k : Nat) :
    ρ.LeadsTo
      (fun s => (Behind (numFinalized r) (numCompleted r) k s ∧ (s.reactor r).Idle) ∧
        0 < (s.completion r).eventfd)
      fun s => (k < numFinalized r s ∨
        Behind (numFinalized r) (numCompleted r) k s ∧ ∃ b, s.reactor r = .reading b) ∨
        (system P Slot isFast).Enabled (Wakes r) s := by
  have hwakes : ∀ {s : State P Slot Job}, s.reactor r = .loop → 0 < (s.completion r).eventfd →
      (system P Slot isFast).Enabled (Wakes r) s :=
    fun hloop hfd => ⟨.wake r, _, ⟨rfl, hfd⟩, .wake hloop⟩
  refine (hfair.callbacks r).leadsTo_rank (fun s => if (s.reactor r).task = none then 0 else 1)
    (fun s e s' hs h hnot hst => ?_) fun s hs h hnot => ?_
  · obtain ⟨⟨hb, hidle⟩, hfd⟩ := h
    have hfd' := eventfd_pos_next hfd hst (not_read_of_idle hst hidle)
    obtain hgoal | hstay := idle_next hs hst hb hidle
    · exact .inl (.inl hgoal)
    by_cases hr : reactorOf e = some r
    · have hturn := hst.turn hr
      obtain ⟨ph, hph⟩ : ∃ ph, s.reactor r = ph := ⟨_, rfl⟩
      obtain ⟨ph', hph'⟩ : ∃ ph', s'.reactor r = ph' := ⟨_, rfl⟩
      rw [hph, hph'] at hturn
      cases hturn with
      | answer => exact .inl (.inr (hwakes hph' hfd'))
      | receive | wake | quit => exact absurd (.inr (hwakes hph hfd)) hnot
      | _ =>
        rw [hph] at hidle
        exact hidle.elim
    · exact .inr ⟨⟨hstay, hfd'⟩, Nat.le_of_eq (by rw [reactor_frame hst hr]),
        fun h => absurd h.1 hr⟩
  · obtain ⟨⟨hb, hidle⟩, hfd⟩ := h
    exact callback_enabled (fun hloop => hnot (.inr (hwakes hloop hfd))) (not_exited_of_behind hs hb)

/-- A readable eventfd is looked at. -/
theorem Fair.looks (hfair : Fair ρ) (r : Fin P.numReactors) (k : Nat) :
    ρ.LeadsTo
      (fun s => (Behind (numFinalized r) (numCompleted r) k s ∧ (s.reactor r).Idle) ∧
        0 < (s.completion r).eventfd)
      fun s => k < numFinalized r s ∨
        Behind (numFinalized r) (numCompleted r) k s ∧ ∃ b, s.reactor r = .reading b := by
  refine (hfair.wakes r).leadsTo (fun s e s' hs h hst => ?_) (hfair.returns r k)
  obtain ⟨⟨hb, hidle⟩, hfd⟩ := h
  obtain hgoal | hstay := idle_next hs hst hb hidle
  · exact .inl hgoal
  refine .inr ⟨⟨hstay, eventfd_pos_next hfd hst (not_read_of_idle hst hidle)⟩, ?_⟩
  rintro ⟨rfl, -⟩
  cases hst with
  | wake _ =>
    have := hstay.2
    simp only [setReactor, update_self, ReactorPhase.Idle] at this

/-- What a worker is about to announce is looked at. -/
theorem Fair.announces (hfair : Fair ρ) (r : Fin P.numReactors) (w : P.Worker) (k : Nat) :
    ρ.LeadsTo
      (fun s => (Behind (numFinalized r) (numCompleted r) k s ∧ (s.reactor r).Idle) ∧
        s.worker w = .signalling r)
      fun s => k < numFinalized r s ∨
        Behind (numFinalized r) (numCompleted r) k s ∧ ∃ b, s.reactor r = .reading b := by
  have hwrite : ρ.LeadsTo
      (fun s => (Behind (numFinalized r) (numCompleted r) k s ∧ (s.reactor r).Idle) ∧
        s.worker w = .signalling r)
      fun s => (k < numFinalized r s ∨
        Behind (numFinalized r) (numCompleted r) k s ∧ ∃ b, s.reactor r = .reading b) ∨
        (Behind (numFinalized r) (numCompleted r) k s ∧ (s.reactor r).Idle) ∧
          0 < (s.completion r).eventfd := by
    refine (hfair.works w).leadsTo (fun s e s' hs ⟨⟨hb, hidle⟩, hw⟩ hst => ?_)
      fun s hs ⟨_, hw⟩ => works_enabled hs (by rw [hw]; exact Nat.one_pos)
    obtain hgoal | hstay := idle_next hs hst hb hidle
    · exact .inl (.inl hgoal)
    by_cases he : workerOf e = some w
    · have hshift := hst.shift he
      obtain ⟨ph', hph'⟩ : ∃ ph', s'.worker w = ph' := ⟨_, rfl⟩
      rw [hw, hph'] at hshift
      cases hshift with
      | signal _ hfd => exact .inl (.inr ⟨hstay, hfd⟩)
    · exact .inr ⟨⟨hstay, (worker_frame hst he).trans hw⟩, fun h => he h.1⟩
  exact hwrite.trans (LeadsTo.or (LeadsTo.of_imp fun _ _ h => h) (hfair.looks r k))

section
variable [Fintype P.Worker]

/-- While a queue is not empty, no worker comes to write its reactor's eventfd. -/
theorem noise_next (htail : (s.completion r).links.tail ≠ none) (h : Step isFast s e s')
    (hr : reactorOf e ≠ some r) : noise s' r ≤ noise s r := by
  have hne : ∀ {r'}, reactorOf e = some r' → r ≠ r' := by
    rintro r' h rfl
    exact hr h
  have hset : ∀ {w : P.Worker} {ph : WorkerPhase Slot P.numReactors}, ph.signals r = false →
      ∀ w', (update s.worker w ph w').signals r = true → (s.worker w').signals r = true := by
    intro w ph hph w' h
    by_cases hw : w' = w
    · subst hw
      rw [update_self, hph] at h
      cases h
    · rwa [update_of_ne hw] at h
  cases h with
  | enqueue _ hs =>
    obtain ⟨-, -, rfl⟩ := workerPoolEnqueue_eq_some hs
    exact Nat.le_refl _
  | take | process | unlink | lose | leave | signalFails =>
    exact noise_le rfl (hset rfl)
  | @append w t r' _ _ =>
    by_cases h : r = r'
    · subst h
      refine noise_le (by simp only [serverNotifyTaskDone, update_self]) ?_
      simp only [serverNotifyTaskDone, if_neg htail]
      exact hset rfl
    · refine noise_le (by simp only [serverNotifyTaskDone, update_of_ne h]) ?_
      refine hset ?_
      split
      · exact decide_eq_false fun heq => h heq.symm
      · rfl
  | @signal w r' hw =>
    by_cases h : r = r'
    · subst h
      refine Nat.le_of_lt (noise_lt (w := w) ?_ ?_ (hset rfl))
      · rw [hw]
        exact decide_eq_true rfl
      · simp only [setEventfd, setWorker, update_self, WorkerPhase.signals]
    · exact noise_le (by simp only [setEventfd, setWorker, update_of_ne h]) (hset rfl)
  | read => exact noise_le (by simp only [setEventfd, setReactor, update_of_ne (hne rfl)]) fun _ => id
  | detach => exact noise_le (by simp only [detachQueue, update_of_ne (hne rfl)]) fun _ => id
  | _ => exact Nat.le_refl _

/-- The loop that reads the eventfd ends. -/
theorem Fair.drains (hfair : Fair ρ) (r : Fin P.numReactors) (k : Nat) :
    ρ.LeadsTo
      (fun s => Behind (numFinalized r) (numCompleted r) k s ∧ ∃ b, s.reactor r = .reading b)
      fun s => k < numFinalized r s ∨
        Behind (numFinalized r) (numCompleted r) k s ∧ 0 < (s.reactor r).rank := by
  refine (hfair.callbacks r).leadsTo_rank (fun s => noise s r)
    (fun s e s' hs ⟨hb, b, hph⟩ _ hst => ?_)
    fun s _ ⟨_, b, hph⟩ _ => callback_enabled (by rw [hph]; nofun) (by rw [hph]; nofun)
  obtain hlt | hb' := done_next hb hst
  · exact .inl (.inl hlt)
  by_cases hr : reactorOf e = some r
  · have hturn := hst.turn hr
    obtain ⟨ph', hph'⟩ : ∃ ph', s'.reactor r = ph' := ⟨_, rfl⟩
    rw [hph, hph'] at hturn
    cases hturn with
    | read _ hfd hfd' hworker =>
      have hlt : noise s' r < noise s r := by
        rw [noise, noise, hworker, if_pos hfd', if_neg (Nat.ne_of_gt hfd)]
        exact Nat.lt_succ_self _
      exact .inr ⟨⟨hb', true, hph'⟩, Nat.le_of_lt hlt, fun _ => hlt⟩
    | readFails => exact .inl (.inr ⟨hb', by rw [hph']; exact Nat.succ_pos 2⟩)
  · obtain ⟨v, own, hinv⟩ := inv_of_reachable hs
    have hbatch : v (.batch r) = [] := by
      have := hinv.layout.batch r
      rwa [hph] at this
    exact .inr ⟨⟨hb', b, (reactor_frame hst hr).trans hph⟩,
      noise_next (links_of_behind hinv hb hbatch).2 hst hr, fun h => absurd h.1 hr⟩

/-- A reactor that is behind finalizes its next task. -/
theorem Fair.finalized_next (hfair : Fair ρ) (r : Fin P.numReactors) (k : Nat) :
    ρ.LeadsTo (Behind (numFinalized r) (numCompleted r) k) fun s => k < numFinalized r s := by
  have hread : ρ.LeadsTo
      (fun s => k < numFinalized r s ∨
        Behind (numFinalized r) (numCompleted r) k s ∧ ∃ b, s.reactor r = .reading b)
      fun s => k < numFinalized r s := by
    have hdone : ρ.LeadsTo (fun s => k < numFinalized r s) fun s => k < numFinalized r s :=
      LeadsTo.of_imp fun _ _ h => h
    exact hdone.or ((hfair.drains r k).trans (hdone.or (hfair.serves r k)))
  have hidle : ρ.LeadsTo
      (fun s => Behind (numFinalized r) (numCompleted r) k s ∧ (s.reactor r).Idle)
      fun s => k < numFinalized r s := by
    intro i ⟨hb, hph⟩
    obtain ⟨v, own, hinv⟩ := inv_of_reachable (ρ.reachable i)
    have hbatch : v (.batch r) = [] := by
      have := hinv.layout.batch r
      cases h : (ρ.state i).reactor r <;> rw [h] at this hph
      case loop | accepting => exact this
      all_goals exact hph.elim
    rcases awake_of_reachable (ρ.reachable i) r (links_of_behind hinv hb hbatch).2 with
      hfd | ⟨w, hw⟩ | h | h
    · exact ((hfair.looks r k).trans hread) i ⟨⟨hb, hph⟩, hfd⟩
    · exact ((hfair.announces r w k).trans hread) i ⟨⟨hb, hph⟩, hw⟩
    · rw [h] at hph
      exact hph.elim
    · rw [h] at hph
      exact hph.elim
  have hreturn : ρ.LeadsTo
      (fun s => Behind (numFinalized r) (numCompleted r) k s ∧ s.reactor r = .batch none)
      fun s => k < numFinalized r s ∨
        Behind (numFinalized r) (numCompleted r) k s ∧ (s.reactor r).Idle := by
    refine (hfair.callbacks r).leadsTo (fun s e s' hs ⟨hb, hph⟩ hst => ?_)
      fun s _ ⟨_, hph⟩ => callback_enabled (by rw [hph]; nofun) (by rw [hph]; nofun)
    obtain hlt | hb' := done_next hb hst
    · exact .inl (.inl hlt)
    by_cases hr : reactorOf e = some r
    · have hturn := hst.turn hr
      obtain ⟨ph', hph'⟩ : ∃ ph', s'.reactor r = ph' := ⟨_, rfl⟩
      rw [hph, hph'] at hturn
      cases hturn with
      | visited => exact .inl (.inr ⟨hb', by rw [hph']; trivial⟩)
    · exact .inr ⟨⟨hb', (reactor_frame hst hr).trans hph⟩, fun h => hr h.1⟩
  intro i hb
  cases hph : (ρ.state i).reactor r with
  | loop | accepting => exact hidle i ⟨hb, by rw [hph]; trivial⟩
  | reading b => exact hread i (.inr ⟨hb, b, hph⟩)
  | drained => exact hfair.serves r k i ⟨hb, by rw [hph]; exact Nat.succ_pos 2⟩
  | finalizing => exact hfair.serves r k i ⟨hb, by rw [hph]; exact Nat.one_pos⟩
  | exited => exact absurd hph (not_exited_of_behind (ρ.reachable i) hb)
  | batch curr =>
    cases curr with
    | some t => exact hfair.serves r k i ⟨hb, by rw [hph]; exact Nat.two_pos⟩
    | none =>
      exact (hreturn.trans (LeadsTo.or (LeadsTo.of_imp fun _ _ h => h) hidle)) i ⟨hb, hph⟩

end

/-! ## Whole runs -/

/-- No ticket is accepted twice. -/
def AcceptedOnce (s : State P Slot Job) : Prop :=
  (∀ p, (s.hist.accepted p).Nodup) ∧
    ∀ p q, ∀ n ∈ s.hist.accepted p, n ∈ s.hist.accepted q → p = q

omit [DecidableEq P.Worker] in
theorem AcceptedOnce.accept (H : AcceptedOnce s)
    (hlt : ∀ p, ∀ n ∈ s.hist.accepted p, n < s.hist.clock) (p : PoolId) (t : Slot) :
    AcceptedOnce (appendTask s p t) := by
  have hmem : ∀ q n, n ∈ (appendTask s p t).hist.accepted q ↔
      n ∈ s.hist.accepted q ∨ q = p ∧ n = s.hist.clock := by
    intro q n
    by_cases hq : q = p
    · subst hq
      simp only [appendTask, update_self, List.mem_append, List.mem_singleton, true_and]
    · simp only [appendTask, update_of_ne hq, hq, false_and, or_false]
  have hfresh : ∀ q, s.hist.clock ∉ s.hist.accepted q :=
    fun q h => Nat.lt_irrefl _ (hlt q _ h)
  refine ⟨fun q => ?_, fun q q' n hn hn' => ?_⟩
  · by_cases hq : q = p
    · subst hq
      simp only [appendTask, update_self]
      exact List.nodup_append.mpr ⟨H.1 q, List.nodup_singleton _, fun a ha b hb hab =>
        hfresh q (List.mem_singleton.mp hb ▸ hab ▸ ha)⟩
    · simp only [appendTask, update_of_ne hq]
      exact H.1 q
  · rcases (hmem q n).mp hn with h | ⟨rfl, rfl⟩ <;>
      rcases (hmem q' _).mp hn' with h' | ⟨rfl, h'⟩
    · exact H.2 q q' n h h'
    · exact absurd (h' ▸ h) (hfresh q)
    · exact absurd h' (hfresh q')
    · rfl

theorem acceptedOnce_of_reachable {G : State P Slot Job → Event P Slot Job → Prop}
    (H : (system P Slot isFast).Reachable G s) : AcceptedOnce s := by
  refine H.invariant (I := AcceptedOnce) ?_ fun s e s' hs h _ hst => ?_
  · rintro s rfl
    exact ⟨fun _ => .nil, fun _ _ _ hn => by cases hn⟩
  · obtain ⟨v, own, hinv⟩ := inv_of_reachable hs
    cases hst with
    | enqueue _ hq =>
      obtain ⟨-, -, rfl⟩ := workerPoolEnqueue_eq_some hq
      exact h.accept hinv.logs.accepted_lt _ _
    | _ => exact h

/-- A taken task has left its pool. -/
theorem stage_of_taken (H : (system P Slot isFast).Reachable (fun _ _ => True) s)
    (hn : n ∈ s.hist.taken p) :
    (∃ r, n ∈ s.hist.finalized r) ∨ (∃ w, Carrying w n s) ∨ ∃ r, n ∈ s.hist.completed r := by
  obtain ⟨v, own, hinv⟩ := inv_of_reachable H
  have honce := acceptedOnce_of_reachable H
  have haccepted : n ∈ s.hist.accepted p := by
    rw [hinv.logs.pool p]
    exact List.mem_append_left _ hn
  obtain hfin | ⟨t, hfly, hticket⟩ := hinv.tickets.total n (hinv.logs.accepted_lt p n haccepted)
  · exact .inl hfin
  have hdone : ∀ {r x}, own t = .lane x → x = .done r ∨ x = .batch r →
      ∃ r, n ∈ s.hist.completed r := by
    intro r x hown hx
    refine ⟨r, ?_⟩
    rw [hinv.logs.done r, List.map_append, ← hticket]
    have hmem := (hinv.layout.lane_iff t x).mpr hown
    obtain rfl | rfl := hx
    · exact List.mem_append_right _ (List.mem_append_right _ (List.mem_map_of_mem hmem))
    · exact List.mem_append_right _ (List.mem_append_left _ (List.mem_map_of_mem hmem))
  cases hown : own t with
  | free | reactor =>
    rw [hown] at hfly
    exact hfly.elim
  | worker w => exact .inr (.inl ⟨w, t, (hinv.layout.worker_iff t w).mpr hown, hticket⟩)
  | lane x =>
    cases x with
    | done r => exact .inr (.inr (hdone hown (.inl rfl)))
    | batch r => exact .inr (.inr (hdone hown (.inr rfl)))
    | pool q =>
      -- a ticket in the pool is not among those taken from it
      have hqueued : n ∈ (v (.pool q)).map s.hist.ticket :=
        hticket ▸ List.mem_map_of_mem ((hinv.layout.lane_iff t _).mpr hown)
      have hq : n ∈ s.hist.accepted q := by
        rw [hinv.logs.pool q]
        exact List.mem_append_right _ hqueued
      obtain rfl := honce.2 p q n haccepted hq
      have hnodup := honce.1 p
      rw [hinv.logs.pool p, List.nodup_append] at hnodup
      exact absurd rfl (hnodup.2.2 n hn n hqueued)

theorem Fair.accepted_taken (hfair : Fair ρ) (p : PoolId) (n : Nat) :
    ρ.LeadsTo (fun s => n ∈ s.hist.accepted p) fun s => n ∈ s.hist.taken p := by
  refine LeadsTo.catchUp_mem (fun s e t _ h => Step.accepted_prefix h p) (fun s hs => ?_)
    (hfair.taken_next p) n
  obtain ⟨v, own, hinv⟩ := inv_of_reachable hs
  rw [hinv.logs.pool p]
  exact List.prefix_append ..

theorem Fair.completed_finalized [Fintype P.Worker] (hfair : Fair ρ) (r : Fin P.numReactors)
    (n : Nat) :
    ρ.LeadsTo (fun s => n ∈ s.hist.completed r) fun s => n ∈ s.hist.finalized r := by
  refine LeadsTo.catchUp_mem (fun s e t _ h => Step.completed_prefix h r) (fun s hs => ?_)
    (hfair.finalized_next r) n
  obtain ⟨v, own, hinv⟩ := inv_of_reachable hs
  rw [hinv.logs.done r]
  exact List.prefix_append ..

/-- In a fair run every accepted task is finalized. -/
theorem Fair.finalizes [Fintype P.Worker] (hfair : Fair ρ) (n : Nat) :
    ρ.LeadsTo (fun s => n < s.hist.clock) fun s => ∃ r, n ∈ s.hist.finalized r := by
  have hcompleted : ρ.LeadsTo (fun s => ∃ r, n ∈ s.hist.completed r)
      fun s => ∃ r, n ∈ s.hist.finalized r := by
    intro i ⟨r, hr⟩
    obtain ⟨j, hij, hj⟩ := hfair.completed_finalized r n i hr
    exact ⟨j, hij, r, hj⟩
  have hcarrying : ρ.LeadsTo (fun s => ∃ w, Carrying w n s)
      fun s => ∃ r, n ∈ s.hist.finalized r :=
    fun i ⟨w, hw⟩ => ((hfair.completed_next w n).trans hcompleted) i hw
  intro i hn
  obtain ⟨v, own, hinv⟩ := inv_of_reachable (ρ.reachable i)
  obtain ⟨p, hp⟩ := hinv.logs.total n hn
  have htaken : ρ.LeadsTo (fun s => n ∈ s.hist.taken p) fun s => ∃ r, n ∈ s.hist.finalized r :=
    (LeadsTo.of_imp fun _ hs h => stage_of_taken hs h).trans
      (LeadsTo.or (LeadsTo.of_imp fun _ _ h => h) (hcarrying.or hcompleted))
  exact ((hfair.accepted_taken p n).trans htaken) i hp

/-- A run that comes to rest when all is done is fair. -/
theorem Fair.of_resting {m : Nat} (hrest : ∀ i, m ≤ i → ρ.state i = s) (h : Resting s) :
    Fair ρ := by
  refine ⟨fun w => StrongFair.weakFair (.of_resting hrest ?_),
    fun p => StrongFair.weakFair (.of_resting hrest ?_),
    fun r => StrongFair.weakFair (.of_resting hrest ?_), fun r => .of_resting hrest ?_⟩
  · rintro ⟨e, t, he, -⟩
    exact he.2 (h.worker w)
  · rintro ⟨_, t, ⟨w, -, rfl⟩, hst⟩
    cases hst with
    | take _ hhead => cases hhead.symm.trans (h.pool _)
  · rintro ⟨e, t, he, -⟩
    exact he.2 (h.reactor r)
  · rintro ⟨e, t, he, -⟩
    exact Nat.ne_of_gt he.2 (h.completion r).2

end
end ApiServer.Pipeline
