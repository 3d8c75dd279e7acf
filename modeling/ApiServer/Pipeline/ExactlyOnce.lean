import ApiServer.Pipeline.Shutdown

/-!
# The delivery guarantee

The invariants of the layout, the tickets and the shutdown put together, for every state the server
can reach.
-/

namespace ApiServer.Pipeline
open Function

section
variable {P : Topology} {Slot Job : Type}

/-- Where a ticket is: with a slot in flight, or behind a reactor. -/
inductive Stage (P : Topology) where
  | inFlight (p : Place P)
  | finalized (r : Fin P.numReactors)

def AtStage (s : State P Slot Job) (v : Lane P.numReactors → List Slot) (n : Nat) : Stage P → Prop
  | .inFlight p => p.InFlight ∧ ∃ t, InPlace s v t p ∧ s.hist.ticket t = n
  | .finalized r => n ∈ s.hist.finalized r

variable {s s' : State P Slot Job} {v : Lane P.numReactors → List Slot} {own : Slot → Place P}
  {n : Nat}

namespace Inv

theorem atStage_inFlight (H : Inv s v own) {p : Place P} (h : AtStage s v n (.inFlight p)) :
    ∃ t, own t = p ∧ (own t).InFlight ∧ s.hist.ticket t = n := by
  obtain ⟨hp, t, ht, e⟩ := h
  have hown := (H.layout.placed t p).mp ht
  exact ⟨t, hown, hown ▸ hp, e⟩

theorem existsUnique_stage (H : Inv s v own) (hn : n < s.hist.clock) :
    ∃! st, AtStage s v n st := by
  rcases H.tickets.total n hn with ⟨r, hr⟩ | ⟨t, ht, rfl⟩
  · refine ⟨.finalized r, hr, fun st hst => ?_⟩
    cases st with
    | inFlight p =>
      obtain ⟨t, -, ht, e⟩ := H.atStage_inFlight hst
      exact absurd e (H.tickets.finalized_out r n hr t ht)
    | finalized r' =>
      have h := (H.tickets.finalized_owner r' n hst).symm.trans (H.tickets.finalized_owner r n hr)
      rw [Fin.ext h]
  · refine ⟨.inFlight (own t), ⟨ht, t, (H.layout.placed t _).mpr rfl, rfl⟩, fun st hst => ?_⟩
    cases st with
    | inFlight p =>
      obtain ⟨u, rfl, hu, e⟩ := H.atStage_inFlight hst
      rw [H.tickets.inj u t hu ht e]
    | finalized r => exact absurd rfl (H.tickets.finalized_out r _ hst t ht)

theorem nodup_tickets (H : Inv s v own) (x : Lane P.numReactors) :
    ((v x).map s.hist.ticket).Nodup := by
  have hfly : ∀ t ∈ v x, (own t).InFlight := by
    intro t ht
    rw [(H.layout.lane_iff t x).mp ht]
    trivial
  exact (List.nodup_map_iff_inj_on (H.layout.nodup x)).mpr
    fun t ht u hu => H.tickets.inj t u (hfly t ht) (hfly u hu)

theorem owner_eq (H : Inv s v own) {r : Fin P.numReactors} (h : AtStage s v n (.finalized r) ∨
    AtStage s v n (.inFlight (.lane (.done r))) ∨ AtStage s v n (.inFlight (.lane (.batch r)))) :
    s.hist.owner n = r := by
  have hlane : ∀ x, (∀ rid, AtHome rid (.lane x : Place P) → rid = r) →
      AtStage s v n (.inFlight (.lane x)) → s.hist.owner n = r := by
    intro x hx h
    obtain ⟨t, hown, ht, rfl⟩ := H.atStage_inFlight h
    rw [H.tickets.owner t ht]
    exact hx _ (hown ▸ H.tickets.home t)
  rcases h with h | h | h
  · exact H.tickets.finalized_owner r n h
  · exact hlane (.done r) (fun _ h => h) h
  · exact hlane (.batch r) (fun _ h => h) h

/-- After the shutdown no slot is anywhere in the pipeline. -/
theorem free_of_halted (H : Inv s v own) (C : Closing s) (hm : s.main = .halted) (t : Slot) :
    own t = .free := by
  have hworkers := C.joined (by rw [hm]; trivial)
  have hin := (H.layout.placed t (own t)).mpr rfl
  cases hown : own t with
  | free => rfl
  | reactor r =>
    rw [hown, InPlace, C.halted hm r] at hin
    cases hin
  | worker w =>
    rw [hown, InPlace, hworkers w] at hin
    cases hin
  | lane x =>
    rw [hown, InPlace] at hin
    have hempty : v x = [] := by
      cases x with
      | pool p =>
        obtain ⟨w, rfl⟩ := P.served p
        exact (H.layout.pool _).head_eq_none.mp (C.exited w (hworkers w)).2
      | done r => exact (H.layout.done r).head_eq_none.mp (C.seen r (by rw [hm]; exact r.isLt))
      | batch r =>
        have hb := H.layout.batch r
        rwa [C.halted hm r] at hb
    rw [hempty] at hin
    cases hin

theorem finalized_of_halted (H : Inv s v own) (C : Closing s) (hm : s.main = .halted)
    (hn : n < s.hist.clock) : ∃ r, n ∈ s.hist.finalized r ∧ s.hist.owner n = r := by
  rcases H.tickets.total n hn with ⟨r, hr⟩ | ⟨t, ht, -⟩
  · exact ⟨r, hr, H.tickets.finalized_owner r n hr⟩
  · rw [H.free_of_halted C hm t] at ht
    exact ht.elim

end Inv

end

section
variable {P : Topology} {Slot Job : Type} [DecidableEq Slot] [DecidableEq P.Worker]
  {s s' : State P Slot Job} {isFast : Job → Bool}

/-- A pool that is shut down stays so and accepts nothing. -/
theorem Step.shutdown {e : Event P Slot Job} (h : Step isFast s e s') {p : PoolId}
    (hp : (s.pool p).shutdown = true) :
    (s'.pool p).shutdown = true ∧ s'.hist.accepted p = s.hist.accepted p := by
  cases h with
  | @enqueue _ r t hr hs =>
    obtain ⟨hdown, -, rfl⟩ := workerPoolEnqueue_eq_some hs
    have hne : p ≠ poolFor isFast s t := by
      rintro rfl
      rw [hp] at hdown
      cases hdown
    simp only [setReactor, appendTask, update_of_ne hne]
    exact ⟨hp, trivial⟩
  | @take w t _ _ =>
    refine ⟨?_, rfl⟩
    by_cases h : p = P.poolOf w
    · subst h
      simp only [workerDequeue, update_self]
      exact hp
    · simp only [workerDequeue, update_of_ne h]
      exact hp
  | stopFast _ =>
    cases p with
    | fast => exact ⟨rfl, rfl⟩
    | slow => exact ⟨hp, rfl⟩
  | stopSlow _ =>
    cases p with
    | fast => exact ⟨hp, rfl⟩
    | slow => exact ⟨rfl, rfl⟩
  | _ => exact ⟨hp, rfl⟩

theorem Step.size_le {e : Event P Slot Job} (h : Step isFast s e s') (hmax : 0 < P.maxQueueSize)
    (H : ∀ p, (s.pool p).size ≤ P.maxQueueSize) : ∀ p, (s'.pool p).size ≤ P.maxQueueSize := by
  have hupdate : ∀ q (x : Pool Slot), x.size ≤ P.maxQueueSize →
      ∀ p, (update s.pool q x p).size ≤ P.maxQueueSize := by
    intro q x hx p
    by_cases hp : p = q
    · subst hp
      rw [update_self]
      exact hx
    · rw [update_of_ne hp]
      exact H p
  cases h with
  | enqueue _ hs =>
    obtain ⟨-, hroom, rfl⟩ := workerPoolEnqueue_eq_some hs
    exact hupdate _ _ (hroom hmax)
  | take _ _ => exact hupdate _ _ (Nat.le_trans (Nat.sub_le ..) (H _))
  | stopFast _ => exact hupdate _ _ (H _)
  | stopSlow _ => exact hupdate _ _ (H _)
  | _ => exact H

/-- What the two kinds of queues guarantee, with `v` the lists that the pointers represent. -/
structure Delivered (isFast : Job → Bool) (s : State P Slot Job)
    (v : Lane P.numReactors → List Slot) : Prop where
  pool : ∀ p, (s.pool p).links.IsQueue s.next (v (.pool p))
  done : ∀ r, (s.completion r).links.IsQueue s.next (v (.done r))
  batch : ∀ r, IsBatch s.next (s.reactor r) (v (.batch r))
  poolEnds : ∀ p, (s.pool p).links.tail = none ↔ (s.pool p).links.head = none
  doneEnds : ∀ r, (s.completion r).links.tail = none ↔ (s.completion r).links.head = none
  size : ∀ p, (s.pool p).size = (v (.pool p)).length
  size_le : 0 < P.maxQueueSize → ∀ p, (s.pool p).size ≤ P.maxQueueSize
  stage : ∀ p, ∀ n ∈ s.hist.accepted p, ∃! st, AtStage s v n st
  nodup : ∀ x, ((v x).map s.hist.ticket).Nodup
  finalized_nodup : ∀ r, (s.hist.finalized r).Nodup
  /-- Only the reactor that had the task accepted sees it again. -/
  home : ∀ n r, AtStage s v n (.finalized r) ∨ AtStage s v n (.inFlight (.lane (.done r))) ∨
    AtStage s v n (.inFlight (.lane (.batch r))) → s.hist.owner n = r
  poolFifo : ∀ p, s.hist.accepted p = s.hist.taken p ++ (v (.pool p)).map s.hist.ticket
  doneFifo : ∀ r, s.hist.completed r =
    s.hist.finalized r ++ (v (.batch r) ++ v (.done r)).map s.hist.ticket
  shutdown : ∀ p, (s.pool p).shutdown = true → ∀ e s', Step isFast s e s' →
    (s'.pool p).shutdown = true ∧ s'.hist.accepted p = s.hist.accepted p
  exited : (∀ w, s.worker w = .exited) → ∀ p, (s.pool p).links.head = none
  halted : s.main = .halted → ∀ p, ∀ n ∈ s.hist.accepted p,
    ∃ r, n ∈ s.hist.finalized r ∧ s.hist.owner n = r

/-- Every interleaving delivers each accepted task exactly once. -/
theorem delivered_of_reachable {G : State P Slot Job → Event P Slot Job → Prop}
    (H : (system P Slot isFast).Reachable G s) : ∃ v, Delivered isFast s v := by
  obtain ⟨v, own, hinv⟩ := inv_of_reachable H
  have hclosing := closing_of_reachable H
  have hlt : ∀ p, ∀ n ∈ s.hist.accepted p, n < s.hist.clock := hinv.logs.accepted_lt
  refine ⟨v, hinv.layout.pool, hinv.layout.done, hinv.layout.batch, fun p => ?_, fun r => ?_,
    hinv.layout.size, fun hmax => ?_, fun p n hn => hinv.existsUnique_stage (hlt p n hn),
    hinv.nodup_tickets, hinv.tickets.finalized_nodup, fun n r h => hinv.owner_eq h,
    hinv.logs.pool, hinv.logs.done, fun p hp e s' h => h.shutdown hp, fun hall p => ?_,
    fun hm p n hn => hinv.finalized_of_halted hclosing hm (hlt p n hn)⟩
  · rw [(hinv.layout.pool p).tail_eq_none, (hinv.layout.pool p).head_eq_none]
  · rw [(hinv.layout.done r).tail_eq_none, (hinv.layout.done r).head_eq_none]
  · refine H.invariant (I := fun s => ∀ p, (s.pool p).size ≤ P.maxQueueSize) ?_ ?_
    · rintro s rfl p
      exact Nat.zero_le _
    · exact fun s e s' _ h _ hs => hs.size_le hmax h
  · obtain ⟨w, rfl⟩ := P.served p
    exact (hclosing.exited w (hall w)).2

end

/-- One reactor, three workers and queues of ten, after one task has been accepted. -/
theorem delivered_of_reachable_one :
    ∃ v, Delivered id (setReactor (appendTask (fillTask
      ({} : State (.ofConfig 1 3 50 10) Nat Bool) ⟨0, Nat.one_pos⟩ 7 true) .fast 7)
        ⟨0, Nat.one_pos⟩ .loop) v :=
  delivered_of_reachable (G := fun _ _ => True)
    (.step (.step (.init rfl) trivial (.receive rfl rfl)) trivial (.enqueue rfl rfl))

end ApiServer.Pipeline
