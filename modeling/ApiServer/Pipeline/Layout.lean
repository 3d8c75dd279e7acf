import ApiServer.Pipeline

/-!
# Where the tasks are

`Layout s v own` says that the pointers of the state `s` represent the lists `v`, and that every
slot is at the place `own` gives it and nowhere else. All queues share the `next` field, so a write
to it is harmless because the slot written to is in one place only.
-/

namespace ApiServer.Pipeline
open Function

/-- The lists of slots. -/
inductive Lane (R : Nat) where
  | pool (p : PoolId)
  | done (r : Fin R)
  | batch (r : Fin R)
  deriving DecidableEq

inductive Place (P : Topology) where
  | free
  /-- Leased by the reactor and not enqueued yet. -/
  | reactor (r : Fin P.numReactors)
  | worker (w : P.Worker)
  | lane (x : Lane P.numReactors)

section
variable {P : Topology} {Slot Job : Type}

def InPlace (s : State P Slot Job) (v : Lane P.numReactors → List Slot) (t : Slot) :
    Place P → Prop
  | .free => s.leased t = false
  | .reactor r => (s.reactor r).task = some t
  | .worker w => (s.worker w).task = some t
  | .lane x => t ∈ v x

/-- The list a reactor walks, the task it is finalizing included. -/
def IsBatch (next : Slot → Option Slot) : ReactorPhase Slot → List Slot → Prop
  | .batch curr, l => Chain next curr l
  | .finalizing t curr, l => ∃ l', l = t :: l' ∧ Chain next curr l'
  | _, l => l = []

structure Layout (s : State P Slot Job) (v : Lane P.numReactors → List Slot)
    (own : Slot → Place P) : Prop where
  placed : Placed (InPlace s v) own
  nodup : ∀ x, (v x).Nodup
  pool : ∀ p, (s.pool p).links.IsQueue s.next (v (.pool p))
  size : ∀ p, (s.pool p).size = (v (.pool p)).length
  done : ∀ r, (s.completion r).links.IsQueue s.next (v (.done r))
  batch : ∀ r, IsBatch s.next (s.reactor r) (v (.batch r))
  unlinked : ∀ w t, s.worker w = .unlinked t → s.next t = none

theorem IsBatch.frame {next next' : Slot → Option Slot} {ph : ReactorPhase Slot} {l : List Slot}
    (H : IsBatch next ph l) (heq : ∀ t ∈ l, next' t = next t) : IsBatch next' ph l := by
  cases ph with
  | batch curr => exact Chain.frame H heq
  | finalizing t curr =>
    obtain ⟨l', rfl, hl⟩ := H
    exact ⟨l', rfl, hl.frame fun u hu => heq u (.tail t hu)⟩
  | loop => exact H
  | accepting => exact H
  | reading => exact H
  | drained => exact H
  | exited => exact H

variable {s s' : State P Slot Job} {v : Lane P.numReactors → List Slot} {own : Slot → Place P}
  {t : Slot}

namespace Layout

theorem init : Layout ({} : State P Slot Job) (fun _ => []) fun _ => .free where
  placed t p := by
    cases p with
    | free => exact ⟨fun _ => rfl, fun _ => rfl⟩
    | reactor => exact ⟨nofun, nofun⟩
    | worker => exact ⟨nofun, nofun⟩
    | lane => exact ⟨nofun, nofun⟩
  nodup _ := .nil
  pool _ := .empty _
  size _ := rfl
  done _ := .empty _
  batch _ := rfl
  unlinked := nofun

/-- Steps that move no task and touch no pointer. -/
theorem congr (H : Layout s v own) (hleased : s'.leased = s.leased) (hnext : s'.next = s.next)
    (hpool : ∀ p, (s'.pool p).links = (s.pool p).links ∧ (s'.pool p).size = (s.pool p).size)
    (hdone : ∀ r, (s'.completion r).links = (s.completion r).links)
    (hworker : ∀ w, (s'.worker w).task = (s.worker w).task)
    (hunl : ∀ w t, s'.worker w = .unlinked t → s.worker w = .unlinked t)
    (hacc : ∀ r, (s'.reactor r).task = (s.reactor r).task)
    (hbatch : ∀ r, IsBatch s.next (s'.reactor r) (v (.batch r))) : Layout s' v own where
  placed t p := by
    refine Iff.trans ?_ (H.placed t p)
    cases p with
    | free => rw [InPlace, InPlace, hleased]
    | reactor r => rw [InPlace, InPlace, hacc]
    | worker w => rw [InPlace, InPlace, hworker]
    | lane x => exact Iff.rfl
  nodup := H.nodup
  pool p := by rw [hnext, (hpool p).1]; exact H.pool p
  size p := by rw [(hpool p).2]; exact H.size p
  done r := by rw [hnext, hdone r]; exact H.done r
  batch r := by rw [hnext]; exact hbatch r
  unlinked w t h := by rw [hnext]; exact H.unlinked w t (hunl w t h)

/-! The four kinds of places, read off `own`. -/

theorem free_iff (H : Layout s v own) (i : Slot) : s.leased i = false ↔ own i = .free :=
  H.placed i .free

theorem reactor_iff (H : Layout s v own) (i : Slot) (r : Fin P.numReactors) :
    (s.reactor r).task = some i ↔ own i = .reactor r :=
  H.placed i (.reactor r)

theorem worker_iff (H : Layout s v own) (i : Slot) (w : P.Worker) :
    (s.worker w).task = some i ↔ own i = .worker w :=
  H.placed i (.worker w)

theorem lane_iff (H : Layout s v own) (i : Slot) (x : Lane P.numReactors) :
    i ∈ v x ↔ own i = .lane x :=
  H.placed i (.lane x)

theorem reactor_own (H : Layout s v own) {r : Fin P.numReactors} (h : s.reactor r = .accepting t) :
    own t = .reactor r :=
  (H.reactor_iff t r).mp (by rw [h]; rfl)

theorem worker_own (H : Layout s v own) {w : P.Worker} {ph : WorkerPhase Slot P.numReactors}
    (h : s.worker w = ph) (ht : ph.task = some t) : own t = .worker w :=
  (H.worker_iff t w).mp (by rw [h]; exact ht)

theorem ne_of_lane {a : Place P} {x y : Lane P.numReactors} (h : a = .lane y) (hne : y ≠ x) :
    a ≠ .lane x :=
  fun e => hne (Place.lane.inj (h.symm.trans e))

/-- The lists, when `t` joins the lane `x`. -/
def join (v : Lane P.numReactors → List Slot) (x : Lane P.numReactors) (t : Slot) :
    Lane P.numReactors → List Slot :=
  update v x (v x ++ [t])

theorem nodup_join (H : Layout s v own) (x : Lane P.numReactors) (ht : ∀ y, own t ≠ .lane y) :
    ∀ y, (join v x t y).Nodup := by
  have hlane := H.lane_iff
  refine forall_update (P := fun _ => List.Nodup) ?_ H.nodup
  refine List.nodup_append.mpr ⟨H.nodup x, List.nodup_singleton t, ?_⟩
  grind

end Layout

/-- The batches after one reactor has gone to another phase. -/
theorem isBatch_update {next : Slot → Option Slot} {reactor : Fin P.numReactors → ReactorPhase Slot}
    {r : Fin P.numReactors} {ph : ReactorPhase Slot} {l : Fin P.numReactors → List Slot}
    (hr : IsBatch next ph (l r)) (H : ∀ r', r' ≠ r → IsBatch next (reactor r') (l r')) :
    ∀ r', IsBatch next (update reactor r ph r') (l r') := by
  intro r'
  by_cases h : r' = r
  · subst h
    rw [update_self]
    exact hr
  · rw [update_of_ne h]
    exact H r' h

namespace Layout

/-- A reactor goes from one phase to another, neither of which has a task of its own. -/
theorem reactor_phase (H : Layout s v own) {r : Fin P.numReactors} {ph : ReactorPhase Slot}
    (hr : (s.reactor r).task = none) (hph : ph.task = none)
    (hbatch : IsBatch s.next ph (v (.batch r))) : Layout (setReactor s r ph) v own := by
  refine H.congr rfl rfl (fun _ => ⟨rfl, rfl⟩) (fun _ => rfl) (fun _ => rfl) (fun _ _ h => h) ?_ ?_
  · intro r'
    by_cases h : r' = r
    · subst h
      simp only [setReactor, update_self, hr, hph]
    · simp only [setReactor, update_of_ne h]
  · exact isBatch_update hbatch fun r' _ => H.batch r'

theorem eventfd (H : Layout s v own) (r : Fin P.numReactors) (n : Nat) :
    Layout (setEventfd s r n) v own := by
  refine H.congr rfl rfl (fun _ => ⟨rfl, rfl⟩) ?_ (fun _ => rfl) (fun _ _ h => h) (fun _ => rfl)
    H.batch
  intro r'
  by_cases h : r' = r
  · subst h
    simp only [setEventfd, update_self]
  · simp only [setEventfd, update_of_ne h]

theorem shutdown (H : Layout s v own) (p : PoolId) (main : MainPhase) :
    Layout (setShutdown s p main) v own := by
  refine H.congr rfl rfl ?_ (fun _ => rfl) (fun _ => rfl) (fun _ _ h => h) (fun _ => rfl) H.batch
  intro p'
  by_cases h : p' = p
  · subst h
    simp only [setShutdown, update_self, and_self]
  · simp only [setShutdown, update_of_ne h, and_self]

/-- A worker goes from one phase to another with the same task, or with none. -/
theorem worker_phase [DecidableEq P.Worker] (H : Layout s v own) {w : P.Worker}
    {ph : WorkerPhase Slot P.numReactors}
    (hw : (s.worker w).task = ph.task) (hph : ∀ t, ph ≠ .unlinked t) :
    Layout (setWorker s w ph) v own := by
  refine H.congr rfl rfl (fun _ => ⟨rfl, rfl⟩) (fun _ => rfl) ?_ ?_ (fun _ => rfl) H.batch
  · intro w'
    by_cases h : w' = w
    · subst h
      simp only [setWorker, update_self, hw]
    · simp only [setWorker, update_of_ne h]
  · intro w' t h
    by_cases hne : w' = w
    · subst hne
      simp only [setWorker, update_self] at h
      exact absurd h (hph t)
    · simpa only [setWorker, update_of_ne hne] using h

end Layout

end

section
variable {P : Topology} {Slot Job : Type} [DecidableEq Slot]
  {s s' : State P Slot Job} {v : Lane P.numReactors → List Slot} {own : Slot → Place P}
  {t : Slot} {r : Fin P.numReactors} {isFast : Job → Bool}

namespace Layout

theorem fillTask (H : Layout s v own) (hr : s.reactor r = .loop) (ht : s.leased t = false)
    (job : Job) : Layout (fillTask s r t job) v (update own t (.reactor r)) := by
  have hfree := H.free_iff
  have hreactor := H.reactor_iff
  have hworker := H.worker_iff
  have hlane := H.lane_iff
  have hown : own t = .free := (hfree t).mp ht
  have hnext : ∀ x, ∀ u ∈ v x, update s.next t none u = s.next u := by
    intro x u hu
    exact update_of_ne (by grind) ..
  have hbatch := H.batch r
  rw [hr] at hbatch
  refine ⟨?_, H.nodup, fun p => (H.pool p).frame (hnext _), H.size,
    fun r => (H.done r).frame (hnext _), ?_, ?_⟩
  · intro i p
    cases p with
    | free => simp only [InPlace, Pipeline.fillTask]; grind [update_apply]
    | reactor r' =>
      simp only [InPlace, Pipeline.fillTask, holder_update]
      grind [ReactorPhase.task, update_apply]
    | worker w => simp only [InPlace, Pipeline.fillTask]; grind [update_apply]
    | lane x => simp only [InPlace]; grind [update_apply]
  · exact isBatch_update hbatch fun r' _ => (H.batch r').frame (hnext _)
  · intro w u hu
    have := H.unlinked w u hu
    simp only [Pipeline.fillTask]
    grind [update_apply]

/-- A push onto the queue of a lane: it represents one more task, and only `next` fields of that
lane and of the task are written. -/
theorem push (H : Layout s v own) {q : Links Slot} {x : Lane P.numReactors}
    (hq : q.IsQueue s.next (v x)) (ht : ∀ y, own t ≠ .lane y) :
    (q.push (update s.next t none) t).2.IsQueue (q.push (update s.next t none) t).1 (v x ++ [t]) ∧
      ∀ u, u ≠ t → own u ≠ .lane x → (q.push (update s.next t none) t).1 u = s.next u := by
  have hlane := H.lane_iff
  have hframe : q.IsQueue (update s.next t none) (v x) :=
    hq.frame fun u hu => update_of_ne (by grind) ..
  refine ⟨hframe.push (H.nodup x) (by grind) (update_self ..), fun u hu hx => ?_⟩
  rw [hframe.push_next (by grind), update_of_ne hu]

theorem enqueue (H : Layout s v own) (hr : s.reactor r = .accepting t)
    (hs : workerPoolEnqueue isFast s t = some s') :
    Layout (setReactor s' r .loop) (join v (.pool (poolFor isFast s t)) t)
      (update own t (.lane (.pool (poolFor isFast s t)))) := by
  have hfree := H.free_iff
  have hreactor := H.reactor_iff
  have hworker := H.worker_iff
  have hlane := H.lane_iff
  have hown := H.reactor_own hr
  have hin : ∀ y, own t ≠ .lane y := by grind
  obtain ⟨-, -, rfl⟩ := workerPoolEnqueue_eq_some hs
  generalize poolFor isFast s t = p
  obtain ⟨hq, hnext⟩ := H.push (H.pool p) hin
  unfold appendTask
  dsimp only
  generalize (s.pool p).links.push (update s.next t none) t = pushed at hq hnext
  have hjoin : ∀ y, y ≠ .pool p → join v (.pool p) t y = v y := fun y hy => update_of_ne hy ..
  have hself : join v (.pool p) t (.pool p) = v (.pool p) ++ [t] := update_self ..
  have hframe : ∀ y, y ≠ .pool p → ∀ u ∈ v y, pushed.1 u = s.next u := by
    intro y hy u hu
    exact hnext u (by grind) (ne_of_lane ((hlane u y).mp hu) hy)
  have hbatch := H.batch r
  rw [hr] at hbatch
  refine ⟨?_, H.nodup_join _ hin, ?_, ?_, ?_, ?_, ?_⟩
  · intro i p'
    cases p' with
    | free => simp only [InPlace, setReactor]; grind [update_apply]
    | reactor r' =>
      simp only [InPlace, setReactor, holder_update]
      grind [ReactorPhase.task, update_apply]
    | worker w => simp only [InPlace, setReactor]; grind [update_apply]
    | lane x =>
      simp only [InPlace, join, mem_update_snoc]
      grind [update_apply]
  · intro p'
    by_cases hp : p' = p
    · subst hp
      simp only [setReactor, update_self, hself]
      exact hq
    · simp only [setReactor, update_of_ne hp]
      rw [hjoin _ (by grind)]
      exact (H.pool p').frame (hframe _ (by grind))
  · intro p'
    by_cases hp : p' = p
    · subst hp
      simp only [setReactor, update_self, hself, List.length_append, H.size]
      rfl
    · simp only [setReactor, update_of_ne hp]
      rw [hjoin _ (by grind)]
      exact H.size p'
  · intro r'
    rw [hjoin (.done r') nofun]
    exact (H.done r').frame (hframe (.done r') nofun)
  · refine isBatch_update (l := fun r' => join v (.pool p) t (.batch r')) ?_ fun r' _ => ?_
    · rw [hjoin (.batch r) nofun]
      exact hbatch
    · rw [hjoin (.batch r') nofun]
      exact (H.batch r').frame (hframe (.batch r') nofun)
  · intro w u hu
    have hu' := H.worker_own hu rfl
    exact (hnext u (by grind) (by grind)).trans (H.unlinked w u hu)

theorem release (H : Layout s v own) (hr : s.reactor r = .accepting t) :
    Layout (release s r t .loop) v (update own t .free) := by
  have hfree := H.free_iff
  have hreactor := H.reactor_iff
  have hworker := H.worker_iff
  have hlane := H.lane_iff
  have hown := H.reactor_own hr
  have hbatch := H.batch r
  rw [hr] at hbatch
  refine ⟨?_, H.nodup, H.pool, H.size, H.done, ?_, H.unlinked⟩
  · intro i p
    cases p with
    | free => simp only [InPlace, Pipeline.release]; grind [update_apply]
    | reactor r' =>
      simp only [InPlace, Pipeline.release, holder_update]
      grind [ReactorPhase.task, update_apply]
    | worker w => simp only [InPlace, Pipeline.release]; grind [update_apply]
    | lane x => simp only [InPlace]; grind [update_apply]
  · exact isBatch_update hbatch fun r' _ => H.batch r'

/-- The lists, when the completion queue becomes the reactor's batch. -/
def moved (v : Lane P.numReactors → List Slot) (r : Fin P.numReactors) :
    Lane P.numReactors → List Slot :=
  update (update v (.batch r) (v (.done r))) (.done r) []

theorem detach (H : Layout s v own) (hr : s.reactor r = .drained) :
    v (.batch r) = [] ∧ Layout (detachQueue s r) (moved v r)
      fun i => if i ∈ v (.done r) then .lane (.batch r) else own i := by
  have hfree := H.free_iff
  have hreactor := H.reactor_iff
  have hworker := H.worker_iff
  have hlane := H.lane_iff
  have hempty : v (.batch r) = [] := by
    have h := H.batch r
    rwa [hr] at h
  have hdone : moved v r (.done r) = [] := update_self ..
  have hbatch : moved v r (.batch r) = v (.done r) :=
    (update_of_ne (by nofun) ..).trans (update_self ..)
  have hother : ∀ y, y ≠ .done r → y ≠ .batch r → moved v r y = v y :=
    fun y h h' => (update_of_ne h ..).trans (update_of_ne h' ..)
  refine ⟨hempty, ?_, ?_, ?_, ?_, ?_, ?_, H.unlinked⟩
  · intro i p
    cases p with
    | free => simp only [InPlace, detachQueue]; grind
    | reactor r' =>
      simp only [InPlace, detachQueue, holder_update]
      grind [ReactorPhase.task]
    | worker w => simp only [InPlace, detachQueue]; grind
    | lane x =>
      simp only [InPlace]
      by_cases h : x = .done r
      · subst h
        rw [hdone]
        grind
      · by_cases h' : x = .batch r
        · subst h'
          have hi : own i ≠ .lane (.batch r) := by
            intro e
            have hmem := (hlane i _).mpr e
            rw [hempty] at hmem
            cases hmem
          rw [hbatch]
          grind
        · rw [hother x h h']
          grind
  · have h1 := forall_update (P := fun _ => List.Nodup) (k := Lane.batch r) (H.nodup (.done r)) H.nodup
    exact forall_update (P := fun _ => List.Nodup) .nil h1
  · intro p
    rw [hother (.pool p) nofun nofun]
    exact H.pool p
  · intro p
    rw [hother (.pool p) nofun nofun]
    exact H.size p
  · intro r'
    by_cases h : r' = r
    · subst h
      rw [hdone]
      simp only [detachQueue, update_self]
      exact .empty _
    · rw [hother (.done r') (by grind) nofun]
      simp only [detachQueue, update_of_ne h]
      exact H.done r'
  · refine isBatch_update (l := fun r' => moved v r (.batch r')) ?_ fun r' h => ?_
    · rw [hbatch]
      exact (H.done r).chain
    · rw [hother (.batch r') nofun (by grind)]
      exact H.batch r'

/-- The reactor frees the task it has finalized and goes on with the rest of its batch. -/
theorem finalize (H : Layout s v own) {curr : Option Slot} (hr : s.reactor r = .finalizing t curr) :
    ∃ l, v (.batch r) = t :: l ∧
      Layout (finalizeTask s r t curr) (update v (.batch r) l) (update own t .free) := by
  have hfree := H.free_iff
  have hreactor := H.reactor_iff
  have hworker := H.worker_iff
  have hlane := H.lane_iff
  have hbatch := H.batch r
  rw [hr] at hbatch
  obtain ⟨l, hl, hchain⟩ := hbatch
  have hown : own t = .lane (.batch r) := (hlane t _).mp (by rw [hl]; exact .head l)
  have hother : ∀ y, y ≠ .batch r → update v (.batch r) l y = v y := fun y hy => update_of_ne hy ..
  have hnd := H.nodup (.batch r)
  refine ⟨l, hl, ?_, ?_, ?_, ?_, ?_, ?_, H.unlinked⟩
  · intro i p
    cases p with
    | free => simp only [InPlace, finalizeTask]; grind [update_apply]
    | reactor r' =>
      simp only [InPlace, finalizeTask, holder_update]
      grind [ReactorPhase.task, update_apply]
    | worker w => simp only [InPlace, finalizeTask]; grind [update_apply]
    | lane x =>
      simp only [InPlace, mem_update_tail hl hnd]
      grind [update_apply]
  · rw [hl] at hnd
    exact forall_update (P := fun _ => List.Nodup) (List.nodup_cons.mp hnd).2 H.nodup
  · intro p
    rw [hother (.pool p) nofun]
    exact H.pool p
  · intro p
    rw [hother (.pool p) nofun]
    exact H.size p
  · intro r'
    rw [hother (.done r') nofun]
    exact H.done r'
  · refine isBatch_update (l := fun r' => update v (.batch r) l (.batch r')) ?_ fun r' h => ?_
    · rw [update_self]
      exact hchain
    · rw [hother (.batch r') (by grind)]
      exact H.batch r'

end Layout

end

section
variable {P : Topology} {Slot Job : Type} [DecidableEq Slot] [DecidableEq P.Worker]
  {s s' : State P Slot Job} {v : Lane P.numReactors → List Slot} {own : Slot → Place P}
  {t : Slot} {r : Fin P.numReactors} {w : P.Worker}

namespace Layout

theorem dequeue (H : Layout s v own) (hw : s.worker w = .loop)
    (ht : (s.pool (P.poolOf w)).links.head = some t) :
    ∃ l, v (.pool (P.poolOf w)) = t :: l ∧
      Layout (workerDequeue s w t) (update v (.pool (P.poolOf w)) l) (update own t (.worker w)) := by
  have hfree := H.free_iff
  have hreactor := H.reactor_iff
  have hworker := H.worker_iff
  have hlane := H.lane_iff
  unfold workerDequeue
  generalize P.poolOf w = p at ht ⊢
  have hq := H.pool p
  have hchain := hq.chain
  rw [ht] at hchain
  obtain ⟨l, hl, -⟩ := hchain.eq_cons
  rw [hl] at hq
  have hown : own t = .lane (.pool p) := (hlane t _).mp (by rw [hl]; exact .head l)
  have hother : ∀ y, y ≠ .pool p → update v (.pool p) l y = v y := fun y hy => update_of_ne hy ..
  have hnd := H.nodup (.pool p)
  refine ⟨l, hl, ?_, ?_, ?_, ?_, ?_, ?_, ?_⟩
  · intro i p'
    cases p' with
    | free => simp only [InPlace]; grind [update_apply]
    | reactor r' => simp only [InPlace]; grind [update_apply]
    | worker w' =>
      simp only [InPlace, holder_update]
      grind [WorkerPhase.task, update_apply]
    | lane x =>
      simp only [InPlace, mem_update_tail hl hnd]
      grind [update_apply]
  · rw [hl] at hnd
    exact forall_update (P := fun _ => List.Nodup) (List.nodup_cons.mp hnd).2 H.nodup
  · intro p'
    by_cases hp : p' = p
    · subst hp
      simp only [update_self]
      exact hq.pop
    · simp only [update_of_ne hp]
      rw [hother _ (by grind)]
      exact H.pool p'
  · intro p'
    by_cases hp : p' = p
    · subst hp
      simp only [update_self, H.size, hl]
      rfl
    · simp only [update_of_ne hp]
      rw [hother _ (by grind)]
      exact H.size p'
  · intro r'
    rw [hother (.done r') nofun]
    exact H.done r'
  · intro r'
    rw [hother (.batch r') nofun]
    exact H.batch r'
  · intro w' u hu
    refine H.unlinked w' u ?_
    by_cases h : w' = w
    · subst h
      simp only [update_self] at hu
      cases hu
    · simpa only [update_of_ne h] using hu

theorem unlink (H : Layout s v own) (hw : s.worker w = .processed t) :
    Layout { setWorker s w (.unlinked t) with next := update s.next t none } v own := by
  have hfree := H.free_iff
  have hreactor := H.reactor_iff
  have hworker := H.worker_iff
  have hlane := H.lane_iff
  have hown := H.worker_own hw rfl
  have hnext : ∀ x, ∀ u ∈ v x, update s.next t none u = s.next u := by
    intro x u hu
    exact update_of_ne (by grind) ..
  refine ⟨?_, H.nodup, fun p => (H.pool p).frame (hnext _), H.size,
    fun r => (H.done r).frame (hnext _), fun r => (H.batch r).frame (hnext _), ?_⟩
  · intro i p
    cases p with
    | free => exact hfree i
    | reactor r' => exact hreactor i r'
    | worker w' =>
      simp only [InPlace, setWorker, holder_update]
      grind [WorkerPhase.task]
    | lane x => exact hlane i x
  · intro w' u hu
    by_cases h : u = t
    · subst h
      exact update_self ..
    · simp only [setWorker] at hu
      refine (update_of_ne h ..).trans (H.unlinked w' u ?_)
      grind [update_apply]

theorem append (H : Layout s v own) (hw : s.worker w = .unlinked t) :
    Layout (serverNotifyTaskDone s w t r) (join v (.done r) t)
      (update own t (.lane (.done r))) := by
  have hfree := H.free_iff
  have hreactor := H.reactor_iff
  have hworker := H.worker_iff
  have hlane := H.lane_iff
  have hown := H.worker_own hw rfl
  have hin : ∀ y, own t ≠ .lane y := by grind
  obtain ⟨hq, hnext⟩ := H.push (H.done r) hin
  rw [update_eq_self_iff.mpr (H.unlinked w t hw).symm] at hq hnext
  unfold serverNotifyTaskDone
  dsimp only
  generalize (s.completion r).links.push s.next t = pushed at hq hnext
  have hjoin : ∀ y, y ≠ .done r → join v (.done r) t y = v y := fun y hy => update_of_ne hy ..
  have hself : join v (.done r) t (.done r) = v (.done r) ++ [t] := update_self ..
  have hframe : ∀ y, y ≠ .done r → ∀ u ∈ v y, pushed.1 u = s.next u := by
    intro y hy u hu
    exact hnext u (by grind) (ne_of_lane ((hlane u y).mp hu) hy)
  refine ⟨?_, H.nodup_join _ hin, ?_, ?_, ?_, ?_, ?_⟩
  · intro i p'
    cases p' with
    | free => simp only [InPlace]; grind [update_apply]
    | reactor r' => simp only [InPlace]; grind [update_apply]
    | worker w' =>
      simp only [InPlace, holder_update]
      grind [WorkerPhase.task, update_apply]
    | lane x =>
      simp only [InPlace, join, mem_update_snoc]
      grind [update_apply]
  · intro p'
    rw [hjoin (.pool p') nofun]
    exact (H.pool p').frame (hframe (.pool p') nofun)
  · intro p'
    rw [hjoin (.pool p') nofun]
    exact H.size p'
  · intro r'
    by_cases hr : r' = r
    · subst hr
      simp only [update_self, hself]
      exact hq
    · simp only [update_of_ne hr]
      rw [hjoin (.done r') (by grind)]
      exact (H.done r').frame (hframe (.done r') (by grind))
  · intro r'
    rw [hjoin (.batch r') nofun]
    exact (H.batch r').frame (hframe (.batch r') nofun)
  · intro w' u hu
    have hne : w' ≠ w := by
      rintro rfl
      simp only [update_self] at hu
      split at hu <;> cases hu
    simp only [update_of_ne hne] at hu
    have hu' := H.worker_own hu rfl
    exact (hnext u (by grind) (by grind)).trans (H.unlinked w' u hu)

end Layout

end

end ApiServer.Pipeline
