import ApiServer.Pipeline.ExactlyOnce
import ApiServer.Pipeline.Pooled
import Mathlib.Algebra.Order.BigOperators.Group.Finset

/-!
# When the task pool is empty

`server_init_globals` makes the slab large enough for two full queues, a task for each worker and
ten thousand more. Each reactor may keep a full cache for itself. So when `task_pool_alloc` has nothing
to return, thousands of tasks are done and wait for their reactors.
-/

namespace ApiServer.Pipeline.Pooled
open Function

/-- The size of the slab, in `server_init_globals`. -/
def slabSize (qSize bgWorkers : Nat) : Nat :=
  let safeQSize := if qSize = 0 then 100000 else qSize
  safeQSize * 2 + bgWorkers + 10000

theorem mem_leasedTasks {Thread : Type} [Fintype Thread] {N : Nat} {s : TaskPool.State Thread N}
    {i : Fin N} : i ∈ TaskPool.leasedTasks s ↔ i ∈ s.leases ∨ ∃ τ, (s.phase τ).task = some i := by
  rw [TaskPool.leasedTasks, Finset.mem_filter, and_iff_right (Finset.mem_univ i)]

theorem card_toFinset_le_one {α : Type} (o : Option α) : o.toFinset.card ≤ 1 := by
  cases o with
  | none => exact Nat.zero_le 1
  | some a => exact le_of_eq (Finset.card_singleton a)

section
variable {P : Topology} {N : Nat} {Job : Type} {s : State P N Job} {isFast : Job → Bool}

/-- What a reactor has in its hands. -/
def hand (s : State P N Job) (r : Fin P.numReactors) : Option (Fin N) :=
  (s.fresh r).or ((s.pool.phase r).task.or (s.base.reactor r).task)

theorem hand_eq_none {r : Fin P.numReactors} (h : Outside s r) (hloop : s.base.reactor r = .loop) :
    hand s r = none := by
  rw [hand, h.1, h.2, hloop]
  rfl

theorem hand_of_fresh {r : Fin P.numReactors} {t : Fin N} (h : s.fresh r = some t) :
    hand s r = some t := by
  rw [hand, h]
  rfl

theorem hand_of_call (L : Linked s) {r : Fin P.numReactors} {t : Fin N}
    (h : (s.pool.phase r).task = some t) : hand s r = some t := by
  have hnone : s.fresh r = none := by
    cases hfresh : s.fresh r with
    | none => rfl
    | some u =>
      rw [(L.fresh r u hfresh).2.1] at h
      cases h
  rw [hand, hnone, h]
  rfl

theorem hand_of_accepting (L : Linked s) {r : Fin P.numReactors} {t : Fin N}
    (h : (s.base.reactor r).task = some t) : hand s r = some t := by
  have hnone : s.fresh r = none := by
    cases hfresh : s.fresh r with
    | none => rfl
    | some u =>
      rw [(L.fresh r u hfresh).2.2] at h
      cases h
  have hidle : s.pool.phase r = .idle := by
    obtain hidle | hloop | ⟨-, curr, hbatch⟩ := L.calling r
    · exact hidle
    · rw [hloop] at h
      cases h
    · rw [hbatch] at h
      cases h
  rw [hand, hnone, hidle, h]
  rfl

variable [Fintype P.Worker]

/-- How many tasks are done and wait for their reactors. -/
def backlog (b : Pipeline.State P (Fin N) Job) : Nat :=
  ∑ r, ((b.hist.completed r).length - (b.hist.finalized r).length)

/-- A leased task is in the hands of a reactor, with a worker or in a list. -/
theorem leasedTasks_subset (L : Linked s) {v : Lane P.numReactors → List (Fin N)}
    {own : Fin N → Place P} (hinv : Inv s.base v own) {r : Fin P.numReactors} (hr : hand s r = none) :
    TaskPool.leasedTasks s.pool ⊆
      (Finset.univ.erase r).biUnion (fun r => (hand s r).toFinset) ∪
      Finset.univ.biUnion (fun w => (s.base.worker w).task.toFinset) ∪
      ((v (.pool .fast)).toFinset ∪ (v (.pool .slow)).toFinset) ∪
      Finset.univ.biUnion fun r => (v (.done r)).toFinset ∪ (v (.batch r)).toFinset := by
  intro i hi
  have hhand : ∀ r', hand s r' = some i →
      i ∈ (Finset.univ.erase r).biUnion fun r => (hand s r).toFinset := by
    intro r' h
    refine Finset.mem_biUnion.mpr ⟨r', Finset.mem_erase.mpr ⟨?_, Finset.mem_univ _⟩, ?_⟩
    · rintro rfl
      cases hr.symm.trans h
    · rw [h]
      exact Finset.mem_singleton_self i
  simp only [Finset.mem_union]
  obtain hlease | ⟨r', hcall⟩ := mem_leasedTasks.mp hi
  · by_cases hfresh : ∃ r', s.fresh r' = some i
    · obtain ⟨r', h⟩ := hfresh
      exact .inl (.inl (.inl (hhand r' (hand_of_fresh h))))
    · rw [not_exists] at hfresh
      have hleased := (L.leased i).mpr ⟨hlease, hfresh⟩
      have hin := (hinv.layout.placed i (own i)).mpr rfl
      cases hown : own i with
      | free =>
        rw [(hinv.layout.free_iff i).mpr hown] at hleased
        cases hleased
      | reactor r' =>
        rw [hown] at hin
        exact .inl (.inl (.inl (hhand r' (hand_of_accepting L hin))))
      | worker w =>
        rw [hown, InPlace] at hin
        refine .inl (.inl (.inr (Finset.mem_biUnion.mpr ⟨w, Finset.mem_univ _, ?_⟩)))
        rw [hin]
        exact Finset.mem_singleton_self i
      | lane x =>
        rw [hown, InPlace] at hin
        have hmem := List.mem_toFinset.mpr hin
        cases x with
        | pool p =>
          cases p with
          | fast => exact .inl (.inr (.inl hmem))
          | slow => exact .inl (.inr (.inr hmem))
        | done r' =>
          exact .inr (Finset.mem_biUnion.mpr ⟨r', Finset.mem_univ _, Finset.mem_union_left _ hmem⟩)
        | batch r' =>
          exact .inr (Finset.mem_biUnion.mpr ⟨r', Finset.mem_univ _, Finset.mem_union_right _ hmem⟩)
  · exact .inl (.inl (.inl (hhand r' (hand_of_call L hcall))))

/-- At most one task a reactor and a worker, and those in the lists. -/
theorem card_leasedTasks_le (L : Linked s) {v : Lane P.numReactors → List (Fin N)}
    {own : Fin N → Place P} (hinv : Inv s.base v own) {r : Fin P.numReactors} (hr : hand s r = none) :
    (TaskPool.leasedTasks s.pool).card ≤ (P.numReactors - 1) + Fintype.card P.Worker +
      ((s.base.pool .fast).size + (s.base.pool .slow).size) + backlog s.base := by
  have hhands : ((Finset.univ.erase r).biUnion fun r => (hand s r).toFinset).card ≤
      P.numReactors - 1 := by
    refine (Finset.card_biUnion_le_card_mul _ _ 1 fun r _ => card_toFinset_le_one _).trans ?_
    rw [Finset.card_erase_of_mem (Finset.mem_univ r), Finset.card_univ, Fintype.card_fin, mul_one]
  have hworkers : (Finset.univ.biUnion fun w => (s.base.worker w).task.toFinset).card ≤
      Fintype.card P.Worker := by
    refine (Finset.card_biUnion_le_card_mul _ _ 1 fun w _ => card_toFinset_le_one _).trans ?_
    rw [Finset.card_univ, mul_one]
  have hpools : ((v (.pool .fast)).toFinset ∪ (v (.pool .slow)).toFinset).card ≤
      (s.base.pool .fast).size + (s.base.pool .slow).size := by
    rw [hinv.layout.size, hinv.layout.size]
    exact (Finset.card_union_le ..).trans
      (Nat.add_le_add (List.toFinset_card_le _) (List.toFinset_card_le _))
  have hwaiting : (Finset.univ.biUnion fun r =>
      (v (.done r)).toFinset ∪ (v (.batch r)).toFinset).card ≤ backlog s.base := by
    refine Finset.card_biUnion_le.trans (Finset.sum_le_sum fun r _ => ?_)
    -- what is completed and not finalized is in the queue or in the batch
    have hlog := congrArg List.length (hinv.logs.done r)
    rw [List.length_append, List.length_map, List.length_append] at hlog
    have hunion := (Finset.card_union_le (v (.done r)).toFinset (v (.batch r)).toFinset).trans
      (Nat.add_le_add (List.toFinset_card_le _) (List.toFinset_card_le _))
    omega
  calc (TaskPool.leasedTasks s.pool).card
      ≤ _ := Finset.card_le_card (leasedTasks_subset L hinv hr)
    _ ≤ _ := Finset.card_union_le ..
    _ ≤ _ := Nat.add_le_add ((Finset.card_union_le ..).trans
      (Nat.add_le_add ((Finset.card_union_le ..).trans (Nat.add_le_add hhands hworkers)) hpools))
      hwaiting

end

section
variable {P : Topology} {N : Nat} {Job : Type} [DecidableEq P.Worker] {isFast : Job → Bool}
  {s : State P N Job} {r : Fin P.numReactors}

/-- `task_pool_alloc` takes a task or has found its cache and the stack empty. -/
theorem exec_alloc_cases {Thread : Type} [DecidableEq Thread] {s : TaskPool.State Thread N}
    {τ : Thread} (hidle : s.phase τ = .idle) :
    (∃ s' t, TaskPool.exec s (.alloc τ) = some (s', .none) ∧ s'.phase τ = .taken t) ∨
      s.cache τ = [] ∧ s.stack = [] := by
  have hexec : TaskPool.exec s (.alloc τ) = some (TaskPool.taskPoolAlloc s τ) := by
    rw [TaskPool.exec, if_pos hidle]
  have htake : ∀ u : TaskPool.State Thread N, (TaskPool.take u τ).2 = .allocated none ∨
      ∃ t, (TaskPool.take u τ).2 = .none ∧ (TaskPool.take u τ).1.phase τ = .taken t := by
    intro u
    unfold TaskPool.take
    split
    · exact .inl rfl
    · exact .inr ⟨_, rfl, update_self ..⟩
  have hcases : (TaskPool.taskPoolAlloc s τ).2 = .allocated none ∨
      ∃ t, (TaskPool.taskPoolAlloc s τ).2 = .none ∧
        (TaskPool.taskPoolAlloc s τ).1.phase τ = .taken t := by
    unfold TaskPool.taskPoolAlloc
    split
    · exact htake s
    · exact htake _
  obtain hnull | ⟨t, hnone, htaken⟩ := hcases
  · exact .inr (TaskPool.taskPoolAlloc_null hnull)
  · refine .inl ⟨_, t, ?_, htaken⟩
    rw [hexec, ← hnone]

variable [Fintype P.Worker]

/-- An empty pool: whatever is not cached by another reactor is leased. -/
theorem Coupled.le_of_empty (C : Coupled isFast s) (hr : hand s r = none)
    (hcache : s.pool.cache r = []) (hstack : s.pool.stack = []) :
    N ≤ 65 * (P.numReactors - 1) + Fintype.card P.Worker +
      ((s.base.pool .fast).size + (s.base.pool .slow).size) + backlog s.base := by
  obtain ⟨own, hown⟩ := C.owned
  obtain ⟨v, place, hinv⟩ := inv_of_reachable C.base
  have hcaches : ∑ r', (s.pool.cache r').length ≤ 64 * (P.numReactors - 1) := by
    rw [← Finset.add_sum_erase _ _ (Finset.mem_univ r), hcache, List.length_nil, zero_add, mul_comm]
    refine (Finset.sum_le_card_nsmul _ _ 64 fun r' _ => hown.cache_le r').trans (le_of_eq ?_)
    rw [Finset.card_erase_of_mem (Finset.mem_univ r), Finset.card_univ, Fintype.card_fin]
    rfl
  have hcard := hown.card
  rw [hstack, List.length_nil, zero_add] at hcard
  have hleased := card_leasedTasks_le C.linked hinv hr
  omega

end

/-! ## The slab of the server -/

/-- One thread more than configured, if that is one. -/
theorem card_worker_le (numReactors : Nat) {bgWorkers : Nat} (pct qSize : Nat) (hbg : 0 < bgWorkers)
    (hpct : pct ≤ 100) :
    Fintype.card (Topology.ofConfig numReactors bgWorkers pct qSize).Worker ≤ bgWorkers + 1 := by
  have hcard : Fintype.card (Topology.ofConfig numReactors bgWorkers pct qSize).Worker =
      fastWorkers bgWorkers pct + slowWorkers bgWorkers pct := by
    refine (Fintype.card_sum (α := Fin _) (β := Fin _)).trans ?_
    rw [Fintype.card_fin, Fintype.card_fin]
  have hshare : bgWorkers * pct / 100 ≤ bgWorkers :=
    Nat.div_le_of_le_mul (by rw [Nat.mul_comm]; exact Nat.mul_le_mul_right _ hpct)
  have hfast : fastWorkers bgWorkers pct ≤ bgWorkers := by
    unfold fastWorkers
    dsimp only
    split <;> split <;> omega
  rw [hcard, slowWorkers]
  split <;> omega

section
variable {numReactors bgWorkers pct qSize : Nat} {Job : Type} {isFast : Job → Bool}
  {s : State (.ofConfig numReactors bgWorkers pct qSize) (slabSize qSize bgWorkers) Job}
  {r : Fin numReactors}

/-- With a bounded queue and at most 64 reactors, `task_pool_alloc` finds a task as long as fewer than
5904 are done and not yet sent. -/
theorem taskPoolAlloc_takes (hq : 0 < qSize) (hbg : 0 < bgWorkers) (hpct : pct ≤ 100)
    (hreactors : numReactors ≤ 64)
    {G : State (.ofConfig numReactors bgWorkers pct qSize) (slabSize qSize bgWorkers) Job → Unit →
      Prop} (h : (system isFast _ _).Reachable G s)
    (hloop : s.base.reactor r = .loop) (hout : Outside s r) (hfew : backlog s.base < 5904) :
    ∃ pool t, TaskPool.exec s.pool (.alloc r) = some (pool, .none) ∧ pool.phase r = .taken t := by
  have C := coupled_of_reachable h
  obtain htakes | ⟨hcache, hstack⟩ := exec_alloc_cases hout.1
  · exact htakes
  exfalso
  have hsize : ∀ p, (s.base.pool p).size ≤ qSize := by
    refine C.base.invariant (I := fun b => ∀ p, (b.pool p).size ≤ qSize) ?_ ?_
    · rintro b rfl p
      exact Nat.zero_le _
    · exact fun b e b' _ ih _ hs => hs.size_le hq ih
  have hle := C.le_of_empty (hand_eq_none hout hloop) hcache hstack
  have hworkers := card_worker_le numReactors pct qSize hbg hpct
  have hfast := hsize .fast
  have hslow := hsize .slow
  have hslab : slabSize qSize bgWorkers = qSize * 2 + bgWorkers + 10000 := by
    rw [slabSize, if_neg (Nat.ne_of_gt hq)]
  have hnum : (Topology.ofConfig numReactors bgWorkers pct qSize).numReactors = numReactors := rfl
  omega

end

section
variable {P : Topology} {N : Nat} {Job : Type} [DecidableEq P.Worker] {isFast : Job → Bool}
  {s : State P N Job} {r : Fin P.numReactors} {pool : TaskPool.State (Fin P.numReactors) N} {t : Fin N}

/-- A request whose reactor has found a task goes into its queue, if there is room. -/
theorem exists_queued (h : (system isFast P N).Reachable (fun _ _ => True) s)
    (hloop : s.base.reactor r = .loop) (hout : Outside s r)
    (halloc : TaskPool.exec s.pool (.alloc r) = some (pool, .none)) (htaken : pool.phase r = .taken t)
    (job : Job) (hdown : ∀ p, (s.base.pool p).shutdown = false)
    (hroom : ∀ p, (s.base.pool p).size < P.maxQueueSize) :
    ∃ s', (system isFast P N).Reachable (fun _ _ => True) s' ∧ Outside s' r ∧
      s'.base = setReactor (appendTask (fillTask s.base r t job)
        (if isFast job then .fast else .slow) t) r .loop ∧
      s'.pool.leases = t :: s.pool.leases := by
  have hleases := (exec_alloc halloc).2.1
  have h := h.next (e := ()) (.alloc hloop hout.2 halloc) trivial
  have h := h.next (e := ()) (.clear (r := r) (by rw [TaskPool.exec, htaken])) trivial
  have h := h.next (e := ()) (.ready (r := r) (b := true) (by
    simp only [TaskPool.exec, update_self, Bool.or_true, if_true]
    rfl)) trivial
  have h := h.next (e := ()) (.fill (r := r) (t := t) (j := job) (update_self ..)) trivial
  have hpool : poolFor isFast (fillTask s.base r t job) t = if isFast job then .fast else .slow := by
    simp only [poolFor, fillTask, update_self]
  have hfits : workerPoolEnqueue isFast (fillTask s.base r t job) t =
      some (appendTask (fillTask s.base r t job) (if isFast job then .fast else .slow) t) := by
    unfold workerPoolEnqueue
    rw [hpool]
    dsimp only
    rw [if_neg (by rw [fillTask, hdown]; exact Bool.false_ne_true),
      if_neg fun hfull => Nat.not_lt.mpr hfull.2 (hroom _)]
  have h := h.next (e := ()) (.enqueue (r := r) (t := t) ⟨update_self .., update_self ..⟩
    (update_self ..) hfits) trivial
  exact ⟨_, h, ⟨update_self .., update_self ..⟩, rfl, by rw [← hleases]⟩

end

/-- One request waits in a queue, another one has come back from its worker, and the reactor asks for
a third task. -/
theorem taskPoolAlloc_takes_loaded :
    ∃ s : State (.ofConfig 1 3 50 10) (slabSize 10 3) Bool, s.pool.leases.length = 2 ∧
      (s.base.pool .slow).size = 1 ∧ backlog s.base = 1 ∧ ∃ pool t,
        TaskPool.exec s.pool (.alloc ⟨0, Nat.one_pos⟩) = some (pool, .none) ∧
          pool.phase ⟨0, Nat.one_pos⟩ = .taken t := by
  let r : Fin (Topology.ofConfig 1 3 50 10).numReactors := ⟨0, Nat.one_pos⟩
  let w : (Topology.ofConfig 1 3 50 10).Worker := Sum.inl ⟨0, Nat.one_pos⟩
  have h₀ : (system id (.ofConfig 1 3 50 10) (slabSize 10 3)).Reachable (fun _ _ => True) {} :=
    .init rfl
  obtain ⟨pool, t₁, halloc, htaken⟩ := taskPoolAlloc_takes (by decide) (by decide) (by decide)
    (by decide) h₀ (r := r) rfl ⟨rfl, rfl⟩ (by decide)
  obtain ⟨s₁, h₁, hout₁, hbase₁, hleases₁⟩ := exists_queued h₀ rfl ⟨rfl, rfl⟩ halloc htaken true
    (fun _ => rfl) (fun _ => show 0 < 10 by decide)
  obtain ⟨pool, t₂, halloc, htaken⟩ := taskPoolAlloc_takes (by decide) (by decide) (by decide)
    (by decide) h₁ (r := r) (by rw [hbase₁]; rfl) hout₁
    (by rw [hbase₁]; exact (by decide : 0 < 5904))
  have hroom : ∀ p, (s₁.base.pool p).size < 10 := by
    intro p
    rw [hbase₁]
    cases p
    · exact (by decide : 1 < 10)
    · exact (by decide : 0 < 10)
  obtain ⟨s₂, h₂, hout₂, hbase₂, hleases₂⟩ := exists_queued h₁ (by rw [hbase₁]; rfl) hout₁ halloc
    htaken false (fun p => by rw [hbase₁]; cases p <;> rfl) hroom
  rw [hbase₁] at hbase₂
  -- the fast worker takes the first request and gives it back to the reactor
  have h := h₂.next (e := ()) (.other (e := .take w) trivial (by intro r h; cases h)
    (.take (w := w) (t := t₁) (by rw [hbase₂]; rfl) (by rw [hbase₂]; rfl))) trivial
  have h := h.next (e := ()) (.other (e := .process w) trivial (by intro r h; cases h)
    (.process (w := w) (t := t₁) rfl)) trivial
  have hhome : s₂.base.reactorId t₁ = 0 := by
    rw [hbase₂]
    simp only [setReactor, appendTask, fillTask, update_apply]
    split
    · rfl
    · split <;> rfl
  have h := h.next (e := ()) (.other (e := .unlink w) trivial (by intro r h; cases h)
    (.unlink (w := w) (t := t₁) rfl (hhome.trans_lt Nat.one_pos))) trivial
  have h := h.next (e := ()) (.other (e := .append w) trivial (by intro r h; cases h)
    (.append (w := w) (t := t₁) (r := r) rfl hhome)) trivial
  have hbacklog : ∀ b : Pipeline.State (.ofConfig 1 3 50 10) (Fin (slabSize 10 3)) Bool,
      b.hist.completed r = s₂.base.hist.completed r ++ [s₂.base.hist.ticket t₁] →
      b.hist.finalized r = s₂.base.hist.finalized r → backlog b = 1 := by
    intro b hcompleted hfinalized
    refine (Fintype.sum_unique (ι := Fin 1) _).trans ?_
    change (b.hist.completed r).length - (b.hist.finalized r).length = 1
    rw [hcompleted, hfinalized, hbase₂]
    rfl
  refine ⟨_, ?_, ?_, ?_, taskPoolAlloc_takes (by decide) (by decide) (by decide) (by decide) h
    (r := r) ?_ hout₂ ((hbacklog _ ?_ ?_).trans_lt (by decide))⟩
  · change s₂.pool.leases.length = 2
    rw [hleases₂, hleases₁]
    rfl
  · change (s₂.base.pool .slow).size = 1
    rw [hbase₂]
    rfl
  · exact hbacklog _ rfl rfl
  · change s₂.base.reactor r = .loop
    rw [hbase₂]
    rfl
  · rfl
  · rfl

end ApiServer.Pipeline.Pooled
