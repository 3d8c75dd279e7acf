import ApiServer.Pipeline.ExactlyOnce
import ApiServer.Pipeline.Frame
import ApiServer.TaskPool.Conservation

/-!
# The pipeline on the task pool

`Pipeline` takes it for granted that `task_pool_alloc` returns a slot nobody else has, `TaskPool`
that only leased tasks are freed. Here the reactors run the code of the pool: they allocate before
they fill a task, and free it when they refuse or finalize one. Each side gives the other what it
assumes, so the pool never aborts, and after a shutdown every task is back.
-/

namespace ApiServer.Pipeline.Pooled
open Function

structure State (P : Topology) (N : Nat) (Job : Type) where
  base : Pipeline.State P (Fin N) Job := {}
  pool : TaskPool.State (Fin P.numReactors) N := TaskPool.init (Fin P.numReactors) N
  /-- What `task_pool_alloc` has returned and `server_enqueue_task` has not filled yet. -/
  fresh : Fin P.numReactors → Option (Fin N) := fun _ => none

/-- The steps that neither lease a slot nor give one back. -/
def KeepsLeases {P : Topology} {Slot Job : Type} : Event P Slot Job → Prop
  | .receive .. | .enqueue _ | .finalize _ => False
  | _ => True

section
variable {P : Topology} {N : Nat} {Job : Type}

/-- The reactor is not in the code of the pool, and has nothing from there in its hands. -/
def Outside (s : State P N Job) (r : Fin P.numReactors) : Prop :=
  s.pool.phase r = .idle ∧ s.fresh r = none

variable [DecidableEq P.Worker] (isFast : Job → Bool)

inductive Step : State P N Job → State P N Job → Prop where
  /-- `server_enqueue_task` calls `task_pool_alloc`. -/
  | alloc {s r pool reply} : s.base.reactor r = .loop → s.fresh r = none →
    TaskPool.exec s.pool (.alloc r) = some (pool, reply) → Step s { s with pool }
  | clear {s r pool reply} : TaskPool.exec s.pool (.clear r) = some (pool, reply) →
    Step s { s with pool }
  | ready {s r b pool reply} :
    TaskPool.exec s.pool (.ready r b) = some (pool, .allocated reply) →
    Step s { s with pool, fresh := update s.fresh r reply }
  /-- `evbuffer_new` has failed and `task_pool_alloc` frees the task. -/
  | giveUp {s r b pool} :
    TaskPool.exec s.pool (.ready r b) = some (pool, .none) → Step s { s with pool }
  | stash {s r pool reply} : TaskPool.exec s.pool (.stash r) = some (pool, reply) →
    Step s { s with pool }
  | fill {s r t j} : s.fresh r = some t →
    Step s { s with base := fillTask s.base r t j, fresh := update s.fresh r none }
  /-- The headers or the URI are too long. -/
  | drop {s r t pool reply} : s.fresh r = some t →
    TaskPool.exec s.pool (.free r (.slot t)) = some (pool, reply) →
    Step s { s with pool, fresh := update s.fresh r none }
  | enqueue {s r t base} : Outside s r → s.base.reactor r = .accepting t →
    workerPoolEnqueue isFast s.base t = some base →
    Step s { s with base := setReactor base r .loop }
  | refuse {s r t pool reply} : Outside s r → s.base.reactor r = .accepting t →
    workerPoolEnqueue isFast s.base t = none →
    TaskPool.exec s.pool (.free r (.slot t)) = some (pool, reply) →
    Step s { s with base := release s.base r t .loop, pool }
  | finalize {s r t curr pool reply} : Outside s r → s.base.reactor r = .finalizing t curr →
    TaskPool.exec s.pool (.free r (.slot t)) = some (pool, reply) →
    Step s { s with base := finalizeTask s.base r t curr, pool }
  | other {s e base} : KeepsLeases e → (∀ r, reactorOf e = some r → Outside s r) →
    Pipeline.Step isFast s.base e base → Step s { s with base }

def system (P : Topology) [DecidableEq P.Worker] (N : Nat) : System (State P N Job) Unit where
  init s := s = {}
  step s _ s' := Step isFast s s'

end

/-! ## What the steps of the two sides leave alone -/

section
variable {P : Topology} {Slot Job : Type} [DecidableEq Slot] [DecidableEq P.Worker]
  {s s' : Pipeline.State P Slot Job} {isFast : Job → Bool} {e : Event P Slot Job}

theorem leased_frame (h : Pipeline.Step isFast s e s') (he : KeepsLeases e) :
    s'.leased = s.leased := by
  cases h with
  | receive | enqueue | refuse | finalize => exact he.elim
  | _ => rfl

end

section
open TaskPool (exec)
variable {Thread : Type} [DecidableEq Thread] {N : Nat} {s s' : TaskPool.State Thread N}
  {own : Fin N → TaskPool.Place Thread} {τ : Thread} {t : Fin N} {reply : TaskPool.Reply N}

theorem refill_leases (n : Nat) :
    ∀ s : TaskPool.State Thread N, (TaskPool.refill τ n s).leases = s.leases := by
  induction n with
  | zero => exact fun _ => rfl
  | succ n ih =>
    intro s
    unfold TaskPool.refill
    split
    · rfl
    · exact ih _

theorem exec_alloc (h : exec s (.alloc τ) = some (s', reply)) :
    s.phase τ = .idle ∧ s'.leases = s.leases ∧ ∀ τ', τ' ≠ τ → s'.phase τ' = s.phase τ' := by
  have htake : ∀ u : TaskPool.State Thread N, (TaskPool.take u τ).1.leases = u.leases ∧
      ∀ τ', τ' ≠ τ → (TaskPool.take u τ).1.phase τ' = u.phase τ' := by
    intro u
    unfold TaskPool.take
    split
    · exact ⟨rfl, fun _ _ => rfl⟩
    · exact ⟨rfl, fun τ' h => update_of_ne h ..⟩
  rw [exec] at h
  split at h
  · rename_i hidle
    obtain rfl := congrArg Prod.fst (Option.some.inj h)
    refine ⟨hidle, ?_⟩
    unfold TaskPool.taskPoolAlloc
    split
    · exact htake s
    · dsimp only
      rw [(htake _).1, refill_leases]
      refine ⟨rfl, fun τ' hne => ?_⟩
      rw [(htake _).2 τ' hne, TaskPool.refill_phase]
  · cases h

theorem exec_clear (h : exec s (.clear τ) = some (s', reply)) :
    (∃ t, s.phase τ = .taken t) ∧ s'.leases = s.leases ∧
      ∀ τ', τ' ≠ τ → s'.phase τ' = s.phase τ' := by
  rw [exec] at h
  split at h
  · rename_i hph
    obtain rfl := congrArg Prod.fst (Option.some.inj h)
    exact ⟨⟨_, hph⟩, rfl, fun τ' h => update_of_ne h ..⟩
  · cases h

/-- `task_pool_alloc` returns a task, or goes on to free it. -/
theorem exec_ready {evbufferNew : Bool} (H : TaskPool.Owned s own)
    (h : exec s (.ready τ evbufferNew) = some (s', reply)) :
    (∃ t, s.phase τ = .cleared t) ∧ (∀ τ', τ' ≠ τ → s'.phase τ' = s.phase τ') ∧
      ((∃ t, reply = .allocated (some t) ∧ t ∉ s.leases ∧ s'.leases = t :: s.leases ∧
          s'.phase τ = .idle) ∨
        (reply = .none ∨ reply = .abort) ∧ s'.leases = s.leases) := by
  rw [exec] at h
  split at h
  · rename_i t hph
    have hin : TaskPool.InPlace s t (.call τ) := TaskPool.inPlace_call hph rfl
    have hnot : t ∉ s.leases := by
      intro hl
      have hlease : TaskPool.InPlace s t .lease := hl
      cases H.place.unique hlease hin
    refine ⟨⟨t, hph⟩, ?_⟩
    split at h
    · cases h
      exact ⟨fun τ' h => update_of_ne h .., .inl ⟨t, rfl, hnot, rfl, update_self ..⟩⟩
    · unfold TaskPool.taskPoolFree at h
      split at h
      · cases h
        exact ⟨fun _ _ => rfl, .inr ⟨.inr rfl, rfl⟩⟩
      · cases h
        exact ⟨fun τ' h => update_of_ne h .., .inr ⟨.inl rfl, List.erase_of_not_mem hnot⟩⟩
  · cases h

theorem exec_free (hflag : s.isFree t = false) (h : exec s (.free τ (.slot t)) = some (s', reply)) :
    s.phase τ = .idle ∧ s'.leases = s.leases.erase t ∧ s'.phase τ = .freed t false ∧
      ∀ τ', τ' ≠ τ → s'.phase τ' = s.phase τ' := by
  unfold exec at h
  dsimp only at h
  split at h
  · rename_i hidle
    rw [TaskPool.taskPoolFree, hflag] at h
    obtain rfl := congrArg Prod.fst (Option.some.inj h)
    exact ⟨hidle, rfl, update_self .., fun τ' h => update_of_ne h ..⟩
  · cases h

theorem exec_stash (H : TaskPool.Owned s own) (h : exec s (.stash τ) = some (s', reply)) :
    (∃ t b, s.phase τ = .freed t b) ∧ s'.leases = s.leases ∧ s'.phase τ = .idle ∧
      ∀ τ', τ' ≠ τ → s'.phase τ' = s.phase τ' := by
  rw [exec] at h
  split at h
  · rename_i t b hph
    obtain rfl := congrArg Prod.fst (Option.some.inj h)
    refine ⟨⟨t, b, hph⟩, ?_⟩
    unfold TaskPool.stash
    dsimp only
    split
    · exact ⟨rfl, update_self .., fun τ' h => update_of_ne h ..⟩
    · rw [if_neg (Nat.not_lt.mpr (H.length_le τ))]
      exact ⟨rfl, update_self .., fun τ' h => update_of_ne h ..⟩
  · cases h

end

/-! ## The two sides together -/

section
variable {P : Topology} {N : Nat} {Job : Type}

/-- How the slots of the pipeline and the tasks of the pool belong together. -/
structure Linked (s : State P N Job) : Prop where
  leased : ∀ t, s.base.leased t = true ↔ t ∈ s.pool.leases ∧ ∀ r, s.fresh r ≠ some t
  fresh : ∀ r t, s.fresh r = some t →
    t ∈ s.pool.leases ∧ s.pool.phase r = .idle ∧ s.base.reactor r = .loop
  inj : ∀ r r' t, s.fresh r = some t → s.fresh r' = some t → r = r'
  /-- A reactor is in the code of the pool between two requests, or between two tasks of a batch. -/
  calling : ∀ r, s.pool.phase r = .idle ∨ s.base.reactor r = .loop ∨
    (∃ t b, s.pool.phase r = .freed t b) ∧ ∃ curr, s.base.reactor r = .batch curr

theorem Linked.init : Linked ({} : State P N Job) where
  leased _ := ⟨nofun, fun h => by cases h.1⟩
  fresh _ _ := nofun
  inj _ _ _ := nofun
  calling _ := .inl rfl

variable {s : State P N Job} {pool : TaskPool.State (Fin P.numReactors) N}
  {base : Pipeline.State P (Fin N) Job} {r : Fin P.numReactors} {t : Fin N}

/-- One reactor has no fresh task any more. -/
theorem update_none_eq_some {f : Fin P.numReactors → Option (Fin N)} {r' : Fin P.numReactors} :
    update f r none r' = some t ↔ r' ≠ r ∧ f r' = some t :=
  update_eq_iff_of_ne (by intro h; cases h)

/-- A reactor moves on in the code of the pool; nothing is leased or given back. -/
theorem Linked.within (L : Linked s) (hleases : pool.leases = s.pool.leases)
    (hother : ∀ r', r' ≠ r → pool.phase r' = s.pool.phase r') (hr : s.fresh r = none)
    (hcall : pool.phase r = .idle ∨ s.base.reactor r = .loop ∨
      (∃ t b, pool.phase r = .freed t b) ∧ ∃ curr, s.base.reactor r = .batch curr) :
    Linked { s with pool } where
  leased u := by
    dsimp only
    rw [hleases]
    exact L.leased u
  fresh r' u h := by
    obtain ⟨hu, hidle, hloop⟩ := L.fresh r' u h
    refine ⟨by dsimp only; rwa [hleases], ?_, hloop⟩
    refine (hother r' ?_).trans hidle
    rintro rfl
    cases hr.symm.trans h
  inj := L.inj
  calling r' := by
    by_cases h : r' = r
    · subst h
      exact hcall
    · dsimp only
      rw [hother r' h]
      exact L.calling r'

/-- A task is given back by a reactor that goes on in the code of the pool. -/
theorem Linked.giveBack (L : Linked s) (hnodup : s.pool.leases.Nodup)
    (ht : ∀ r', r' ≠ r → s.fresh r' ≠ some t) (hleases : pool.leases = s.pool.leases.erase t)
    (hother : ∀ r', r' ≠ r → pool.phase r' = s.pool.phase r')
    (hbase : ∀ u, base.leased u = true ↔ u ≠ t ∧ s.base.leased u = true)
    (hreactor : ∀ r', r' ≠ r → base.reactor r' = s.base.reactor r')
    (hself : s.fresh r = none ∨ s.fresh r = some t)
    (hcall : base.reactor r = .loop ∨
      (∃ t b, pool.phase r = .freed t b) ∧ ∃ curr, base.reactor r = .batch curr) :
    Linked { base, pool, fresh := update s.fresh r none } where
  leased u := by
    dsimp only
    rw [hbase, L.leased u, hleases]
    constructor
    · rintro ⟨hu, hmem, hfresh⟩
      exact ⟨(List.mem_erase_of_ne hu).mpr hmem, fun r' h => hfresh r' (update_none_eq_some.mp h).2⟩
    · rintro ⟨hmem, hfresh⟩
      have hu : u ≠ t := (hnodup.mem_erase_iff.mp hmem).1
      refine ⟨hu, List.mem_of_mem_erase hmem, fun r' h => ?_⟩
      by_cases hr' : r' = r
      · subst hr'
        obtain hself | hself := hself
        · cases hself.symm.trans h
        · exact hu (Option.some.inj (h.symm.trans hself))
      · exact hfresh r' (update_none_eq_some.mpr ⟨hr', h⟩)
  fresh r' u h := by
    obtain ⟨hne, h⟩ := update_none_eq_some.mp h
    obtain ⟨hu, hidle, hloop⟩ := L.fresh r' u h
    have hut : u ≠ t := by
      rintro rfl
      exact ht r' hne h
    dsimp only
    rw [hleases, hother r' hne, hreactor r' hne]
    exact ⟨(List.mem_erase_of_ne hut).mpr hu, hidle, hloop⟩
  inj r₁ r₂ u h₁ h₂ := L.inj r₁ r₂ u (update_none_eq_some.mp h₁).2 (update_none_eq_some.mp h₂).2
  calling r' := by
    by_cases h : r' = r
    · subst h
      exact .inr hcall
    · dsimp only
      rw [hother r' h, hreactor r' h]
      exact L.calling r'

/-- A step of the pipeline on its own. -/
theorem Linked.onward (L : Linked s) (hleased : base.leased = s.base.leased)
    (hreactor : ∀ r', base.reactor r' ≠ s.base.reactor r' → Outside s r') :
    Linked { s with base } where
  leased u := by
    dsimp only
    rw [hleased]
    exact L.leased u
  fresh r' u h := by
    obtain ⟨hu, hidle, hloop⟩ := L.fresh r' u h
    refine ⟨hu, hidle, ?_⟩
    by_contra hne
    have hout := hreactor r' fun heq => hne (heq.trans hloop)
    cases hout.2.symm.trans h
  inj := L.inj
  calling r' := by
    by_cases h : base.reactor r' = s.base.reactor r'
    · dsimp only
      rw [h]
      exact L.calling r'
    · exact .inl (hreactor r' h).1

/-- `task_pool_alloc` returns. -/
theorem Linked.lend (L : Linked s) (hcleared : s.pool.phase r = .cleared u) (ht : t ∉ s.pool.leases)
    (hleases : pool.leases = t :: s.pool.leases) (hidle : pool.phase r = .idle)
    (hother : ∀ r', r' ≠ r → pool.phase r' = s.pool.phase r') :
    Linked { s with pool, fresh := update s.fresh r (some t) } := by
  have hnone : s.fresh r = none := by
    cases h : s.fresh r with
    | none => rfl
    | some u => cases hcleared.symm.trans (L.fresh r u h).2.1
  have hloop : s.base.reactor r = .loop := by
    obtain h | h | ⟨⟨u, b, h⟩, -⟩ := L.calling r
    · cases hcleared.symm.trans h
    · exact h
    · cases hcleared.symm.trans h
  refine ⟨fun u => ?_, fun r' u h => ?_, fun r₁ r₂ u h₁ h₂ => ?_, fun r' => ?_⟩
  · dsimp only
    rw [L.leased u, hleases]
    constructor
    · rintro ⟨hmem, hfresh⟩
      refine ⟨.tail t hmem, fun r' h => ?_⟩
      by_cases hr' : r' = r
      · subst hr'
        rw [update_self] at h
        cases h
        exact ht hmem
      · rw [update_of_ne hr'] at h
        exact hfresh r' h
    · rintro ⟨hmem, hfresh⟩
      obtain rfl | hmem := List.mem_cons.mp hmem
      · exact absurd (update_self ..) (hfresh r)
      · refine ⟨hmem, fun r' h => hfresh r' ?_⟩
        rw [update_of_ne]
        · exact h
        · rintro rfl
          cases hnone.symm.trans h
  · dsimp only
    rw [hleases]
    by_cases hr' : r' = r
    · subst hr'
      dsimp only at h
      rw [update_self] at h
      cases h
      exact ⟨.head _, hidle, hloop⟩
    · dsimp only at h
      rw [update_of_ne hr'] at h
      obtain ⟨hu, hidle, hloop⟩ := L.fresh r' u h
      exact ⟨.tail t hu, (hother r' hr').trans hidle, hloop⟩
  · dsimp only at h₁ h₂
    -- the new task was not leased before, so nobody else has it
    by_cases hr₁ : r₁ = r <;> by_cases hr₂ : r₂ = r
    · rw [hr₁, hr₂]
    · subst hr₁
      rw [update_self] at h₁
      rw [update_of_ne hr₂] at h₂
      cases h₁
      exact absurd (L.fresh r₂ t h₂).1 ht
    · subst hr₂
      rw [update_self] at h₂
      rw [update_of_ne hr₁] at h₁
      cases h₂
      exact absurd (L.fresh r₁ t h₁).1 ht
    · rw [update_of_ne hr₁] at h₁
      rw [update_of_ne hr₂] at h₂
      exact L.inj r₁ r₂ u h₁ h₂
  · by_cases h : r' = r
    · subst h
      exact .inl hidle
    · dsimp only
      rw [hother r' h]
      exact L.calling r'

theorem Linked.fill (L : Linked s) (h : s.fresh r = some t) (job : Job) :
    Linked { s with base := fillTask s.base r t job, fresh := update s.fresh r none } := by
  obtain ⟨ht, hidle, -⟩ := L.fresh r t h
  refine ⟨fun u => ?_, fun r' u h' => ?_, fun r₁ r₂ u h₁ h₂ => ?_, fun r' => ?_⟩
  · dsimp only [fillTask]
    by_cases hu : u = t
    · subst hu
      rw [update_self]
      refine iff_of_true rfl ⟨ht, fun r' h' => ?_⟩
      obtain ⟨hne, h'⟩ := update_none_eq_some.mp h'
      exact hne (L.inj r' r u h' h)
    · rw [update_of_ne hu, L.leased u]
      refine and_congr_right fun _ => forall_congr' fun r' => not_congr ?_
      rw [update_none_eq_some]
      refine ⟨fun h' => ⟨?_, h'⟩, And.right⟩
      rintro rfl
      exact hu (Option.some.inj (h'.symm.trans h))
  · obtain ⟨hne, h'⟩ := update_none_eq_some.mp h'
    obtain ⟨hu, hidle, hloop⟩ := L.fresh r' u h'
    exact ⟨hu, hidle, (update_of_ne hne ..).trans hloop⟩
  · exact L.inj r₁ r₂ u (update_none_eq_some.mp h₁).2 (update_none_eq_some.mp h₂).2
  · by_cases hr' : r' = r
    · subst hr'
      exact .inl hidle
    · dsimp only [fillTask]
      rw [update_of_ne hr']
      exact L.calling r'

end

section
variable {P : Topology} {N : Nat} {Job : Type} [DecidableEq P.Worker] {isFast : Job → Bool}
  {s s' : State P N Job}

/-- Both sides run as they do on their own. -/
structure Coupled (isFast : Job → Bool) (s : State P N Job) : Prop where
  base : (Pipeline.system P (Fin N) isFast).Reachable (fun _ _ => True) s.base
  pool : (TaskPool.system (Fin P.numReactors) N).Reachable TaskPool.FreesLeased s.pool
  live : s.pool.aborted = none
  linked : Linked s

theorem Coupled.owned (C : Coupled isFast s) : ∃ own, TaskPool.Owned s.pool own :=
  TaskPool.owned_of_reachable (C.pool.mono fun _ _ h τ t he => .inl (h τ t he))

/-- A step of the pool that frees nothing but leased tasks. -/
theorem Coupled.exec (C : Coupled isFast s) {e : TaskPool.Event (Fin P.numReactors) N}
    {pool : TaskPool.State (Fin P.numReactors) N} {reply : TaskPool.Reply N}
    (hG : TaskPool.FreesLeased s.pool e) (h : TaskPool.exec s.pool e = some (pool, reply)) :
    (TaskPool.system (Fin P.numReactors) N).Reachable TaskPool.FreesLeased pool ∧
      pool.aborted = none := by
  obtain ⟨own, hown⟩ := C.owned
  exact ⟨C.pool.next ⟨C.live, reply, h⟩ hG, (hown.exec_aborted hG h).trans C.live⟩

/-- A slot that the pipeline uses is leased. -/
theorem Coupled.leased_of_place (C : Coupled isFast s) {t : Fin N}
    (h : ∀ {v own}, Inv s.base v own → own t ≠ .free) :
    s.base.leased t = true ∧ t ∈ s.pool.leases ∧ ∀ r, s.fresh r ≠ some t := by
  obtain ⟨v, own, hinv⟩ := inv_of_reachable C.base
  have hleased : s.base.leased t = true := by
    by_contra hfree
    exact h hinv ((hinv.layout.free_iff t).mp (Bool.not_eq_true _ ▸ hfree))
  exact ⟨hleased, (C.linked.leased t).mp hleased⟩

theorem Coupled.free (C : Coupled isFast s) {t : Fin N} {r : Fin P.numReactors}
    {pool : TaskPool.State (Fin P.numReactors) N} {reply : TaskPool.Reply N}
    (ht : t ∈ s.pool.leases) (h : TaskPool.exec s.pool (.free r (.slot t)) = some (pool, reply)) :
    ((TaskPool.system (Fin P.numReactors) N).Reachable TaskPool.FreesLeased pool ∧
      pool.aborted = none) ∧ s.pool.leases.Nodup ∧ pool.leases = s.pool.leases.erase t ∧
        pool.phase r = .freed t false ∧ ∀ r', r' ≠ r → pool.phase r' = s.pool.phase r' := by
  obtain ⟨own, hown⟩ := C.owned
  obtain ⟨-, hleases, hphase, hother⟩ := exec_free ((hown.flag t).mpr (.inl ht)) h
  refine ⟨C.exec ?_ h, hown.leases_nodup, hleases, hphase, hother⟩
  rintro τ u ⟨⟩
  exact ht

theorem Coupled.fresh_eq_none (C : Coupled isFast s) {r : Fin P.numReactors}
    (h : s.pool.phase r ≠ .idle) : s.fresh r = none := by
  cases hfresh : s.fresh r with
  | none => rfl
  | some t => exact absurd (C.linked.fresh r t hfresh).2.1 h

/-- The step lemma. -/
theorem Coupled.step (C : Coupled isFast s) (h : Step isFast s s') : Coupled isFast s' := by
  obtain ⟨own, hown⟩ := C.owned
  have L := C.linked
  cases h with
  | @alloc r pool reply hloop hnone h =>
    obtain ⟨hpool, hlive⟩ := C.exec (by intro _ _ h; cases h) h
    obtain ⟨-, hleases, hother⟩ := exec_alloc h
    exact ⟨C.base, hpool, hlive, L.within hleases hother hnone (.inr (.inl hloop))⟩
  | @clear r pool reply h =>
    obtain ⟨hpool, hlive⟩ := C.exec (by intro _ _ h; cases h) h
    obtain ⟨⟨t, htaken⟩, hleases, hother⟩ := exec_clear h
    have hnone := C.fresh_eq_none (r := r) (by rw [htaken]; exact nofun)
    refine ⟨C.base, hpool, hlive, L.within hleases hother hnone (.inr (.inl ?_))⟩
    obtain h | h | ⟨⟨u, b, h⟩, -⟩ := L.calling r
    · cases htaken.symm.trans h
    · exact h
    · cases htaken.symm.trans h
  | @ready r b pool reply h =>
    obtain ⟨hpool, hlive⟩ := C.exec (by intro _ _ h; cases h) h
    obtain ⟨⟨u, hcleared⟩, hother, ⟨t, ht, hnot, hleases, hidle⟩ | ⟨hreply | hreply, -⟩⟩ :=
      exec_ready hown h
    · cases ht
      exact ⟨C.base, hpool, hlive, L.lend hcleared hnot hleases hidle hother⟩
    · cases hreply
    · cases hreply
  | @giveUp r b pool h =>
    obtain ⟨hpool, hlive⟩ := C.exec (by intro _ _ h; cases h) h
    obtain ⟨⟨u, hcleared⟩, hother, ⟨t, ht, -⟩ | ⟨-, hleases⟩⟩ := exec_ready hown h
    · cases ht
    have hnone := C.fresh_eq_none (r := r) (by rw [hcleared]; exact nofun)
    refine ⟨C.base, hpool, hlive, L.within hleases hother hnone (.inr (.inl ?_))⟩
    obtain h | h | ⟨⟨u, b, h⟩, -⟩ := L.calling r
    · cases hcleared.symm.trans h
    · exact h
    · cases hcleared.symm.trans h
  | @stash r pool reply h =>
    obtain ⟨hpool, hlive⟩ := C.exec (by intro _ _ h; cases h) h
    obtain ⟨⟨t, b, hfreed⟩, hleases, hidle, hother⟩ := exec_stash hown h
    have hnone := C.fresh_eq_none (r := r) (by rw [hfreed]; exact nofun)
    exact ⟨C.base, hpool, hlive, L.within hleases hother hnone (.inl hidle)⟩
  | @fill r t j h =>
    obtain ⟨-, -, hloop⟩ := L.fresh r t h
    have hfree : s.base.leased t = false := by
      rw [← Bool.not_eq_true, L.leased]
      exact fun hl => hl.2 r h
    exact ⟨C.base.next (.receive hloop hfree) trivial, C.pool, C.live, L.fill h j⟩
  | @drop r t pool reply h hfree =>
    obtain ⟨ht, -, hloop⟩ := L.fresh r t h
    obtain ⟨⟨hpool, hlive⟩, hnodup, hleases, hphase, hother⟩ := C.free ht hfree
    refine ⟨C.base, hpool, hlive, L.giveBack hnodup (fun r' hne h' => hne (L.inj r' r t h' h))
      hleases hother (fun u => ?_) (fun _ _ => rfl) (.inr h) (.inl hloop)⟩
    refine ⟨fun hu => ⟨?_, hu⟩, And.right⟩
    rintro rfl
    exact ((L.leased u).mp hu).2 r h
  | @enqueue r t base hout hr hs =>
    refine ⟨C.base.next (.enqueue hr hs) trivial, C.pool, C.live, ?_⟩
    obtain ⟨-, -, rfl⟩ := workerPoolEnqueue_eq_some hs
    refine L.onward rfl fun r' hne => ?_
    have hr' : r' = r := by
      by_contra h
      exact hne (update_of_ne h ..)
    exact hr' ▸ hout
  | @refuse r t pool reply hout hr hs hfree =>
    obtain ⟨hleased, ht, hnot⟩ := C.leased_of_place (t := t) fun hinv => by
      rw [hinv.layout.reactor_own hr]
      exact nofun
    obtain ⟨⟨hpool, hlive⟩, hnodup, hleases, hphase, hother⟩ := C.free ht hfree
    refine ⟨C.base.next (.refuse hr hs) trivial, hpool, hlive, ?_⟩
    have hlinked : Linked { base := release s.base r t .loop, pool, fresh := update s.fresh r none } :=
      L.giveBack hnodup (fun r' _ => hnot r') hleases hother
        (fun u => update_eq_iff_of_ne Bool.false_ne_true) (fun r' h => update_of_ne h ..)
        (.inl hout.2) (.inl (update_self ..))
    rwa [← hout.2, update_eq_self] at hlinked
  | @finalize r t curr pool reply hout hr hfree =>
    obtain ⟨hleased, ht, hnot⟩ := C.leased_of_place (t := t) fun hinv => by
      obtain ⟨l, hl, -⟩ := hinv.layout.finalize hr
      rw [(hinv.layout.lane_iff t (.batch r)).mp (by rw [hl]; exact .head l)]
      exact nofun
    obtain ⟨⟨hpool, hlive⟩, hnodup, hleases, hphase, hother⟩ := C.free ht hfree
    refine ⟨C.base.next (.finalize hr) trivial, hpool, hlive, ?_⟩
    have hlinked : Linked
        { base := finalizeTask s.base r t curr, pool, fresh := update s.fresh r none } :=
      L.giveBack hnodup (fun r' _ => hnot r') hleases hother
        (fun u => update_eq_iff_of_ne Bool.false_ne_true) (fun r' h => update_of_ne h ..)
        (.inl hout.2) (.inr ⟨⟨t, false, hphase⟩, curr, update_self ..⟩)
    rwa [← hout.2, update_eq_self] at hlinked
  | @other e base he hout hs =>
    refine ⟨C.base.next hs trivial, C.pool, C.live, L.onward (leased_frame hs he) fun r' hne => ?_⟩
    refine hout r' ?_
    by_contra h
    exact hne (reactor_frame hs h)

theorem coupled_of_reachable {G : State P N Job → Unit → Prop}
    (h : (system isFast P N).Reachable G s) : Coupled isFast s := by
  refine h.invariant (I := Coupled isFast) ?_ fun _ _ _ _ C _ hs => C.step hs
  rintro s rfl
  exact ⟨.init rfl, .init rfl, rfl, .init⟩

/-- What the server can rely on. -/
structure Safe (isFast : Job → Bool) (s : State P N Job) : Prop where
  /-- What it does with its tasks is a run of the pipeline on its own. -/
  pipeline : (Pipeline.system P (Fin N) isFast).Reachable (fun _ _ => True) s.base
  /-- What it does to the pool is a run in which only leased tasks are freed. -/
  taskPool : (TaskPool.system (Fin P.numReactors) N).Reachable TaskPool.FreesLeased s.pool
  /-- There is no double free and no overflow of the free stack. -/
  noAbort : s.pool.aborted = none
  /-- A slot is in use exactly as long as its task is leased. -/
  leased : ∀ t, s.base.leased t = true ↔ t ∈ s.pool.leases ∧ ∀ r, s.fresh r ≠ some t
  /-- A task that `task_pool_alloc` returns is nobody else's. -/
  exclusive : ∀ r t, s.fresh r = some t →
    s.base.leased t = false ∧ ∀ r', s.fresh r' = some t → r' = r
  /-- No task is lost. -/
  returned : s.base.main = .halted → ∀ t, t ∈ s.pool.stack ∨ ∃ r, t ∈ s.pool.cache r

/-- Every run of the server on its task pool is safe. -/
theorem pooled_safe {G : State P N Job → Unit → Prop}
    (h : (system isFast P N).Reachable G s) : Safe isFast s := by
  have C := coupled_of_reachable h
  have L := C.linked
  refine ⟨C.base, C.pool, C.live, L.leased, fun r t ht => ⟨?_, fun r' h' => L.inj r' r t h' ht⟩,
    fun hm t => ?_⟩
  · rw [← Bool.not_eq_true, L.leased]
    exact fun hl => hl.2 r ht
  · obtain ⟨own, hown⟩ := C.owned
    obtain ⟨v, place, hinv⟩ := inv_of_reachable C.base
    have hclosing := closing_of_reachable C.base
    have hexited := hclosing.halted hm
    have hin := (hown.place t (own t)).mpr rfl
    cases hp : own t with
    | stack =>
      rw [hp] at hin
      exact .inl hin
    | cache r =>
      rw [hp] at hin
      exact .inr ⟨r, hin⟩
    | call r =>
      -- a reactor that has left is not in the code of the pool
      rw [hp, TaskPool.InPlace] at hin
      obtain hidle | hloop | ⟨-, curr, hbatch⟩ := L.calling r
      · rw [hidle] at hin
        cases hin
      · cases (hexited r).symm.trans hloop
      · cases (hexited r).symm.trans hbatch
    | lease =>
      rw [hp] at hin
      have hfree := (hinv.layout.free_iff t).mpr (hinv.free_of_halted hclosing hm t)
      have hfresh : ∀ r, s.fresh r ≠ some t := fun r hr =>
        by cases (hexited r).symm.trans (L.fresh r t hr).2.2
      rw [(L.leased t).mpr ⟨hin, hfresh⟩] at hfree
      cases hfree

end
/-- A slab of two tasks, one of which goes through `task_pool_alloc` into a queue. -/
theorem pooled_safe_two :
    ∃ s : State (.ofConfig 1 3 50 10) 2 Bool, s.base.leased 0 = true ∧ Safe id s := by
  let r : Fin (Topology.ofConfig 1 3 50 10).numReactors := ⟨0, Nat.one_pos⟩
  have hinit := System.Reachable.init (T := system id (.ofConfig 1 3 50 10) 2)
    (G := fun _ _ => True) rfl
  have halloc := hinit.next (e := ()) (.alloc (r := r) rfl rfl rfl) trivial
  have hclear := halloc.next (e := ()) (.clear (r := r) rfl) trivial
  have hready := hclear.next (e := ()) (.ready (r := r) (b := true) rfl) trivial
  have hfill := hready.next (e := ()) (.fill (r := r) (t := 0) (j := true) rfl) trivial
  have henqueue := hfill.next (e := ()) (.enqueue (r := r) (t := 0) ⟨rfl, rfl⟩ rfl rfl) trivial
  exact ⟨_, rfl, pooled_safe henqueue⟩

end ApiServer.Pipeline.Pooled
