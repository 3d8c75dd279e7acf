import ApiServer.TaskPool.Conservation

/-!
# Double frees

`task_pool_free` detects a double free by the flag of the task. A refill clears the flags of its
whole batch, so the tasks of the batch that stay in the cache can be freed although nobody has
allocated them.
-/

namespace ApiServer.TaskPool
open Function

variable {Thread : Type} [DecidableEq Thread] {N : Nat} {s : State Thread N}

omit [DecidableEq Thread] in
theorem Owned.isFree_iff (H : Owned s own) {t : Fin N} (ht : t ∉ s.leases) :
    s.isFree t = true ↔ ¬Exposed s t := by
  rw [← Bool.not_eq_false, H.flag t, or_iff_right ht]

/-- In every run that frees no exposed task, a free of a task that is not leased aborts and places
the task nowhere if and only if the task is not exposed. -/
theorem taskPoolFree_doubleFree_iff (H : (system Thread N).Reachable FreesUnexposed s) {τ : Thread}
    {t : Fin N} (hτ : s.phase τ = .idle) (ht : t ∉ s.leases) :
    exec s (.free τ (.slot t)) = some ({ s with aborted := some .doubleFree }, .abort) ↔
      ¬Exposed s t := by
  obtain ⟨own, hown⟩ := owned_of_reachable H
  rw [← hown.isFree_iff ht]
  unfold exec
  dsimp only
  rw [if_pos hτ, taskPoolFree]
  constructor
  · intro h
    split at h
    · assumption
    · have h := congrArg Prod.snd (Option.some.inj h)
      cases h
  · intro h
    rw [if_pos h]

/-- A thread leases a task and frees it, and another one frees it again. -/
theorem taskPoolFree_doubleFree_again :
    ∃ s : State Bool 2, s.aborted = none ∧ s.cache false = [0, 1] ∧ ¬Exposed s 0 ∧
      exec s (.free true (.slot 0)) = some ({ s with aborted := some .doubleFree }, .abort) := by
  have h : (system Bool 2).Reachable FreesUnexposed (init Bool 2) := .init rfl
  have h := h.next (e := .alloc false) ⟨rfl, _, rfl⟩ (by rintro _ _ ⟨⟩)
  have h := h.next (e := .clear false) ⟨rfl, _, rfl⟩ (by rintro _ _ ⟨⟩)
  have h := h.next (e := .ready false true) ⟨rfl, _, rfl⟩ (by rintro _ _ ⟨⟩)
  have h := h.next (e := .free false (.slot 0)) ⟨rfl, _, rfl⟩
    (by rintro _ _ ⟨⟩; exact .inl (List.mem_singleton_self _))
  have h := h.next (e := .stash false) ⟨rfl, _, rfl⟩ (by rintro _ _ ⟨⟩)
  refine ⟨_, ?_, ?_, ?_, (taskPoolFree_doubleFree_iff h rfl nofun).mpr ?_⟩
  · rfl
  · rfl
  all_goals
    rintro (hflag | ⟨τ, hphase⟩)
    · cases hflag
    · cases τ <;> cases hphase

/-- One thread allocates, which refills its cache with both tasks of the pool. Another frees the
task left there: it is not leased, and lands in two caches. -/
theorem doubleFree_undetected :
    ∃ s₁ s₂ s₃ : State Bool 2,
      exec (init Bool 2) (.alloc false) = some (s₁, .none) ∧
      s₁.cache false = [1] ∧ 1 ∉ s₁.leases ∧
      exec s₁ (.free true (.slot 1)) = some (s₂, .none) ∧
      exec s₂ (.stash true) = some (s₃, .freed) ∧
      s₃.aborted = none ∧ s₃.cache false = [1] ∧ s₃.cache true = [1] :=
  ⟨_, _, _, rfl, rfl, nofun, rfl, rfl, rfl, rfl, rfl⟩

end ApiServer.TaskPool
