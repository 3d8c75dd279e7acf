import ApiServer.TaskPool

/-!
# Conservation of tasks

Every step moves at most one task from one place to another, but for the flush, which moves a whole
cache. So each task stays in exactly one place, and the flag of a task is false exactly while it is
leased or exposed.
-/

namespace ApiServer.TaskPool
open Function

section
variable {Thread : Type} {N : Nat} {s : State Thread N} {own : Fin N → Place Thread}

theorem Owned.init : Owned (init Thread N) fun _ => .stack where
  place i p := by
    cases p with
    | stack => exact ⟨fun _ => rfl, fun _ => List.mem_reverse.mpr (List.mem_finRange i)⟩
    | cache => exact ⟨nofun, nofun⟩
    | call => exact ⟨nofun, nofun⟩
    | lease => exact ⟨nofun, nofun⟩
  stack_nodup := List.nodup_reverse.mpr (List.nodup_finRange N)
  cache_nodup _ := .nil
  leases_nodup := .nil
  cache_le _ := Nat.zero_le _
  flag i := ⟨nofun, by rintro (h | h | ⟨τ, h⟩) <;> cases h⟩
  refilled _ := nofun
  overflow := nofun

theorem Owned.nodup_append (H : Owned s own) (τ : Thread) : (s.cache τ ++ s.stack).Nodup := by
  refine List.nodup_append.mpr ⟨H.cache_nodup τ, H.stack_nodup, ?_⟩
  rintro i hc j hs rfl
  have hin : InPlace s i (.cache τ) := hc
  have hne : Place.cache τ ≠ .stack := nofun
  exact H.place.not_of_ne hin hne hs

theorem Owned.length_le (H : Owned s own) (τ : Thread) :
    s.stack.length + (s.cache τ).length ≤ N := by
  have h := (H.nodup_append τ).length_le_card
  rw [List.length_append, Fintype.card_fin] at h
  omega

theorem inPlace_call {ph : Phase N} {t : Fin N} {τ : Thread} (h : s.phase τ = ph)
    (ht : ph.task = some t) : InPlace s t (.call τ) := by
  rw [InPlace, h]; exact ht

theorem not_call_of_idle {τ : Thread} (h : s.phase τ = .idle) (i : Fin N) :
    ¬InPlace s i (.call τ) := by
  rw [InPlace, h]; exact nofun

end

section
variable {Thread : Type} [DecidableEq Thread] {N : Nat} {s s' : State Thread N}
  {own : Fin N → Place Thread} {τ : Thread} {t : Fin N}

theorem phase_update {ph ph' : Phase N} {τ' : Thread} (hs : s'.phase = update s.phase τ ph) :
    s'.phase τ' = ph' ↔ (τ' = τ ∧ ph = ph') ∨ (τ' ≠ τ ∧ s.phase τ' = ph') := by
  rw [hs]
  by_cases h : τ' = τ
  · subst h
    rw [update_self]
    exact ⟨fun e => .inl ⟨rfl, e⟩, fun | .inl e => e.2 | .inr e => (e.1 rfl).elim⟩
  · rw [update_of_ne h]
    exact ⟨fun e => .inr ⟨h, e⟩, fun | .inl e => (h e.1).elim | .inr e => e.2⟩

/-- The thread takes the task `t` into the pool's code, or keeps it there. -/
theorem inPlace_call_enter {ph : Phase N} (hs : s'.phase = update s.phase τ ph)
    (hph : ph.task = some t) (hfree : ∀ i, i ≠ t → ¬InPlace s i (.call τ)) {i : Fin N}
    (hi : i ≠ t) (τ' : Thread) : InPlace s' i (.call τ') ↔ InPlace s i (.call τ') := by
  rw [InPlace, InPlace, hs]
  by_cases h : τ' = τ
  · subst h
    rw [update_self, hph]
    exact iff_of_false (fun e => hi (Option.some.inj e).symm) (hfree i hi)
  · rw [update_of_ne h]

theorem inPlace_call_self {ph : Phase N} (hs : s'.phase = update s.phase τ ph)
    (hph : ph.task = some t) (hnot : ∀ τ', τ' ≠ τ → ¬InPlace s t (.call τ')) (τ' : Thread) :
    InPlace s' t (.call τ') ↔ Place.call τ = .call τ' := by
  rw [InPlace, hs]
  by_cases h : τ' = τ
  · subst h
    rw [update_self]
    exact iff_of_true hph rfl
  · rw [update_of_ne h]
    exact iff_of_false (hnot τ' h) fun e => h (Place.call.inj e).symm

/-- The thread leaves the pool's code. -/
theorem inPlace_call_leave (hs : s'.phase = update s.phase τ .idle) {i : Fin N} (τ' : Thread) :
    InPlace s' i (.call τ') ↔ τ' ≠ τ ∧ InPlace s i (.call τ') := by
  rw [InPlace, InPlace, hs]
  by_cases h : τ' = τ
  · subst h
    rw [update_self]
    exact iff_of_false nofun fun e => e.1 rfl
  · rw [update_of_ne h]
    exact (and_iff_right h).symm

/-- A change of phase that neither enters nor leaves `cleared i` does not expose `i`. -/
theorem exposed_congr (ph : Phase N) {i : Fin N} (hs : s'.phase = update s.phase τ ph)
    (hr : s'.refilled i = s.refilled i) (hold : s.phase τ ≠ .cleared i) (hnew : ph ≠ .cleared i) :
    Exposed s' i ↔ Exposed s i := by
  unfold Exposed
  rw [hr]
  refine or_congr_right (exists_congr fun τ' => (phase_update hs).trans ⟨?_, fun h => .inr ⟨?_, h⟩⟩)
  · rintro (⟨-, h⟩ | ⟨-, h⟩)
    · exact (hnew h).elim
    · exact h
  · rintro rfl
    exact hold h

theorem refill_phase (n : Nat) : ∀ s : State Thread N, (refill τ n s).phase = s.phase := by
  induction n with
  | zero => exact fun _ => rfl
  | succ n ih =>
    intro s
    unfold refill
    split
    · rfl
    · exact ih _

namespace Owned

theorem refillOne (H : Owned s own) {stack : List (Fin N)} (hst : s.stack = t :: stack)
    (hroom : (s.cache τ).length < tlCacheSize) :
    Owned (refillOne s τ t stack) (update own t (.cache τ)) := by
  have hin : InPlace s t .stack := by rw [InPlace, hst]; exact .head _
  have hnot : ∀ p, .stack ≠ p → ¬InPlace s t p := fun _ => H.place.not_of_ne hin
  have hnd := H.stack_nodup
  rw [hst, List.nodup_cons] at hnd
  refine ⟨H.place.move ?_ ?_, hnd.2, ?_, H.leases_nodup, ?_, ?_, ?_, H.overflow⟩
  · intro p
    cases p with
    | stack => exact iff_of_false hnd.1 nofun
    | cache τ' =>
      refine mem_update_cons.trans ⟨?_, fun h => .inl ⟨rfl, (Place.cache.inj h).symm⟩⟩
      rintro (⟨-, rfl⟩ | h)
      · rfl
      · exact (hnot (.cache τ') nofun h).elim
    | call τ' => exact iff_of_false (hnot (.call τ') nofun) nofun
    | lease => exact iff_of_false (hnot .lease nofun) nofun
  · intro i hi p
    cases p with
    | stack =>
      rw [InPlace, InPlace, hst]
      exact (List.mem_cons.trans (or_iff_right hi)).symm
    | cache τ' => exact mem_update_cons.trans (or_iff_right fun h => hi h.1)
    | call τ' => exact Iff.rfl
    | lease => exact Iff.rfl
  · have hnd' := List.nodup_cons.mpr ⟨hnot (.cache τ) nofun, H.cache_nodup τ⟩
    exact forall_update (P := fun _ => List.Nodup) hnd' H.cache_nodup
  · exact forall_update (P := fun _ l => List.length l ≤ tlCacheSize) hroom H.cache_le
  · intro i
    by_cases hi : i = t
    · subst hi
      exact iff_of_true (update_self ..) (.inr (.inl (update_self ..)))
    · have h := H.flag i
      simp only [TaskPool.refillOne, Exposed, update_of_ne hi] at h ⊢
      exact h
  · intro i h
    by_cases hi : i = t
    · subst hi
      exact .inr ⟨τ, .inl (mem_update_cons.mpr (.inl ⟨rfl, rfl⟩))⟩
    · refine (H.refilled i ((update_of_ne hi ..).symm.trans h)).imp ?_ ?_
      · rw [hst]
        exact fun h => (List.mem_cons.mp h).resolve_left hi
      · exact fun ⟨τ', h⟩ => ⟨τ', h.imp (fun h => mem_update_cons.mpr (.inr h)) id⟩

/-- The refill loop, as long as there is room for its rounds. -/
theorem refill (n : Nat) : ∀ {s : State Thread N} {own}, Owned s own →
    (s.cache τ).length + n ≤ tlCacheSize → ∃ own', Owned (refill τ n s) own' := by
  induction n with
  | zero => exact fun H _ => ⟨_, H⟩
  | succ n ih =>
    intro s own H hroom
    unfold TaskPool.refill
    split
    · exact ⟨_, H⟩
    · rename_i t stack hst
      have hlen : ((TaskPool.refillOne s τ t stack).cache τ).length = (s.cache τ).length + 1 := by
        simp only [TaskPool.refillOne, update_self, List.length_cons]
      exact ih (H.refillOne hst (by omega)) (by omega)

theorem take (H : Owned s own) (hidle : s.phase τ = .idle) : ∃ own', Owned (take s τ).1 own' := by
  unfold TaskPool.take
  split
  · exact ⟨_, H⟩
  · rename_i t cache hc
    have hin : InPlace s t (.cache τ) := by rw [InPlace, hc]; exact .head _
    have hnot : ∀ p, .cache τ ≠ p → ¬InPlace s t p := fun _ => H.place.not_of_ne hin
    have hmem : ∀ i τ', i ∈ update s.cache τ cache τ' ↔ i ∈ s.cache τ' ∧ ¬(i = t ∧ τ' = τ) :=
      fun i τ' => mem_update_tail hc (H.cache_nodup τ)
    have hnd := H.cache_nodup τ
    have hle := H.cache_le τ
    rw [hc] at hnd hle
    refine ⟨update own t (.call τ), H.place.move ?_ ?_, H.stack_nodup, ?_, H.leases_nodup, ?_, ?_,
      ?_, H.overflow⟩
    · intro p
      cases p with
      | stack => exact iff_of_false (hnot .stack nofun) nofun
      | cache τ' =>
        refine iff_of_false (fun h => ?_) nofun
        have h := (hmem t τ').mp h
        exact h.2 ⟨rfl, Place.cache.inj (H.place.unique h.1 hin)⟩
      | call τ' => exact inPlace_call_self rfl rfl (fun τ' _ => hnot (.call τ') nofun) τ'
      | lease => exact iff_of_false (hnot .lease nofun) nofun
    · intro i hi p
      cases p with
      | stack => exact Iff.rfl
      | cache τ' => exact (hmem i τ').trans (and_iff_left fun h => hi h.1)
      | call τ' =>
        exact inPlace_call_enter rfl rfl (fun i _ => not_call_of_idle hidle i) hi τ'
      | lease => exact Iff.rfl
    · exact forall_update (P := fun _ => List.Nodup) (List.nodup_cons.mp hnd).2 H.cache_nodup
    · exact forall_update (P := fun _ l => List.length l ≤ tlCacheSize) (Nat.le_of_succ_le hle)
        H.cache_le
    · intro i
      refine (H.flag i).trans (or_congr_right (Iff.symm ?_))
      exact exposed_congr (.taken t) rfl rfl (by rw [hidle]; exact nofun) nofun
    · intro i hr
      refine (H.refilled i hr).imp id ?_
      rintro ⟨τ', h | h⟩
      · by_cases hi : i = t ∧ τ' = τ
        · obtain ⟨rfl, rfl⟩ := hi
          exact ⟨τ', .inr (update_self ..)⟩
        · exact ⟨τ', .inl ((hmem i τ').mpr ⟨h, hi⟩)⟩
      · refine ⟨τ', .inr ((phase_update rfl).mpr (.inr ⟨?_, h⟩))⟩
        rintro rfl
        rw [hidle] at h
        cases h

theorem taskPoolAlloc (H : Owned s own) (hidle : s.phase τ = .idle) :
    ∃ own', Owned (taskPoolAlloc s τ).1 own' := by
  unfold TaskPool.taskPoolAlloc
  split
  · exact H.take hidle
  · rename_i hc
    have hlen : (s.cache τ).length = 0 := by rw [not_not.mp hc]; rfl
    have hbatch : ∀ n, n = (if s.stack.length < tlCacheSize then s.stack.length else tlCacheSize) →
        (s.cache τ).length + n ≤ tlCacheSize := by
      rintro n rfl
      split <;> omega
    obtain ⟨own', H'⟩ := H.refill _ (hbatch _ rfl)
    exact H'.take (by rw [refill_phase]; exact hidle)

theorem clear (H : Owned s own) (hph : s.phase τ = .taken t) :
    Owned { s with
      isFree := update s.isFree t false
      phase := update s.phase τ (.cleared t)
      refilled := update s.refilled t false } own := by
  have hin : InPlace s t (.call τ) := inPlace_call hph rfl
  have hnot : ∀ p, .call τ ≠ p → ¬InPlace s t p := fun _ => H.place.not_of_ne hin
  refine ⟨?_, H.stack_nodup, H.cache_nodup, H.leases_nodup, H.cache_le, ?_, ?_, H.overflow⟩
  · intro i p
    refine Iff.trans ?_ (H.place i p)
    cases p with
    | call τ' =>
      by_cases h : τ' = τ
      · subst h
        simp only [InPlace, update_self, hph, Phase.task]
      · simp only [InPlace, update_of_ne h]
    | stack => exact Iff.rfl
    | cache => exact Iff.rfl
    | lease => exact Iff.rfl
  · intro i
    by_cases hi : i = t
    · subst hi
      exact iff_of_true (update_self ..) (.inr (.inr ⟨τ, update_self ..⟩))
    · refine (Eq.congr_left (update_of_ne hi ..)).trans ((H.flag i).trans ?_)
      refine or_congr_right (Iff.symm ?_)
      refine exposed_congr (.cleared t) rfl (update_of_ne hi ..) (by rw [hph]; exact nofun) ?_
      exact fun e => hi (Phase.cleared.inj e).symm
  · intro i hr
    by_cases hi : i = t
    · subst hi
      exact absurd (hr.symm.trans (update_self ..)) nofun
    · refine (H.refilled i ((update_of_ne hi ..).symm.trans hr)).imp id ?_
      rintro ⟨τ', h⟩
      refine ⟨τ', h.imp id fun h => (phase_update rfl).mpr (.inr ⟨?_, h⟩)⟩
      rintro rfl
      exact hi (Phase.taken.inj (hph.symm.trans h)).symm

theorem lend (H : Owned s own) (hph : s.phase τ = .cleared t) :
    Owned { s with
      workerBuf := update s.workerBuf t true
      phase := update s.phase τ .idle
      leases := t :: s.leases } (update own t .lease) := by
  have hin : InPlace s t (.call τ) := inPlace_call hph rfl
  have hnot : ∀ p, .call τ ≠ p → ¬InPlace s t p := fun _ => H.place.not_of_ne hin
  refine ⟨H.place.move ?_ ?_, H.stack_nodup, H.cache_nodup, ?_, H.cache_le, ?_, ?_, H.overflow⟩
  · intro p
    cases p with
    | stack => exact iff_of_false (hnot .stack nofun) nofun
    | cache τ' => exact iff_of_false (hnot (.cache τ') nofun) nofun
    | call τ' =>
      refine iff_of_false (fun h => ?_) nofun
      have h := (inPlace_call_leave (s := s) rfl τ').mp h
      exact h.1 (Place.call.inj (H.place.unique h.2 hin))
    | lease => exact iff_of_true (.head _) rfl
  · intro i hi p
    cases p with
    | stack => exact Iff.rfl
    | cache τ' => exact Iff.rfl
    | call τ' =>
      refine (inPlace_call_leave rfl τ').trans (and_iff_right_of_imp ?_)
      rintro h rfl
      rw [InPlace, hph] at h
      exact hi (Option.some.inj h).symm
    | lease => exact List.mem_cons.trans (or_iff_right hi)
  · exact List.nodup_cons.mpr ⟨hnot .lease nofun, H.leases_nodup⟩
  · intro i
    by_cases hi : i = t
    · subst hi
      exact iff_of_true ((H.flag i).mpr (.inr (.inr ⟨τ, hph⟩))) (.inl (.head _))
    · refine (H.flag i).trans (or_congr ?_ (Iff.symm ?_))
      · exact (List.mem_cons.trans (or_iff_right hi)).symm
      · refine exposed_congr .idle rfl rfl ?_ nofun
        rw [hph]
        exact fun e => hi (Phase.cleared.inj e).symm
  · intro i hr
    refine (H.refilled i hr).imp id ?_
    rintro ⟨τ', h⟩
    refine ⟨τ', h.imp id fun h => (phase_update rfl).mpr (.inr ⟨?_, h⟩)⟩
    rintro rfl
    cases hph.symm.trans h

/-- A free of a task that its thread holds, as lessee or inside `task_pool_alloc`. -/
theorem taskPoolFree (H : Owned s own) {inAlloc : Bool}
    (h : (t ∈ s.leases ∧ s.phase τ = .idle) ∨ s.phase τ = .cleared t) :
    Owned { s with
      isFree := update s.isFree t true
      phase := update s.phase τ (.freed t inAlloc)
      leases := s.leases.erase t } (update own t (.call τ)) := by
  have hmem : ∀ i, i ∈ s.leases.erase t ↔ i ≠ t ∧ i ∈ s.leases :=
    fun i => H.leases_nodup.mem_erase_iff
  have hplace : InPlace s t .lease ∨ InPlace s t (.call τ) :=
    h.imp (fun h => h.1) fun h => inPlace_call h rfl
  have hnot : ∀ p, .lease ≠ p → .call τ ≠ p → ¬InPlace s t p := by
    intro p h1 h2
    rcases hplace with hp | hp
    · exact H.place.not_of_ne hp h1
    · exact H.place.not_of_ne hp h2
  have hcall : ∀ i, i ≠ t → ¬InPlace s i (.call τ) := by
    intro i hi
    rcases h with h | h
    · exact not_call_of_idle h.2 i
    · rw [InPlace, h]
      exact fun e => hi (Option.some.inj e).symm
  have hphase : ∀ i, i ≠ t → s.phase τ ≠ .cleared i := fun i hi e => hcall i hi (inPlace_call e rfl)
  have htaken : ∀ i, s.phase τ ≠ .taken i := by
    intro i e
    rcases h with h | h
    · cases e.symm.trans h.2
    · cases e.symm.trans h
  refine ⟨H.place.move ?_ ?_, H.stack_nodup, H.cache_nodup, H.leases_nodup.erase t, H.cache_le, ?_,
    ?_, H.overflow⟩
  · intro p
    cases p with
    | stack => exact iff_of_false (hnot .stack nofun nofun) nofun
    | cache τ' => exact iff_of_false (hnot (.cache τ') nofun nofun) nofun
    | call τ' =>
      refine inPlace_call_self rfl rfl (fun τ' hτ => hnot (.call τ') nofun fun e => hτ ?_) τ'
      exact (Place.call.inj e).symm
    | lease => exact iff_of_false (fun h => ((hmem t).mp h).1 rfl) nofun
  · intro i hi p
    cases p with
    | stack => exact Iff.rfl
    | cache τ' => exact Iff.rfl
    | call τ' => exact inPlace_call_enter rfl rfl hcall hi τ'
    | lease => exact (hmem i).trans (and_iff_right hi)
  · intro i
    by_cases hi : i = t
    · subst hi
      refine iff_of_false (fun e => absurd (e.symm.trans (update_self ..)) nofun) ?_
      rintro (h' | h' | ⟨τ', h'⟩)
      · exact ((hmem i).mp h').1 rfl
      · rcases H.refilled i h' with h' | ⟨τ', h' | h'⟩
        · exact hnot .stack nofun nofun h'
        · exact hnot (.cache τ') nofun nofun h'
        · refine hnot (.call τ') nofun (fun e => ?_) (inPlace_call h' rfl)
          cases e
          exact htaken i h'
      · rcases (phase_update rfl).mp h' with ⟨-, h'⟩ | ⟨hτ, h'⟩
        · cases h'
        · exact hnot (.call τ') nofun (fun e => hτ (Place.call.inj e).symm) (inPlace_call h' rfl)
    · refine (Eq.congr_left (update_of_ne hi ..)).trans ((H.flag i).trans (or_congr ?_ ?_))
      · exact ((hmem i).trans (and_iff_right hi)).symm
      · exact Iff.symm (exposed_congr (.freed t inAlloc) rfl rfl (hphase i hi) nofun)
  · intro i hr
    refine (H.refilled i hr).imp id ?_
    rintro ⟨τ', h'⟩
    refine ⟨τ', h'.imp id fun h' => (phase_update rfl).mpr (.inr ⟨?_, h'⟩)⟩
    rintro rfl
    exact htaken i h'

theorem push (H : Owned s own) {inAlloc : Bool} (hph : s.phase τ = .freed t inAlloc)
    (hroom : (s.cache τ).length < tlCacheSize) :
    Owned { s with
      cache := update s.cache τ (t :: s.cache τ)
      phase := update s.phase τ .idle } (update own t (.cache τ)) := by
  have hin : InPlace s t (.call τ) := inPlace_call hph rfl
  have hnot : ∀ p, .call τ ≠ p → ¬InPlace s t p := fun _ => H.place.not_of_ne hin
  refine ⟨H.place.move ?_ ?_, H.stack_nodup, ?_, H.leases_nodup, ?_, ?_, ?_, H.overflow⟩
  · intro p
    cases p with
    | stack => exact iff_of_false (hnot .stack nofun) nofun
    | cache τ' =>
      refine mem_update_cons.trans ⟨?_, fun h => .inl ⟨rfl, (Place.cache.inj h).symm⟩⟩
      rintro (⟨-, rfl⟩ | h)
      · rfl
      · exact (hnot (.cache τ') nofun h).elim
    | call τ' =>
      refine iff_of_false (fun h => ?_) nofun
      have h := (inPlace_call_leave (s := s) rfl τ').mp h
      exact h.1 (Place.call.inj (H.place.unique h.2 hin))
    | lease => exact iff_of_false (hnot .lease nofun) nofun
  · intro i hi p
    cases p with
    | stack => exact Iff.rfl
    | cache τ' => exact mem_update_cons.trans (or_iff_right fun h => hi h.1)
    | call τ' =>
      refine (inPlace_call_leave rfl τ').trans (and_iff_right_of_imp ?_)
      rintro h rfl
      rw [InPlace, hph] at h
      exact hi (Option.some.inj h).symm
    | lease => exact Iff.rfl
  · have hnd' := List.nodup_cons.mpr ⟨hnot (.cache τ) nofun, H.cache_nodup τ⟩
    exact forall_update (P := fun _ => List.Nodup) hnd' H.cache_nodup
  · exact forall_update (P := fun _ l => List.length l ≤ tlCacheSize) hroom H.cache_le
  · intro i
    refine (H.flag i).trans (or_congr_right (Iff.symm ?_))
    exact exposed_congr .idle rfl rfl (by rw [hph]; exact nofun) nofun
  · intro i hr
    refine (H.refilled i hr).imp id ?_
    rintro ⟨τ', h⟩
    refine ⟨τ', h.imp (fun h => mem_update_cons.mpr (.inr h)) fun h => ?_⟩
    refine (phase_update rfl).mpr (.inr ⟨?_, h⟩)
    rintro rfl
    cases hph.symm.trans h

/-- The flush loop: the whole cache goes to the stack. -/
theorem flush (H : Owned s own) (τ : Thread) :
    Owned { s with stack := s.cache τ ++ s.stack, cache := update s.cache τ [] }
      fun i => if i ∈ s.cache τ then .stack else own i := by
  refine ⟨?_, H.nodup_append τ, ?_, H.leases_nodup, ?_, H.flag, ?_, H.overflow⟩
  · intro i p
    by_cases hi : i ∈ s.cache τ
    · have hin : InPlace s i (.cache τ) := hi
      have hnot : ∀ p, .cache τ ≠ p → ¬InPlace s i p := fun _ => H.place.not_of_ne hin
      simp only [if_pos hi]
      cases p with
      | stack => exact iff_of_true (List.mem_append_left _ hi) rfl
      | cache τ' =>
        refine iff_of_false (fun h => ?_) nofun
        have h := mem_update_nil.mp h
        exact h.1 (Place.cache.inj (H.place.unique h.2 hin))
      | call τ' => exact iff_of_false (hnot (.call τ') nofun) nofun
      | lease => exact iff_of_false (hnot .lease nofun) nofun
    · simp only [if_neg hi]
      rw [← H.place i p]
      cases p with
      | stack => exact List.mem_append.trans (or_iff_right hi)
      | cache τ' =>
        refine mem_update_nil.trans (and_iff_right_of_imp ?_)
        rintro h rfl
        exact hi h
      | call τ' => exact Iff.rfl
      | lease => exact Iff.rfl
  · exact forall_update (P := fun _ => List.Nodup) .nil H.cache_nodup
  · exact forall_update (P := fun _ l => List.length l ≤ tlCacheSize) (Nat.zero_le _) H.cache_le
  · intro i hr
    rcases H.refilled i hr with h | ⟨τ', h | h⟩
    · exact .inl (List.mem_append_right _ h)
    · by_cases hτ : τ' = τ
      · subst hτ
        exact .inl (List.mem_append_left _ h)
      · exact .inr ⟨τ', .inl (mem_update_nil.mpr ⟨hτ, h⟩)⟩
    · exact .inr ⟨τ', .inr h⟩

theorem stash (H : Owned s own) {inAlloc : Bool} (hph : s.phase τ = .freed t inAlloc) :
    ∃ own', Owned (stash s τ t inAlloc).1 own' := by
  unfold TaskPool.stash
  dsimp only
  split
  · rename_i hroom
    exact ⟨_, H.push hph hroom⟩
  · split
    · rename_i hover
      exact absurd (H.length_le τ) (Nat.not_le.mpr hover)
    · have hempty : (update s.cache τ [] τ).length < tlCacheSize := by
        rw [update_self]; exact Nat.zero_lt_succ _
      have H' := (H.flush τ).push hph hempty
      simp only [update_self, update_idem] at H'
      exact ⟨_, H'⟩

omit [DecidableEq Thread] in
theorem abort (H : Owned s own) : Owned { s with aborted := some .doubleFree } own :=
  ⟨H.place, H.stack_nodup, H.cache_nodup, H.leases_nodup, H.cache_le, H.flag, H.refilled, nofun⟩

/-- The exchange fails, or the task is one that the thread may free. -/
theorem free (H : Owned s own) {inAlloc : Bool}
    (h : s.isFree t = false → (t ∈ s.leases ∧ s.phase τ = .idle) ∨ s.phase τ = .cleared t) :
    ∃ own', Owned (TaskPool.taskPoolFree s τ t inAlloc).1 own' := by
  unfold TaskPool.taskPoolFree
  split
  · exact ⟨_, H.abort⟩
  · rename_i hflag
    exact ⟨_, H.taskPoolFree (h (Bool.not_eq_true _ ▸ hflag))⟩

end Owned

/-! ## Runs -/

/-- A free is of a leased task, or of one that is not exposed. -/
def FreesUnexposed (s : State Thread N) (e : Event Thread N) : Prop :=
  ∀ τ t, e = .free τ (.slot t) → t ∈ s.leases ∨ ¬Exposed s t

omit [DecidableEq Thread] in
private theorem fst_eq {x : State Thread N × Reply N} {r : Reply N}
    (h : some x = some (s', r)) : x.1 = s' := congrArg Prod.fst (Option.some.inj h)

/-- The step lemma. -/
theorem Owned.exec (H : Owned s own) {e : Event Thread N} (hG : FreesUnexposed s e)
    {r : Reply N} (h : exec s e = some (s', r)) : ∃ own', Owned s' own' := by
  cases e with
  | alloc τ =>
    rw [TaskPool.exec] at h
    split at h
    · rename_i hidle
      obtain rfl := fst_eq h
      exact H.taskPoolAlloc hidle
    · cases h
  | clear τ =>
    rw [TaskPool.exec] at h
    split at h
    · rename_i t hph
      obtain rfl := fst_eq h
      exact ⟨_, H.clear hph⟩
    · cases h
  | ready τ evbufferNew =>
    rw [TaskPool.exec] at h
    split at h
    · rename_i t hph
      split at h
      · obtain rfl := fst_eq h
        exact ⟨_, H.lend hph⟩
      · obtain rfl := fst_eq h
        exact H.free fun _ => .inr hph
    · cases h
  | free τ p =>
    unfold TaskPool.exec at h
    dsimp only at h
    split at h
    · rename_i hidle
      cases p with
      | null =>
        obtain rfl := fst_eq h
        exact ⟨_, H⟩
      | foreign =>
        obtain rfl := fst_eq h
        exact ⟨_, H⟩
      | slot t =>
        obtain rfl := fst_eq h
        refine H.free fun hflag => .inl ⟨?_, hidle⟩
        rcases hG τ t rfl with hl | hexp
        · exact hl
        · exact ((H.flag t).mp hflag).resolve_right hexp
    · cases h
  | stash τ =>
    rw [TaskPool.exec] at h
    split at h
    · rename_i t inAlloc hph
      obtain rfl := fst_eq h
      exact H.stash hph
    · cases h

theorem owned_of_reachable (H : (system Thread N).Reachable FreesUnexposed s) :
    ∃ own, Owned s own := by
  refine H.invariant (I := fun s => ∃ own, Owned s own) ?_ ?_
  · rintro s rfl
    exact ⟨_, Owned.init⟩
  · rintro s e s' - ⟨own, hs⟩ hG ⟨-, r, h⟩
    exact hs.exec hG h

/-- Only leased tasks are freed. -/
def FreesLeased (s : State Thread N) (e : Event Thread N) : Prop :=
  ∀ τ t, e = .free τ (.slot t) → t ∈ s.leases

theorem refill_aborted (n : Nat) : ∀ s : State Thread N, (refill τ n s).aborted = s.aborted := by
  induction n with
  | zero => exact fun _ => rfl
  | succ n ih =>
    intro s
    unfold refill
    split
    · rfl
    · exact ih _

theorem take_aborted (s : State Thread N) (τ : Thread) : (take s τ).1.aborted = s.aborted := by
  unfold take
  split <;> rfl

theorem taskPoolAlloc_aborted (s : State Thread N) (τ : Thread) :
    (taskPoolAlloc s τ).1.aborted = s.aborted := by
  unfold taskPoolAlloc
  split
  · exact take_aborted s τ
  · exact (take_aborted _ τ).trans (refill_aborted _ s)

theorem taskPoolFree_aborted {inAlloc : Bool} (h : s.isFree t = false) :
    (taskPoolFree s τ t inAlloc).1.aborted = s.aborted := by
  rw [taskPoolFree, h]; rfl

theorem Owned.stash_aborted (H : Owned s own) {inAlloc : Bool} :
    (TaskPool.stash s τ t inAlloc).1.aborted = s.aborted := by
  unfold TaskPool.stash
  dsimp only
  split
  · rfl
  · rw [if_neg (Nat.not_lt.mpr (H.length_le τ))]

/-- Neither call of `abort` is reached. -/
theorem Owned.exec_aborted (H : Owned s own) {e : Event Thread N} (hG : FreesLeased s e)
    {r : Reply N} (h : TaskPool.exec s e = some (s', r)) : s'.aborted = s.aborted := by
  cases e with
  | alloc τ =>
    rw [TaskPool.exec] at h
    split at h
    · obtain rfl := fst_eq h
      exact taskPoolAlloc_aborted s τ
    · cases h
  | clear τ =>
    rw [TaskPool.exec] at h
    split at h
    · obtain rfl := fst_eq h
      rfl
    · cases h
  | ready τ evbufferNew =>
    rw [TaskPool.exec] at h
    split at h
    · rename_i t hph
      split at h
      · obtain rfl := fst_eq h
        rfl
      · obtain rfl := fst_eq h
        exact taskPoolFree_aborted ((H.flag t).mpr (.inr (.inr ⟨τ, hph⟩)))
    · cases h
  | free τ p =>
    unfold TaskPool.exec at h
    dsimp only at h
    split at h
    · cases p with
      | null =>
        obtain rfl := fst_eq h
        rfl
      | foreign =>
        obtain rfl := fst_eq h
        rfl
      | slot t =>
        obtain rfl := fst_eq h
        exact taskPoolFree_aborted ((H.flag t).mpr (.inl (hG τ t rfl)))
    · cases h
  | stash τ =>
    rw [TaskPool.exec] at h
    split at h
    · obtain rfl := fst_eq h
      exact H.stash_aborted
    · cases h

/-! ## Counting -/

theorem length_refill_cache (n : Nat) : ∀ s : State Thread N,
    ((refill τ n s).cache τ).length = (s.cache τ).length + min n s.stack.length := by
  induction n with
  | zero => exact fun s => by rw [Nat.zero_min]; rfl
  | succ n ih =>
    intro s
    unfold refill
    split
    · rename_i hst
      rw [hst, List.length_nil, Nat.min_zero, Nat.add_zero]
    · rename_i t stack hst
      rw [ih, hst, List.length_cons]
      simp only [refillOne, update_self, List.length_cons]
      omega

/-- A null pointer comes from an empty cache and an empty stack. -/
theorem taskPoolAlloc_null (h : (taskPoolAlloc s τ).2 = .allocated none) :
    s.cache τ = [] ∧ s.stack = [] := by
  have htake : ∀ {s : State Thread N}, (take s τ).2 = .allocated none → s.cache τ = [] := by
    intro s h
    unfold take at h
    split at h
    · assumption
    · cases h
  unfold taskPoolAlloc at h
  split at h
  · rename_i hne
    exact absurd (htake h) hne
  · rename_i hc
    have hlen := length_refill_cache (τ := τ)
      (if s.stack.length < tlCacheSize then s.stack.length else tlCacheSize) s
    rw [htake h, List.length_nil] at hlen
    refine ⟨not_not.mp hc, List.length_eq_zero_iff.mp ?_⟩
    have : 0 < tlCacheSize := Nat.zero_lt_succ _
    split at hlen <;> omega

section
variable [Fintype Thread]

def leasedTasks (s : State Thread N) : Finset (Fin N) :=
  Finset.univ.filter fun i => i ∈ s.leases ∨ ∃ τ, (s.phase τ).task = some i

def cachedTasks (s : State Thread N) : Finset (Fin N) :=
  Finset.univ.biUnion fun τ => (s.cache τ).toFinset

omit [DecidableEq Thread] in
theorem Owned.card_cachedTasks (H : Owned s own) :
    (cachedTasks s).card = ∑ τ, (s.cache τ).length := by
  rw [cachedTasks, Finset.card_biUnion]
  · exact Finset.sum_congr rfl fun τ _ => List.toFinset_card_of_nodup (H.cache_nodup τ)
  · intro τ _ τ' _ hne
    refine Finset.disjoint_left.mpr fun i h h' => hne ?_
    have h : InPlace s i (.cache τ) := List.mem_toFinset.mp h
    exact Place.cache.inj (H.place.unique h (List.mem_toFinset.mp h'))

omit [DecidableEq Thread] in
/-- The tasks on the stack, in the caches and leased are all there are. -/
theorem Owned.card (H : Owned s own) :
    s.stack.length + ∑ τ, (s.cache τ).length + (leasedTasks s).card = N := by
  have hstack : ∀ {i p}, i ∈ s.stack → InPlace s i p → .stack = p := fun h => H.place.unique h
  have hcached : ∀ {i p}, i ∈ cachedTasks s → InPlace s i p → ∃ τ, .cache τ = p := by
    intro i p h hp
    obtain ⟨τ, -, h⟩ := Finset.mem_biUnion.mp h
    have h : InPlace s i (.cache τ) := List.mem_toFinset.mp h
    exact ⟨τ, H.place.unique h hp⟩
  have hleased : ∀ {i}, i ∈ leasedTasks s → InPlace s i .lease ∨ ∃ τ, InPlace s i (.call τ) :=
    fun h => (Finset.mem_filter.mp h).2
  have h1 : Disjoint s.stack.toFinset (cachedTasks s) := by
    refine Finset.disjoint_left.mpr fun i h h' => ?_
    obtain ⟨τ, h⟩ := hcached (p := .stack) h' (List.mem_toFinset.mp h)
    cases h
  have h2 : Disjoint (s.stack.toFinset ∪ cachedTasks s) (leasedTasks s) := by
    refine Finset.disjoint_left.mpr fun i h h' => ?_
    rcases Finset.mem_union.mp h with h | h
    · have h := List.mem_toFinset.mp h
      rcases hleased h' with h' | ⟨τ, h'⟩
      · cases hstack h h'
      · cases hstack h h'
    · rcases hleased h' with h' | ⟨τ, h'⟩
      · obtain ⟨τ', h⟩ := hcached h h'
        cases h
      · obtain ⟨τ', h⟩ := hcached h h'
        cases h
  have hall : s.stack.toFinset ∪ cachedTasks s ∪ leasedTasks s = Finset.univ := by
    refine Finset.eq_univ_of_forall fun i => ?_
    obtain ⟨p, hp, -⟩ := H.place.existsUnique i
    cases p with
    | stack =>
      exact Finset.mem_union_left _ (Finset.mem_union_left _ (List.mem_toFinset.mpr hp))
    | cache τ =>
      refine Finset.mem_union_left _ (Finset.mem_union_right _ ?_)
      exact Finset.mem_biUnion.mpr ⟨τ, Finset.mem_univ τ, List.mem_toFinset.mpr hp⟩
    | call τ =>
      exact Finset.mem_union_right _ (Finset.mem_filter.mpr ⟨Finset.mem_univ i, .inr ⟨τ, hp⟩⟩)
    | lease =>
      exact Finset.mem_union_right _ (Finset.mem_filter.mpr ⟨Finset.mem_univ i, .inl hp⟩)
  have hcard := congrArg Finset.card hall
  rw [Finset.card_union_of_disjoint h2, Finset.card_union_of_disjoint h1, H.card_cachedTasks,
    List.toFinset_card_of_nodup H.stack_nodup, Finset.card_univ, Fintype.card_fin] at hcard
  exact hcard

/-- Every task is on the stack, in one cache or leased, and the pool has not aborted. -/
structure Conserved (s : State Thread N) : Prop where
  place : ∀ i, ∃! p, InPlace s i p
  stack_nodup : s.stack.Nodup
  cache_nodup : ∀ τ, (s.cache τ).Nodup
  leases_nodup : s.leases.Nodup
  cache_le : ∀ τ, (s.cache τ).length ≤ tlCacheSize
  stack_le : s.stack.length ≤ N
  noAbort : s.aborted = none

/-- As long as only leased tasks are freed, each task is in exactly one place and no `abort` is
reached. `task_pool_alloc` returns null only if `evbuffer_new` has failed in it, or if the tasks
leased and those in the caches of other threads are all there are. -/
theorem taskPool_conserved (H : (system Thread N).Reachable FreesLeased s) :
    Conserved s ∧ ∀ e s', exec s e = some (s', .allocated none) →
      (∃ τ t, e = .stash τ ∧ s.phase τ = .freed t true) ∨
      ∃ τ, e = .alloc τ ∧
        (leasedTasks s).card + ∑ τ' ∈ Finset.univ.erase τ, (s.cache τ').length = N := by
  obtain ⟨own, hown⟩ := owned_of_reachable (H.mono fun s e h τ t he => .inl (h τ t he))
  have hlive : s.aborted = none := by
    refine H.invariant (I := fun s => s.aborted = none) ?_ ?_
    · rintro s rfl
      rfl
    · rintro s e s' hs ih hG ⟨-, r, h⟩
      obtain ⟨own, hown⟩ := owned_of_reachable (hs.mono fun s e h τ t he => .inl (h τ t he))
      exact (hown.exec_aborted hG h).trans ih
  refine ⟨⟨hown.place.existsUnique, hown.stack_nodup, hown.cache_nodup, hown.leases_nodup,
    hown.cache_le, ?_, hlive⟩, ?_⟩
  · exact hown.stack_nodup.length_le_card.trans_eq (Fintype.card_fin N)
  · intro e s' h
    cases e with
    | alloc τ =>
      rw [exec] at h
      split at h
      · have hnull := congrArg Prod.snd (Option.some.inj h)
        obtain ⟨hc, hst⟩ := taskPoolAlloc_null hnull
        refine .inr ⟨τ, rfl, ?_⟩
        have hcard := hown.card
        rw [hst, List.length_nil, ← Finset.add_sum_erase _ _ (Finset.mem_univ τ), hc,
          List.length_nil] at hcard
        omega
      · cases h
    | clear τ =>
      rw [exec] at h
      split at h <;> cases h
    | ready τ evbufferNew =>
      rw [exec] at h
      split at h
      · split at h
        · cases h
        · have h := congrArg Prod.snd (Option.some.inj h)
          unfold taskPoolFree at h
          split at h <;> cases h
      · cases h
    | free τ p =>
      unfold exec at h
      dsimp only at h
      split at h
      · cases p with
        | null => cases h
        | foreign => cases h
        | slot t =>
          have h := congrArg Prod.snd (Option.some.inj h)
          unfold taskPoolFree at h
          split at h <;> cases h
      · cases h
    | stash τ =>
      rw [exec] at h
      split at h
      · rename_i t inAlloc hph
        have h := congrArg Prod.snd (Option.some.inj h)
        refine .inl ⟨τ, t, rfl, ?_⟩
        cases inAlloc with
        | true => exact hph
        | false =>
          unfold stash at h
          dsimp only at h
          split at h
          · cases h
          · split at h <;> cases h
      · cases h

end

end

/-- Two tasks: the first allocation has refilled the cache with both and taken one. -/
theorem taskPool_conserved_two :
    Conserved (taskPoolAlloc (init Bool 2) false).1 ∧
      ∀ e s', exec (taskPoolAlloc (init Bool 2) false).1 e = some (s', .allocated none) →
        (∃ τ t, e = .stash τ ∧
          (taskPoolAlloc (init Bool 2) false).1.phase τ = .freed t true) ∨
        ∃ τ, e = .alloc τ ∧ (leasedTasks (taskPoolAlloc (init Bool 2) false).1).card +
          ∑ τ' ∈ Finset.univ.erase τ, ((taskPoolAlloc (init Bool 2) false).1.cache τ').length = 2 :=
  taskPool_conserved (.step (e := .alloc false) (.init rfl) nofun ⟨rfl, _, rfl⟩)

end ApiServer.TaskPool
