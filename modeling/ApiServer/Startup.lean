import ApiServer.Lib.Transition
import Mathlib.Algebra.BigOperators.Fin
import Mathlib.Algebra.Order.BigOperators.Group.Finset

/-!
# Start and end of the reactors

`server_start` creates the reactors and meets them at a barrier (`g_startup_barrier`), after which all
of them look at `g_startup_failed`. `LOG_FATAL` ends the process. A reactor then enters
`event_base_dispatch`, which clears what `event_base_loopbreak` has set before. The requests, the
workers and the queues are left out: the main thread is in `serving` from `wait_and_shutdown` until it
comes to `server_shutdown_workers`.
-/

namespace ApiServer.Startup
open Function

/-- Where a reactor is in `reactor_thread_logic`. -/
inductive ReactorPhase where
  | unborn
  /-- Before `create_optimized_event_base`. -/
  | starting
  /-- The base is stored, the socket and the HTTP server are not there yet. -/
  | configuring
  /-- In `pthread_barrier_wait`, with a base or without. -/
  | waiting (ok : Bool)
  | released (ok : Bool)
  | dispatching
  | gone
  deriving DecidableEq

/-- Where the main thread is in `server_start`. -/
inductive MainPhase where
  /-- `spawn_worker_threads`, at that reactor. -/
  | spawning (i : Nat)
  | waiting
  | released
  | serving
  /-- `server_shutdown_workers`, at that reactor. -/
  | breaking (i : Nat)
  | joining
  | halted

structure State (n : Nat) where
  reactor : Fin n → ReactorPhase := fun _ => .unborn
  main : MainPhase := .spawning 0
  /-- `g_startup_failed`. -/
  failed : Bool := false
  /-- Whether the entry of `g_reactor_bases` is set. -/
  base : Fin n → Bool := fun _ => false
  /-- The flag that `event_base_loopbreak` sets. -/
  broken : Fin n → Bool := fun _ => false
  /-- `LOG_FATAL` has ended the process. -/
  exited : Bool := false

def ReactorPhase.release : ReactorPhase → ReactorPhase
  | .waiting ok => .released ok
  | ph => ph

inductive Event (n : Nat) where
  | main
  | reactor (r : Fin n)
  | barrier

section
variable {n : Nat}

def setReactor (s : State n) (r : Fin n) (ph : ReactorPhase) : State n :=
  { s with reactor := update s.reactor r ph }

/-- One step of one thread, or of the barrier. -/
inductive Step : State n → Event n → State n → Prop where
  | spawn {s} {r : Fin n} : s.exited = false → s.main = .spawning r →
    Step s .main { setReactor s r .starting with main := .spawning (r + 1) }
  | spawnFails {s} {r : Fin n} : s.exited = false → s.main = .spawning r →
    Step s .main { s with exited := true }
  | spawned {s} : s.exited = false → s.main = .spawning n → Step s .main { s with main := .waiting }
  | baseFails {s r} : s.exited = false → s.reactor r = .starting →
    Step s (.reactor r) { setReactor s r (.waiting false) with failed := true }
  | baseMade {s r} : s.exited = false → s.reactor r = .starting →
    Step s (.reactor r) { setReactor s r .configuring with base := update s.base r true }
  | configureFails {s r} : s.exited = false → s.reactor r = .configuring →
    Step s (.reactor r) { s with exited := true }
  | configured {s r} : s.exited = false → s.reactor r = .configuring →
    Step s (.reactor r) (setReactor s r (.waiting true))
  | barrier {s} : s.exited = false → s.main = .waiting → (∀ r, ∃ ok, s.reactor r = .waiting ok) →
    Step s .barrier { s with main := .released, reactor := fun r => (s.reactor r).release }
  /-- The reactor without a base. -/
  | giveUp {s r} : s.exited = false → s.reactor r = .released false →
    Step s (.reactor r) (setReactor s r .gone)
  | abort {s r} : s.exited = false → s.reactor r = .released true → s.failed = true →
    Step s (.reactor r) { setReactor s r .gone with base := update s.base r false }
  | dispatch {s r} : s.exited = false → s.reactor r = .released true → s.failed = false →
    Step s (.reactor r) { setReactor s r .dispatching with broken := update s.broken r false }
  | fail {s} : s.exited = false → s.main = .released → s.failed = true →
    Step s .main { s with exited := true }
  | serve {s} : s.exited = false → s.main = .released → s.failed = false →
    Step s .main { s with main := .serving }
  | stop {s} : s.exited = false → s.main = .serving → Step s .main { s with main := .breaking 0 }
  | loopbreak {s} {r : Fin n} : s.exited = false → s.main = .breaking r →
    Step s .main { s with
      main := .breaking (r + 1)
      broken := if s.base r then update s.broken r true else s.broken }
  | broke {s} : s.exited = false → s.main = .breaking n → Step s .main { s with main := .joining }
  | leave {s r} : s.exited = false → s.reactor r = .dispatching → s.broken r = true →
    Step s (.reactor r) (setReactor s r .gone)
  | join {s} : s.exited = false → s.main = .joining → (∀ r, s.reactor r = .gone) →
    Step s .main { s with main := .halted }

def system (n : Nat) : System (State n) (Event n) where
  init s := s = {}
  step := Step

end

/-! ## Who can be where -/

section
variable (r : Nat)

/-- The main thread has not created that reactor. -/
def MainPhase.Unborn : MainPhase → Prop
  | .spawning i => i ≤ r
  | _ => False

/-- The reactor exists, and the barrier holds. -/
def MainPhase.Before : MainPhase → Prop
  | .spawning i => r < i
  | .waiting => True
  | _ => False

/-- The loop of that reactor has been asked to end. -/
def MainPhase.Past : MainPhase → Prop
  | .breaking i => r < i
  | .joining | .halted => True
  | _ => False

end

/-- The barrier has been passed. -/
def MainPhase.After : MainPhase → Prop
  | .spawning _ | .waiting => False
  | _ => True

/-- The main thread has found that nobody failed. -/
def MainPhase.Serves : MainPhase → Prop
  | .serving | .breaking _ | .joining | .halted => True
  | _ => False

/-- What each phase of a reactor says about the others: about the main thread, `g_startup_failed`, its
entry of `g_reactor_bases` and the flag of its base. -/
def ReactorOk (main : MainPhase) (failed base broken : Bool) (r : Nat) : ReactorPhase → Prop
  | .unborn => main.Unborn r
  | .starting => main.Before r
  | .configuring => main.Before r ∧ base = true
  | .waiting ok => main.Before r ∧ (ok = true → base = true) ∧ (ok = false → failed = true)
  | .released ok => main.After ∧ (ok = true → base = true) ∧ (ok = false → failed = true)
  | .dispatching => main.After ∧ failed = false ∧ base = true
  | .gone => main.After ∧ (failed = false → base = true ∧ broken = true)

structure Inv {n : Nat} (s : State n) : Prop where
  reactor : ∀ r : Fin n, ReactorOk s.main s.failed (s.base r) (s.broken r) r (s.reactor r)
  broken : ∀ r : Fin n, s.broken r = true → s.main.Past r
  serves : s.main.Serves → s.failed = false ∧ s.exited = false
  spawning : ∀ i, s.main = .spawning i → i ≤ n
  breaking : ∀ i, s.main = .breaking i → i ≤ n
  halted : s.main = .halted → ∀ r, s.reactor r = .gone

section
variable {n : Nat} {s s' : State n} {e : Event n} {main main' : MainPhase} {ph : ReactorPhase}
variable {failed base broken : Bool}

theorem MainPhase.Before.not_after {r : Nat} (h : main.Before r) : ¬main.After := by
  cases main <;> first | exact id | exact h.elim

theorem MainPhase.Serves.after (h : main.Serves) : main.After := by
  cases main <;> trivial

theorem ReactorOk.mono {r : Nat} (h : ReactorOk main failed base broken r ph)
    (hu : main.Unborn r → main'.Unborn r) (hb : main.Before r → main'.Before r)
    (ha : main.After → main'.After) : ReactorOk main' failed base broken r ph := by
  cases ph with
  | unborn => exact hu h
  | starting => exact hb h
  | configuring => exact ⟨hb h.1, h.2⟩
  | waiting ok => exact ⟨hb h.1, h.2⟩
  | released ok => exact ⟨ha h.1, h.2⟩
  | dispatching => exact ⟨ha h.1, h.2⟩
  | gone => exact ⟨ha h.1, h.2⟩

/-- A failure before the barrier leaves the other reactors in order. -/
theorem ReactorOk.fail {r q : Nat} (h : ReactorOk main failed base broken r ph) (hq : main.Before q) :
    ReactorOk main true base broken r ph := by
  cases ph with
  | unborn | starting | configuring => exact h
  | waiting ok => exact ⟨h.1, h.2.1, fun _ => rfl⟩
  | released ok | dispatching | gone => exact absurd h.1 hq.not_after

/-- A reactor that runs the loop or has run it got there with its base, and nobody failed. -/
theorem ReactorOk.base_of_after {r : Nat} (h : ReactorOk main failed base broken r ph)
    (hm : main.After) (hf : failed = false) :
    base = true ∧ (ph = .released true ∨ ph = .dispatching ∨ ph = .gone ∧ broken = true) := by
  cases ph with
  | unborn => cases main <;> first | exact h.elim | exact hm.elim
  | starting => exact absurd hm (MainPhase.Before.not_after h)
  | configuring | waiting => exact absurd hm h.1.not_after
  | released ok =>
    cases ok with
    | true => exact ⟨h.2.1 rfl, .inl rfl⟩
    | false =>
      have := h.2.2 rfl
      rw [hf] at this
      cases this
  | dispatching => exact ⟨h.2.2, .inr (.inl rfl)⟩
  | gone => exact ⟨(h.2 hf).1, .inr (.inr ⟨rfl, (h.2 hf).2⟩)⟩

theorem Inv.init : Inv ({} : State n) where
  reactor _ := Nat.zero_le _
  broken _ h := by cases h
  serves h := h.elim
  spawning i h := by
    cases h
    exact Nat.zero_le n
  breaking _ h := by cases h
  halted h := by cases h

/-- A step of one reactor that keeps `g_startup_failed`. -/
theorem Inv.move (h : Inv s) (r : Fin n) (hmain : s'.main = s.main) (hfailed : s'.failed = s.failed)
    (hexited : s'.exited = s.exited)
    (hframe : ∀ q ≠ r, s'.reactor q = s.reactor q ∧ s'.base q = s.base q ∧ s'.broken q = s.broken q)
    (hr : ReactorOk s.main s.failed (s'.base r) (s'.broken r) r (s'.reactor r))
    (hb : s'.broken r = true → s.broken r = true) (hg : s.reactor r ≠ .gone) : Inv s' where
  reactor q := by
    rw [hmain, hfailed]
    by_cases hq : q = r
    · rw [hq]
      exact hr
    · obtain ⟨h₁, h₂, h₃⟩ := hframe q hq
      rw [h₁, h₂, h₃]
      exact h.reactor q
  broken q hbq := by
    rw [hmain]
    by_cases hq : q = r
    · rw [hq] at hbq ⊢
      exact h.broken r (hb hbq)
    · rw [(hframe q hq).2.2] at hbq
      exact h.broken q hbq
  serves hs := by
    rw [hmain] at hs
    rw [hfailed, hexited]
    exact h.serves hs
  spawning i hi := h.spawning i (hmain ▸ hi)
  breaking i hi := h.breaking i (hmain ▸ hi)
  halted hm := absurd (h.halted (hmain ▸ hm) r) hg

/-- A step of the main thread behind the barrier. -/
theorem Inv.advance (h : Inv s) (ha : s.main.After) (ha' : main'.After)
    (hp : ∀ r : Fin n, s.main.Past r → main'.Past r) (hserves : s.failed = false ∧ s.exited = false)
    (hbreaking : ∀ i, main' = .breaking i → i ≤ n)
    (hhalted : main' = .halted → ∀ r, s.reactor r = .gone) : Inv { s with main := main' } where
  reactor r := by
    refine (h.reactor r).mono (fun hu => ?_) (fun hb => absurd ha hb.not_after) (fun _ => ha')
    revert hu ha
    show s.main.After → s.main.Unborn r → _
    cases s.main <;> first | exact fun ha _ => ha.elim | exact fun _ hu => hu.elim
  broken r hb := hp r (h.broken r hb)
  serves _ := hserves
  spawning i hi := by
    have hi : main' = .spawning i := hi
    rw [hi] at ha'
    exact ha'.elim
  breaking := hbreaking
  halted := hhalted

/-- A reactor is created. -/
theorem Inv.spawn (h : Inv s) {r : Fin n} (hm : s.main = .spawning r) :
    Inv { setReactor s r .starting with main := .spawning (r + 1) } where
  reactor q := by
    have hq := h.reactor q
    rw [hm] at hq
    by_cases hqr : q = r
    · simp only [setReactor, hqr, update_self]
      exact Nat.lt_succ_self _
    · simp only [setReactor, update_of_ne hqr]
      have hne : q.val ≠ r.val := fun h => hqr (Fin.ext h)
      exact hq.mono (fun hu => Nat.lt_of_le_of_ne hu hne.symm) Nat.lt_succ_of_lt id
  broken q hb := by
    have := h.broken q hb
    rw [hm] at this
    exact this.elim
  serves hs := hs.elim
  spawning i hi := by
    cases hi
    exact r.isLt
  breaking _ hi := by cases hi
  halted hi := by cases hi

theorem Inv.baseFails (h : Inv s) {r : Fin n} (hr : s.reactor r = .starting) :
    Inv { setReactor s r (.waiting false) with failed := true } := by
  have hbefore : s.main.Before r := by
    have := h.reactor r
    rwa [hr] at this
  refine ⟨fun q => ?_, h.broken, fun hs => absurd hs.after hbefore.not_after, h.spawning, h.breaking,
    fun hm => ?_⟩
  rotate_left
  · have hm : s.main = .halted := hm
    rw [hm] at hbefore
    exact hbefore.elim
  by_cases hq : q = r
  · simp only [setReactor, hq, update_self]
    exact ⟨hbefore, fun h => (Bool.false_ne_true h).elim, fun _ => rfl⟩
  · simp only [setReactor, update_of_ne hq]
    exact (h.reactor q).fail hbefore

theorem Inv.barrier (h : Inv s) (hall : ∀ r, ∃ ok, s.reactor r = .waiting ok) (hm : s.main = .waiting) :
    Inv { s with main := .released, reactor := fun r => (s.reactor r).release } where
  reactor r := by
    obtain ⟨ok, hok⟩ := hall r
    have hr := h.reactor r
    rw [hok] at hr
    simp only [hok]
    exact ⟨trivial, hr.2⟩
  broken r hb := by
    have := h.broken r hb
    rw [hm] at this
    exact this.elim
  serves hs := hs.elim
  spawning _ hi := by cases hi
  breaking _ hi := by cases hi
  halted hi := by cases hi

/-- The process ends while the main thread has not got through the start. -/
theorem Inv.exit (h : Inv s) (hm : ¬s.main.Serves) : Inv { s with exited := true } :=
  ⟨h.reactor, h.broken, fun hs => absurd hs hm, h.spawning, h.breaking, h.halted⟩

/-- `event_base_loopbreak` is called on a base that is there. -/
theorem Inv.base_of_breaking (h : Inv s) {r : Fin n} (hm : s.main = .breaking r) :
    s.base r = true ∧ (s.reactor r = .released true ∨ s.reactor r = .dispatching) := by
  have hserves := h.serves (hm ▸ trivial)
  obtain ⟨hbase, hph⟩ := (h.reactor r).base_of_after (hm ▸ trivial) hserves.1
  refine ⟨hbase, ?_⟩
  obtain hph | hph | ⟨-, hb⟩ := hph
  · exact .inl hph
  · exact .inr hph
  · -- a reactor leaves its loop only when the main thread is past it
    have := h.broken r hb
    rw [hm] at this
    exact absurd this (Nat.lt_irrefl _)

theorem Inv.loopbreak (h : Inv s) {r : Fin n} (hm : s.main = .breaking r) :
    Inv { s with main := .breaking (r + 1), broken := update s.broken r true } where
  reactor q := by
    have hq : ReactorOk (.breaking (r + 1)) s.failed (s.base q) (s.broken q) q (s.reactor q) :=
      (h.reactor q).mono (hm ▸ id) (hm ▸ id) (hm ▸ id)
    by_cases hqr : q = r
    · subst hqr
      have hph := (h.base_of_breaking hm).2
      simp only [update_self]
      obtain hph | hph := hph <;> rw [hph] at hq ⊢ <;> exact hq
    · simp only [update_of_ne hqr]
      exact hq
  broken q hb := by
    by_cases hqr : q = r
    · rw [hqr]
      exact Nat.lt_succ_self _
    · simp only [update_of_ne hqr] at hb
      have := h.broken q hb
      rw [hm] at this
      exact Nat.lt_succ_of_lt this
  serves _ := h.serves (hm ▸ trivial)
  spawning _ hi := by cases hi
  breaking i hi := by
    cases hi
    exact r.isLt
  halted hi := by cases hi

theorem setReactor_frame {r : Fin n} : ∀ q ≠ r, (setReactor s r ph).reactor q = s.reactor q :=
  fun _ hq => update_of_ne hq ..

theorem Inv.step (h : Inv s) (hst : Step s e s') : Inv s' := by
  cases hst with
  | spawn hx hm => exact h.spawn hm
  | spawnFails hx hm => exact h.exit (hm ▸ id)
  | spawned hx hm =>
    refine ⟨fun r => ?_, fun r hb => ?_, fun hs => hs.elim, fun _ hi => (by cases hi),
      fun _ hi => (by cases hi), fun hi => (by cases hi)⟩
    · exact (h.reactor r).mono (hm ▸ fun hu => absurd r.isLt (Nat.not_lt.2 hu)) (fun _ => trivial)
        (hm ▸ id)
    · have := h.broken r hb
      rw [hm] at this
      exact this.elim
  | baseFails hx hr => exact h.baseFails hr
  | @baseMade r hx hr =>
    have hok := h.reactor r
    rw [hr] at hok
    refine h.move r rfl rfl rfl (fun q hq => ⟨setReactor_frame q hq, update_of_ne hq .., rfl⟩) ?_ id
      (hr ▸ by decide)
    simp only [setReactor, update_self]
    exact ⟨hok, rfl⟩
  | @configureFails r hx hr =>
    have hok := h.reactor r
    rw [hr] at hok
    exact h.exit fun hs => absurd hs.after hok.1.not_after
  | @configured r hx hr =>
    have hok := h.reactor r
    rw [hr] at hok
    refine h.move r rfl rfl rfl (fun q hq => ⟨setReactor_frame q hq, rfl, rfl⟩) ?_ id (hr ▸ by decide)
    simp only [setReactor, update_self]
    exact ⟨hok.1, fun _ => hok.2, fun h => (Bool.false_ne_true h.symm).elim⟩
  | barrier hx hm hall => exact h.barrier hall hm
  | @giveUp r hx hr =>
    have hok := h.reactor r
    rw [hr] at hok
    refine h.move r rfl rfl rfl (fun q hq => ⟨setReactor_frame q hq, rfl, rfl⟩) ?_ id (hr ▸ by decide)
    simp only [setReactor, update_self]
    exact ⟨hok.1, fun hf => by simp [hok.2.2] at hf⟩
  | @abort r hx hr hf =>
    have hok := h.reactor r
    rw [hr] at hok
    refine h.move r rfl rfl rfl (fun q hq => ⟨setReactor_frame q hq, update_of_ne hq .., rfl⟩) ?_ id
      (hr ▸ by decide)
    simp only [setReactor, update_self]
    exact ⟨hok.1, fun hf' => by simp [hf] at hf'⟩
  | @dispatch r hx hr hf =>
    have hok := h.reactor r
    rw [hr] at hok
    refine h.move r rfl rfl rfl (fun q hq => ⟨setReactor_frame q hq, rfl, update_of_ne hq ..⟩) ?_ ?_
      (hr ▸ by decide)
    · simp only [setReactor, update_self]
      exact ⟨hok.1, hf, hok.2.1 rfl⟩
    · simp
  | fail hx hm hf => exact h.exit (hm ▸ id)
  | serve hx hm hf =>
    exact h.advance (hm ▸ trivial) trivial (fun r hp => by rw [hm] at hp; exact hp.elim) ⟨hf, hx⟩
      (fun _ hi => by cases hi) (fun hi => by cases hi)
  | stop hx hm =>
    refine h.advance (hm ▸ trivial) trivial (fun r hp => by rw [hm] at hp; exact hp.elim)
      (h.serves (hm ▸ trivial)) (fun i hi => ?_) (fun hi => by cases hi)
    cases hi
    exact Nat.zero_le n
  | @loopbreak r hx hm =>
    rw [(h.base_of_breaking hm).1]
    exact h.loopbreak hm
  | broke hx hm =>
    exact h.advance (hm ▸ trivial) trivial (fun _ _ => trivial) (h.serves (hm ▸ trivial))
      (fun _ hi => by cases hi) (fun hi => by cases hi)
  | @leave r hx hr hb =>
    have hok := h.reactor r
    rw [hr] at hok
    refine h.move r rfl rfl rfl (fun q hq => ⟨setReactor_frame q hq, rfl, rfl⟩) ?_ id (hr ▸ by decide)
    simp only [setReactor, update_self]
    exact ⟨hok.1, fun _ => ⟨hok.2.2, hb⟩⟩
  | join hx hm hall =>
    exact h.advance (hm ▸ trivial) trivial (fun _ _ => trivial) (h.serves (hm ▸ trivial))
      (fun _ hi => by cases hi) (fun _ => hall)

theorem inv_of_reachable (hs : (system n).Reachable (fun _ _ => True) s) : Inv s := by
  refine hs.invariant (fun s h => ?_) (fun s e t _ h _ hst => h.step hst)
  cases h
  exact .init

end

/-! ## How a run ends -/

def ReactorPhase.rank : ReactorPhase → Nat
  | .unborn => 6
  | .starting => 5
  | .configuring => 4
  | .waiting _ => 3
  | .released _ => 2
  | .dispatching => 1
  | .gone => 0

def MainPhase.rank (n : Nat) : MainPhase → Nat
  | .spawning i => n + 6 + (n - i)
  | .waiting => n + 5
  | .released => n + 4
  | .serving => n + 3
  | .breaking i => 2 + (n - i)
  | .joining => 1
  | .halted => 0

section
variable {n : Nat} {s s' : State n} {e : Event n} {r : Fin n}

def rank (s : State n) : Nat :=
  (if s.exited then 0 else 1) + s.main.rank n + ∑ r, (s.reactor r).rank

theorem sum_rank_update {f : Fin n → ReactorPhase} {ph : ReactorPhase} (h : ph.rank < (f r).rank) :
    ∑ q, (update f r ph q).rank < ∑ q, (f q).rank := by
  refine Finset.sum_lt_sum (fun q _ => ?_) ⟨r, Finset.mem_univ r, ?_⟩
  · by_cases hq : q = r
    · rw [hq, update_self]
      exact h.le
    · rw [update_of_ne hq]
  · rwa [update_self]

theorem Inv.unborn (h : Inv s) (hm : s.main = .spawning r) : s.reactor r = .unborn := by
  have hr := h.reactor r
  rw [hm] at hr
  obtain ⟨ph, hph⟩ : ∃ ph, s.reactor r = ph := ⟨_, rfl⟩
  rw [hph] at hr
  cases ph with
  | unborn => exact hph
  | starting => exact absurd hr (Nat.lt_irrefl _)
  | configuring | waiting => exact absurd hr.1 (Nat.lt_irrefl _)
  | released | dispatching | gone => exact hr.1.elim

/-- No thread goes back. -/
theorem Step.rank_lt (h : Inv s) (hst : Step s e s') : rank s' < rank s := by
  have hmove : ∀ {r ph}, ph.rank < (s.reactor r).rank →
      ∑ q, (update s.reactor r ph q).rank < ∑ q, (s.reactor q).rank := sum_rank_update
  cases hst with
  | @spawn r hx hm =>
    have := @hmove r .starting (by rw [h.unborn hm]; decide)
    have := r.isLt
    simp only [rank, setReactor, hm, MainPhase.rank]
    omega
  | barrier hx hm hall =>
    have : ∑ r, (s.reactor r).release.rank ≤ ∑ r, (s.reactor r).rank := by
      refine Finset.sum_le_sum fun r _ => ?_
      obtain ⟨ok, hok⟩ := hall r
      rw [hok]
      exact Nat.le_succ 2
    simp only [rank, hm, MainPhase.rank]
    omega
  | @baseFails r hx hr => exact Nat.add_lt_add_left (hmove (by rw [hr]; decide)) _
  | @baseMade r hx hr => exact Nat.add_lt_add_left (hmove (by rw [hr]; decide)) _
  | @configured r hx hr => exact Nat.add_lt_add_left (hmove (by rw [hr]; decide)) _
  | @giveUp r hx hr => exact Nat.add_lt_add_left (hmove (by rw [hr]; decide)) _
  | @abort r hx hr => exact Nat.add_lt_add_left (hmove (by rw [hr]; decide)) _
  | @dispatch r hx hr => exact Nat.add_lt_add_left (hmove (by rw [hr]; decide)) _
  | @leave r hx hr => exact Nat.add_lt_add_left (hmove (by rw [hr]; decide)) _
  | spawnFails hx | configureFails hx | fail hx =>
    simp only [rank, hx, if_true, Bool.false_eq_true, if_false]
    omega
  | spawned hx hm | serve hx hm | stop hx hm | broke hx hm | join hx hm =>
    simp only [rank, hm, MainPhase.rank]
    omega
  | @loopbreak r hx hm =>
    have := r.isLt
    simp only [rank, hm, MainPhase.rank]
    omega

theorem Step.running (hst : Step s e s') : s.exited = false := by
  cases hst <;> assumption

/-- `event_base_loopbreak` came before `event_base_dispatch`, which forgets it. -/
def Lost (s : State n) (r : Fin n) : Prop :=
  s.main.Past r ∧ (s.reactor r = .released true ∨ s.reactor r = .dispatching ∧ s.broken r = false)

theorem MainPhase.Past.serves {main : MainPhase} {r : Nat} (h : main.Past r) : main.Serves := by
  cases main <;> trivial

theorem Lost.ne {q : Fin n} {ph : ReactorPhase} (hl : Lost s r) (hq : s.reactor q = ph)
    (h₁ : ph ≠ .released true) (h₂ : ph ≠ .dispatching) : r ≠ q := by
  intro hrq
  rw [← hq, ← hrq] at h₁ h₂
  exact hl.2.elim h₁ fun h => h₂ h.1

theorem Lost.frame (hl : Lost s r) (hmain : s'.main = s.main) (hr : s'.reactor r = s.reactor r)
    (hb : s'.broken r = s.broken r) : Lost s' r := by
  rwa [Lost, hmain, hr, hb]

theorem Lost.of_update {q : Fin n} {ph : ReactorPhase} (hl : Lost s' r) (hmain : s'.main = s.main)
    (hr : s'.reactor = update s.reactor q ph) (hb : s'.broken = s.broken) (h₁ : ph ≠ .released true)
    (h₂ : ph ≠ .dispatching) : Lost s r := by
  have hq : s'.reactor q = ph := by rw [hr, update_self]
  refine hl.frame hmain.symm ?_ (congrFun hb r).symm
  rw [hr, update_of_ne (hl.ne hq h₁ h₂)]

/-- Nobody asks twice. -/
theorem Lost.step (h : Inv s) (hl : Lost s r) (hst : Step s e s') : Lost s' r := by
  have hserves := hl.1.serves
  cases hst with
  | spawn hx hm | spawned hx hm | barrier hx hm | fail hx hm | serve hx hm =>
    rw [hm] at hserves
    exact hserves.elim
  | spawnFails | configureFails => exact hl
  | @baseFails q hx hq =>
    exact hl.frame rfl (update_of_ne (hl.ne hq (by decide) (by decide)) ..) rfl
  | @baseMade q hx hq =>
    exact hl.frame rfl (update_of_ne (hl.ne hq (by decide) (by decide)) ..) rfl
  | @configured q hx hq =>
    exact hl.frame rfl (update_of_ne (hl.ne hq (by decide) (by decide)) ..) rfl
  | @giveUp q hx hq =>
    exact hl.frame rfl (update_of_ne (hl.ne hq (by decide) (by decide)) ..) rfl
  | abort hx hq hf => simp [(h.serves hserves).1] at hf
  | @dispatch q hx hq hf =>
    by_cases hrq : r = q
    · -- the loop clears the flag
      refine ⟨hl.1, .inr ?_⟩
      simp [setReactor, hrq]
    · exact hl.frame rfl (update_of_ne hrq ..) (update_of_ne hrq ..)
  | stop hx hm =>
    have := hl.1
    rw [hm] at this
    exact this.elim
  | @loopbreak q hx hm =>
    have hlt : r.val < q.val := by simpa [hm, MainPhase.Past] using hl.1
    refine ⟨Nat.lt_succ_of_lt hlt, ?_⟩
    simp only [(h.base_of_breaking hm).1, if_true, update_of_ne (Fin.ne_of_lt hlt)]
    exact hl.2
  | broke => exact ⟨trivial, hl.2⟩
  | @leave q hx hq hb =>
    refine hl.frame rfl (update_of_ne ?_ ..) rfl
    rintro rfl
    obtain hr | ⟨-, hb'⟩ := hl.2
    · simp [hq] at hr
    · simp [hb] at hb'
  | join hx hm hall =>
    have := hl.ne (hall r) (by decide) (by decide)
    exact absurd rfl this

/-- A request to end the loop is lost in one way only. -/
theorem Lost.origin (h : Inv s) (hl : Lost s' r) (hst : Step s e s') :
    Lost s r ∨ e = .main ∧ s.main = .breaking r ∧ s.reactor r = .released true := by
  cases hst with
  | spawn | spawned | barrier | serve => exact hl.1.elim
  | spawnFails | configureFails | fail => exact .inl hl
  | baseFails => exact .inl (hl.of_update rfl rfl rfl (by decide) (by decide))
  | baseMade => exact .inl (hl.of_update rfl rfl rfl (by decide) (by decide))
  | configured => exact .inl (hl.of_update rfl rfl rfl (by decide) (by decide))
  | giveUp => exact .inl (hl.of_update rfl rfl rfl (by decide) (by decide))
  | abort => exact .inl (hl.of_update rfl rfl rfl (by decide) (by decide))
  | leave => exact .inl (hl.of_update rfl rfl rfl (by decide) (by decide))
  | @dispatch q hx hq hf =>
    by_cases hrq : r = q
    · exact .inl ⟨hl.1, .inl (hrq ▸ hq)⟩
    · exact .inl (hl.frame rfl (update_of_ne hrq ..).symm (update_of_ne hrq ..).symm)
  | stop => exact absurd hl.1 (Nat.not_lt_zero _)
  | @loopbreak q hx hm =>
    obtain ⟨hp, hph⟩ := hl
    simp only [(h.base_of_breaking hm).1, if_true] at hph
    by_cases hrq : r = q
    · rw [← hrq] at hm hph
      exact .inr ⟨rfl, hm, hph.resolve_right fun hb => by simp at hb⟩
    · rw [update_of_ne hrq] at hph
      refine .inl ⟨?_, hph⟩
      rw [hm]
      exact Nat.lt_of_le_of_ne (Nat.le_of_lt_succ hp) fun hv => hrq (Fin.ext hv)
  | broke hx hm =>
    refine .inl ⟨?_, hl.2⟩
    rw [hm]
    exact r.isLt
  | join hx hm hall => exact absurd rfl (hl.ne (hall r) (by decide) (by decide))

/-- The state has a next step, one in which nobody fails unless somebody has. -/
def Goes (s : State n) (e : Event n) : Prop :=
  ∃ s', Step s e s' ∧ (s.failed = false → s'.failed = false ∧ s'.exited = false)

theorem goes_of_released {ok : Bool} (hx : s.exited = false)
    (hr : s.reactor r = .released ok) : Goes s (.reactor r) := by
  cases ok with
  | false => exact ⟨_, .giveUp hx hr, fun hf => ⟨hf, hx⟩⟩
  | true =>
    cases hf : s.failed with
    | false => exact ⟨_, .dispatch hx hr hf, fun _ => ⟨hf, hx⟩⟩
    | true => exact ⟨_, .abort hx hr hf, fun hf' => by simp [hf] at hf'⟩

/-- The threads meet at the barrier. -/
theorem goes_of_waiting (h : Inv s) (hx : s.exited = false) (hm : s.main = .waiting) :
    ∃ e, Goes s e := by
  by_cases hall : ∀ r, ∃ ok, s.reactor r = .waiting ok
  · exact ⟨_, _, .barrier hx hm hall, fun hf => ⟨hf, hx⟩⟩
  · obtain ⟨r, hr⟩ := not_forall.1 hall
    have hok := h.reactor r
    rw [hm] at hok
    obtain ⟨ph, hph⟩ : ∃ ph, s.reactor r = ph := ⟨_, rfl⟩
    rw [hph] at hok
    cases ph with
    | unborn => exact hok.elim
    | starting => exact ⟨_, _, .baseMade hx hph, fun hf => ⟨hf, hx⟩⟩
    | configuring => exact ⟨_, _, .configured hx hph, fun hf => ⟨hf, hx⟩⟩
    | waiting ok => exact absurd ⟨ok, hph⟩ hr
    | released | dispatching | gone => exact hok.1.elim

theorem Inv.base_of_serves (h : Inv s) (hs : s.main.Serves) (r : Fin n) :
    s.base r = true ∧
      (s.reactor r = .released true ∨ s.reactor r = .dispatching ∨
        s.reactor r = .gone ∧ s.broken r = true) :=
  (h.reactor r).base_of_after hs.after (h.serves hs).1

theorem goes_of_joining (h : Inv s) (hx : s.exited = false) (hm : s.main = .joining)
    (hl : ∀ r, ¬Lost s r) : ∃ e, Goes s e := by
  by_cases hall : ∀ r, s.reactor r = .gone
  · exact ⟨_, _, .join hx hm hall, fun hf => ⟨hf, hx⟩⟩
  · obtain ⟨r, hr⟩ := not_forall.1 hall
    have hpast : s.main.Past r := hm ▸ trivial
    obtain hph | hph | ⟨hph, -⟩ := (h.base_of_serves hpast.serves r).2
    · exact absurd ⟨hpast, .inl hph⟩ (hl r)
    · have hb : s.broken r ≠ false := fun hb => hl r ⟨hpast, .inr ⟨hph, hb⟩⟩
      exact ⟨_, _, .leave hx hph (Bool.eq_true_of_not_eq_false hb), fun hf => ⟨hf, hx⟩⟩
    · exact absurd hph hr

theorem goes_of_main (h : Inv s) (hx : s.exited = false) (hm : s.main ≠ .halted)
    (hl : ∀ r, ¬Lost s r) : ∃ e, Goes s e := by
  obtain ⟨m, heq⟩ : ∃ m, s.main = m := ⟨_, rfl⟩
  cases m with
  | spawning i =>
    obtain hi | rfl := Nat.lt_or_eq_of_le (h.spawning i heq)
    · exact ⟨_, _, .spawn (r := ⟨i, hi⟩) hx heq, fun hf => ⟨hf, hx⟩⟩
    · exact ⟨_, _, .spawned hx heq, fun hf => ⟨hf, hx⟩⟩
  | waiting => exact goes_of_waiting h hx heq
  | released =>
    cases hf : s.failed with
    | false => exact ⟨_, _, .serve hx heq hf, fun _ => ⟨hf, hx⟩⟩
    | true => exact ⟨_, _, .fail hx heq hf, fun hf' => by simp [hf] at hf'⟩
  | serving => exact ⟨_, _, .stop hx heq, fun hf => ⟨hf, hx⟩⟩
  | breaking i =>
    obtain hi | rfl := Nat.lt_or_eq_of_le (h.breaking i heq)
    · exact ⟨_, _, .loopbreak (r := ⟨i, hi⟩) hx heq, fun hf => ⟨hf, hx⟩⟩
    · exact ⟨_, _, .broke hx heq, fun hf => ⟨hf, hx⟩⟩
  | joining => exact goes_of_joining h hx heq hl
  | halted => exact absurd heq hm

/-- The run can go on such that no request to end a loop is lost: the reactors that have left the
barrier go first. -/
theorem exists_step (h : Inv s) (hx : s.exited = false) (hm : s.main ≠ .halted)
    (hl : ∀ r, ¬Lost s r) :
    ∃ e s', Step s e s' ∧ (s.failed = false → s'.failed = false ∧ s'.exited = false) ∧
      ∀ r, ¬Lost s' r := by
  by_cases hrel : ∃ r ok, s.reactor r = .released ok
  · obtain ⟨r, ok, hr⟩ := hrel
    obtain ⟨s', hst, hf⟩ := goes_of_released hx hr
    refine ⟨_, s', hst, hf, fun q hq => ?_⟩
    obtain hq | ⟨he, -⟩ := hq.origin h hst
    · exact hl q hq
    · cases he
  · obtain ⟨e, s', hst, hf⟩ := goes_of_main h hx hm hl
    refine ⟨e, s', hst, hf, fun q hq => ?_⟩
    obtain hq | ⟨-, -, hr⟩ := hq.origin h hst
    · exact hl q hq
    · exact hrel ⟨q, true, hr⟩

theorem exists_halted (h : Inv s) (hx : s.exited = false) (hf : s.failed = false)
    (hl : ∀ r, ¬Lost s r) :
    ∃ t, ((system n).since s).Reachable (fun _ _ => True) t ∧ t.main = .halted := by
  induction hk : rank s using Nat.strong_induction_on generalizing s with
  | _ k ih =>
    by_cases hm : s.main = .halted
    · exact ⟨s, .init rfl, hm⟩
    · obtain ⟨e, s', hst, hgood, hl'⟩ := exists_step h hx hm hl
      obtain ⟨hf', hx'⟩ := hgood hf
      obtain ⟨t, ht, hmt⟩ := ih _ (hk ▸ hst.rank_lt h) (h.step hst) hx' hf' hl' rfl
      have hs' : ((system n).since s).Reachable (fun _ _ => True) s' := .step (.init rfl) trivial hst
      exact ⟨t, hs'.trans ht, hmt⟩

theorem acc_of_inv (h : Inv s) : Acc (fun t s => ∃ e, (system n).step s e t) s := by
  induction hk : rank s using Nat.strong_induction_on generalizing s with
  | _ k ih => exact ⟨_, fun t ⟨e, hst⟩ => ih _ (hk ▸ hst.rank_lt h) (h.step hst) rfl⟩

theorem Step.failed (hst : Step s e s') (hf : s.failed = true) : s'.failed = true := by
  cases hst <;> first | exact hf | rfl

/-- What is left to do once the reactors are gone or stay in their loops. -/
theorem Step.settled (hst : Step s e s') (hm : s.main = .joining ∨ s.main = .halted)
    (hall : ∀ r, s.reactor r = .gone ∨ s.reactor r = .dispatching ∧ s.broken r = false) :
    s.main = .joining ∧ ∀ r, s.reactor r = .gone := by
  have hno : ∀ {r ph}, s.reactor r = ph → ph = .gone ∨ ph = .dispatching ∧ s.broken r = false := by
    rintro r ph rfl
    exact hall r
  cases hst with
  | spawn hx hm' | spawnFails hx hm' | spawned hx hm' | barrier hx hm' | fail hx hm' | serve hx hm'
  | stop hx hm' | loopbreak hx hm' | broke hx hm' => simp [hm'] at hm
  | baseFails hx hr | baseMade hx hr | configureFails hx hr | configured hx hr | giveUp hx hr
  | abort hx hr | dispatch hx hr => simpa using hno hr
  | leave hx hr hb => simpa [hb] using hno hr
  | join hx hm' hall => exact ⟨hm', hall⟩

theorem joining_of_stuck (h : Inv s) (hx : s.exited = false) (hl : Lost s r)
    (hstuck : ∀ e t, ¬Step s e t) (hm : s.main ≠ .halted) : s.main = .joining := by
  have hpast := hl.1
  obtain ⟨m, heq⟩ : ∃ m, s.main = m := ⟨_, rfl⟩
  rw [heq] at hpast
  cases m with
  | spawning | waiting | released | serving => exact hpast.elim
  | breaking i =>
    obtain hi | rfl := Nat.lt_or_eq_of_le (h.breaking i heq)
    · exact absurd (.loopbreak (r := ⟨i, hi⟩) hx heq) (hstuck .main _)
    · exact absurd (.broke hx heq) (hstuck .main _)
  | joining => exact heq
  | halted => exact absurd heq hm

/-- The main thread goes through the shutdown while the one reactor is still on its way from the
barrier to its loop. -/
theorem exists_lost :
    ∃ s : State 1, (system 1).Reachable (fun _ _ => True) s ∧ s.exited = false ∧ s.failed = false ∧
      s.main = .joining ∧ s.reactor 0 = .dispatching ∧ s.broken 0 = false := by
  have h : (system 1).Reachable (fun _ _ => True) {} := .init rfl
  have h := h.next (.spawn (r := 0) rfl rfl) trivial
  have h := h.next (.spawned rfl rfl) trivial
  have h := h.next (.baseMade (r := 0) rfl rfl) trivial
  have h := h.next (.configured (r := 0) rfl rfl) trivial
  have h := h.next (.barrier rfl rfl fun r => ⟨true, by rw [Fin.fin_one_eq_zero r]; rfl⟩) trivial
  have h := h.next (.serve rfl rfl rfl) trivial
  have h := h.next (.stop rfl rfl) trivial
  have h := h.next (.loopbreak (r := 0) rfl rfl) trivial
  have h := h.next (.broke rfl rfl) trivial
  have h := h.next (.dispatch (r := 0) rfl rfl rfl) trivial
  exact ⟨_, h, rfl, rfl, rfl, rfl, rfl⟩

/-! ## Results -/

/-- The threads agree at the barrier. As soon as one reactor enters its loop or the main thread goes
on, nobody has failed and every reactor has its base and has passed the barrier; and the main thread
ends the loops of bases that are still there. -/
theorem agrees_of_reachable (hs : (system n).Reachable (fun _ _ => True) s)
    (hgo : s.main.Serves ∨ ∃ r, s.reactor r = .dispatching) :
    s.failed = false ∧
    (∀ r, s.base r = true ∧
      (s.reactor r = .released true ∨ s.reactor r = .dispatching ∨
        s.reactor r = .gone ∧ s.broken r = true)) ∧
    ∀ r : Fin n, s.main = .breaking r → s.reactor r ≠ .gone := by
  have h := inv_of_reachable hs
  obtain ⟨hafter, hf⟩ : s.main.After ∧ s.failed = false := by
    obtain hgo | ⟨r, hr⟩ := hgo
    · exact ⟨hgo.after, (h.serves hgo).1⟩
    · have := h.reactor r
      rw [hr] at this
      exact ⟨this.1, this.2.1⟩
  refine ⟨hf, fun r => (h.reactor r).base_of_after hafter hf, fun r hm hg => ?_⟩
  obtain hr | hr := (h.base_of_breaking hm).2 <;> simp [hg] at hr

theorem agrees_of_reachable_one :
    ∃ s : State 1, s.main.Serves ∧ s.failed = false ∧ ∀ r, s.base r = true := by
  obtain ⟨s, hs, -, -, hm, -⟩ := exists_lost
  have hserves : s.main.Serves := hm ▸ trivial
  have := agrees_of_reachable hs (.inl hserves)
  exact ⟨s, hserves, this.1, fun r => (this.2.1 r).1⟩

/-- Both the start and the end of the server come to an end, in one of three ways: the process ended
by `LOG_FATAL`, the main thread at its end, or the main thread in `pthread_join` on a reactor whose
loop was asked to end too early. -/
theorem stuck_iff (hs : (system n).Reachable (fun _ _ => True) s) :
    Acc (fun t s => ∃ e, (system n).step s e t) s ∧
    ((∀ e t, ¬(system n).step s e t) ↔
      s.exited = true ∨ s.main = .halted ∨
      s.main = .joining ∧ (∃ r, Lost s r) ∧
        ∀ r, s.reactor r = .gone ∨ s.reactor r = .dispatching ∧ s.broken r = false) := by
  have h := inv_of_reachable hs
  refine ⟨acc_of_inv h, fun hstuck => ?_, fun hend e t hst => ?_⟩
  · refine or_iff_not_imp_left.2 fun hx => or_iff_not_imp_left.2 fun hm => ?_
    have hx : s.exited = false := Bool.eq_false_of_not_eq_true hx
    obtain ⟨r, hl⟩ : ∃ r, Lost s r := by
      by_contra hno
      obtain ⟨e, t, hst, -⟩ := exists_step h hx hm (not_exists.1 hno)
      exact hstuck e t hst
    refine ⟨joining_of_stuck h hx hl hstuck hm, ⟨r, hl⟩, fun q => ?_⟩
    obtain hq | hq | ⟨hq, -⟩ := (h.base_of_serves hl.1.serves q).2
    · obtain ⟨t, hst, -⟩ := goes_of_released hx hq
      exact absurd hst (hstuck _ t)
    · cases hb : s.broken q with
      | false => exact .inr ⟨hq, rfl⟩
      | true => exact absurd (.leave hx hq hb) (hstuck (.reactor q) _)
    · exact .inl hq
  · obtain hx | hm | ⟨hm, ⟨r, hl⟩, hall⟩ := hend
    · simp [hst.running] at hx
    · have := (hst.settled (.inr hm) fun r => .inl (h.halted hm r)).1
      simp [hm] at this
    · have hgone := (hst.settled (.inl hm) hall).2 r
      exact absurd rfl (hl.ne hgone (by decide) (by decide))

theorem stuck_iff_one : ∃ s : State 1, s.main = .joining ∧ ∀ e t, ¬(system 1).step s e t := by
  obtain ⟨s, hs, hx, hf, hm, hr, hb⟩ := exists_lost
  refine ⟨s, hm, (stuck_iff hs).2.2 (.inr (.inr ⟨hm, ⟨0, hm ▸ trivial, .inr ⟨hr, hb⟩⟩, fun r => ?_⟩))⟩
  rw [Fin.fin_one_eq_zero r]
  exact .inr ⟨hr, hb⟩

/-- The main thread can still halt exactly if nobody has failed and no request to end a loop is lost. -/
theorem canHalt_iff (hs : (system n).Reachable (fun _ _ => True) s) (hx : s.exited = false) :
    (∃ t, ((system n).since s).Reachable (fun _ _ => True) t ∧ t.main = .halted) ↔
      s.failed = false ∧ ∀ r, ¬Lost s r := by
  have h := inv_of_reachable hs
  refine ⟨fun ⟨t, ht, hm⟩ => ?_, fun ⟨hf, hl⟩ => exists_halted h hx hf hl⟩
  obtain ⟨ht, hfail, hlost⟩ :
      Inv t ∧ (s.failed = true → t.failed = true) ∧ ∀ r, Lost s r → Lost t r := by
    refine ht.invariant
      (I := fun t => Inv t ∧ (s.failed = true → t.failed = true) ∧ ∀ r, Lost s r → Lost t r)
      (fun u hu => ?_) (fun u e v _ hu _ hst => ?_)
    · cases hu
      exact ⟨h, id, fun _ => id⟩
    · exact ⟨hu.1.step hst, fun hf => Step.failed hst (hu.2.1 hf),
        fun r hl => (hu.2.2 r hl).step hu.1 hst⟩
  constructor
  · by_contra hf
    have := hfail (Bool.eq_true_of_not_eq_false hf)
    simp [(ht.serves (hm ▸ trivial)).1] at this
  · intro r hl
    exact absurd rfl ((hlost r hl).ne (ht.halted hm r) (by decide) (by decide))

theorem canHalt_iff_one :
    (∃ t, ((system 1).since {}).Reachable (fun _ _ => True) t ∧ t.main = .halted) ∧
    ∃ s : State 1, s.exited = false ∧
      ¬∃ t, ((system 1).since s).Reachable (fun _ _ => True) t ∧ t.main = .halted := by
  obtain ⟨s, hs, hx, hf, hm, hr, hb⟩ := exists_lost
  refine ⟨(canHalt_iff (.init rfl) rfl).2 ⟨rfl, fun r hl => hl.1⟩, s, hx, fun hhalt => ?_⟩
  exact ((canHalt_iff hs hx).1 hhalt).2 0 ⟨hm ▸ trivial, .inr ⟨hr, hb⟩⟩

end
end ApiServer.Startup
