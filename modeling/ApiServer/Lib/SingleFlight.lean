import ApiServer.Lib.Transition

/-!
# Single flight

Threads share data behind a lock. A thread that does not find there what it needs becomes the
leader: it raises a flag, fetches without the lock, and comes back to store what it got, to lower the
flag and to wake all others. A thread that finds the flag raised waits on a condition variable. Each
section under the lock is one step. A wait may end without a broadcast.
-/

namespace SingleFlight
open Function

variable {ι τ γ L Q α β : Type}

/-- Where a thread is, with its local state outside and what it wants inside. -/
inductive Phase (L Q : Type) where
  /-- Not in the protocol. -/
  | out (l : L)
  /-- In front of the lock. -/
  | entering (q : Q)
  /-- Blocked on the condition variable. -/
  | waiting (q : Q)
  /-- Fetching. -/
  | leading (q : Q)

namespace Phase

def leads : Phase L Q → Bool
  | leading _ => true
  | _ => false

def waits : Phase L Q → Bool
  | waiting _ => true
  | _ => false

/-- What a broadcast does to a thread. -/
def wakeUp : Phase L Q → Phase L Q
  | waiting q => entering q
  | p => p

theorem leads_wakeUp (p : Phase L Q) : p.wakeUp.leads = p.leads := by cases p <;> rfl

theorem wakeUp_eq_out {p : Phase L Q} {l : L} (h : p.wakeUp = out l) : p = out l := by
  cases p with
  | out => exact h
  | _ => cases h

theorem waits_wakeUp (p : Phase L Q) : p.wakeUp.waits = false := by cases p <;> rfl

end Phase

/-- What the threads do with the data. -/
structure Protocol (τ γ L Q α β : Type) where
  enter : L → Option Q
  /-- The data has what the thread wants. -/
  hit : τ → γ → Q → Option L
  /-- The thread gives up instead of fetching. -/
  refuse : τ → γ → Q → Option L
  /-- The section of the leader behind its fetch. -/
  finish : τ → α → γ → Q → γ × L
  /-- What a thread does outside, perhaps to the data. -/
  act : β → L → γ → Option (γ × L)

structure State (ι τ γ L Q : Type) where
  now : τ
  data : γ
  busy : Bool
  thread : ι → Phase L Q

inductive Event (ι τ α β : Type) where
  | tick (t : τ)
  | enter (i : ι)
  | look (i : ι)
  | wake (i : ι)
  | finish (i : ι) (a : α)
  | act (i : ι) (b : β)

section
variable [DecidableEq ι]

def State.goto (s : State ι τ γ L Q) (i : ι) (p : Phase L Q) : State ι τ γ L Q :=
  { s with thread := update s.thread i p }

theorem State.goto_self (s : State ι τ γ L Q) (i : ι) (p : Phase L Q) : (s.goto i p).thread i = p :=
  update_self ..

theorem State.goto_of_ne (s : State ι τ γ L Q) (h : j ≠ i) (p : Phase L Q) :
    (s.goto i p).thread j = s.thread j :=
  update_of_ne h ..

variable [LE τ] [DecidableLE τ] (P : Protocol τ γ L Q α β) (s : State ι τ γ L Q)

/-- One turn of the loop under the lock. -/
def Protocol.look (i : ι) (q : Q) : State ι τ γ L Q :=
  match P.hit s.now s.data q with
  | some l => s.goto i (.out l)
  | none =>
    if s.busy then s.goto i (.waiting q)
    else
      match P.refuse s.now s.data q with
      | some l => s.goto i (.out l)
      | none => { s.goto i (.leading q) with busy := true }

def Protocol.next : Event ι τ α β → Option (State ι τ γ L Q)
  | .tick t => if s.now ≤ t then some { s with now := t } else none
  | .enter i =>
    match s.thread i with
    | .out l => (P.enter l).map fun q => s.goto i (.entering q)
    | _ => none
  | .look i =>
    match s.thread i with
    | .entering q => some (P.look s i q)
    | _ => none
  | .wake i =>
    match s.thread i with
    | .waiting q => some (s.goto i (.entering q))
    | _ => none
  | .finish i a =>
    match s.thread i with
    | .leading q =>
      let (data, l) := P.finish s.now a s.data q
      some { s with
        data
        busy := false
        thread := update (fun j => (s.thread j).wakeUp) i (.out l) }
    | _ => none
  | .act i b =>
    match s.thread i with
    | .out l => (P.act b l s.data).map fun (data, l') => { s.goto i (.out l') with data }
    | _ => none

/-- All threads are outside and nobody fetches. -/
def Protocol.system (start : State ι τ γ L Q → Prop) :
    System (State ι τ γ L Q) (Event ι τ α β) where
  init s := start s ∧ s.busy = false ∧ ∀ i, ∃ l, s.thread i = .out l
  step s e t := P.next s e = some t

end

/-! ## What a step can do -/

section
variable [DecidableEq ι] [LE τ] {P : Protocol τ γ L Q α β}

inductive Protocol.Step (P : Protocol τ γ L Q α β) :
    State ι τ γ L Q → Event ι τ α β → State ι τ γ L Q → Prop
  | tick : s.now ≤ t → P.Step s (.tick t) { s with now := t }
  | enter : s.thread i = .out l → P.enter l = some q → P.Step s (.enter i) (s.goto i (.entering q))
  | hit : s.thread i = .entering q → P.hit s.now s.data q = some l →
    P.Step s (.look i) (s.goto i (.out l))
  | wait : s.thread i = .entering q → P.hit s.now s.data q = none → s.busy = true →
    P.Step s (.look i) (s.goto i (.waiting q))
  | refuse : s.thread i = .entering q → P.hit s.now s.data q = none → s.busy = false →
    P.refuse s.now s.data q = some l → P.Step s (.look i) (s.goto i (.out l))
  | lead : s.thread i = .entering q → P.hit s.now s.data q = none → s.busy = false →
    P.refuse s.now s.data q = none →
    P.Step s (.look i) { s.goto i (.leading q) with busy := true }
  | wake : s.thread i = .waiting q → P.Step s (.wake i) (s.goto i (.entering q))
  | finish : s.thread i = .leading q → P.finish s.now a s.data q = (data, l) →
    P.Step s (.finish i a)
      { s with
        data
        busy := false
        thread := update (fun j => (s.thread j).wakeUp) i (.out l) }
  | act : s.thread i = .out l → P.act b l s.data = some (data, l') →
    P.Step s (.act i b) { s.goto i (.out l') with data }

theorem Protocol.step_look {s : State ι τ γ L Q} {i : ι} {q : Q} (h : s.thread i = .entering q) :
    P.Step s (.look i) (P.look s i q) := by
  unfold Protocol.look
  split
  · exact .hit h ‹_›
  · split
    · exact .wait h ‹_› ‹_›
    · rename_i hbusy
      rw [Bool.not_eq_true] at hbusy
      split
      · exact .refuse h ‹_› hbusy ‹_›
      · exact .lead h ‹_› hbusy ‹_›

theorem Protocol.step_of_next [DecidableLE τ] {s t : State ι τ γ L Q} {e : Event ι τ α β}
    (h : P.next s e = some t) : P.Step s e t := by
  cases e with
  | tick t' =>
    simp only [next] at h
    split at h
    · cases h
      exact .tick ‹_›
    · cases h
  | enter i =>
    simp only [next] at h
    split at h
    · obtain ⟨q, hq, rfl⟩ := Option.map_eq_some_iff.mp h
      exact .enter ‹_› hq
    · cases h
  | look i =>
    simp only [next] at h
    split at h
    · cases h
      exact P.step_look ‹_›
    · cases h
  | wake i =>
    simp only [next] at h
    split at h
    · cases h
      exact .wake ‹_›
    · cases h
  | finish i a =>
    simp only [next] at h
    split at h
    · cases h
      exact .finish ‹_› rfl
    · cases h
  | act i b =>
    simp only [next] at h
    split at h
    · obtain ⟨⟨data, l'⟩, hact, rfl⟩ := Option.map_eq_some_iff.mp h
      exact .act ‹_› hact
    · cases h

end

/-! ## One leader -/

section

/-- The flag is raised while a leader fetches, and nobody waits for anything else. -/
structure Led (s : State ι τ γ L Q) (leader : Option ι) : Prop where
  busy : s.busy = leader.isSome
  leads : ∀ i, (s.thread i).leads = true ↔ leader = some i
  awake : ∀ i, (s.thread i).waits = true → s.busy = true

variable {s t : State ι τ γ L Q} {leader : Option ι} {i j : ι} {p : Phase L Q}

theorem Led.unique (h : Led s leader) (hi : (s.thread i).leads = true)
    (hj : (s.thread j).leads = true) : i = j :=
  Option.some.inj (((h.leads i).mp hi).symm.trans ((h.leads j).mp hj))

theorem Led.busy_iff (h : Led s leader) : s.busy = true ↔ ∃! i, (s.thread i).leads = true := by
  rw [h.busy, Option.isSome_iff_exists]
  constructor
  · rintro ⟨i, hi⟩
    exact ⟨i, (h.leads i).mpr hi, fun j hj => h.unique hj ((h.leads i).mpr hi)⟩
  · rintro ⟨i, hi, -⟩
    exact ⟨i, (h.leads i).mp hi⟩

theorem Led.busy_of_leading {q : Q} (h : Led s leader) (hi : s.thread i = .leading q) :
    s.busy = true := by
  rw [h.busy, (h.leads i).mp (by rw [hi]; rfl)]
  rfl

theorem Led.setData (h : Led s leader) (data : γ) : Led { s with data } leader :=
  ⟨h.busy, h.leads, h.awake⟩

variable [DecidableEq ι]

/-- A thread that moves but neither begins nor ends to lead. -/
theorem Led.goto (h : Led s leader) (hi : (s.thread i).leads = false) (hp : p.leads = false)
    (hw : p.waits = true → s.busy = true) : Led (s.goto i p) leader := by
  refine ⟨h.busy, fun j => ?_, fun j hj => ?_⟩
  · by_cases hij : j = i
    · subst hij
      rw [State.goto_self, hp, ← h.leads, hi]
    · rw [State.goto_of_ne s hij, h.leads]
  · by_cases hij : j = i
    · subst hij
      rw [State.goto_self] at hj
      exact hw hj
    · rw [State.goto_of_ne s hij] at hj
      exact h.awake j hj

/-- The flag goes up with the only leader. -/
theorem Led.raise (h : Led s leader) (hbusy : s.busy = false) (q : Q) :
    Led { s.goto i (.leading q) with busy := true } (some i) := by
  have hnone : leader = none := by
    rw [h.busy] at hbusy
    exact Option.isNone_iff_eq_none.mp (Option.isSome_eq_false_iff.mp hbusy)
  refine ⟨rfl, fun j => ?_, fun _ _ => rfl⟩
  change ((s.goto i (.leading q)).thread j).leads = true ↔ _
  by_cases hij : j = i
  · subst hij
    rw [State.goto_self]
    exact ⟨fun _ => rfl, fun _ => rfl⟩
  · rw [State.goto_of_ne s hij, h.leads, hnone]
    exact ⟨nofun, fun he => absurd (Option.some.inj he).symm hij⟩

/-- The flag goes down with the broadcast. -/
theorem Led.lower (h : Led s leader) (hi : (s.thread i).leads = true) (data : γ) (l : L) :
    Led { s with
      data
      busy := false
      thread := update (fun j => (s.thread j).wakeUp) i (.out l) } none := by
  have hself : ∀ j, (update (fun j => (s.thread j).wakeUp) i (Phase.out l) j).leads = false ∧
      (update (fun j => (s.thread j).wakeUp) i (Phase.out l) j).waits = false := by
    intro j
    by_cases hij : j = i
    · subst hij
      rw [update_self]
      exact ⟨rfl, rfl⟩
    · rw [update_of_ne hij, Phase.leads_wakeUp]
      refine ⟨Bool.eq_false_iff.mpr fun hj => hij (h.unique hj hi), Phase.waits_wakeUp _⟩
  refine ⟨rfl, fun j => ?_, fun j hj => ?_⟩
  · exact ⟨fun hj => absurd hj (Bool.eq_false_iff.mp (hself j).1), nofun⟩
  · exact absurd hj (Bool.eq_false_iff.mp (hself j).2)

variable [LE τ] {P : Protocol τ γ L Q α β} {e : Event ι τ α β}

theorem Protocol.Step.led (h : P.Step s e t) (H : Led s leader) : ∃ leader, Led t leader := by
  cases h with
  | tick => exact ⟨leader, H.busy, H.leads, H.awake⟩
  | enter hout => exact ⟨leader, H.goto (by rw [hout]; rfl) rfl nofun⟩
  | hit hin => exact ⟨leader, H.goto (by rw [hin]; rfl) rfl nofun⟩
  | wait hin _ hbusy => exact ⟨leader, H.goto (by rw [hin]; rfl) rfl fun _ => hbusy⟩
  | refuse hin => exact ⟨leader, H.goto (by rw [hin]; rfl) rfl nofun⟩
  | lead _ _ hbusy => exact ⟨_, H.raise hbusy _⟩
  | wake hwait => exact ⟨leader, H.goto (by rw [hwait]; rfl) rfl nofun⟩
  | finish hlead => exact ⟨none, H.lower (by rw [hlead]; rfl) _ _⟩
  | act hout => exact ⟨leader, (H.goto (p := .out _) (by rw [hout]; rfl) rfl nofun).setData _⟩

/-- A thread leaves with what it wanted, or it gives up, or it is the leader that comes back. -/
theorem Protocol.Step.exit {l : L} (h : P.Step s e t) (hin : ∀ l, s.thread i ≠ .out l)
    (hout : t.thread i = .out l) :
    t.now = s.now ∧
      ((t.data = s.data ∧ ∃ q, P.hit s.now s.data q = some l ∨ P.refuse s.now s.data q = some l) ∨
        ∃ a q, e = .finish i a ∧ P.finish s.now a s.data q = (t.data, l)) := by
  -- whoever moves is the thread that is out now, since no other has changed
  have hmoved {j : ι} {p : Phase L Q} (h : (s.goto j p).thread i = .out l) : i = j ∧ p = .out l := by
    by_cases hij : i = j
    · subst hij
      rw [State.goto_self] at h
      exact ⟨rfl, h⟩
    · rw [State.goto_of_ne s hij] at h
      exact absurd h (hin l)
  cases h with
  | tick => exact absurd hout (hin l)
  | enter => cases (hmoved hout).2
  | hit _ hhit =>
    cases (hmoved hout).2
    exact ⟨rfl, .inl ⟨rfl, _, .inl hhit⟩⟩
  | wait => cases (hmoved hout).2
  | refuse _ _ _ hrefuse =>
    cases (hmoved hout).2
    exact ⟨rfl, .inl ⟨rfl, _, .inr hrefuse⟩⟩
  | lead => cases (hmoved hout).2
  | wake => cases (hmoved hout).2
  | @finish a q data l' _ j hlead hfinish =>
    change update (fun j => (s.thread j).wakeUp) j (.out l') i = .out l at hout
    by_cases hij : i = j
    · subst hij
      rw [update_self] at hout
      cases hout
      exact ⟨rfl, .inr ⟨_, _, rfl, hfinish⟩⟩
    · rw [update_of_ne hij] at hout
      exact absurd (Phase.wakeUp_eq_out hout) (hin l)
  | act hbefore =>
    obtain ⟨rfl, -⟩ := hmoved hout
    exact absurd hbefore (hin _)

/-- A thread begins to fetch when it finds neither what it wants nor a leader. -/
theorem Protocol.Step.starts (h : P.Step s e t) (hbefore : (s.thread i).leads = false)
    (hafter : (t.thread i).leads = true) :
    s.busy = false ∧
      ∃ q, P.hit s.now s.data q = none ∧ P.refuse s.now s.data q = none := by
  have hmoved {j : ι} {p : Phase L Q} (h : ((s.goto j p).thread i).leads = true) : p.leads = true := by
    by_cases hij : i = j
    · subst hij
      rwa [State.goto_self] at h
    · rw [State.goto_of_ne s hij, hbefore] at h
      cases h
  cases h with
  | tick => cases hbefore.symm.trans hafter
  | lead _ hhit hbusy hrefuse => exact ⟨hbusy, _, hhit, hrefuse⟩
  | @finish a q data l' _ j =>
    change (update (fun j => (s.thread j).wakeUp) j (.out l') i).leads = true at hafter
    by_cases hij : i = j
    · subst hij
      rw [update_self] at hafter
      cases hafter
    · rw [update_of_ne hij, Phase.leads_wakeUp, hbefore] at hafter
      cases hafter
  | _ => cases hmoved hafter

theorem led_of_reachable [DecidableLE τ] {start : State ι τ γ L Q → Prop}
    {G : State ι τ γ L Q → Event ι τ α β → Prop} (h : (P.system start).Reachable G s) :
    ∃ leader, Led s leader := by
  refine System.Reachable.invariant (I := fun s => ∃ leader, Led s leader) ?_
    (fun s e t _ ⟨_, H⟩ _ hstep => (Protocol.step_of_next hstep).led H) h
  rintro s ⟨-, hbusy, hout⟩
  refine ⟨none, hbusy, fun i => ?_, fun i hi => ?_⟩
  · obtain ⟨l, hl⟩ := hout i
    rw [hl]
    exact ⟨nofun, nofun⟩
  · obtain ⟨l, hl⟩ := hout i
    rw [hl] at hi
    cases hi

end
end SingleFlight
