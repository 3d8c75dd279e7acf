import ApiServer.Lib.Transition
import Mathlib.Data.Finset.Lattice.Fold
import Mathlib.Data.Fintype.Defs

/-!
# Fair runs

An infinite run of a transition system may stutter. Fairness is about an action, a set of labels that
may depend on the state: weakly fair runs take an action that stays enabled, strongly fair runs one
that is enabled again and again. `LeadsTo P Q` says that `Q` follows `P`, now or later.
-/

namespace System
variable {σ ε : Type} {T : System σ ε}

/-- An infinite run, with steps in which nothing happens. -/
structure Run (T : System σ ε) where
  state : Nat → σ
  start : T.init (state 0)
  next : ∀ i, state (i + 1) = state i ∨ ∃ e, T.step (state i) e (state (i + 1))

/-- The action `A` can be taken. -/
def Enabled (T : System σ ε) (A : σ → ε → Prop) (s : σ) : Prop := ∃ e t, A s e ∧ T.step s e t

namespace Run
variable {ρ : T.Run} {A : σ → ε → Prop} {P Q R : σ → Prop}

theorem reachable (ρ : T.Run) (i : Nat) : T.Reachable (fun _ _ => True) (ρ.state i) := by
  induction i with
  | zero => exact .init ρ.start
  | succ i ih =>
    obtain h | ⟨e, h⟩ := ρ.next i
    · rw [h]
      exact ih
    · exact .step ih trivial h

/-- What every step keeps stays. -/
theorem preserved (hstep : ∀ s e t, T.Reachable (fun _ _ => True) s → P s → T.step s e t → P t)
    {i j : Nat} (hij : i ≤ j) (h : P (ρ.state i)) : P (ρ.state j) := by
  induction hij with
  | refl => exact h
  | step _ ih =>
    rename_i k _
    obtain heq | ⟨e, hs⟩ := ρ.next k
    · rw [Nat.succ_eq_add_one, heq]
      exact ih
    · exact hstep _ _ _ (ρ.reachable k) ih hs

/-! ## Leads to -/

/-- The count `f` is at `k`, and `g` beyond it. -/
def Behind (f g : σ → Nat) (k : Nat) (s : σ) : Prop := f s = k ∧ k < g s

theorem Behind.next {f g : σ → Nat} {k : Nat} {s t : σ} (h : Behind f g k s) (hf : f s ≤ f t)
    (hg : g s ≤ g t) : k < f t ∨ Behind f g k t := by
  obtain ⟨rfl, hlt⟩ := h
  obtain hlt' | heq := Nat.lt_or_eq_of_le hf
  · exact .inl hlt'
  · exact .inr ⟨heq.symm, Nat.lt_of_lt_of_le hlt hg⟩

def LeadsTo (ρ : T.Run) (P Q : σ → Prop) : Prop :=
  ∀ i, P (ρ.state i) → ∃ j, i ≤ j ∧ Q (ρ.state j)

namespace LeadsTo

theorem of_imp (h : ∀ s, T.Reachable (fun _ _ => True) s → P s → Q s) : ρ.LeadsTo P Q :=
  fun i hP => ⟨i, Nat.le_refl i, h _ (ρ.reachable i) hP⟩

theorem trans (hPQ : ρ.LeadsTo P Q) (hQR : ρ.LeadsTo Q R) : ρ.LeadsTo P R := by
  intro i hP
  obtain ⟨j, hij, hQ⟩ := hPQ i hP
  obtain ⟨k, hjk, hR⟩ := hQR j hQ
  exact ⟨k, Nat.le_trans hij hjk, hR⟩

theorem or (hP : ρ.LeadsTo P R) (hQ : ρ.LeadsTo Q R) : ρ.LeadsTo (fun s => P s ∨ Q s) R :=
  fun i h => h.elim (hP i) (hQ i)

/-- What every step keeps may be carried along. -/
theorem keep {S : σ → Prop} (h : ρ.LeadsTo P Q)
    (hstep : ∀ s e t, T.Reachable (fun _ _ => True) s → S s → T.step s e t → S t) :
    ρ.LeadsTo (fun s => P s ∧ S s) fun s => Q s ∧ S s := by
  intro i hi
  obtain ⟨j, hij, hQ⟩ := h i hi.1
  exact ⟨j, hij, hQ, preserved hstep hij hi.2⟩

/-- Finitely many lasting things that come true are true together in the end. -/
theorem all {ι : Type} [Fintype ι] {Q : ι → σ → Prop} (h : ∀ k, ρ.LeadsTo P (Q k))
    (hstep : ∀ k s e t, T.Reachable (fun _ _ => True) s → Q k s → T.step s e t → Q k t) :
    ρ.LeadsTo P fun s => ∀ k, Q k s := by
  intro i hi
  choose j hij hj using fun k => h k i hi
  refine ⟨max i (Finset.univ.sup j), Nat.le_max_left .., fun k => ?_⟩
  exact preserved (hstep k)
    (Nat.le_trans (Finset.le_sup (Finset.mem_univ k)) (Nat.le_max_right ..)) (hj k)

/-- Where a number goes down until `Q` holds, it does in the end. -/
theorem rank {P : Nat → σ → Prop}
    (h : ∀ n, ρ.LeadsTo (P n) fun s => Q s ∨ ∃ m, m < n ∧ P m s) (n : Nat) :
    ρ.LeadsTo (P n) Q := by
  induction n using Nat.strongRecOn with
  | ind n ih =>
    intro i hP
    obtain ⟨j, hij, hQ | ⟨m, hm, hP⟩⟩ := h n i hP
    · exact ⟨j, hij, hQ⟩
    · obtain ⟨k, hjk, hQ⟩ := ih m hm j hP
      exact ⟨k, Nat.le_trans hij hjk, hQ⟩

/-- A count that always moves on as long as it is behind another catches up with it. -/
theorem catchUp {f g : σ → Nat}
    (hg : ∀ s e t, T.Reachable (fun _ _ => True) s → T.step s e t → g s ≤ g t)
    (h : ∀ k, ρ.LeadsTo (Behind f g k) fun s => k < f s) (n : Nat) :
    ρ.LeadsTo (fun s => n < g s) fun s => n < f s := by
  have hrank : ∀ m, ρ.LeadsTo (fun s => n + 1 - f s = m ∧ n < g s) fun s => n < f s := by
    refine rank fun m i ⟨hm, hn⟩ => ?_
    by_cases hdone : n < f (ρ.state i)
    · exact ⟨i, Nat.le_refl i, .inl hdone⟩
    have hstable : ∀ s e t, T.Reachable (fun _ _ => True) s → n < g s → T.step s e t → n < g t :=
      fun s e t hr hs hst => Nat.lt_of_lt_of_le hs (hg s e t hr hst)
    obtain ⟨j, hij, hf, hn'⟩ :=
      (h (f (ρ.state i))).keep hstable i ⟨⟨rfl, by omega⟩, hn⟩
    exact ⟨j, hij, .inr ⟨_, by omega, rfl, hn'⟩⟩
  exact fun i hn => hrank _ i ⟨rfl, hn⟩

/-- Once the count ahead stands still, it is reached. -/
theorem settles {f g : σ → Nat} {S : σ → Prop}
    (hS : ∀ s e t, T.Reachable (fun _ _ => True) s → S s → T.step s e t → S t ∧ g t = g s)
    (hg : ∀ s e t, T.Reachable (fun _ _ => True) s → T.step s e t → g s ≤ g t)
    (h : ∀ k, ρ.LeadsTo (Behind f g k) fun s => k < f s) :
    ρ.LeadsTo S fun s => S s ∧ g s ≤ f s := by
  intro i hi
  by_cases hle : g (ρ.state i) ≤ f (ρ.state i)
  · exact ⟨i, Nat.le_refl i, hi, hle⟩
  have hstable : ∀ s e t, T.Reachable (fun _ _ => True) s → S s ∧ g s = g (ρ.state i) →
      T.step s e t → S t ∧ g t = g (ρ.state i) := by
    intro s e t hr ⟨hs, heq⟩ hst
    obtain ⟨ht, hgt⟩ := hS s e t hr hs hst
    exact ⟨ht, hgt.trans heq⟩
  obtain ⟨j, hij, hlt, hj, heq⟩ :=
    (catchUp hg h (g (ρ.state i) - 1)).keep hstable i ⟨by omega, hi, rfl⟩
  exact ⟨j, hij, hj, by omega⟩

/-- The same for logs: what is in the longer one comes into the shorter one. -/
theorem catchUp_mem {α : Type} {f g : σ → List α}
    (hg : ∀ s e t, T.Reachable (fun _ _ => True) s → T.step s e t → g s <+: g t)
    (hfg : ∀ s, T.Reachable (fun _ _ => True) s → f s <+: g s)
    (h : ∀ k, ρ.LeadsTo (Behind (fun s => (f s).length) (fun s => (g s).length) k)
      fun s => k < (f s).length) (a : α) :
    ρ.LeadsTo (fun s => a ∈ g s) fun s => a ∈ f s := by
  intro i ha
  obtain ⟨n, hn⟩ := List.getElem?_of_mem ha
  have hstable : ∀ s e t, T.Reachable (fun _ _ => True) s → (g s)[n]? = some a → T.step s e t →
      (g t)[n]? = some a := by
    intro s e t hr hs hst
    obtain ⟨l, hl⟩ := hg s e t hr hst
    rw [← hl, List.getElem?_append_left (List.getElem?_eq_some_iff.mp hs).1]
    exact hs
  have hlen := catchUp (fun s e t hr hst => (hg s e t hr hst).length_le) h n
  obtain ⟨j, hij, hlt, hn⟩ := hlen.keep hstable i ⟨(List.getElem?_eq_some_iff.mp hn).1, hn⟩
  obtain ⟨l, hl⟩ := hfg _ (ρ.reachable j)
  rw [← hl, List.getElem?_append_left hlt] at hn
  exact ⟨j, hij, List.mem_of_getElem? hn⟩

end LeadsTo

/-! ## Fairness -/

/-- The action is taken at that step. -/
def Takes (ρ : T.Run) (A : σ → ε → Prop) (i : Nat) : Prop :=
  ∃ e, A (ρ.state i) e ∧ T.step (ρ.state i) e (ρ.state (i + 1))

def WeakFair (ρ : T.Run) (A : σ → ε → Prop) : Prop :=
  ∀ i, (∀ j, i ≤ j → T.Enabled A (ρ.state j)) → ∃ j, i ≤ j ∧ ρ.Takes A j

def StrongFair (ρ : T.Run) (A : σ → ε → Prop) : Prop :=
  ∀ i, (∀ j, i ≤ j → ∃ k, j ≤ k ∧ T.Enabled A (ρ.state k)) → ∃ j, i ≤ j ∧ ρ.Takes A j

/-- From `P` a step stays in `P` or reaches `Q`, and one of the action reaches `Q`. -/
def Towards (T : System σ ε) (A : σ → ε → Prop) (P Q : σ → Prop) : Prop :=
  ∀ s e t, T.Reachable (fun _ _ => True) s → P s → T.step s e t → Q t ∨ P t ∧ ¬A s e

theorem stays_of_not (h : Towards T A P Q) {i : Nat} (hP : P (ρ.state i))
    (hQ : ∀ j, i ≤ j → ¬Q (ρ.state j)) {j : Nat} (hij : i ≤ j) : P (ρ.state j) := by
  induction hij with
  | refl => exact hP
  | step hik ih =>
    rename_i k
    obtain heq | ⟨e, hs⟩ := ρ.next k
    · rw [Nat.succ_eq_add_one, heq]
      exact ih
    · obtain hq | hp := h _ _ _ (ρ.reachable k) ih hs
      · exact absurd hq (hQ _ (Nat.le_succ_of_le hik))
      · exact hp.1

/-- A step of the action out of `P` reaches `Q`. -/
theorem reaches_of_takes (h : Towards T A P Q) {i : Nat} (hP : P (ρ.state i)) (ht : ρ.Takes A i) :
    Q (ρ.state (i + 1)) := by
  obtain ⟨e, hA, hs⟩ := ht
  exact (h _ _ _ (ρ.reachable i) hP hs).resolve_right fun hp => hp.2 hA

theorem WeakFair.leadsTo (hfair : ρ.WeakFair A) (h : Towards T A P Q)
    (hen : ∀ s, T.Reachable (fun _ _ => True) s → P s → T.Enabled A s) : ρ.LeadsTo P Q := by
  intro i hP
  by_contra hnot
  have hQ : ∀ j, i ≤ j → ¬Q (ρ.state j) := fun j hij hq => hnot ⟨j, hij, hq⟩
  have hstays : ∀ j, i ≤ j → P (ρ.state j) := fun j hij => stays_of_not h hP hQ hij
  obtain ⟨j, hij, ht⟩ := hfair i fun j hij => hen _ (ρ.reachable j) (hstays j hij)
  exact hQ (j + 1) (Nat.le_succ_of_le hij) (reaches_of_takes h (hstays j hij) ht)

/-- Steps that bring the number down bring the run to `Q`, if the others do not raise it. -/
theorem WeakFair.leadsTo_rank (hfair : ρ.WeakFair A) (f : σ → Nat)
    (h : ∀ s e t, T.Reachable (fun _ _ => True) s → P s → ¬Q s → T.step s e t →
      Q t ∨ P t ∧ f t ≤ f s ∧ (A s e → f t < f s))
    (hen : ∀ s, T.Reachable (fun _ _ => True) s → P s → ¬Q s → T.Enabled A s) :
    ρ.LeadsTo P Q := by
  have hrank : ∀ m, ρ.LeadsTo (fun s => P s ∧ f s = m) Q := by
    refine LeadsTo.rank fun m => ?_
    have hopen : ρ.LeadsTo (fun s => (P s ∧ f s = m) ∧ ¬Q s)
        fun s => Q s ∨ ∃ m', m' < m ∧ P s ∧ f s = m' := by
      refine hfair.leadsTo (fun s e t hs ⟨⟨hP, hm⟩, hQ⟩ hst => ?_)
        fun s hs ⟨⟨hP, _⟩, hQ⟩ => hen s hs hP hQ
      obtain hQ | ⟨hP', hle, hA⟩ := h s e t hs hP hQ hst
      · exact .inl (.inl hQ)
      by_cases hlt : f t < f s
      · exact .inl (.inr ⟨f t, hm ▸ hlt, hP', rfl⟩)
      by_cases hQ : Q t
      · exact .inl (.inl hQ)
      · exact .inr ⟨⟨⟨hP', by omega⟩, hQ⟩, fun ha => hlt (hA ha)⟩
    intro i hi
    by_cases hQ : Q (ρ.state i)
    · exact ⟨i, Nat.le_refl i, .inl hQ⟩
    · exact hopen i ⟨hi, hQ⟩
  exact fun i hP => hrank _ i ⟨hP, rfl⟩

theorem StrongFair.leadsTo (hfair : ρ.StrongFair A) (h : Towards T A P Q)
    (hen : ρ.LeadsTo P fun s => Q s ∨ T.Enabled A s) : ρ.LeadsTo P Q := by
  intro i hP
  by_contra hnot
  have hQ : ∀ j, i ≤ j → ¬Q (ρ.state j) := fun j hij hq => hnot ⟨j, hij, hq⟩
  have hstays : ∀ j, i ≤ j → P (ρ.state j) := fun j hij => stays_of_not h hP hQ hij
  obtain ⟨j, hij, ht⟩ := hfair i fun j hij => by
    obtain ⟨k, hjk, hq | he⟩ := hen j (hstays j hij)
    · exact absurd hq (hQ k (Nat.le_trans hij hjk))
    · exact ⟨k, hjk, he⟩
  exact hQ (j + 1) (Nat.le_succ_of_le hij) (reaches_of_takes h (hstays j hij) ht)

/-! ## Runs seen from above -/

section
variable {σ' ε' : Type} {T' : System σ' ε'}

def project {f : σ → σ'} (h : Refines T T' f) (ρ : T.Run) : T'.Run where
  state i := f (ρ.state i)
  start := h.init _ ρ.start
  next i := by
    obtain heq | ⟨e, hst⟩ := ρ.next i
    · exact .inl (congrArg f heq)
    · exact h.step _ _ _ hst

variable {f : σ → σ'} {h : Refines T T' f} {A' : σ' → ε' → Prop}

theorem Takes.project
    (hact : ∀ s e t, A s e → T.step s e t → ∃ e', A' (f s) e' ∧ T'.step (f s) e' (f t)) {i : Nat}
    (ht : ρ.Takes A i) : (project h ρ).Takes A' i := by
  obtain ⟨e, hA, hst⟩ := ht
  exact hact _ _ _ hA hst

/-- An action that is enabled below where it is above. -/
theorem WeakFair.project (hfair : ρ.WeakFair A)
    (hact : ∀ s e t, A s e → T.step s e t → ∃ e', A' (f s) e' ∧ T'.step (f s) e' (f t))
    (hen : ∀ s, T.Reachable (fun _ _ => True) s → T'.Enabled A' (f s) → T.Enabled A s) :
    (project h ρ).WeakFair A' := by
  intro i hi
  obtain ⟨j, hij, ht⟩ := hfair i fun j hij => hen _ (ρ.reachable j) (hi j hij)
  exact ⟨j, hij, ht.project hact⟩

/-- An action that comes to be enabled below after it is above. -/
theorem StrongFair.project (hfair : ρ.StrongFair A)
    (hact : ∀ s e t, A s e → T.step s e t → ∃ e', A' (f s) e' ∧ T'.step (f s) e' (f t))
    (hen : ρ.LeadsTo (fun s => T'.Enabled A' (f s)) (T.Enabled A)) :
    (project h ρ).StrongFair A' := by
  intro i hi
  obtain ⟨j, hij, ht⟩ := hfair i fun j hij => by
    obtain ⟨k, hjk, hk⟩ := hi j hij
    obtain ⟨l, hkl, hl⟩ := hen k hk
    exact ⟨l, Nat.le_trans hjk hkl, hl⟩
  exact ⟨j, hij, ht.project hact⟩

end

/-- What is different later has changed at some step. -/
theorem exists_change {β : Type} (f : σ → β) {i j : Nat} (hij : i ≤ j)
    (h : f (ρ.state j) ≠ f (ρ.state i)) :
    ∃ k, i ≤ k ∧ ∃ e, T.step (ρ.state k) e (ρ.state (k + 1)) ∧
      f (ρ.state (k + 1)) ≠ f (ρ.state k) := by
  by_contra hnot
  refine h ?_
  clear h
  induction hij with
  | refl => rfl
  | step hik ih =>
    rename_i k
    obtain heq | ⟨e, hst⟩ := ρ.next k
    · exact (congrArg f heq).trans ih
    · by_contra hne
      exact hnot ⟨k, hik, e, hst, fun heq => hne (heq.trans ih)⟩

/-! ## Runs that come to rest -/

/-- A finite run, followed by nothing. -/
theorem exists_resting {G : σ → ε → Prop} {s : σ} (h : T.Reachable G s) :
    ∃ (ρ : T.Run) (m : Nat), ∀ i, m ≤ i → ρ.state i = s := by
  induction h with
  | init h => exact ⟨⟨fun _ => _, h, fun _ => .inl rfl⟩, 0, fun _ _ => rfl⟩
  | @step s e t _ _ hs ih =>
    obtain ⟨ρ, m, hm⟩ := ih
    refine ⟨⟨fun i => if i ≤ m then ρ.state i else t, ?_, fun i => ?_⟩, m + 1, fun i hi => ?_⟩
    · exact ρ.start
    · by_cases hi : i + 1 ≤ m
      · rw [if_pos hi, if_pos (Nat.le_of_succ_le hi)]
        exact ρ.next i
      · rw [if_neg hi]
        by_cases him : i ≤ m
        · rw [if_pos him, hm i (by omega)]
          exact .inr ⟨e, hs⟩
        · rw [if_neg him]
          exact .inl rfl
    · exact if_neg (by omega)

/-- A run is fair to an action that is not enabled where the run comes to rest. -/
theorem StrongFair.of_resting {m : Nat} {s : σ} (hm : ∀ i, m ≤ i → ρ.state i = s)
    (h : ¬T.Enabled A s) : ρ.StrongFair A := by
  intro i hen
  obtain ⟨k, hk, he⟩ := hen (max i m) (Nat.le_max_left i m)
  rw [hm k (Nat.le_trans (Nat.le_max_right i m) hk)] at he
  exact absurd he h

theorem StrongFair.weakFair (h : ρ.StrongFair A) : ρ.WeakFair A :=
  fun i hen => h i fun j hij => ⟨j, Nat.le_refl j, hen j hij⟩

end Run
end System
