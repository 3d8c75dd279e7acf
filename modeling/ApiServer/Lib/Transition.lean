import Mathlib.Logic.Function.Basic

/-!
# Labelled transition systems

A system is a set of initial states and a labelled step relation. Runs may be restricted by a guard
on each step, read in the state the step starts from.
-/

structure System (σ ε : Type) where
  init : σ → Prop
  step : σ → ε → σ → Prop

namespace System
variable {σ ε : Type} {T : System σ ε} {G G' : σ → ε → Prop}

/-- The states of the runs all of whose steps meet the guard. -/
inductive Reachable (T : System σ ε) (G : σ → ε → Prop) : σ → Prop where
  | init : T.init s → Reachable T G s
  | step : Reachable T G s → G s e → T.step s e t → Reachable T G t

/-- The invariant rule. The step case may use what is known of every reachable state. -/
theorem Reachable.invariant {I : σ → Prop} (hinit : ∀ s, T.init s → I s)
    (hstep : ∀ s e t, T.Reachable G s → I s → G s e → T.step s e t → I t) {s : σ}
    (H : T.Reachable G s) : I s := by
  induction H with
  | init h => exact hinit _ h
  | step hs hG h ih => exact hstep _ _ _ hs ih hG h

/-- The constructor, with the guard behind the step it is about. -/
theorem Reachable.next {s t : σ} {e : ε} (H : T.Reachable G s) (h : T.step s e t) (hG : G s e) :
    T.Reachable G t :=
  .step H hG h

theorem Reachable.mono (h : ∀ s e, G s e → G' s e) {s : σ} (H : T.Reachable G s) :
    T.Reachable G' s := by
  induction H with
  | init h => exact .init h
  | step _ hG hst ih => exact .step ih (h _ _ hG) hst

/-- The same system, started in a given state. -/
def since (T : System σ ε) (s : σ) : System σ ε := { T with init := (· = s) }

theorem Reachable.trans {s t : σ} (hs : T.Reachable G s) (ht : (T.since s).Reachable G t) :
    T.Reachable G t := by
  induction ht with
  | init h => exact h ▸ hs
  | step _ hG hst ih => exact .step ih hG hst

/-- A run that a partial step function finds. -/
theorem Reachable.replay {next : σ → ε → Option σ} (hnext : ∀ {s e t}, next s e = some t → T.step s e t)
    {es : List ε} (hG : ∀ e ∈ es, ∀ s, G s e) {s t : σ} (H : T.Reachable G s)
    (hrun : es.foldlM next s = some t) : T.Reachable G t := by
  induction es generalizing s with
  | nil =>
    cases hrun
    exact H
  | cons e es ih =>
    rw [List.foldlM_cons, Option.bind_eq_bind, Option.bind_eq_some_iff] at hrun
    obtain ⟨u, hu, hrun⟩ := hrun
    exact ih (fun e he => hG e (.tail _ he)) (.step H (hG e (.head _) s) (hnext hu)) hrun

/-! ## Refinement -/

section
variable {σ' ε' : Type} {T' : System σ' ε'}

/-- The steps of `T` are steps of `T'` under `f`, or nothing happens there. -/
structure Refines (T : System σ ε) (T' : System σ' ε') (f : σ → σ') : Prop where
  init : ∀ s, T.init s → T'.init (f s)
  step : ∀ s e t, T.step s e t → f t = f s ∨ ∃ e', T'.step (f s) e' (f t)

theorem Refines.reachable {f : σ → σ'} (h : Refines T T' f) {s : σ} (hs : T.Reachable G s) :
    T'.Reachable (fun _ _ => True) (f s) := by
  induction hs with
  | init hs => exact .init (h.init _ hs)
  | step _ _ hst ih =>
    obtain heq | ⟨e', hst'⟩ := h.step _ _ _ hst
    · rw [heq]
      exact ih
    · exact .step ih trivial hst'

end

end System
