import Mathlib.Logic.Basic

/-!
# Programs in a state monad

Equations that run a `do` block of `StateM` one statement at a time, for use with `simp only`, and
rules for programs that keep a part of the state, or that have a pre- and a postcondition.
-/

namespace StateRules
variable {σ α β γ : Type}

section
variable (s : σ)

theorem bind_run (m : StateM σ α) (f : α → StateM σ β) : (m >>= f) s = f (m s).1 (m s).2 := rfl

theorem get_run : (get : StateM σ σ) s = (s, s) := rfl

theorem modify_run (f : σ → σ) : (modify f : StateM σ PUnit) s = (⟨⟩, f s) := rfl

theorem ite_run (c : Prop) [Decidable c] (m m' : StateM σ α) :
    (if c then m else m') s = if c then m s else m' s := by split <;> rfl

end

/-- Whatever it does, the program keeps `part` of the state. -/
structure Keeps (part : σ → γ) (m : StateM σ α) : Prop where
  run : ∀ s, part (m s).2 = part s

namespace Keeps
variable {part : σ → γ}

theorem pure (a : α) : Keeps part (pure a) := ⟨fun _ => rfl⟩

theorem get : Keeps part (get : StateM σ σ) := ⟨fun _ => rfl⟩

theorem modify {f : σ → σ} (h : ∀ s, part (f s) = part s) :
    Keeps part (modify f : StateM σ PUnit) := ⟨h⟩

theorem bind {m : StateM σ α} {f : α → StateM σ β} (hm : Keeps part m)
    (hf : ∀ a, Keeps part (f a)) : Keeps part (m >>= f) :=
  ⟨fun s => ((hf (m s).1).run (m s).2).trans (hm.run s)⟩

theorem ite {c : Prop} [Decidable c] {m m' : StateM σ α} (hm : Keeps part m)
    (hm' : Keeps part m') : Keeps part (if c then m else m') := by
  split
  · exact hm
  · exact hm'

theorem comp {δ : Type} (f : γ → δ) {m : StateM σ α} (hm : Keeps part m) :
    Keeps (fun s => f (part s)) m :=
  ⟨fun s => congrArg f (hm.run s)⟩

end Keeps

/-- From a state with `P` the program ends in one with `Q`, which may speak of its result. -/
structure Spec (P : σ → Prop) (m : StateM σ α) (Q : α → σ → Prop) : Prop where
  run : ∀ s, P s → Q (m s).1 (m s).2

namespace Spec
variable {P P' : σ → Prop} {Q Q' : α → σ → Prop} {R : β → σ → Prop} {m m' : StateM σ α}

theorem pure {a : α} (h : ∀ s, P s → Q a s) : Spec P (pure a) Q := ⟨h⟩

theorem bind {f : α → StateM σ β} (hm : Spec P m Q) (hf : ∀ a, Spec (Q a) (f a) R) :
    Spec P (m >>= f) R :=
  ⟨fun s hs => (hf (m s).1).run (m s).2 (hm.run s hs)⟩

/-- The value of a `get` is a state with `P`, and `P` still holds behind it. -/
theorem get_bind {f : σ → StateM σ β} (h : ∀ s, P s → Spec P (f s) R) :
    Spec P (get >>= f) R :=
  ⟨fun s hs => (h s hs).run s hs⟩

theorem ite {c : Prop} [Decidable c] (hm : c → Spec P m Q) (hm' : ¬c → Spec P m' Q) :
    Spec P (if c then m else m') Q := by
  split
  · exact hm ‹_›
  · exact hm' ‹_›

theorem conseq (hm : Spec P m Q) (hP : ∀ s, P' s → P s) (hQ : ∀ a s, Q a s → Q' a s) :
    Spec P' m Q' :=
  ⟨fun s hs => hQ _ _ (hm.run s (hP s hs))⟩

/-- What a program keeps is what every value of it is before and behind the program. -/
theorem of_keeps {part : σ → γ} (hm : Keeps part m) (x : γ) :
    Spec (fun s => part s = x) m (fun _ s => part s = x) :=
  ⟨fun s hs => (hm.run s).trans hs⟩

/-- A precondition that says nothing of the state. -/
theorem of_and {φ : Prop} (h : φ → Spec P m Q) : Spec (fun s => P s ∧ φ) m Q :=
  ⟨fun s hs => (h hs.2).run s hs.1⟩

end Spec

theorem Keeps.of_spec {part : σ → γ} {m : StateM σ α}
    (h : ∀ x, Spec (fun s => part s = x) m (fun _ s => part s = x)) : Keeps part m :=
  ⟨fun s => (h _).run s rfl⟩

end StateRules
