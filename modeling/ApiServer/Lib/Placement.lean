import Mathlib.Logic.Function.Basic
import Mathlib.Data.List.Nodup

/-!
# Objects in exactly one place

`Placed at own` says that object `i` is at place `own i` and at no other. One object moving keeps it
so. Below it is what a push, a pop and a flush do to the members of a family of lists.
-/

open Function

variable {α β κ : Type}

def Placed (loc : α → β → Prop) (own : α → β) : Prop := ∀ i p, loc i p ↔ own i = p

namespace Placed
variable {loc loc' : α → β → Prop} {own : α → β} {i t : α} {p q : β}

theorem existsUnique (H : Placed loc own) (i : α) : ∃! p, loc i p :=
  ⟨own i, (H i _).mpr rfl, fun p h => ((H i p).mp h).symm⟩

theorem unique (H : Placed loc own) (h : loc i p) (h' : loc i q) : p = q :=
  ((H i p).mp h).symm.trans ((H i q).mp h')

theorem not_of_ne (H : Placed loc own) (h : loc i p) (hne : p ≠ q) : ¬loc i q :=
  fun h' => hne (H.unique h h')

theorem move [DecidableEq α] (H : Placed loc own) (ht : ∀ p, loc' t p ↔ q = p)
    (hother : ∀ i, i ≠ t → ∀ p, loc' i p ↔ loc i p) : Placed loc' (update own t q) := by
  intro i p
  by_cases h : i = t
  · subst h
    rw [update_self]
    exact ht p
  · rw [update_of_ne h, hother i h]
    exact H i p

end Placed

/-- Holders `k` in a phase `g k` that may hold an object: one of them changes its phase. -/
theorem holder_update {γ : Type} [DecidableEq κ] {c : γ → Option α} {g : κ → γ} {k k' : κ} {ph : γ}
    {a : α} : c (update g k ph k') = some a ↔
      (k' = k ∧ c ph = some a) ∨ (k' ≠ k ∧ c (g k') = some a) := by
  by_cases h : k' = k
  · subst h
    rw [update_self, and_iff_right rfl, or_iff_left fun e => e.1 rfl]
  · rw [update_of_ne h, or_iff_right fun e => h e.1, and_iff_right h]

section
variable [DecidableEq κ] {f : κ → List α} {k k' : κ} {a t : α} {l : List α}

theorem mem_update_cons : a ∈ update f k (t :: f k) k' ↔ (a = t ∧ k' = k) ∨ a ∈ f k' := by
  by_cases h : k' = k
  · subst h
    rw [update_self, List.mem_cons, and_iff_left rfl]
  · rw [update_of_ne h, or_iff_right fun e => h e.2]

theorem mem_update_snoc : a ∈ update f k (f k ++ [t]) k' ↔ (a = t ∧ k' = k) ∨ a ∈ f k' := by
  by_cases h : k' = k
  · subst h
    rw [update_self, List.mem_append, List.mem_singleton, and_iff_left rfl, or_comm]
  · rw [update_of_ne h, or_iff_right fun e => h e.2]

theorem mem_update_tail (hf : f k = t :: l) (hnd : (f k).Nodup) :
    a ∈ update f k l k' ↔ a ∈ f k' ∧ ¬(a = t ∧ k' = k) := by
  by_cases h : k' = k
  · subst h
    rw [hf, List.nodup_cons] at hnd
    rw [update_self, hf, List.mem_cons, and_iff_left rfl]
    constructor
    · intro h
      exact ⟨.inr h, fun e => hnd.1 (e ▸ h)⟩
    · rintro ⟨h | h, hne⟩
      · exact (hne h).elim
      · exact h
  · rw [update_of_ne h, and_iff_left fun e => h e.2]

theorem mem_update_nil : a ∈ update f k [] k' ↔ k' ≠ k ∧ a ∈ f k' := by
  by_cases h : k' = k
  · subst h
    rw [update_self]
    exact iff_of_false nofun fun e => e.1 rfl
  · rw [update_of_ne h, and_iff_right h]

/-- Who has the value `c`, after one of them has lost it. -/
theorem update_eq_iff_of_ne {β : Type*} {f : κ → β} {b c : β} (hb : b ≠ c) :
    update f k b k' = c ↔ k' ≠ k ∧ f k' = c := by
  by_cases h : k' = k
  · subst h
    rw [update_self]
    exact iff_of_false hb fun e => e.1 rfl
  · rw [update_of_ne h, and_iff_right h]

/-- A property of each member of a family, after one of them has changed. -/
theorem forall_update {β : Type*} {f : κ → β} {b : β} {P : κ → β → Prop} (hk : P k b)
    (H : ∀ k, P k (f k)) : ∀ k', P k' (update f k b k') := by
  intro k'
  by_cases h : k' = k
  · subst h
    rw [update_self]
    exact hk
  · rw [update_of_ne h]
    exact H k'

end
