import Mathlib.Data.List.Basic

/-!
# Output in pieces

Several authors write to one output. Each piece of it carries a tag, and `partOf t` is what the
pieces with the tag `t` make up, in the order in which they were written.
-/

variable {τ β : Type} [DecidableEq τ]

def partOf (t : τ) (pieces : List (τ × List β)) : List β :=
  (pieces.filter fun p => p.1 = t).flatMap fun p => p.2

variable {t u : τ} {b : List β} {pieces : List (τ × List β)}

@[simp] theorem partOf_nil : partOf t ([] : List (τ × List β)) = [] := rfl

@[simp] theorem partOf_cons_self : partOf t ((t, b) :: pieces) = b ++ partOf t pieces := by
  simp [partOf]

theorem partOf_cons_of_ne (h : u ≠ t) : partOf t ((u, b) :: pieces) = partOf t pieces := by
  simp [partOf, h]

@[simp] theorem partOf_append (pieces pieces' : List (τ × List β)) :
    partOf t (pieces ++ pieces') = partOf t pieces ++ partOf t pieces' := by
  rw [partOf, List.filter_append, List.flatMap_append]
  rfl

/-- Pieces without content are no output. -/
theorem partOf_of_forall_nil (h : ∀ p ∈ pieces, p.2 = []) : partOf t pieces = [] := by
  rw [partOf, List.flatMap_eq_nil_iff]
  exact fun p hp => h p (List.mem_of_mem_filter hp)

/-- A piece may be split. -/
theorem partOf_split (b b' : List β) :
    partOf t ((u, b ++ b') :: pieces) = partOf t [(u, b)] ++ partOf t ((u, b') :: pieces) := by
  by_cases h : u = t
  · subst h
    simp
  · simp [partOf_cons_of_ne h]
