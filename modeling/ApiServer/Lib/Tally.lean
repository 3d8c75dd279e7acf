import Mathlib.Data.Fintype.Card

/-!
# How many members of a family have a property

The family is indexed by a finite type, and the property is decided. What matters of the number is
how it follows a change of the family.
-/

variable {κ : Type} [Fintype κ] {f g : κ → Bool} {k : κ}

def tally (f : κ → Bool) : Nat := (Finset.univ.filter fun k => f k = true).card

theorem tally_le (h : ∀ k, f k = true → g k = true) : tally f ≤ tally g :=
  Finset.card_le_card (Finset.monotone_filter_right _ fun k _ => h k)

theorem tally_lt (h : ∀ k, f k = true → g k = true) (hf : f k = false) (hg : g k = true) :
    tally f < tally g := by
  refine Finset.card_lt_card (Finset.ssubset_iff_of_subset ?_ |>.mpr ⟨k, ?_, ?_⟩)
  · exact Finset.monotone_filter_right _ fun k _ => h k
  · exact Finset.mem_filter.mpr ⟨Finset.mem_univ k, hg⟩
  · rw [Finset.mem_filter, hf]
    exact fun h => Bool.false_ne_true h.2

/-- Only one of them may have lost the property. -/
theorem tally_le_succ (h : ∀ k', k' ≠ k → f k' = true → g k' = true) : tally f ≤ tally g + 1 := by
  classical
  have hsub : (Finset.univ.filter fun k' => f k' = true) ⊆
      insert k (Finset.univ.filter fun k' => g k' = true) := by
    intro k' hk'
    by_cases heq : k' = k
    · exact heq ▸ Finset.mem_insert_self ..
    · refine Finset.mem_insert_of_mem (Finset.mem_filter.mpr ⟨Finset.mem_univ k', h k' heq ?_⟩)
      exact (Finset.mem_filter.mp hk').2
  exact (Finset.card_le_card hsub).trans (Finset.card_insert_le ..)

theorem exists_of_tally_pos (h : 0 < tally f) : ∃ k, f k = true := by
  obtain ⟨k, hk⟩ := Finset.card_pos.mp h
  exact ⟨k, (Finset.mem_filter.mp hk).2⟩
