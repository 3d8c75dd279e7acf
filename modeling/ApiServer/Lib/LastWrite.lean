import Mathlib.Data.List.Basic

/-!
# The last definition wins

A list of entries is read from front to back and each entry may define keys. `LastDefines` is the
definition that counts, and `Assigns` says that a store was changed by exactly the definitions that
count. A fold whose step applies the definitions of one entry assigns those of the list.
-/

variable {ι κ ν : Type} {D : ι → κ → ν → Prop}

/-- An entry of the list defines `k` as `v`, and no entry behind it defines `k`. -/
def LastDefines (D : ι → κ → ν → Prop) (ls : List ι) (k : κ) (v : ν) : Prop :=
  ∃ before l after, ls = before ++ l :: after ∧ D l k v ∧ ∀ l' ∈ after, ∀ v', ¬D l' k v'

/-- `e'` is `e` with the definitions of the list. -/
structure Assigns (D : ι → κ → ν → Prop) (ls : List ι) (e e' : κ → Option ν) : Prop where
  defined : ∀ k v, LastDefines D ls k v → e' k = some v
  others : ∀ k, (∀ v, ¬LastDefines D ls k v) → e' k = e k

/-- A step that applies the definitions of one entry. -/
structure Applies (D : ι → κ → ν → Prop) (f : (κ → Option ν) → ι → κ → Option ν) : Prop where
  defined : ∀ {e l k v}, D l k v → f e l k = some v
  others : ∀ {e l k}, (∀ v, ¬D l k v) → f e l k = e k

theorem LastDefines.cons {ls : List ι} {k : κ} {v : ν} (a : ι) (h : LastDefines D ls k v) :
    LastDefines D (a :: ls) k v := by
  obtain ⟨before, l, after, rfl, hl⟩ := h
  exact ⟨a :: before, l, after, rfl, hl⟩

/-- A key no entry defines, or a key with a definition that counts. -/
theorem undefined_or_lastDefines (D : ι → κ → ν → Prop) (ls : List ι) (k : κ) :
    (∀ l ∈ ls, ∀ v, ¬D l k v) ∨ ∃ v, LastDefines D ls k v := by
  induction ls with
  | nil => exact .inl fun l hl => absurd hl List.not_mem_nil
  | cons a ls ih =>
    rcases ih with hrest | ⟨v, hv⟩
    · by_cases ha : ∃ v, D a k v
      · obtain ⟨v, hv⟩ := ha
        exact .inr ⟨v, [], a, ls, rfl, hv, hrest⟩
      · refine .inl fun l hl v hv => ?_
        rcases List.mem_cons.mp hl with rfl | hl
        · exact ha ⟨v, hv⟩
        · exact hrest l hl v hv
    · exact .inr ⟨v, hv.cons a⟩

/-- A store that was empty tells which definitions counted. -/
theorem Assigns.lastDefines_of {ls ms : List ι} {e : κ → Option ν} {k : κ} {v : ν}
    (hls : Assigns D ls (fun _ => none) e) (hms : Assigns D ms (fun _ => none) e)
    (hv : LastDefines D ls k v) : LastDefines D ms k v := by
  have hk := hls.defined k v hv
  by_cases hdef : ∃ w, LastDefines D ms k w
  · obtain ⟨w, hw⟩ := hdef
    rwa [Option.some.inj (hk.symm.trans (hms.defined k w hw))]
  · rw [hms.others k (not_exists.mp hdef)] at hk
    exact nomatch hk

namespace Applies
variable {f : (κ → Option ν) → ι → κ → Option ν}

theorem foldl_others (h : Applies D f) {ls : List ι} {k : κ} (hls : ∀ l ∈ ls, ∀ v, ¬D l k v)
    (e : κ → Option ν) : ls.foldl f e k = e k := by
  induction ls generalizing e with
  | nil => rfl
  | cons a ls ih =>
    rw [List.foldl_cons, ih (fun l hl => hls l (List.mem_cons_of_mem a hl))]
    exact h.others (hls a List.mem_cons_self)

theorem foldl_defined (h : Applies D f) {ls : List ι} {k : κ} {v : ν} (hls : LastDefines D ls k v)
    (e : κ → Option ν) : ls.foldl f e k = some v := by
  obtain ⟨before, l, after, rfl, hl, hafter⟩ := hls
  rw [List.foldl_append, List.foldl_cons, h.foldl_others hafter]
  exact h.defined hl

theorem assigns_foldl (h : Applies D f) (ls : List ι) (e : κ → Option ν) :
    Assigns D ls e (ls.foldl f e) where
  defined _ _ hk := h.foldl_defined hk e
  others k hk := by
    rcases undefined_or_lastDefines D ls k with hnone | ⟨v, hv⟩
    · exact h.foldl_others hnone e
    · exact absurd hv (hk v)

/-- Folding over `ls` assigns the definitions of `ms` to every store exactly if the same
definitions count in both. -/
theorem assigns_iff (h : Applies D f) (ls ms : List ι) :
    (∀ e, Assigns D ms e (ls.foldl f e)) ↔ ∀ k v, LastDefines D ls k v ↔ LastDefines D ms k v := by
  constructor
  · intro hall k v
    have hls := h.assigns_foldl ls fun _ => none
    have hms := hall fun _ => none
    exact ⟨hls.lastDefines_of hms, hms.lastDefines_of hls⟩
  · intro hiff e
    have hls := h.assigns_foldl ls e
    refine ⟨fun k v hv => hls.defined k v ((hiff k v).mpr hv), fun k hk => hls.others k ?_⟩
    exact fun v hv => hk v ((hiff k v).mp hv)

end Applies
