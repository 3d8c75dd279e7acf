import Mathlib.Data.List.Basic
import Mathlib.Data.List.DropRight

/-!
# Taking a text apart

Three ways in which a reader of text takes it apart: `strip` removes what surrounds a field,
`fields` are the non-empty fields between separators, and `chunks` cuts at a fixed length.
The separators are split on by `List.splitOn`.
-/

namespace List
variable {α : Type} {p : α → Bool} {s t : List α} {c sep : α}

/-- The elements that satisfy `p` removed at both ends. -/
def strip (p : α → Bool) (s : List α) : List α := (s.dropWhile p).rdropWhile p

/-! ## Removing at the right end -/

theorem rdropWhile_append :
    (s ++ t).rdropWhile p =
      if t.rdropWhile p = [] then s.rdropWhile p else s ++ t.rdropWhile p := by
  simp only [rdropWhile, reverse_append, dropWhile_append, isEmpty_iff, reverse_eq_nil_iff]
  split <;> simp

theorem rdropWhile_cons_neg (h : p c = false) : (c :: s).rdropWhile p = c :: s.rdropWhile p := by
  rw [← singleton_append, rdropWhile_append]
  split
  · next hs => rw [hs, rdropWhile_singleton, h, if_neg Bool.false_ne_true]
  · rfl

theorem rdropWhile_append_cons_neg (h : p c = false) :
    (s ++ c :: t).rdropWhile p = s ++ c :: t.rdropWhile p := by
  rw [rdropWhile_append, rdropWhile_cons_neg h, if_neg (cons_ne_nil _ _)]

/-! ## Fields without what surrounds them -/

/-- What the left end leaves is empty or starts behind the removed elements. -/
theorem dropWhile_cases (p : α → Bool) (s : List α) :
    s.dropWhile p = [] ∨ ∃ c t, s.dropWhile p = c :: t ∧ p c = false := by
  rcases hs : s.dropWhile p with _ | ⟨c, t⟩
  · exact .inl rfl
  · refine .inr ⟨c, t, rfl, ?_⟩
    have hc := head?_dropWhile_not p s
    rw [hs] at hc
    simpa using hc

@[simp] theorem strip_nil : strip p ([] : List α) = [] := rfl

theorem strip_sublist (p : α → Bool) (s : List α) : (strip p s).Sublist s := by
  have hright := rdropWhile_prefix p (s.dropWhile p)
  exact hright.sublist.trans (dropWhile_sublist p)

theorem strip_dropWhile : strip p (s.dropWhile p) = strip p s := by
  rw [strip, dropWhile_idempotent, strip]

theorem strip_rdropWhile : strip p (s.rdropWhile p) = strip p s := by
  rcases dropWhile_cases p s with hs | ⟨c, t, hs, hc⟩
  · have hall := dropWhile_eq_nil_iff.mp hs
    rw [rdropWhile_eq_nil_iff.mpr hall, strip_nil, strip, hs, rdropWhile_nil]
  · have hsplit := takeWhile_append_dropWhile (p := p) (l := s)
    have htake : (s.takeWhile p).dropWhile p = [] :=
      dropWhile_eq_nil_iff.mpr fun _ hx => mem_takeWhile_imp hx
    rw [hs] at hsplit
    rw [strip, strip, hs, ← hsplit, rdropWhile_append_cons_neg hc, dropWhile_append, htake,
      isEmpty_nil, if_pos rfl, dropWhile_cons_of_neg (by simp [hc]), rdropWhile_cons_neg hc,
      rdropWhile_cons_neg hc, rdropWhile_idempotent]

theorem strip_concat_pos (h : p c = true) : strip p (s ++ [c]) = strip p s := by
  rw [← strip_rdropWhile, rdropWhile_concat_pos p s c h, strip_rdropWhile]

/-- A kept element in the middle: each end is cleaned on its own side of it. -/
theorem strip_append_cons (h : p c = false) :
    strip p (s ++ c :: t) = s.dropWhile p ++ c :: t.rdropWhile p := by
  have hcons : (c :: t).dropWhile p = c :: t := dropWhile_cons_of_neg (by simp [h])
  rw [strip, dropWhile_append, hcons]
  split
  · next hs => rw [isEmpty_iff.mp hs, rdropWhile_cons_neg h, nil_append]
  · exact rdropWhile_append_cons_neg h

/-- Text that neither starts nor ends with something to remove. -/
theorem strip_eq_self (hs : ∀ c ∈ s.head?, p c = false) (ht : ∀ c ∈ s.getLast?, p c = false) :
    strip p s = s := by
  cases s with
  | nil => rfl
  | cons a s =>
    rw [strip, dropWhile_cons_of_neg (by simp [hs a rfl]), rdropWhile_eq_self_iff]
    intro hne
    simp [ht _ (getLast?_eq_getLast_of_ne_nil hne)]

theorem head?_strip : (strip p s).head? = (s.dropWhile p).head? := by
  rcases dropWhile_cases p s with hs | ⟨c, t, hs, hc⟩
  · rw [strip, hs, rdropWhile_nil]
  · rw [strip, hs, rdropWhile_cons_neg hc, head?_cons, head?_cons]

/-! ## Pieces of a fixed length -/

/-- The pieces of `n` elements, and a last one of what is left. -/
def chunks (n : Nat) (s : List α) : List (List α) :=
  if s = [] ∨ n = 0 then [] else s.take n :: chunks n (s.drop n)
termination_by s.length
decreasing_by
  next h =>
    have hs := length_pos_iff.mpr (mt Or.inl h)
    have hn := Nat.pos_of_ne_zero (mt Or.inr h)
    rw [length_drop]
    omega

@[simp] theorem chunks_nil (n : Nat) : chunks n ([] : List α) = [] := by
  rw [chunks, if_pos (.inl rfl)]

theorem chunks_append {n : Nat} (hn : n ≠ 0) (h : s.length = n) :
    chunks n (s ++ t) = s :: chunks n t := by
  have hs : s ++ t ≠ [] := fun e => hn (by rw [← h, (append_eq_nil_iff.mp e).1, length_nil])
  rw [chunks, if_neg (not_or.mpr ⟨hs, hn⟩), ← h, take_left, drop_left]

theorem chunks_of_length_le {n : Nat} (hs : s ≠ []) (h : s.length ≤ n) : chunks n s = [s] := by
  have hn : n ≠ 0 := by
    have := length_pos_iff.mpr hs
    omega
  rw [chunks, if_neg (not_or.mpr ⟨hs, hn⟩), take_of_length_le h, drop_of_length_le h, chunks_nil]

/-! ## Fields between separators -/

variable [DecidableEq α]

theorem splitOn_append_cons (sep : α) (s t : List α) :
    (s ++ sep :: t).splitOn sep = s.splitOn sep ++ t.splitOn sep :=
  splitOnP_append_cons s t (beq_self_eq_true sep)

/-- Text in front of the first separator belongs to the first field. -/
theorem splitOn_append_of_notMem (h : sep ∉ s) (t : List α) :
    ∃ r rs, t.splitOn sep = r :: rs ∧ (s ++ t).splitOn sep = (s ++ r) :: rs := by
  by_cases ht : sep ∈ t
  · obtain ⟨r, u, rfl, hr⟩ := eq_append_cons_of_mem ht
    refine ⟨r, u.splitOn sep, ?_, ?_⟩
    · rw [splitOn_append_cons, splitOn_eq_singleton hr, singleton_append]
    · have hsr : sep ∉ s ++ r := fun hmem => (mem_append.mp hmem).elim h hr
      rw [← append_assoc, splitOn_append_cons, splitOn_eq_singleton hsr, singleton_append]
  · refine ⟨t, [], splitOn_eq_singleton ht, splitOn_eq_singleton ?_⟩
    exact fun hmem => (mem_append.mp hmem).elim h ht

/-- The fields between the separators, stripped, without the empty ones. -/
def fields (sep : α) (p : α → Bool) (s : List α) : List (List α) :=
  ((s.splitOn sep).map (strip p)).filter (· ≠ [])

theorem fields_append_cons (sep : α) (p : α → Bool) (s t : List α) :
    fields sep p (s ++ sep :: t) = fields sep p s ++ fields sep p t := by
  rw [fields, splitOn_append_cons, map_append, filter_append, fields, fields]

theorem fields_of_notMem (p : α → Bool) (h : sep ∉ s) :
    fields sep p s = if strip p s = [] then [] else [strip p s] := by
  rw [fields, splitOn_eq_singleton h, map_singleton]
  by_cases hs : strip p s = [] <;> simp [hs]

@[simp] theorem fields_nil (sep : α) (p : α → Bool) : fields sep p [] = [] := by
  simp [fields]

theorem fields_cons_self (sep : α) (p : α → Bool) (s : List α) :
    fields sep p (sep :: s) = fields sep p s := by
  simpa using fields_append_cons sep p [] s

/-- Separators in front of a text delimit no field. -/
theorem fields_dropWhile (sep : α) (p : α → Bool) (s : List α) :
    fields sep p (s.dropWhile (· == sep)) = fields sep p s := by
  induction s with
  | nil => rfl
  | cons c s ih =>
    by_cases hc : c = sep
    · subst hc
      rw [dropWhile_cons_of_pos (by simp), ih, fields_cons_self]
    · rw [dropWhile_cons_of_neg (by simp [hc])]

end List
