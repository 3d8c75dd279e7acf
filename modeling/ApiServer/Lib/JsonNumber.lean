import ApiServer.Lib.JsonText

/-!
# Number texts

A text that is read as a number in full is a text of that number: whatever does not continue a
number may follow it. `number` goes through a sign, digits, a fraction and an exponent, and each
part is read the same with something behind it.
-/

namespace Json
open Bytes

def numberSign (s : Bytes) : Bool × Bytes :=
  match expect 45 s with
  | some t => (true, t)
  | none => (false, s)

/-- What follows the fraction, if there is one. -/
def fracRest (t : Bytes) : Option Bytes :=
  match expect 46 t with
  | some u => if u.takeWhile isDigit = [] then none else some (u.dropWhile isDigit)
  | none => some t

def expMark (t : Bytes) : Option Bytes := (expect 101 t).orElse fun _ => expect 69 t

def expSign (u : Bytes) : Bytes := ((expect 43 u).orElse fun _ => expect 45 u).getD u

/-- What follows the exponent, if there is one. -/
def expRest (t : Bytes) : Option Bytes :=
  match expMark t with
  | some u =>
    if (expSign u).takeWhile isDigit = [] then none else some ((expSign u).dropWhile isDigit)
  | none => some t

theorem number_eq (s : Bytes) : number s =
    let (neg, t) := numberSign s
    let ds := t.takeWhile isDigit
    let t := t.dropWhile isDigit
    if ds = [] ∨ (1 < ds.length ∧ ds.head? = some 48) then none
    else (fracRest t).bind fun frac => (expRest frac).bind fun rest =>
      if rest.length = t.length then
        some (.int (if neg then -(digitsVal ds : Int) else digitsVal ds), rest)
      else some (.double (s.take (s.length - rest.length)), rest) := by
  have hexp (t : Bytes) (k : Bytes → Option (Json × Bytes)) : (expRest t).bind k =
      match expMark t with
      | some u => if (expSign u).takeWhile isDigit = [] then none
        else k ((expSign u).dropWhile isDigit)
      | none => k t := by
    unfold expRest
    split
    · split <;> rfl
    · rfl
  have hfrac (t : Bytes) (k : Bytes → Option (Json × Bytes)) : (fracRest t).bind k =
      match expect 46 t with
      | some u => if u.takeWhile isDigit = [] then none else k (u.dropWhile isDigit)
      | none => k t := by
    unfold fracRest
    split
    · split <;> rfl
    · rfl
  simp only [hfrac, hexp, number, Option.bind_eq_bind, Option.bind_some, Option.bind_none]
  rfl

/-! ## Something behind a number -/

/-- A number that ends in front of `left` still ends there with `rest` behind it. -/
abbrev StopsBehind (left rest : Bytes) : Prop := left ≠ [] ∨ Stops rest

/-- The digits at the head of a text are the same when nothing that follows continues a number. -/
theorem digits_append {t : Bytes} (hr : StopsBehind (t.dropWhile isDigit) rest) :
    (t ++ rest).takeWhile isDigit = t.takeWhile isDigit ∧
      (t ++ rest).dropWhile isDigit = t.dropWhile isDigit ++ rest := by
  induction t with
  | nil =>
    cases rest with
    | nil => exact ⟨rfl, rfl⟩
    | cons c s => simp [(hr.resolve_left (fun h => h rfl) c s rfl).1]
  | cons c t ih =>
    by_cases hc : isDigit c = true
    · rw [List.dropWhile_cons_of_pos hc] at hr
      simp [hc, ih hr]
    · simp [hc]

theorem expect_append {c : UInt8} (h : t ≠ [] ∨ expect c rest = none) :
    expect c (t ++ rest) = (expect c t).map (· ++ rest) := by
  cases t with
  | nil => exact h.resolve_left fun h => h rfl
  | cons x t =>
    simp only [List.cons_append, expect]
    split <;> rfl

theorem numberSign_append (h : t ≠ []) (rest : Bytes) :
    numberSign (t ++ rest) = ((numberSign t).1, (numberSign t).2 ++ rest) := by
  unfold numberSign
  rw [expect_append (.inl h)]
  cases expect 45 t <;> rfl

/-- The end of the text is the end of its fraction. -/
theorem fracRest_ends (h : fracRest t = some u) (hr : StopsBehind u rest) : StopsBehind t rest := by
  refine hr.imp_left fun hu ht => hu ?_
  subst ht
  exact (Option.some.inj h).symm

theorem fracRest_append (h : fracRest t = some u) (hr : StopsBehind u rest) :
    fracRest (t ++ rest) = some (u ++ rest) := by
  have hmark := expect_append ((fracRest_ends h hr).imp_right (expect_of_stops (.inl rfl)))
  unfold fracRest at h ⊢
  rw [hmark]
  cases hdot : expect 46 t with
  | none =>
    rw [hdot] at h
    cases h
    rfl
  | some w =>
    simp only [hdot, Option.map_some] at h ⊢
    split at h
    · cases h
    · cases h
      obtain ⟨htake, hdrop⟩ := digits_append hr
      rw [htake, hdrop]
      exact if_neg ‹_›

theorem expMark_append (hr : StopsBehind t rest) :
    expMark (t ++ rest) = (expMark t).map (· ++ rest) := by
  unfold expMark
  rw [expect_append (hr.imp_right (expect_of_stops (.inr (.inl rfl)))),
    expect_append (hr.imp_right (expect_of_stops (.inr (.inr rfl))))]
  cases expect 101 t <;> rfl

theorem expSign_append (h : u ≠ []) (rest : Bytes) : expSign (u ++ rest) = expSign u ++ rest := by
  unfold expSign
  rw [expect_append (.inl h), expect_append (.inl h)]
  cases expect 43 u with
  | some => rfl
  | none => cases expect 45 u <;> rfl

theorem expRest_ends (h : expRest t = some u) (hr : StopsBehind u rest) : StopsBehind t rest := by
  refine hr.imp_left fun hu ht => hu ?_
  subst ht
  exact (Option.some.inj h).symm

/-- Behind the mark alone a sign could follow that the number does not have. -/
theorem expRest_append (h : expRest t = some u) (hr : StopsBehind u rest) :
    expRest (t ++ rest) = some (u ++ rest) := by
  have hends := expRest_ends h hr
  unfold expRest at h ⊢
  rw [expMark_append hends]
  cases hmark : expMark t with
  | none =>
    rw [hmark] at h
    cases h
    rfl
  | some w =>
    simp only [hmark, Option.map_some] at h ⊢
    have hne : w ≠ [] := by
      rintro rfl
      cases h
    split at h
    · cases h
    · cases h
      obtain ⟨htake, hdrop⟩ := digits_append hr
      rw [expSign_append hne, htake, hdrop]
      exact if_neg ‹_›

theorem number_append (h : number t = some (v, u)) (hr : StopsBehind u rest) :
    number (t ++ rest) = some (v, u ++ rest) := by
  have hne : t ≠ [] := by
    rintro rfl
    cases h
  rw [number_eq] at h ⊢
  dsimp only at h
  split at h
  · cases h
  next hds =>
  obtain ⟨frac, hfrac, h⟩ := Option.bind_eq_some_iff.mp h
  obtain ⟨u', hexp, h⟩ := Option.bind_eq_some_iff.mp h
  obtain rfl : u' = u := by
    split at h <;> cases h <;> rfl
  have hends := expRest_ends hexp hr
  obtain ⟨htake, hdrop⟩ := digits_append (fracRest_ends hfrac hends)
  simp only [numberSign_append hne, htake, hdrop, fracRest_append hfrac hends, Option.bind_some,
    expRest_append hexp hr, if_neg hds, List.length_append]
  split at h
  · cases h
    exact if_pos (by omega)
  · cases h
    rw [if_neg (by omega), Nat.add_sub_add_right, List.take_append_of_le_length (Nat.sub_le ..)]

/-- A number starts with a digit or a minus sign. -/
theorem number_head (h : number t = some p) : ∃ c s, t = c :: s ∧ (isDigit c = true ∨ c = 45) := by
  cases t with
  | nil => cases h
  | cons c s =>
    refine ⟨c, s, rfl, ?_⟩
    by_contra hc
    obtain ⟨hdigit, hminus⟩ := not_or.mp hc
    have hsign : expect 45 (c :: s) = none := if_neg hminus
    simp [number_eq, numberSign, hsign, hdigit] at h

theorem valueText_number (h : number t = some (v, [])) : ValueText 0 t v := by
  intro n rest _ hr
  have happend := number_append h (.inr hr)
  obtain ⟨c, s, rfl, hc⟩ := number_head h
  rw [List.cons_append] at happend ⊢
  rw [value_number hc, happend, List.nil_append]

/-- The value of a number is an integer or a double. -/
theorem number_ne_null : number t ≠ some (.null, rest) := by
  intro h
  rw [number_eq] at h
  dsimp only at h
  split at h
  · cases h
  obtain ⟨frac, -, h⟩ := Option.bind_eq_some_iff.mp h
  obtain ⟨u, -, h⟩ := Option.bind_eq_some_iff.mp h
  split at h <;> cases h

end Json
