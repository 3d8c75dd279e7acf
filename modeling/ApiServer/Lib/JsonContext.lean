import ApiServer.Lib.JsonNumber

/-!
# Values inside a longer text

The parser reads a value from left to right and never looks past its end, except to see that a number
ends there. So what it reads from a text it also reads from a longer one, with more room for nesting
and for members, and a text that is one value and nothing else is a text of that value in any place.
-/

namespace Json
open Bytes

variable {c : UInt8} {t u b : Bytes} {v : Json}

theorem expect_append_some (h : expect c t = some u) (rest : Bytes) :
    expect c (t ++ rest) = some (u ++ rest) := by
  rw [expect_eq_some h, List.cons_append]
  exact if_pos rfl

theorem expect_append_none (h : expect c t = none) (hne : t ≠ []) (rest : Bytes) :
    expect c (t ++ rest) = none := by
  rw [expect_append (.inl hne), h]
  rfl

theorem skipWs_append (h : skipWs t ≠ []) (rest : Bytes) :
    skipWs (t ++ rest) = skipWs t ++ rest := by
  unfold skipWs at h ⊢
  rw [List.dropWhile_append, if_neg (by simpa using h)]

theorem skipWs_ne_nil (h : expect c (skipWs t) = some u) : skipWs t ≠ [] := by
  intro hnil
  rw [hnil] at h
  cases h

theorem expect_skipWs_append (h : expect c (skipWs t) = some u) (rest : Bytes) :
    expect c (skipWs (t ++ rest)) = some (u ++ rest) := by
  rw [skipWs_append (skipWs_ne_nil h)]
  exact expect_append_some h rest

theorem expect_skipWs_append_none (h : expect c (skipWs t) = none) (hne : skipWs t ≠ [])
    (rest : Bytes) : expect c (skipWs (t ++ rest)) = none := by
  rw [skipWs_append hne]
  exact expect_append_none h hne rest

/-! ## Strings -/

theorem hex4_append {n : Nat} (h : hex4 t = some (n, u)) (rest : Bytes) :
    hex4 (t ++ rest) = some (n, u ++ rest) := by
  unfold hex4 at h ⊢
  split at h
  · simp only [List.cons_append, Option.bind_eq_bind, Option.bind_eq_some_iff] at h ⊢
    obtain ⟨x, hx, y, hy, z, hz, w, hw, h⟩ := h
    refine ⟨x, hx, y, hy, z, hz, w, hw, ?_⟩
    cases h
    rfl
  · cases h

theorem unicodeEscape_append (h : unicodeEscape t = some (b, u)) (rest : Bytes) :
    unicodeEscape (t ++ rest) = some (b, u ++ rest) := by
  simp only [unicodeEscape, Option.bind_eq_bind, Option.bind_eq_some_iff] at h ⊢
  obtain ⟨⟨x, s⟩, hx, h⟩ := h
  refine ⟨(x, s ++ rest), hex4_append hx rest, ?_⟩
  dsimp only at h ⊢
  split at h
  · rw [if_pos ‹_›]
    simp only [Option.bind_eq_some_iff] at h ⊢
    obtain ⟨s₁, h₁, s₂, h₂, ⟨l, s₃⟩, hl, h⟩ := h
    refine ⟨_, expect_append_some h₁ rest, _, expect_append_some h₂ rest, _, hex4_append hl rest, ?_⟩
    dsimp only at h ⊢
    split at h
    · obtain ⟨rfl, rfl⟩ := Prod.mk.inj (Option.some.inj h)
      rw [if_pos ‹_›]
    · cases h
  · rw [if_neg ‹_›]
    split at h
    · cases h
    · obtain ⟨rfl, rfl⟩ := Prod.mk.inj (Option.some.inj h)
      rw [if_neg ‹_›]

theorem strChar_append (h : strChar t = some (b, u)) (rest : Bytes) :
    strChar (t ++ rest) = some (b, u ++ rest) := by
  unfold strChar at h
  split at h
  · cases h
  next c s =>
  rw [List.cons_append, strChar.eq_def]
  dsimp only
  split at h
  · rw [if_pos ‹_›]
    split at h
    · cases h
    next e s =>
    rw [List.cons_append]
    dsimp only
    split at h
    · rw [if_pos ‹_›]
      exact unicodeEscape_append h rest
    · rw [if_neg ‹_›]
      obtain ⟨x, hx, h⟩ := Option.map_eq_some_iff.mp h
      cases h
      rw [hx]
      rfl
  · rw [if_neg ‹_›]
    split at h
    · cases h
    · cases h
      exact if_neg ‹_›

theorem strBody_append {n n' : Nat} (h : strBody n t = some (b, u)) (hn : n ≤ n') (rest : Bytes) :
    strBody n' (t ++ rest) = some (b, u ++ rest) := by
  induction n generalizing n' t b with
  | zero => cases h
  | succ n ih =>
    obtain _ | n' := n'
    · omega
    rw [strBody] at h ⊢
    split at h
    · next hquote =>
      cases h
      rw [expect_append_some hquote]
    · next hquote =>
      simp only [Option.bind_eq_bind, Option.bind_eq_some_iff] at h
      obtain ⟨⟨x, s₁⟩, hchar, ⟨y, s₂⟩, hbody, h⟩ := h
      cases h
      have hne : t ≠ [] := by
        rintro rfl
        cases hchar
      rw [expect_append_none hquote hne, strChar_append hchar]
      simp only [Option.bind_eq_bind, Option.bind_some, ih hbody (by omega : n ≤ n')]

theorem keyword_append {lit : Bytes} (h : keyword lit v t = some (w, u)) (rest : Bytes) :
    keyword lit v (t ++ rest) = some (w, u ++ rest) := by
  unfold keyword at h ⊢
  split at h
  · next hlit =>
    cases h
    obtain ⟨s, rfl⟩ := List.isPrefixOf_iff_prefix.mp hlit
    rw [if_pos (List.isPrefixOf_iff_prefix.mpr ⟨s ++ rest, by rw [List.append_assoc]⟩),
      List.append_assoc, List.drop_left, List.drop_left]
  · cases h

/-! ## Members, elements and values -/

/-- What `f` reads with something behind it, `g` reads with `rest` behind that. -/
def Extends (f g : Bytes → Option (Json × Bytes)) (rest : Bytes) : Prop :=
  ∀ t v u, f t = some (v, u) → u ≠ [] → g (t ++ rest) = some (v, u ++ rest)

section
variable {f g : Bytes → Option (Json × Bytes)} {rest : Bytes} {n n' : Nat}

theorem ne_nil_of_expect_skipWs (h : expect c (skipWs t) = some u) : t ≠ [] := by
  rintro rfl
  cases h

theorem skipWs_ne_nil_of_members (h : members f n t = some p) : skipWs t ≠ [] := by
  cases n with
  | zero => cases h
  | succ n =>
    rw [members] at h
    simp only [Option.bind_eq_bind, Option.bind_eq_some_iff] at h
    obtain ⟨_, hquote, -⟩ := h
    exact skipWs_ne_nil hquote

theorem skipWs_ne_nil_of_elements (h : elements (value k) n t = some p) : skipWs t ≠ [] := by
  cases n with
  | zero => cases h
  | succ n =>
    rw [elements] at h
    simp only [Option.bind_eq_bind, Option.bind_eq_some_iff] at h
    obtain ⟨_, hval, -⟩ := h
    intro hnil
    cases k with
    | zero => cases hval
    | succ k =>
      rw [value, hnil] at hval
      cases hval

theorem members_append (H : Extends f g rest) (h : members f n t = some (ms, u)) (hn : n ≤ n') :
    members g n' (t ++ rest) = some (ms, u ++ rest) := by
  induction n generalizing n' t ms with
  | zero => cases h
  | succ n ih =>
    obtain _ | n' := n'
    · omega
    rw [members] at h ⊢
    simp only [Option.bind_eq_bind, Option.bind_eq_some_iff] at h
    obtain ⟨s₁, hquote, ⟨key, s₂⟩, hkey, s₃, hcolon, ⟨v, s₄⟩, hval, h⟩ := h
    dsimp only at hcolon h
    have hkey' : strBody ((s₁ ++ rest).length + 1) (s₁ ++ rest) = some (key, s₂ ++ rest) :=
      strBody_append hkey (by simp) rest
    simp only [expect_skipWs_append hquote, Option.bind_eq_bind, Option.bind_some, hkey',
      expect_skipWs_append hcolon]
    split at h
    · next hclose =>
      cases h
      simp only [H _ _ _ hval (ne_nil_of_expect_skipWs hclose), Option.bind_some,
        expect_skipWs_append hclose]
    · next hopen =>
      simp only [Option.bind_eq_some_iff] at h
      obtain ⟨s₅, hcomma, ⟨ms', s₆⟩, hms, h⟩ := h
      cases h
      simp only [H _ _ _ hval (ne_nil_of_expect_skipWs hcomma), Option.bind_some,
        expect_skipWs_append_none hopen (skipWs_ne_nil hcomma), expect_skipWs_append hcomma,
        ih hms (by omega : n ≤ n')]

theorem elements_append (H : Extends f g rest) (h : elements f n t = some (vs, u)) (hn : n ≤ n') :
    elements g n' (t ++ rest) = some (vs, u ++ rest) := by
  induction n generalizing n' t vs with
  | zero => cases h
  | succ n ih =>
    obtain _ | n' := n'
    · omega
    rw [elements] at h ⊢
    simp only [Option.bind_eq_bind, Option.bind_eq_some_iff] at h
    obtain ⟨⟨v, s₁⟩, hval, h⟩ := h
    dsimp only at h
    split at h
    · next hclose =>
      cases h
      simp only [H _ _ _ hval (ne_nil_of_expect_skipWs hclose), Option.bind_eq_bind, Option.bind_some,
        expect_skipWs_append hclose]
    · next hopen =>
      simp only [Option.bind_eq_some_iff] at h
      obtain ⟨s₂, hcomma, ⟨vs', s₃⟩, hvs, h⟩ := h
      cases h
      simp only [H _ _ _ hval (ne_nil_of_expect_skipWs hcomma), Option.bind_eq_bind, Option.bind_some,
        expect_skipWs_append_none hopen (skipWs_ne_nil hcomma), expect_skipWs_append hcomma,
        ih hvs (by omega : n ≤ n')]

/-- A value that is read from a text is read from a longer one, unless it is a number that goes on;
an object is not. -/
theorem value_append (h : value n t = some (v, u)) (hn : n ≤ n')
    (hr : (skipWs t).head? = some 123 ∨ StopsBehind u rest) :
    value n' (t ++ rest) = some (v, u ++ rest) := by
  induction n generalizing n' t v u with
  | zero => cases h
  | succ n ih =>
    obtain _ | n' := n'
    · omega
    have H : Extends (value n) (value n') rest := fun t v u h hu =>
      ih h (by omega) (.inr (.inl hu))
    rw [value] at h ⊢
    split at h
    · cases h
    next c s hs =>
    rw [skipWs_append (by rw [hs]; exact List.cons_ne_nil _ _), hs, List.cons_append]
    dsimp only
    split at h
    · rw [if_pos ‹_›]
      split at h
      · next hclose =>
        cases h
        rw [expect_skipWs_append hclose]
      · next hopen =>
        obtain ⟨⟨ms, u'⟩, hms, h⟩ := Option.map_eq_some_iff.mp h
        cases h
        rw [expect_skipWs_append_none hopen (skipWs_ne_nil_of_members hms),
          members_append H hms (by simp)]
        rfl
    rw [if_neg ‹_›]
    split at h
    · rw [if_pos ‹_›]
      split at h
      · next hclose =>
        cases h
        rw [expect_skipWs_append hclose]
      · next hopen =>
        obtain ⟨⟨vs, u'⟩, hvs, h⟩ := Option.map_eq_some_iff.mp h
        cases h
        rw [expect_skipWs_append_none hopen (skipWs_ne_nil_of_elements hvs),
          elements_append H hvs (by simp)]
        rfl
    rw [if_neg ‹_›]
    split at h
    · rw [if_pos ‹_›]
      obtain ⟨⟨b, u'⟩, hbody, h⟩ := Option.map_eq_some_iff.mp h
      cases h
      rw [strBody_append hbody (by simp)]
      rfl
    rw [if_neg ‹_›]
    split at h
    · rw [if_pos ‹_›]
      exact keyword_append h rest
    rw [if_neg ‹_›]
    split at h
    · rw [if_pos ‹_›]
      exact keyword_append h rest
    rw [if_neg ‹_›]
    split at h
    · rw [if_pos ‹_›]
      exact keyword_append h rest
    rw [if_neg ‹_›]
    refine number_append h (hr.resolve_left fun hbrace => ?_)
    rw [hs] at hbrace
    exact absurd (Option.some.inj hbrace) ‹c ≠ 123›

end

/-- The text is one value, with no blanks behind it. -/
def ReadsAs (t : Bytes) (v : Json) : Prop := value (t.length + 1) t = some (v, [])

theorem ReadsAs.valueText (h : ReadsAs t v) : ValueText t.length t v := fun _ _ hn hr =>
  value_append h (Nat.succ_le_succ hn) (.inr (.inr hr))

theorem ReadsAs.parse (h : ReadsAs t v) : parse t = some v := by
  rw [Json.parse, h]
  rfl

theorem ValueText.readsAs {d : Nat} (H : ValueText d t v) (h : d ≤ t.length) : ReadsAs t v := by
  have hvalue := H t.length [] h (fun _ _ h => nomatch h)
  rwa [List.append_nil] at hvalue

theorem intercalate_cons (c : UInt8) (t : Bytes) (ts : List Bytes) :
    [c].intercalate (t :: ts) = t ++ (ts.map (c :: ·)).flatten := by
  induction ts generalizing t with
  | nil => rw [List.intercalate_singleton, List.map_nil, List.flatten_nil, List.append_nil]
  | cons t' ts ih => simp [List.intercalate_cons_cons, ih]

theorem membersText_eq_intercalate (ms : List Member) :
    membersText ms = [44].intercalate (ms.map Member.text) := by
  induction ms with
  | nil => rfl
  | cons m ms ih => cases ms with
    | nil => exact List.intercalate_singleton.symm
    | cons m' ms =>
      rw [membersText, ih, List.map_cons, List.map_cons, List.map_cons, List.intercalate_cons_cons,
        List.append_assoc]
      · rfl
      · exact List.cons_ne_nil _ _

theorem length_valText_le {ms : List Member} {m : Member} (hm : m ∈ ms) :
    m.valText.length ≤ (membersText ms).length := by
  induction ms with
  | nil => cases hm
  | cons m' ms ih =>
    have htext : m'.valText.length ≤ m'.text.length := by
      simp only [Member.text, List.length_append, List.length_cons]
      omega
    cases ms with
    | nil =>
      obtain rfl := List.mem_singleton.mp hm
      exact htext
    | cons m'' ms =>
      rw [membersText, List.length_append, List.length_cons]
      obtain rfl | hm := List.mem_cons.mp hm
      · omega
      · have := ih hm
        omega
      · exact List.cons_ne_nil _ _

/-- Keys and values that are texts of their own make up an object. -/
theorem readsAs_object {ms : List Member} (hkey : ∀ m ∈ ms, StrContent m.keyText m.key)
    (hval : ∀ m ∈ ms, ReadsAs m.valText m.val) :
    ReadsAs (objectText ms) (.object (ms.map fun m => (m.key, m.val))) := by
  by_cases hne : ms = []
  · subst hne
    rfl
  have hsound : ∀ m ∈ ms, m.Sound (membersText ms).length := fun m hm =>
    ⟨hkey m hm, (hval m hm).valueText.mono (length_valText_le hm)⟩
  refine (valueText_object hne hsound).readsAs ?_
  simp [objectText]

end Json
