import ApiServer.Lib.CInt
import ApiServer.Lib.Json

/-!
# Texts and what they parse to

`StrContent e s`: between quotes, `e` is a string literal for `s`. `ValueText d t v`: in front of
anything that does not continue a number, `t` is a text of `v` nested at most `d` deep. An object
text is assembled from its members by `valueText_object`, an array text from its elements by
`valueText_array`.
-/

namespace Json
open Bytes

/-! ## String content -/

inductive StrContent : Bytes → Bytes → Prop
  | nil : StrContent [] []
  | cons : (∀ rest, strChar (c ++ rest) = some (b, rest)) → StrContent e s →
    StrContent (c ++ e) (b ++ s)

theorem strChar_quote (s : Bytes) : strChar (34 :: s) = none := by simp [strChar]

theorem strBody_content (H : StrContent e s) {n : Nat} (hn : e.length < n) (rest : Bytes) :
    strBody n (e ++ 34 :: rest) = some (s, rest) := by
  induction H generalizing n with
  | nil =>
    obtain _ | n := n
    · simp at hn
    · simp [strBody, expect]
  | @cons c b e s h _ ih =>
    -- the character consumes something, and it does not start with a quote
    obtain _ | ⟨x, c⟩ := c
    · simpa [strChar] using h []
    have hx : x ≠ 34 := by
      rintro rfl
      have := h []
      rw [List.cons_append, strChar_quote] at this
      cases this
    obtain _ | n := n
    · simp at hn
    simp only [List.length_append, List.length_cons] at hn
    have hexp : expect 34 (x :: c ++ (e ++ 34 :: rest)) = none := by simp [expect, hx]
    rw [List.append_assoc, strBody, hexp, h]
    simp [ih (n := n) (by omega)]

/-- A byte that stands for itself. -/
theorem strChar_plain {c : UInt8} (h1 : ¬c < 32) (h2 : c ≠ 34) (h3 : c ≠ 92) (rest : Bytes) :
    strChar ([c] ++ rest) = some ([c], rest) := by
  simp [strChar, h1, h2, h3]

/-- Each byte of the text stands for itself. -/
def Plain (s : Bytes) : Prop := ∀ c ∈ s, ¬c < 32 ∧ c ≠ 34 ∧ c ≠ 92

instance : Decidable (Plain s) := List.decidableBAll _ s

theorem plain_append : Plain (s ++ t) ↔ Plain s ∧ Plain t := List.forall_mem_append

/-- A literal is checked character by character. -/
theorem plain_ofList {l : List Char} (h : Plain (l.map fun c => UInt8.ofNat c.toNat)) :
    Plain (bytes (String.ofList l)) := by
  rwa [bytes_ofList]

theorem StrContent.plain {s : Bytes} (h : Plain s) : StrContent s s := by
  induction s with
  | nil => exact .nil
  | cons c s ih =>
    obtain ⟨h1, h2, h3⟩ := h c (List.mem_cons_self ..)
    exact .cons (strChar_plain h1 h2 h3) (ih fun c hc => h c (List.mem_cons_of_mem _ hc))

/-- The content of a string is as long as what it denotes only where it is plain. -/
structure Denotes (e t : Bytes) : Prop where
  length_le : t.length ≤ e.length
  plain : e.length ≤ t.length → e = t ∧ Plain t

theorem Denotes.of_lt (h : t.length < e.length) : Denotes e t := ⟨h.le, fun h' => by omega⟩

theorem Denotes.append (H : Denotes e t) (H' : Denotes e' t') : Denotes (e ++ e') (t ++ t') := by
  have h := H.length_le
  have h' := H'.length_le
  refine ⟨by simp only [List.length_append]; omega, fun hlen => ?_⟩
  simp only [List.length_append] at hlen
  obtain ⟨rfl, hplain⟩ := H.plain (by omega)
  obtain ⟨rfl, hplain'⟩ := H'.plain (by omega)
  exact ⟨rfl, plain_append.mpr ⟨hplain, hplain'⟩⟩

theorem length_utf8_le (u : Nat) : (utf8 u).length ≤ 4 := by
  unfold utf8
  split
  · simp
  split
  · simp
  split <;> simp

theorem hex4_length (h : hex4 s = some (u, rest)) : ∃ c, s = c ++ rest ∧ c.length = 4 := by
  unfold hex4 at h
  split at h
  · next a b c d s =>
    simp only [Option.bind_eq_bind, Option.bind_eq_some_iff, Option.some.injEq, Prod.mk.injEq] at h
    obtain ⟨_, -, _, -, _, -, _, -, -, rfl⟩ := h
    exact ⟨[a, b, c, d], rfl, rfl⟩
  · cases h

theorem expect_eq_some (h : expect c s = some rest) : s = c :: rest := by
  unfold expect at h
  split at h
  · cases h
  · split at h
    · next hc =>
      cases h
      rw [hc]
    · cases h

theorem unicodeEscape_length (h : unicodeEscape s = some (b, rest)) :
    ∃ c, s = c ++ rest ∧ b.length ≤ c.length := by
  simp only [unicodeEscape, Option.bind_eq_bind, Option.bind_eq_some_iff] at h
  obtain ⟨⟨u, s'⟩, hu, h⟩ := h
  obtain ⟨c, rfl, hc⟩ := hex4_length hu
  split at h
  · simp only [Option.bind_eq_some_iff] at h
    obtain ⟨s₁, h₁, s₂, h₂, ⟨l, s₃⟩, hl, h⟩ := h
    obtain ⟨c', hc', hlen⟩ := hex4_length hl
    split at h
    · obtain ⟨rfl, rfl⟩ := Prod.mk.inj (Option.some.inj h)
      refine ⟨c ++ 92 :: 117 :: c', ?_, ?_⟩
      · rw [expect_eq_some h₁, expect_eq_some h₂, hc']
        simp
      · refine (length_utf8_le _).trans ?_
        simp only [List.length_append, List.length_cons]
        omega
    · cases h
  · split at h
    · cases h
    · obtain ⟨rfl, rfl⟩ := Prod.mk.inj (Option.some.inj h)
      exact ⟨c, rfl, hc ▸ length_utf8_le u⟩

theorem strChar_denotes (h : strChar s = some (b, rest)) : ∃ c, s = c ++ rest ∧ Denotes c b := by
  unfold strChar at h
  split at h
  · cases h
  next c s =>
  split at h
  · split at h
    · cases h
    next e s =>
    split at h
    · obtain ⟨c', rfl, hlen⟩ := unicodeEscape_length h
      exact ⟨c :: e :: c', rfl, .of_lt (by simp only [List.length_cons]; omega)⟩
    · obtain ⟨x, -, hx⟩ := Option.map_eq_some_iff.mp h
      cases hx
      exact ⟨[c, e], rfl, .of_lt (by simp)⟩
  · next hback =>
    split at h
    · cases h
    · next hquote =>
      cases h
      rw [not_or] at hquote
      refine ⟨[c], rfl, ⟨Nat.le_refl _, fun _ => ⟨rfl, ?_⟩⟩⟩
      exact List.forall_mem_singleton.mpr ⟨hquote.1, hquote.2, hback⟩

/-- What a string literal denotes is no longer than its content. -/
theorem strBody_denotes (h : strBody n s = some (t, rest)) :
    ∃ e, s = e ++ 34 :: rest ∧ Denotes e t := by
  induction n generalizing s t with
  | zero => cases h
  | succ n ih =>
    rw [strBody] at h
    split at h
    · next hquote =>
      cases h
      exact ⟨[], expect_eq_some hquote, ⟨Nat.le_refl _, fun _ => ⟨rfl, nofun⟩⟩⟩
    · simp only [Option.bind_eq_bind, Option.bind_eq_some_iff] at h
      obtain ⟨⟨b, s₁⟩, hchar, ⟨t', s₂⟩, hbody, h⟩ := h
      cases h
      obtain ⟨c, rfl, hc⟩ := strChar_denotes hchar
      obtain ⟨e, rfl, he⟩ := ih hbody
      exact ⟨c ++ e, by simp, hc.append he⟩

/-! ## Decimal texts -/

def natTextAux : Nat → Nat → Bytes
  | 0, _ => []
  | f + 1, n => if n < 10 then [.ofNat (48 + n)] else natTextAux f (n / 10) ++ [.ofNat (48 + n % 10)]

/-- The decimal text of a natural number. -/
def natText (n : Nat) : Bytes := natTextAux (n + 1) n

/-- The decimal text of an integer. -/
def intText (n : Int) : Bytes := if n < 0 then 45 :: natText n.natAbs else natText n.natAbs

theorem natTextAux_fuel {f g n : Nat} (hf : n < f) (hg : n < g) :
    natTextAux f n = natTextAux g n := by
  induction f generalizing g n with
  | zero => omega
  | succ f ih =>
    obtain _ | g := g
    · omega
    by_cases h : n < 10
    · simp [natTextAux, h]
    · simp only [natTextAux, h, if_false]
      rw [ih (by omega) (by omega : n / 10 < g)]

theorem natText_lt {n : Nat} (h : n < 10) : natText n = [.ofNat (48 + n)] := by
  simp [natText, natTextAux, h]

theorem natText_ge {n : Nat} (h : ¬n < 10) :
    natText n = natText (n / 10) ++ [.ofNat (48 + n % 10)] := by
  rw [natText, natTextAux, if_neg h, natText, natTextAux_fuel (by omega) (Nat.lt_succ_self _)]

/-- What the text of a number looks like: digits that denote it, without a leading zero. -/
theorem natText_spec (n : Nat) : (∀ c ∈ natText n, isDigit c = true) ∧ natText n ≠ [] ∧
    digitsVal (natText n) = n ∧ (0 < n → (natText n).head? ≠ some 48) ∧
    (1 < (natText n).length → 0 < n) := by
  induction n using Nat.strong_induction_on with
  | _ n ih =>
    by_cases h : n < 10
    · rw [natText_lt h]
      refine ⟨by simpa using isDigit_digit h, by simp, ?_, ?_, by simp⟩
      · simp only [digitsVal, List.foldl_cons, List.foldl_nil, digit_toNat h]; omega
      · intro hn
        simp only [List.head?_cons, ne_eq, Option.some.injEq]
        intro e
        have := congrArg UInt8.toNat e
        rw [digit_toNat h] at this
        change 48 + n = 48 at this
        omega
    · obtain ⟨hd, hne, hv, hz, -⟩ := ih (n / 10) (by omega)
      rw [natText_ge h]
      refine ⟨?_, by simp, ?_, fun _ => ?_, fun _ => by omega⟩
      · intro c hc
        rcases List.mem_append.mp hc with hc | hc
        · exact hd c hc
        · rw [List.mem_singleton.mp hc]; exact isDigit_digit (by omega)
      · rw [digitsVal, List.foldl_append]
        change (List.foldl _ (digitsVal (natText (n / 10))) _) = n
        simp only [List.foldl_cons, List.foldl_nil, hv, digit_toNat (show n % 10 < 10 by omega)]
        omega
      · rw [List.head?_append_of_ne_nil _ hne]; exact hz (by omega)

theorem natText_length (n k : Nat) (h : n < 10 ^ (k + 1)) : (natText n).length ≤ k + 1 := by
  induction k generalizing n with
  | zero => rw [natText_lt (by simpa using h)]; simp
  | succ k ih =>
    by_cases hn : n < 10
    · rw [natText_lt hn]; simp
    · rw [natText_ge hn, List.length_append]
      have := ih (n / 10) (by rw [Nat.pow_succ] at h; omega)
      simpa using this

theorem intText_length {n : Int} (h : FitsInt64 n) : (intText n).length ≤ 20 := by
  obtain ⟨h1, h2⟩ := h
  have hd := natText_length n.natAbs 18 (by omega)
  unfold intText
  split
  · rw [List.length_cons]; omega
  · omega

theorem plain_natText (n : Nat) : Plain (natText n) := by
  have hdigit : ∀ c : UInt8, isDigit c = true → ¬c < 32 ∧ c ≠ 34 ∧ c ≠ 92 :=
    forall_byte (by decide +kernel)
  exact fun c hc => hdigit c ((natText_spec n).1 c hc)

theorem plain_intText (n : Int) : Plain (intText n) := by
  unfold intText
  split
  · exact List.forall_mem_cons.mpr ⟨by decide, plain_natText n.natAbs⟩
  · exact plain_natText n.natAbs

theorem zero_notMem_intText (n : Int) : 0 ∉ intText n := by
  have hd := (natText_spec n.natAbs).1
  have hz : 0 ∉ natText n.natAbs := fun h => absurd (hd 0 h) (by decide)
  unfold intText
  split
  · simpa using hz
  · exact hz

/-! ## Values -/

/-- Nothing at the head of `rest` could continue a number. -/
def Stops (rest : Bytes) : Prop :=
  ∀ c s, rest = c :: s → isDigit c = false ∧ c ≠ 46 ∧ c ≠ 101 ∧ c ≠ 69

theorem Stops.cons {c : UInt8} (h : isDigit c = false ∧ c ≠ 46 ∧ c ≠ 101 ∧ c ≠ 69) (s : Bytes) :
    Stops (c :: s) := by
  rintro _ _ ⟨⟩; exact h

def ValueText (d : Nat) (t : Bytes) (v : Json) : Prop :=
  ∀ n rest, d ≤ n → Stops rest → value (n + 1) (t ++ rest) = some (v, rest)

theorem ValueText.mono {d d' : Nat} (H : ValueText d t v) (h : d ≤ d') : ValueText d' t v :=
  fun n rest hn => H n rest (h.trans hn)

theorem expect_of_stops {c : UInt8} (hc : c = 46 ∨ c = 101 ∨ c = 69) (h : Stops rest) :
    expect c rest = none := by
  cases rest with
  | nil => rfl
  | cons x s =>
    obtain ⟨-, h1, h2, h3⟩ := h x s rfl
    rcases hc with rfl | rfl | rfl <;> simp [expect, *]

private theorem number_digits {ds : Bytes} (hd : ∀ c ∈ ds, isDigit c = true) (hne : ds ≠ [])
    (hz : 1 < ds.length → ds.head? ≠ some 48) (hr : Stops rest) :
    number (ds ++ rest) = some (.int (digitsVal ds), rest) ∧
      number (45 :: ds ++ rest) = some (.int (-(digitsVal ds : Int)), rest) := by
  have hrest : rest.takeWhile isDigit = [] ∧ rest.dropWhile isDigit = rest := by
    cases rest with
    | nil => simp
    | cons x s => simp [(hr x s rfl).1]
  have ht : (ds ++ rest).takeWhile isDigit = ds := by
    rw [List.takeWhile_append_of_pos hd, hrest.1, List.append_nil]
  have hdr : (ds ++ rest).dropWhile isDigit = rest := by
    rw [List.dropWhile_append_of_pos hd, hrest.2]
  have hneg : expect 45 (ds ++ rest) = none := by
    obtain _ | ⟨x, ds⟩ := ds
    · exact absurd rfl hne
    have hx := hd x (List.mem_cons_self ..)
    have : x ≠ 45 := by rintro rfl; exact absurd hx (by decide)
    simp [expect, this]
  have hlead : ¬(ds = [] ∨ (1 < ds.length ∧ ds.head? = some 48)) := by
    rintro (h | ⟨h1, h2⟩)
    · exact hne h
    · exact hz h1 h2
  have hstop : expect 46 rest = none ∧ expect 101 rest = none ∧ expect 69 rest = none :=
    ⟨expect_of_stops (by simp) hr, expect_of_stops (by simp) hr, expect_of_stops (by simp) hr⟩
  have hminus : expect 45 (45 :: ds ++ rest) = some (ds ++ rest) := by simp [expect]
  constructor
  · simp only [number, hneg, ht, hdr, hlead, hstop.1]
    simp [hstop.2]
  · simp only [number, hminus, ht, hdr, hlead, hstop.1]
    simp [hstop.2]

theorem skipWs_cons {c : UInt8} (h : isWs c = false) (s : Bytes) : skipWs (c :: s) = c :: s := by
  simp [skipWs, h]

/-- A text that starts with a digit or a minus sign is read as a number. -/
theorem value_number {c : UInt8} (hc : isDigit c = true ∨ c = 45) (n : Nat) (s : Bytes) :
    value (n + 1) (c :: s) = number (c :: s) := by
  have hne : ∀ d, isDigit d = false → d ≠ 45 → c ≠ d := by
    rintro d h1 h2 rfl
    rcases hc with hc | hc
    · rw [h1] at hc; cases hc
    · exact h2 hc
  have hws : isWs c = false := by
    simp [isWs, hne 32 (by decide) (by decide), hne 9 (by decide) (by decide),
      hne 10 (by decide) (by decide), hne 13 (by decide) (by decide)]
  simp [value, skipWs_cons hws, hne 123 (by decide) (by decide), hne 91 (by decide) (by decide),
    hne 34 (by decide) (by decide), hne 110 (by decide) (by decide),
    hne 116 (by decide) (by decide), hne 102 (by decide) (by decide)]

theorem valueText_int (n : Int) : ValueText 0 (intText n) (.int n) := by
  intro k rest _ hr
  obtain ⟨hd, hne, hv, hz, hl⟩ := natText_spec n.natAbs
  obtain ⟨hpos, hneg⟩ := number_digits hd hne (fun h => hz (hl h)) hr
  rw [hv] at hpos hneg
  unfold intText
  split
  · rw [List.cons_append, value_number (.inr rfl), ← List.cons_append, hneg]
    simp only [Option.some.injEq, Prod.mk.injEq, Json.int.injEq, and_true]; omega
  · obtain ⟨c, s, hcs⟩ := List.exists_cons_of_ne_nil hne
    have hc := hd c (by rw [hcs]; exact List.mem_cons_self ..)
    rw [hcs] at hpos ⊢
    rw [List.cons_append] at hpos ⊢
    rw [value_number (.inl hc), hpos]
    simp only [Option.some.injEq, Prod.mk.injEq, Json.int.injEq, and_true]; omega

theorem valueText_null : ValueText 0 (bytes "null") .null := by
  intro n rest _ _
  change value (n + 1) (110 :: 117 :: 108 :: 108 :: rest) = _
  rw [value, skipWs_cons (by decide)]
  simp [keyword, bytes]

theorem valueText_bool (b : Bool) :
    ValueText 0 (bytes (if b then "true" else "false")) (.bool b) := by
  intro n rest _ _
  cases b
  · change value (n + 1) (102 :: 97 :: 108 :: 115 :: 101 :: rest) = _
    rw [value, skipWs_cons (by decide)]
    simp [keyword, bytes]
  · change value (n + 1) (116 :: 114 :: 117 :: 101 :: rest) = _
    rw [value, skipWs_cons (by decide)]
    simp [keyword, bytes]

theorem valueText_string (H : StrContent e s) : ValueText 0 (34 :: e ++ [34]) (.string s) := by
  intro n rest _ _
  have hs : 34 :: e ++ [34] ++ rest = 34 :: (e ++ 34 :: rest) := by simp
  have hb := strBody_content H (n := (e ++ 34 :: rest).length + 1)
    (by rw [List.length_append]; omega) rest
  rw [hs, value, skipWs_cons (by decide)]
  simp only [hb]
  simp

/-! ## Objects -/

/-- A member: its key, the text of the key, its value and the text of the value. -/
structure Member where
  key : Bytes
  keyText : Bytes
  val : Json
  valText : Bytes

structure Member.Sound (d : Nat) (m : Member) : Prop where
  key : StrContent m.keyText m.key
  val : ValueText d m.valText m.val

def Member.text (m : Member) : Bytes := 34 :: m.keyText ++ 34 :: 58 :: m.valText

def membersText : List Member → Bytes
  | [] => []
  | [m] => m.text
  | m :: ms => m.text ++ 44 :: membersText ms

def objectText (ms : List Member) : Bytes := 123 :: membersText ms ++ [125]

theorem notMem_objectText {c : UInt8} {ms : List Member} (hc : c ≠ 123 ∧ c ≠ 125 ∧ c ≠ 44)
    (H : ∀ m ∈ ms, c ∉ m.text) : c ∉ objectText ms := by
  obtain ⟨hopen, hclose, hcomma⟩ := hc
  have hmembers : c ∉ membersText ms := by
    induction ms with
    | nil => exact List.not_mem_nil
    | cons m ms ih =>
      obtain ⟨hm, hms⟩ := List.forall_mem_cons.mp H
      cases ms with
      | nil => exact hm
      | cons m' ms => simp [membersText, hm, hcomma, ih hms]
  simp [objectText, hopen, hclose, hmembers]

private theorem members_text {d k : Nat} (hk : d ≤ k) {ms : List Member} (hne : ms ≠ [])
    (H : ∀ m ∈ ms, m.Sound d) {n : Nat} (hn : ms.length ≤ n) (rest : Bytes) :
    members (value (k + 1)) n (membersText ms ++ 125 :: rest) =
      some (ms.map fun m => (m.key, m.val), rest) := by
  -- one member, whatever separator follows it
  have one : ∀ {m : Member}, m.Sound d → ∀ {c : UInt8} {t : Bytes},
      isDigit c = false ∧ c ≠ 46 ∧ c ≠ 101 ∧ c ≠ 69 →
      expect 34 (skipWs (m.text ++ c :: t)) = some (m.keyText ++ 34 :: 58 :: m.valText ++ c :: t) ∧
      strBody ((m.keyText ++ 34 :: 58 :: m.valText ++ c :: t).length + 1)
        (m.keyText ++ 34 :: 58 :: m.valText ++ c :: t) = some (m.key, 58 :: m.valText ++ c :: t) ∧
      expect 58 (skipWs (58 :: m.valText ++ c :: t)) = some (m.valText ++ c :: t) ∧
      value (k + 1) (m.valText ++ c :: t) = some (m.val, c :: t) := by
    intro m hm c t hc
    refine ⟨?_, ?_, ?_, hm.val k _ hk (Stops.cons hc t)⟩
    · simp [Member.text, skipWs_cons (show isWs 34 = false by decide), expect]
    · have := strBody_content hm.key (n := (m.keyText ++ 34 :: 58 :: m.valText ++ c :: t).length + 1)
        (by rw [List.append_assoc, List.length_append]; omega) (58 :: m.valText ++ c :: t)
      simpa using this
    · simp [skipWs_cons (show isWs 58 = false by decide), expect]
  induction ms generalizing n with
  | nil => exact absurd rfl hne
  | cons m ms ih =>
    obtain _ | n := n
    · simp at hn
    have hm := H m (List.mem_cons_self ..)
    cases ms with
    | nil =>
      obtain ⟨h1, h2, h3, h4⟩ := one hm (c := 125) (t := rest) (by decide)
      simp only [membersText, members, h1, h2, h3, h4, Option.bind_eq_bind, Option.bind_some,
        skipWs_cons (show isWs 125 = false by decide)]
      simp [expect]
    | cons m' ms =>
      obtain ⟨h1, h2, h3, h4⟩ := one hm (c := 44) (t := membersText (m' :: ms) ++ 125 :: rest)
        (by decide)
      have ih := ih (n := n) (by simp) (fun m hm => H m (List.mem_cons_of_mem _ hm))
        (by simpa using hn)
      simp only [membersText, List.append_assoc, List.cons_append] at h1 h2 h3 h4 ih ⊢
      simp only [members, h1, h2, h3, h4, Option.bind_eq_bind, Option.bind_some,
        skipWs_cons (show isWs 44 = false by decide)]
      simp [expect, ih]

private theorem membersText_length (ms : List Member) : ms.length ≤ (membersText ms).length := by
  induction ms with
  | nil => simp
  | cons m ms ih =>
    cases ms with
    | nil => simp [membersText, Member.text]
    | cons m' ms =>
      simp only [membersText, List.length_append, List.length_cons] at ih ⊢
      omega

theorem valueText_object {d : Nat} {ms : List Member} (hne : ms ≠ []) (H : ∀ m ∈ ms, m.Sound d) :
    ValueText (d + 1) (objectText ms) (.object (ms.map fun m => (m.key, m.val))) := by
  intro n rest hn _
  obtain _ | n := n
  · omega
  have hs : objectText ms ++ rest = 123 :: (membersText ms ++ 125 :: rest) := by simp [objectText]
  have hm := members_text (by omega : d ≤ n) hne H
    (n := (membersText ms ++ 125 :: rest).length)
    (by have := membersText_length ms; simp; omega) rest
  have hq : expect 125 (skipWs (membersText ms ++ 125 :: rest)) = none := by
    cases ms with
    | nil => exact absurd rfl hne
    | cons m ms =>
      have : ∃ s, membersText (m :: ms) ++ 125 :: rest = 34 :: s := by
        cases ms <;> exact ⟨_, rfl⟩
      obtain ⟨s, hs⟩ := this
      rw [hs, skipWs_cons (by decide)]
      simp [expect]
  rw [hs, value, skipWs_cons (by decide)]
  simp only [if_true, hq, hm, Option.map_some]

/-! ## Arrays -/

def elementsText : List Bytes → Bytes
  | [] => []
  | [t] => t
  | t :: ts => t ++ 44 :: elementsText ts

def arrayText (ts : List Bytes) : Bytes := 91 :: elementsText ts ++ [93]

private theorem elements_text {d k : Nat} (hk : d ≤ k) (hne : ts ≠ [])
    (H : List.Forall₂ (ValueText d) ts vs) {n : Nat} (hn : ts.length ≤ n) (rest : Bytes) :
    elements (value (k + 1)) n (elementsText ts ++ 93 :: rest) = some (vs, rest) := by
  induction H generalizing n with
  | nil => exact absurd rfl hne
  | @cons t v ts vs ht H ih =>
    obtain _ | n := n
    · simp at hn
    cases H with
    | nil =>
      have hv := ht k (93 :: rest) hk (Stops.cons (by decide) _)
      simp [elementsText, elements, hv, skipWs_cons (show isWs 93 = false by decide), expect]
    | @cons t' v' ts vs ht' H =>
      have ih := ih (by simp) (by simpa using hn)
      have hv := ht k (44 :: (elementsText (t' :: ts) ++ 93 :: rest)) hk (Stops.cons (by decide) _)
      simp only [elementsText, List.append_assoc, List.cons_append] at hv ih ⊢
      simp only [elements, hv, Option.bind_eq_bind, Option.bind_some,
        skipWs_cons (show isWs 44 = false by decide)]
      simp [expect, ih]

private theorem elementsText_length (ts : List Bytes) :
    ts.length ≤ (elementsText ts).length + 1 := by
  induction ts with
  | nil => simp
  | cons t ts ih =>
    cases ts with
    | nil => simp
    | cons t' ts =>
      simp only [elementsText, List.length_append, List.length_cons] at ih ⊢
      omega

/-- No value starts with the bracket that ends an array. -/
private theorem expect_bracket_of_value (h : value (n + 1) s = some p) :
    expect 93 (skipWs s) = none := by
  rw [value] at h
  cases hs : skipWs s with
  | nil => rfl
  | cons c t =>
    refine if_neg ?_
    rintro rfl
    rw [hs] at h
    cases h

theorem valueText_array {d : Nat} (H : List.Forall₂ (ValueText d) ts vs) :
    ValueText (d + 1) (arrayText ts) (.array vs) := by
  intro n rest hn _
  obtain _ | n := n
  · omega
  have hs : arrayText ts ++ rest = 91 :: (elementsText ts ++ 93 :: rest) := by simp [arrayText]
  rw [hs, value, skipWs_cons (by decide)]
  by_cases hne : ts = []
  · cases hne
    cases H
    simp [elementsText, skipWs_cons (show isWs 93 = false by decide), expect]
  · have hel := elements_text (by omega : d ≤ n) hne H
      (n := (elementsText ts ++ 93 :: rest).length)
      (by have := elementsText_length ts; simp; omega) rest
    have hbracket : expect 93 (skipWs (elementsText ts ++ 93 :: rest)) = none := by
      cases H with
      | nil => exact absurd rfl hne
      | @cons t v ts vs ht H =>
        cases ts with
        | nil => exact expect_bracket_of_value (ht n _ (by omega) (Stops.cons (by decide) rest))
        | cons t' ts =>
          rw [elementsText, List.append_assoc]
          · exact expect_bracket_of_value (ht n _ (by omega) (Stops.cons (by decide) _))
          · simp
    simp only [if_neg (show (91 : UInt8) ≠ 123 by decide), if_true, hbracket, hel, Option.map_some]

theorem parse_valueText {d : Nat} {t : Bytes} (H : ValueText d t v) (h : d ≤ t.length) :
    parse t = some v := by
  have := H t.length [] h (by rintro _ _ ⟨⟩)
  rw [List.append_nil] at this
  simp [parse, this, skipWs]

/-! ## How a text starts -/

theorem value_of_parse (h : parse t = some v) :
    ∃ rest, value (t.length + 1) t = some (v, rest) := by
  simp only [parse, Option.bind_eq_bind, Option.bind_eq_some_iff] at h
  obtain ⟨⟨v', rest⟩, hvalue, h⟩ := h
  split at h
  · cases h
    exact ⟨rest, hvalue⟩
  · cases h

/-- Behind a bracket there is no object. -/
theorem parse_bracket (t : Bytes) (ms : List (Bytes × Json)) :
    parse (91 :: t) ≠ some (.object ms) := by
  intro h
  obtain ⟨rest, h⟩ := value_of_parse h
  rw [value, skipWs_cons (by decide)] at h
  simp only [if_neg (show (91 : UInt8) ≠ 123 by decide), if_true] at h
  split at h
  · cases h
  · obtain ⟨p, -, hp⟩ := Option.map_eq_some_iff.mp h
    cases hp

/-- The member a text starts with is the first one of the object, and something follows it. -/
theorem parse_firstMember (hk : StrContent e key)
    (h : parse (123 :: 34 :: e ++ 34 :: 58 :: t) = some (.object ms)) :
    ∃ n v rest ms', value n t = some (v, rest) ∧ rest ≠ [] ∧ ms = (key, v) :: ms' := by
  obtain ⟨rest, h⟩ := value_of_parse h
  rw [List.cons_append, value, skipWs_cons (by decide)] at h
  simp only [if_true, List.cons_append, skipWs_cons (show isWs 34 = false by decide)] at h
  rw [show expect 125 (34 :: (e ++ 34 :: 58 :: t)) = none from rfl] at h
  obtain ⟨p, hp, heq⟩ := Option.map_eq_some_iff.mp h
  cases heq
  change members _ ((e ++ 34 :: 58 :: t).length + 1) _ = _ at hp
  rw [members, skipWs_cons (by decide)] at hp
  have hbody := strBody_content hk (n := (e ++ 34 :: 58 :: t).length + 1)
    (by rw [List.length_append]; omega) (58 :: t)
  have hquote : expect 34 (34 :: (e ++ 34 :: 58 :: t)) = some (e ++ 34 :: 58 :: t) := rfl
  have hcolon : expect 58 (skipWs (58 :: t)) = some t := by
    rw [skipWs_cons (by decide)]
    rfl
  simp only [hquote, hbody, hcolon, Option.bind_eq_bind, Option.bind_some,
    Option.bind_eq_some_iff] at hp
  obtain ⟨⟨v, s⟩, hvalue, hp⟩ := hp
  have hrest : ∀ c u, expect c (skipWs s) = some u → s ≠ [] := by
    rintro c u hu rfl
    cases hu
  split at hp
  · next hu =>
    cases hp
    exact ⟨_, v, s, [], hvalue, hrest _ _ hu, rfl⟩
  · simp only [Option.bind_eq_some_iff] at hp
    obtain ⟨s₁, hs₁, ⟨ms', s₂⟩, -, hp⟩ := hp
    cases hp
    exact ⟨_, v, s, ms', hvalue, hrest _ _ hs₁, rfl⟩

/-- A first member that is a string. -/
theorem parse_firstString (hk : StrContent e key)
    (h : parse (123 :: 34 :: e ++ 34 :: 58 :: 34 :: t) = some (.object ((k, .string v) :: ms))) :
    ∃ e' rest, t = e' ++ 34 :: rest ∧ rest ≠ [] ∧ Denotes e' v := by
  obtain ⟨n, v', rest, ms', hvalue, hrest, heq⟩ := parse_firstMember hk h
  cases heq
  obtain _ | n := n
  · cases hvalue
  rw [value, skipWs_cons (by decide)] at hvalue
  obtain ⟨⟨t', s⟩, hbody, hp⟩ := Option.map_eq_some_iff.mp hvalue
  cases hp
  obtain ⟨e', he', hdenotes⟩ := strBody_denotes hbody
  exact ⟨e', _, he', hrest, hdenotes⟩

end Json
