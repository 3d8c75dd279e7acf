import ApiServer.Lib.Bytes
import Mathlib.Order.Monotone.Basic

/-!
# Calendar dates

A `Date` is a day of the Gregorian calendar. Its number counts the days from the beginning of year
zero, so dates are ordered by their numbers, and by the bytes of their ISO 8601 texts.
-/

namespace Calendar
open Bytes

def IsLeap (year : Nat) : Prop := year % 4 = 0 ∧ (year % 100 ≠ 0 ∨ year % 400 = 0)

instance : Decidable (IsLeap year) := inferInstanceAs (Decidable (_ ∧ _))

def monthLength (year : Nat) : Nat → Nat
  | 1 | 3 | 5 | 7 | 8 | 10 | 12 => 31
  | 4 | 6 | 9 | 11 => 30
  | 2 => if IsLeap year then 29 else 28
  | _ => 0

theorem monthLength_le (year month : Nat) : monthLength year month ≤ 31 := by
  unfold monthLength
  split
  all_goals first | omega | (split <;> omega)

def yearLength (year : Nat) : Nat := if IsLeap year then 366 else 365

@[ext]
structure Date where
  year : Nat
  month : Nat
  day : Nat
  month_mem : 1 ≤ month ∧ month ≤ 12
  day_mem : 1 ≤ day ∧ day ≤ monthLength year month

/-! ## Day numbers -/

def daysBeforeYear : Nat → Nat
  | 0 => 0
  | year + 1 => daysBeforeYear year + yearLength year

def daysBeforeMonth (year : Nat) : Nat → Nat
  | 0 => 0
  | month + 1 => daysBeforeMonth year month + monthLength year month

theorem daysBeforeYear_mono : Monotone daysBeforeYear :=
  monotone_nat_of_le_succ fun _ => Nat.le_add_right ..

theorem daysBeforeMonth_mono (year : Nat) : Monotone (daysBeforeMonth year) :=
  monotone_nat_of_le_succ fun _ => Nat.le_add_right ..

theorem daysBeforeMonth_last (year : Nat) : daysBeforeMonth year 13 = yearLength year := by
  unfold yearLength
  by_cases h : IsLeap year <;> simp [daysBeforeMonth, monthLength, h]

namespace Date
variable {a b : Date}

def dayNumber (d : Date) : Nat := daysBeforeYear d.year + daysBeforeMonth d.year d.month + d.day

/-- Earlier by year, month and day. -/
def Earlier (a b : Date) : Prop :=
  a.year < b.year ∨ a.year = b.year ∧ (a.month < b.month ∨ a.month = b.month ∧ a.day < b.day)

/-- The day lies in front of the next month. -/
theorem day_le (d : Date) :
    daysBeforeMonth d.year d.month + d.day ≤ daysBeforeMonth d.year (d.month + 1) :=
  Nat.add_le_add_left d.day_mem.2 _

theorem dayNumber_lt (h : Earlier a b) : a.dayNumber < b.dayNumber := by
  have ha := a.day_le
  have hb := b.day_mem.1
  unfold dayNumber
  obtain hyear | ⟨hyear, hmonth | ⟨hmonth, hday⟩⟩ := h
  · have hlast := daysBeforeMonth_mono a.year (show a.month + 1 ≤ 13 by have := a.month_mem.2; omega)
    have hnext := daysBeforeYear_mono (show a.year + 1 ≤ b.year from hyear)
    rw [daysBeforeMonth_last] at hlast
    rw [daysBeforeYear] at hnext
    omega
  · have hnext := daysBeforeMonth_mono a.year (show a.month + 1 ≤ b.month from hmonth)
    rw [← hyear]
    omega
  · rw [← hyear, ← hmonth]
    omega

theorem earlier_or_eq_or_earlier (a b : Date) : Earlier a b ∨ a = b ∨ Earlier b a := by
  unfold Earlier
  rw [Date.ext_iff]
  omega

theorem dayNumber_lt_iff : a.dayNumber < b.dayNumber ↔ Earlier a b := by
  refine ⟨fun h => ?_, dayNumber_lt⟩
  obtain hab | rfl | hba := earlier_or_eq_or_earlier a b
  · exact hab
  · exact absurd h (Nat.lt_irrefl _)
  · exact absurd (dayNumber_lt hba) (by omega)

end Date

/-! ## Texts -/

/-- The last `width` decimal digits of a number. -/
def paddedText : Nat → Nat → Bytes
  | 0, _ => []
  | width + 1, n => .ofNat (48 + n / 10 ^ width % 10) :: paddedText width n

/-- The form `YYYY-MM-DD`. -/
def Date.text (d : Date) : Bytes :=
  paddedText 4 d.year ++ 45 :: (paddedText 2 d.month ++ 45 :: paddedText 2 d.day)

theorem digit_inj {m n : Nat} : UInt8.ofNat (48 + m % 10) = .ofNat (48 + n % 10) ↔
    m % 10 = n % 10 := by
  rw [← UInt8.toNat_inj, digit_toNat (Nat.mod_lt _ (by decide)), digit_toNat (Nat.mod_lt _ (by decide))]
  omega

theorem isDigit_of_mem_paddedText {width n : Nat} {c : UInt8} (h : c ∈ paddedText width n) :
    isDigit c = true := by
  induction width with
  | zero => cases h
  | succ width ih =>
    obtain rfl | h := List.mem_cons.mp h
    · exact isDigit_digit (Nat.mod_lt _ (by decide))
    · exact ih h

theorem foldl_paddedText (width n acc : Nat) :
    (paddedText width n).foldl (fun n c => n * 10 + (c.toNat - 48)) acc =
      acc * 10 ^ width + n % 10 ^ width := by
  induction width generalizing acc with
  | zero => simp [paddedText, Nat.mod_one]
  | succ width ih =>
    rw [paddedText, List.foldl_cons, ih, digit_toNat (Nat.mod_lt _ (by decide)), Nat.pow_succ,
      Nat.mod_mul, Nat.add_sub_cancel_left, Nat.add_mul, Nat.mul_assoc, Nat.mul_comm 10,
      Nat.mul_comm (n / 10 ^ width % 10)]
    omega

theorem digitsVal_paddedText (width n : Nat) : digitsVal (paddedText width n) = n % 10 ^ width := by
  rw [digitsVal, foldl_paddedText]
  omega

theorem strcmp_cons_lt {a b : UInt8} {s t : Bytes} :
    strcmp (a :: s) (b :: t) < 0 ↔ a.toNat < b.toNat ∨ a = b ∧ strcmp s t < 0 := by
  rw [strcmp]
  split
  · next h => simp [h]
  · next h =>
    rw [or_iff_left fun e => h e.1]
    omega

theorem strcmp_cons_self (c : UInt8) (s t : Bytes) : strcmp (c :: s) (c :: t) = strcmp s t :=
  if_pos rfl

/-- Padded numbers compare as numbers. -/
theorem strcmp_paddedText {width m n : Nat} {s t : Bytes} :
    strcmp (paddedText width m ++ s) (paddedText width n ++ t) < 0 ↔
      m % 10 ^ width < n % 10 ^ width ∨ m % 10 ^ width = n % 10 ^ width ∧ strcmp s t < 0 := by
  induction width with
  | zero => simp [paddedText, Nat.mod_one]
  | succ width ih =>
    rw [paddedText, paddedText, List.cons_append, List.cons_append, strcmp_cons_lt, ih, digit_inj,
      digit_toNat (Nat.mod_lt _ (by decide)), digit_toNat (Nat.mod_lt _ (by decide)), Nat.pow_succ,
      Nat.mod_mul, Nat.mod_mul]
    -- a greater leading digit weighs more than all that follows
    have hm := Nat.mod_lt m (Nat.pow_pos (n := width) (show 0 < 10 by decide))
    have hn := Nat.mod_lt n (Nat.pow_pos (n := width) (show 0 < 10 by decide))
    generalize 10 ^ width = w at *
    generalize m / w % 10 = x
    generalize n / w % 10 = y
    have hweight : ∀ {x y : Nat}, x < y → w * x + w ≤ w * y := by
      intro x y h
      rw [← Nat.mul_succ]
      exact Nat.mul_le_mul_left w h
    obtain h | rfl | h := Nat.lt_trichotomy x y
    · have := hweight h
      omega
    · omega
    · have := hweight h
      omega

/-- The order of the texts is the order of the days. -/
theorem Date.strcmp_text {a b : Date} (ha : a.year < 10000) (hb : b.year < 10000) :
    strcmp a.text b.text < 0 ↔ a.dayNumber < b.dayNumber := by
  have hmod : ∀ d : Date, d.month % 10 ^ 2 = d.month ∧ d.day % 10 ^ 2 = d.day := by
    intro d
    have hmonth := d.month_mem.2
    have hday := monthLength_le d.year d.month
    have := d.day_mem.2
    omega
  have hyear : ∀ {y : Nat}, y < 10000 → y % 10 ^ 4 = y := by
    intro y hy
    exact Nat.mod_eq_of_lt (by omega)
  have hnil : ∀ m n, strcmp (paddedText 2 m) (paddedText 2 n) < 0 ↔ m % 10 ^ 2 < n % 10 ^ 2 := by
    intro m n
    have h := @strcmp_paddedText 2 m n [] []
    simpa [strcmp] using h
  rw [Date.text, Date.text, strcmp_paddedText, strcmp_cons_self, strcmp_paddedText, strcmp_cons_self,
    hnil, Date.dayNumber_lt_iff, Earlier, (hmod a).1, (hmod a).2, (hmod b).1, (hmod b).2,
    hyear ha, hyear hb]

theorem strtol_digit {c : UInt8} (hc : isDigit c = true) (s : Bytes) :
    strtol (c :: s) = saturate 64 (digitsVal ((c :: s).takeWhile isDigit)) := by
  have hdigit : ∀ c : UInt8, isDigit c = true → isSpace c = false ∧ c ≠ 45 ∧ c ≠ 43 :=
    forall_byte (by decide +kernel)
  obtain ⟨hspace, hminus, hplus⟩ := hdigit c hc
  unfold strtol
  simp only [List.dropWhile_cons, hspace, Bool.false_eq_true, if_false]
  split
  · next h => cases h; exact absurd rfl hminus
  · next h => cases h; exact absurd rfl hplus
  · rfl

/-- A number in front of something that is no digit. -/
theorem strtol_paddedText {width n : Nat} {c : UInt8} (hc : isDigit c = false) (s : Bytes) :
    strtol (paddedText (width + 1) n ++ c :: s) = saturate 64 (n % 10 ^ (width + 1) : Nat) := by
  have htake : (paddedText (width + 1) n ++ c :: s).takeWhile isDigit = paddedText (width + 1) n := by
    rw [List.takeWhile_append_of_pos fun _ => isDigit_of_mem_paddedText, List.takeWhile_cons]
    simp [hc]
  rw [← digitsVal_paddedText]
  nth_rewrite 2 [← htake]
  exact strtol_digit (isDigit_digit (Nat.mod_lt _ (by decide))) _

/-- The year at the head of a text. -/
theorem Date.strtol_text {d : Date} (h : d.year < 10000) : strtol d.text = d.year := by
  have hyear : d.year % 10 ^ (3 + 1) = d.year := Nat.mod_eq_of_lt (by omega)
  rw [Date.text, strtol_paddedText rfl, hyear]
  exact FitsInt64.saturate ⟨by omega, by omega⟩

end Calendar
