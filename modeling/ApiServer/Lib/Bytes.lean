import ApiServer.Lib.CInt
import Mathlib.Data.List.TakeWhile
import Mathlib.Data.List.Basic

/-!
# Byte strings and the C string functions

A C string is the list of the bytes before its NUL. Buffers of a fixed size are modelled by the
string they hold after the call: `snprintf` and `strlcpy` keep the first `size - 1` bytes.
-/

abbrev Bytes := List UInt8

/-- The bytes of an ASCII literal. -/
def bytes (s : String) : Bytes := s.toList.map fun c => UInt8.ofNat c.toNat

/-- A literal is the list of its characters, which need not be found in its encoding again. -/
theorem bytes_ofList (l : List Char) :
    bytes (String.ofList l) = l.map fun c => UInt8.ofNat c.toNat := by
  rw [bytes, String.toList_ofList]

theorem bytes_append (s t : String) : bytes (s ++ t) = bytes s ++ bytes t := by
  rw [bytes, String.toList_append, List.map_append, bytes, bytes]

namespace Bytes

/-- The C string that starts a buffer. -/
def cstr (s : Bytes) : Bytes := s.takeWhile (· ≠ 0)

/-- What a buffer of `size` bytes holds after a formatted write of `text`. -/
def snprintf (size : Nat) (text : Bytes) : Bytes := text.take (size - 1)

/-- The position of the first `c`. -/
def strchr (s : Bytes) (c : UInt8) : Option Nat := s.findIdx? (· == c)

def toLower (c : UInt8) : UInt8 := if 65 ≤ c ∧ c ≤ 90 then c + 32 else c

/-- The position of the last `c`. -/
def strrchr (s : Bytes) (c : UInt8) : Option Nat :=
  (s.reverse.findIdx? (· == c)).map fun i => s.length - 1 - i

/-- `strcasecmp(s, t) == 0`. -/
def eqNoCase (s t : Bytes) : Bool := s.map toLower == t.map toLower

/-- `strncasecmp(s, lit, strlen(lit)) == 0`. -/
def startsWithNoCase (lit s : Bytes) : Bool := (s.take lit.length).map toLower == lit.map toLower

/-- `strstr(s, lit) != nullptr`. -/
def contains (lit s : Bytes) : Bool := s.tails.any (lit.isPrefixOf ·)

/-- The sign of `strcmp`. -/
def strcmp : Bytes → Bytes → Int
  | [], [] => 0
  | [], _ :: _ => -1
  | _ :: _, [] => 1
  | a :: s, b :: t => if a = b then strcmp s t else (a.toNat : Int) - b.toNat

def isSpace (c : UInt8) : Bool := c == 32 || (9 ≤ c && c ≤ 13)

def isDigit (c : UInt8) : Bool := 48 ≤ c && c ≤ 57

def isAlpha (c : UInt8) : Bool := (65 ≤ c && c ≤ 90) || (97 ≤ c && c ≤ 122)

/-- The number a run of digits denotes. -/
def digitsVal (ds : Bytes) : Nat := ds.foldl (fun n c => n * 10 + (c.toNat - 48)) 0

/-- `strtol(s, nullptr, 10)`: blanks, a sign, and as many digits as there are. -/
def strtol (s : Bytes) : Int :=
  let value (s : Bytes) : Int := digitsVal (s.takeWhile isDigit)
  match s.dropWhile isSpace with
  | 45 :: s => saturate 64 (-value s)
  | 43 :: s => saturate 64 (value s)
  | s => saturate 64 (value s)

/-- A fact about every byte from a check of 256 numbers. -/
theorem forall_byte {P : UInt8 → Prop} (h : ∀ n < 256, P (.ofNat n)) (c : UInt8) : P c := by
  have hc := h c.toNat c.toNat_lt
  rwa [UInt8.ofNat_toNat] at hc

theorem digit_toNat {d : Nat} (h : d < 10) : (UInt8.ofNat (48 + d)).toNat = 48 + d :=
  UInt8.toNat_ofNat_of_lt' (by change 48 + d < 256; omega)

theorem isDigit_digit {d : Nat} (h : d < 10) : isDigit (.ofNat (48 + d)) = true := by
  simp only [isDigit, UInt8.le_iff_toNat_le, digit_toNat h, Bool.and_eq_true, decide_eq_true_eq]
  exact ⟨by change 48 ≤ _; omega, by change _ ≤ 57; omega⟩

theorem cstr_eq_self {s : Bytes} (h : 0 ∉ s) : cstr s = s := by
  rw [cstr, List.takeWhile_eq_self_iff]
  intro c hc
  have : c ≠ 0 := fun e => h (e ▸ hc)
  simpa using this

theorem zero_notMem_cstr (s : Bytes) : 0 ∉ cstr s := by
  intro h
  simpa using List.mem_takeWhile_imp h

theorem cstr_append {s : Bytes} (h : 0 ∉ s) (t : Bytes) : cstr (s ++ t) = s ++ cstr t := by
  unfold cstr
  rw [List.takeWhile_append_of_pos]
  intro c hc
  have : c ≠ 0 := fun e => h (e ▸ hc)
  simpa using this

/-- A C string ends at its first zero. -/
theorem cstr_append_zero (s t : Bytes) : cstr (s ++ 0 :: t) = cstr s := by
  induction s with
  | nil => rfl
  | cons c s ih =>
    simp only [cstr, List.cons_append, List.takeWhile_cons] at ih ⊢
    rw [ih]

theorem snprintf_eq_self {size : Nat} {text : Bytes} (h : text.length < size) :
    snprintf size text = text := List.take_of_length_le (by omega)

/-- The scan stops at the first occurrence, and what it skips has none. -/
theorem strchr_eq_some {s : Bytes} {c : UInt8} {i : Nat} (h : strchr s c = some i) :
    s = s.take i ++ c :: s.drop (i + 1) ∧ c ∉ s.take i := by
  induction s generalizing i with
  | nil => simp [strchr] at h
  | cons a s ih =>
    rw [strchr, List.findIdx?_cons] at h
    by_cases ha : a = c
    · subst ha
      simp only [beq_self_eq_true, if_true, Option.some.injEq] at h
      subst h
      simp
    · simp only [beq_iff_eq, ha, if_false, Option.map_eq_some_iff] at h
      obtain ⟨j, hj, rfl⟩ := h
      obtain ⟨hs, hn⟩ := ih (i := j) hj
      refine ⟨by simpa using hs, ?_⟩
      simpa [Ne.symm ha] using hn

theorem strchr_eq_none {s : Bytes} {c : UInt8} : strchr s c = none ↔ c ∉ s := by
  rw [strchr, List.findIdx?_eq_none_iff]
  constructor
  · intro h hc
    simpa using h c hc
  · intro h x hx
    have : x ≠ c := fun e => h (e ▸ hx)
    simpa using this

theorem strchr_append {s : Bytes} {c : UInt8} (h : c ∉ s) (t : Bytes) :
    strchr (s ++ c :: t) c = some s.length := by
  induction s with
  | nil => simp [strchr, List.findIdx?_cons]
  | cons a s ih =>
    simp only [List.mem_cons, not_or] at h
    have ih := ih h.2
    rw [strchr] at ih ⊢
    simp [List.findIdx?_cons, ih, Ne.symm h.1]

theorem strrchr_eq_none {s : Bytes} {c : UInt8} : strrchr s c = none ↔ c ∉ s := by
  rw [← List.mem_reverse, ← @strchr_eq_none s.reverse]
  exact Option.map_eq_none_iff

/-- The scan from the end stops at the last occurrence. -/
theorem strrchr_append {t : Bytes} {c : UInt8} (h : c ∉ t) (s : Bytes) :
    strrchr (s ++ c :: t) c = some s.length := by
  have hreverse : (s ++ c :: t).reverse = t.reverse ++ c :: s.reverse := by simp
  have hscan : (s ++ c :: t).reverse.findIdx? (· == c) = some t.length := by
    rw [hreverse, ← List.length_reverse]
    exact strchr_append (mt List.mem_reverse.mp h) s.reverse
  rw [strrchr, hscan, Option.map_some, List.length_append, List.length_cons]
  congr 1
  omega

theorem exists_last {s : Bytes} {c : UInt8} (h : c ∈ s) : ∃ u t, s = u ++ c :: t ∧ c ∉ t := by
  obtain ⟨t, u, hs, ht⟩ := List.eq_append_cons_of_mem (List.mem_reverse.mpr h)
  refine ⟨u.reverse, t.reverse, ?_, mt List.mem_reverse.mp ht⟩
  rw [← List.reverse_reverse s, hs]
  simp

/-- There is one way to split a string at its last `c`. -/
theorem last_unique {u t u' t' : Bytes} {c : UInt8} (ht : c ∉ t) (ht' : c ∉ t')
    (h : u ++ c :: t = u' ++ c :: t') : u = u' ∧ t = t' := by
  have hlen : u.length = u'.length := by
    have := strrchr_append ht u
    rw [h, strrchr_append ht'] at this
    exact (Option.some.inj this).symm
  obtain ⟨hu, ht⟩ := List.append_inj h hlen
  exact ⟨hu, List.tail_eq_of_cons_eq ht⟩

end Bytes
