import ApiServer.Lib.JsonNumber
import ApiServer.Lib.Split
import Mathlib.Data.List.Induction
import Mathlib.Data.Rat.Floor
import Mathlib.Tactic.Linarith
import Mathlib.Tactic.FieldSimp

/-!
# The value of a number text

`numberVal` reads a JSON number as a rational. Texts without an exponent are assembled by
`decimalText` from a sign, an integer and the digits behind the point; zeros at the end of those
digits do not count.
-/

namespace Json
open Bytes

/-- The digits behind the point as a number below one. -/
def fracVal (fs : Bytes) : Rat := digitsVal fs / 10 ^ fs.length

def fracDigits (t : Bytes) : Bytes :=
  match expect 46 t with
  | some u => u.takeWhile isDigit
  | none => []

def expVal (t : Bytes) : Int :=
  match expMark t with
  | some u =>
    let n : Int := digitsVal ((expSign u).takeWhile isDigit)
    if (expect 45 u).isSome then -n else n
  | none => 0

/-- The rational that a number text denotes. -/
def numberVal (s : Bytes) : Rat :=
  let (neg, t) := numberSign s
  let rest := t.dropWhile isDigit
  let val := (digitsVal (t.takeWhile isDigit) + fracVal (fracDigits rest)) *
    10 ^ expVal ((fracRest rest).getD [])
  if neg then -val else val

/-- A point and digits, if there are any. -/
def pointed (fs : Bytes) : Bytes := if fs = [] then [] else 46 :: fs

def decimalText (neg : Bool) (n : Nat) (fs : Bytes) : Bytes :=
  (if neg then [45] else []) ++ natText n ++ pointed fs

/-- Digits without the zeros at their end. -/
def stripZeros (fs : Bytes) : Bytes := fs.rdropWhile (· == 48)

variable {fs : Bytes}

/-! ## Zeros at the end -/

theorem stripZeros_concat (fs : Bytes) (c : UInt8) :
    stripZeros (fs ++ [c]) = if c = 48 then stripZeros fs else fs ++ [c] := by
  simp only [stripZeros, List.rdropWhile_concat, beq_iff_eq]

theorem stripZeros_cons {c : UInt8} (hc : c ≠ 48) (fs : Bytes) :
    stripZeros (c :: fs) = c :: stripZeros fs :=
  List.rdropWhile_cons_neg (beq_eq_false_iff_ne.mpr hc)

theorem stripZeros_prefix (fs : Bytes) : stripZeros fs <+: fs :=
  List.rdropWhile_prefix _ fs

theorem getLast?_stripZeros (fs : Bytes) : (stripZeros fs).getLast? ≠ some 48 := by
  intro h
  have hne : stripZeros fs ≠ [] := by
    intro hnil
    rw [hnil] at h
    exact nomatch h
  have hlast := List.rdropWhile_last_not _ fs hne
  rw [List.getLast?_eq_getLast_of_ne_nil hne, Option.some.injEq] at h
  exact hlast (beq_iff_eq.mpr h)

theorem digitsVal_concat (fs : Bytes) (c : UInt8) :
    digitsVal (fs ++ [c]) = digitsVal fs * 10 + (c.toNat - 48) := by
  rw [digitsVal, List.foldl_append]
  rfl

theorem fracVal_stripZeros (fs : Bytes) : fracVal (stripZeros fs) = fracVal fs := by
  induction fs using List.reverseRecOn with
  | nil => rfl
  | append_singleton fs c ih =>
    rw [stripZeros_concat]
    split
    · rename_i hc
      have hzero : digitsVal (fs ++ [48]) = digitsVal fs * 10 := digitsVal_concat fs 48
      have hpow : (10 : Rat) ^ fs.length ≠ 0 := pow_ne_zero _ (by norm_num)
      rw [ih, fracVal, fracVal, hc, hzero, List.length_append, List.length_singleton, pow_succ,
        Nat.cast_mul, Nat.cast_ofNat]
      field_simp
    · rfl

/-! ## Reading a text -/

theorem numberSign_decimalText (neg : Bool) (n : Nat) (fs : Bytes) :
    numberSign (decimalText neg n fs) = (neg, natText n ++ pointed fs) := by
  obtain ⟨hdigit, hne, -⟩ := natText_spec n
  unfold decimalText numberSign
  cases neg with
  | true => rfl
  | false =>
    obtain ⟨c, t, ht⟩ := List.exists_cons_of_ne_nil hne
    have hc : c ≠ 45 := by
      rintro rfl
      have := hdigit 45 (by rw [ht]; exact List.mem_cons_self ..)
      exact absurd this (by decide)
    simp [ht, expect, hc]

theorem digits_pointed (n : Nat) (fs : Bytes) :
    (natText n ++ pointed fs).takeWhile isDigit = natText n ∧
      (natText n ++ pointed fs).dropWhile isDigit = pointed fs := by
  have hdigit := (natText_spec n).1
  have hhead : (pointed fs).takeWhile isDigit = [] ∧ (pointed fs).dropWhile isDigit = pointed fs := by
    unfold pointed
    split
    · exact ⟨rfl, rfl⟩
    · exact ⟨rfl, rfl⟩
  rw [List.takeWhile_append_of_pos hdigit, List.dropWhile_append_of_pos hdigit, hhead.1, hhead.2,
    List.append_nil]
  exact ⟨rfl, rfl⟩

theorem fracRest_pointed (hfs : ∀ c ∈ fs, isDigit c = true) :
    fracRest (pointed fs) = some [] ∧ fracDigits (pointed fs) = fs := by
  unfold pointed
  split
  · rename_i hnil
    rw [hnil]
    exact ⟨rfl, rfl⟩
  · rename_i hne
    have htake : fs.takeWhile isDigit = fs := List.takeWhile_eq_self_iff.mpr hfs
    have hdrop : fs.dropWhile isDigit = [] := List.dropWhile_eq_nil_iff.mpr hfs
    constructor
    · simp [fracRest, expect, htake, hdrop, hne]
    · simp [fracDigits, expect, htake]

theorem number_decimalText (neg : Bool) (n : Nat) (hfs : ∀ c ∈ fs, isDigit c = true) :
    ∃ v, number (decimalText neg n fs) = some (v, []) := by
  obtain ⟨-, hne, -, hhead, hone⟩ := natText_spec n
  have hint : ¬(natText n = [] ∨ 1 < (natText n).length ∧ (natText n).head? = some 48) := by
    rintro (h | ⟨hlong, h48⟩)
    · exact hne h
    · exact hhead (hone hlong) h48
  rw [number_eq, numberSign_decimalText]
  dsimp only
  rw [(digits_pointed n fs).1, (digits_pointed n fs).2, if_neg hint, (fracRest_pointed hfs).1]
  simp only [Option.bind_some, show expRest [] = some [] from rfl]
  split <;> exact ⟨_, rfl⟩

theorem numberVal_decimalText (neg : Bool) (n : Nat) (hfs : ∀ c ∈ fs, isDigit c = true) :
    numberVal (decimalText neg n fs) = if neg then -(n + fracVal fs) else n + fracVal fs := by
  obtain ⟨-, -, hval, -⟩ := natText_spec n
  rw [numberVal, numberSign_decimalText]
  dsimp only
  rw [(digits_pointed n fs).1, (digits_pointed n fs).2, (fracRest_pointed hfs).1,
    (fracRest_pointed hfs).2, hval, Option.getD_some, show expVal [] = 0 from rfl, zpow_zero, mul_one]

end Json
