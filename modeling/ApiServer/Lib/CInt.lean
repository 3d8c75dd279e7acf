import Mathlib.Algebra.Ring.Int.Defs
import Mathlib.Algebra.Ring.Nat
import Mathlib.Data.Int.Init

/-!
# Machine integers

Values are integers; the operations that leave the range of a C type say how.
-/

/-- Saturation to the range of a signed integer of `w` bits. -/
def saturate (w : Nat) (n : Int) : Int := max (-2 ^ (w - 1)) (min n (2 ^ (w - 1) - 1))

/-- The conversion of an `int64_t` to `int`. -/
def cInt (n : Int) : Int := n.bmod (2 ^ 32)

/-- The conversion of a signed integer to `size_t`. -/
def toSize (n : Int) : Nat := (n % 2 ^ 64).toNat

/-- The `int` range. -/
def FitsInt (n : Int) : Prop := -2 ^ 31 ≤ n ∧ n < 2 ^ 31

/-- The `int64_t` range. -/
def FitsInt64 (n : Int) : Prop := -2 ^ 63 ≤ n ∧ n < 2 ^ 63

instance : Decidable (FitsInt n) := inferInstanceAs (Decidable (_ ∧ _))

instance : Decidable (FitsInt64 n) := inferInstanceAs (Decidable (_ ∧ _))

theorem saturate_eq_self {w : Nat} {n : Int} (h1 : -2 ^ (w - 1) ≤ n) (h2 : n < 2 ^ (w - 1)) :
    saturate w n = n := by
  unfold saturate; omega

theorem FitsInt.int64 {n : Int} (H : FitsInt n) : FitsInt64 n := by
  obtain ⟨h1, h2⟩ := H
  unfold FitsInt64
  omega

theorem FitsInt.saturate {n : Int} (H : FitsInt n) : saturate 32 n = n :=
  saturate_eq_self H.1 H.2

theorem FitsInt64.saturate {n : Int} (H : FitsInt64 n) : saturate 64 n = n :=
  saturate_eq_self H.1 H.2

theorem cInt_fits (n : Int) : FitsInt (cInt n) := by
  have h1 := Int.le_bmod (x := n) (m := 2 ^ 32) (by decide)
  have h2 := Int.bmod_lt (x := n) (m := 2 ^ 32) (by decide)
  unfold FitsInt cInt
  omega

theorem FitsInt.cInt {n : Int} (H : FitsInt n) : cInt n = n := by
  obtain ⟨h1, h2⟩ := H
  exact Int.bmod_eq_of_le (by omega) (by omega)

/-- The conversion does not enlarge a size. -/
theorem cInt_le (n : Nat) : cInt n ≤ n := by
  unfold cInt
  rw [Int.bmod_def]
  split <;> omega

theorem FitsInt64.toSize_of_nonneg {n : Int} (H : FitsInt64 n) (hn : 0 ≤ n) :
    toSize n = n.toNat := by
  have := H.2
  rw [toSize, Int.emod_eq_of_lt hn (by omega)]

/-- A negative number becomes a size beyond any buffer. -/
theorem FitsInt64.le_toSize_of_neg {n : Int} (H : FitsInt64 n) (hn : n < 0) :
    2 ^ 63 ≤ toSize n := by
  have := H.1
  rw [toSize]
  omega
