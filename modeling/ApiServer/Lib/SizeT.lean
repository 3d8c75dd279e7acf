import Mathlib.Algebra.Ring.Nat

/-!
# Checked sizes

A size is a 64-bit word. The checked operations say whether the value they store has wrapped; when
it has not, it is the value in the natural numbers.
-/

/-- `SIZE_MAX`. -/
def sizeMax : UInt64 := 18446744073709551615

/-- `ckd_add`: the value stored, and whether it has wrapped. -/
def ckdAdd (a b : UInt64) : UInt64 × Bool := (a + b, 2 ^ 64 ≤ a.toNat + b.toNat)

/-- `ckd_mul`. -/
def ckdMul (a b : UInt64) : UInt64 × Bool := (a * b, 2 ^ 64 ≤ a.toNat * b.toNat)

variable {a b : UInt64}

@[simp] theorem ckdAdd_wrapped : (ckdAdd a b).2 ↔ 2 ^ 64 ≤ a.toNat + b.toNat := decide_eq_true_iff

@[simp] theorem ckdMul_wrapped : (ckdMul a b).2 ↔ 2 ^ 64 ≤ a.toNat * b.toNat := decide_eq_true_iff

theorem toNat_add (h : a.toNat + b.toNat < 2 ^ 64) : (a + b).toNat = a.toNat + b.toNat :=
  (UInt64.toNat_add ..).trans (Nat.mod_eq_of_lt h)

theorem toNat_mul (h : a.toNat * b.toNat < 2 ^ 64) : (a * b).toNat = a.toNat * b.toNat :=
  (UInt64.toNat_mul ..).trans (Nat.mod_eq_of_lt h)

/-- The test of a product by a division. -/
theorem sizeMax_div_lt_iff : b ≠ 0 ∧ sizeMax / b < a ↔ 2 ^ 64 ≤ a.toNat * b.toNat := by
  have hzero : b ≠ 0 ↔ b.toNat ≠ 0 := not_congr UInt64.toNat_inj.symm
  have hmax : sizeMax.toNat = 2 ^ 64 - 1 := rfl
  rw [UInt64.lt_iff_toNat_lt, UInt64.toNat_div, hzero, hmax]
  constructor
  · rintro ⟨hb, h⟩
    have := (Nat.div_lt_iff_lt_mul (Nat.pos_of_ne_zero hb)).mp h
    omega
  · intro h
    have hb : b.toNat ≠ 0 := fun hb => by simp [hb] at h
    exact ⟨hb, (Nat.div_lt_iff_lt_mul (Nat.pos_of_ne_zero hb)).mpr (by omega)⟩
