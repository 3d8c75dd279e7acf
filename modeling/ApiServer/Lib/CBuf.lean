import ApiServer.Lib.Bytes

/-!
# Character arrays that hold a C string

A `char` array of `n` bytes is seen through the C string it starts with. The bytes behind the
terminating NUL only matter where a whole array is compared; there the array was zeroed first.
-/

open Bytes

@[ext]
structure CBuf (n : Nat) where
  text : Bytes
  noNul : 0 ∉ text
  fits : text.length ≤ n - 1
  deriving DecidableEq

namespace CBuf
variable {n : Nat} {b c : CBuf n} {s : Bytes}

/-- `buf[0] = '\0'`. -/
def empty : CBuf n := ⟨[], List.not_mem_nil, Nat.zero_le _⟩

/-- `strlcpy(buf, s, n)`. -/
def strlcpy (n : Nat) (s : Bytes) : CBuf n where
  text := (cstr s).take (n - 1)
  noNul h := zero_notMem_cstr s (List.mem_of_mem_take h)
  fits := List.length_take_le ..

/-- A C string as a nullable pointer: null when it is empty. -/
def get (b : CBuf n) : Option Bytes := if b.text = [] then none else some b.text

/-- All the bytes of an array that was zeroed before the string was written. -/
def zeroFilled (b : CBuf n) : Bytes := b.text ++ List.replicate (n - b.text.length) 0

@[simp] theorem strlcpy_text : (strlcpy n s).text = (cstr s).take (n - 1) := rfl

theorem get_eq_none : b.get = none ↔ b.text = [] := by
  simp [get]

theorem get_eq_some : b.get = some s ↔ b.text ≠ [] ∧ b.text = s := by
  rw [get]
  split <;> simp [*]

theorem strlcpy_of_lt (h : (cstr s).length < n) : (strlcpy n s).text = cstr s :=
  List.take_of_length_le (by omega)

theorem cstr_text (b : CBuf n) : cstr b.text = b.text := cstr_eq_self b.noNul

theorem strlcpy_self (b : CBuf n) : strlcpy n b.text = b := by
  ext1
  rw [strlcpy_text, cstr_text]
  exact List.take_of_length_le b.fits

theorem cstr_zeroFilled (b : CBuf n) : cstr b.zeroFilled = b.text := by
  rw [zeroFilled, cstr_append b.noNul]
  cases n - b.text.length <;> simp [cstr, List.replicate_succ]

/-- Comparing the whole arrays compares the strings. -/
theorem zeroFilled_inj (h : b.zeroFilled = c.zeroFilled) : b = c := by
  ext1
  rw [← cstr_zeroFilled b, h, cstr_zeroFilled]

end CBuf
