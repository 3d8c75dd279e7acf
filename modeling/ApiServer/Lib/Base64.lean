import ApiServer.Lib.Bytes

/-!
# Base64 in the standard alphabet, with padding
-/

namespace Base64

def alphabet : Bytes :=
  bytes "ABCDEFGHIJKLMNOPQRSTUVWXYZabcdefghijklmnopqrstuvwxyz0123456789+/"

def valOf (c : UInt8) : Option Nat := alphabet.findIdx? (· == c)

/-- Decoding takes groups of four characters. The last one may be padded, and bits left over there
are zero. -/
def decode : Bytes → Option Bytes
  | [] => some []
  | [w, x, 61, 61] => do
    let w ← valOf w
    let x ← valOf x
    if x % 16 = 0 then some [.ofNat (w * 4 + x / 16)] else none
  | [w, x, y, 61] => do
    let w ← valOf w
    let x ← valOf x
    let y ← valOf y
    if y % 4 = 0 then some [.ofNat (w * 4 + x / 16), .ofNat (x % 16 * 16 + y / 4)] else none
  | w :: x :: y :: z :: s => do
    let w ← valOf w
    let x ← valOf x
    let y ← valOf y
    let z ← valOf z
    let t ← decode s
    some (.ofNat (w * 4 + x / 16) :: .ofNat (x % 16 * 16 + y / 4) :: .ofNat (y % 4 * 64 + z) :: t)
  | _ => none

/-- Three bytes come of a group at the most. -/
theorem length_decode {s b : Bytes} (h : decode s = some b) : b.length ≤ s.length / 4 * 3 := by
  fun_induction decode s generalizing b with
  | case1 =>
    cases h
    exact Nat.le_refl 0
  | case2 w x =>
    simp only [Option.bind_eq_bind, Option.bind_eq_some_iff, Option.ite_none_right_eq_some] at h
    obtain ⟨_, _, _, _, _, h⟩ := h
    cases h
    simp
  | case3 w x y =>
    simp only [Option.bind_eq_bind, Option.bind_eq_some_iff, Option.ite_none_right_eq_some] at h
    obtain ⟨_, _, _, _, _, _, _, h⟩ := h
    cases h
    simp
  | case4 w x y z s _ _ ih =>
    simp only [Option.bind_eq_bind, Option.bind_eq_some_iff] at h
    obtain ⟨_, _, _, _, _, _, _, _, t, ht, h⟩ := h
    cases h
    have := ih ht
    simp only [List.length_cons]
    omega
  | case5 => exact nomatch h

example : decode (bytes "TWFuTWE=") = some (bytes "ManMa") := by decide

end Base64
