import ApiServer.Lib.Bytes

/-!
# Base64 in the URL-safe alphabet, without padding
-/

namespace Base64Url

def alphabet : Bytes :=
  bytes "ABCDEFGHIJKLMNOPQRSTUVWXYZabcdefghijklmnopqrstuvwxyz0123456789-_"

def charOf (n : Nat) : UInt8 := alphabet.getD n 0

def valOf (c : UInt8) : Option Nat := alphabet.findIdx? (· == c)

def encode : Bytes → Bytes
  | a :: b :: c :: s =>
    charOf (a.toNat / 4) :: charOf (a.toNat % 4 * 16 + b.toNat / 16) ::
      charOf (b.toNat % 16 * 4 + c.toNat / 64) :: charOf (c.toNat % 64) :: encode s
  | [a, b] => [charOf (a.toNat / 4), charOf (a.toNat % 4 * 16 + b.toNat / 16),
      charOf (b.toNat % 16 * 4)]
  | [a] => [charOf (a.toNat / 4), charOf (a.toNat % 4 * 16)]
  | [] => []

/-- Decoding refuses a character outside the alphabet, a last group of one character, and bits
left over that are not zero. -/
def decode : Bytes → Option Bytes
  | w :: x :: y :: z :: s => do
    let w ← valOf w
    let x ← valOf x
    let y ← valOf y
    let z ← valOf z
    let t ← decode s
    some (.ofNat (w * 4 + x / 16) :: .ofNat (x % 16 * 16 + y / 4) :: .ofNat (y % 4 * 64 + z) :: t)
  | [w, x, y] => do
    let w ← valOf w
    let x ← valOf x
    let y ← valOf y
    if y % 4 = 0 then some [.ofNat (w * 4 + x / 16), .ofNat (x % 16 * 16 + y / 4)] else none
  | [w, x] => do
    let w ← valOf w
    let x ← valOf x
    if x % 16 = 0 then some [.ofNat (w * 4 + x / 16)] else none
  | [_] => none
  | [] => some []

theorem valOf_charOf {n : Nat} (h : n < 64) : valOf (charOf n) = some n := by
  revert n
  unfold valOf charOf alphabet
  rw [bytes_ofList]
  decide +kernel

theorem charOf_mem {n : Nat} (h : n < 64) : charOf n ∈ alphabet := by
  revert n
  unfold charOf alphabet
  rw [bytes_ofList]
  decide +kernel

theorem ofNat_toNat_eq {a : UInt8} {n : Nat} (h : n = a.toNat) : UInt8.ofNat n = a := by
  rw [h, UInt8.ofNat_toNat]

theorem decode_encode (s : Bytes) : decode (encode s) = some s := by
  fun_induction encode s with
  | case1 a b c s ih =>
    have ha := a.toNat_lt; have hb := b.toNat_lt; have hc := c.toNat_lt
    simp only [decode, valOf_charOf (show a.toNat / 4 < 64 by omega),
      valOf_charOf (show a.toNat % 4 * 16 + b.toNat / 16 < 64 by omega),
      valOf_charOf (show b.toNat % 16 * 4 + c.toNat / 64 < 64 by omega),
      valOf_charOf (show c.toNat % 64 < 64 by omega), ih, Option.bind_eq_bind, Option.bind_some]
    rw [ofNat_toNat_eq (a := a) (by omega), ofNat_toNat_eq (a := b) (by omega),
      ofNat_toNat_eq (a := c) (by omega)]
  | case2 a b =>
    have ha := a.toNat_lt; have hb := b.toNat_lt
    simp only [decode, valOf_charOf (show a.toNat / 4 < 64 by omega),
      valOf_charOf (show a.toNat % 4 * 16 + b.toNat / 16 < 64 by omega),
      valOf_charOf (show b.toNat % 16 * 4 < 64 by omega), Option.bind_eq_bind, Option.bind_some]
    rw [if_pos (by omega), ofNat_toNat_eq (a := a) (by omega), ofNat_toNat_eq (a := b) (by omega)]
  | case3 a =>
    have ha := a.toNat_lt
    simp only [decode, valOf_charOf (show a.toNat / 4 < 64 by omega),
      valOf_charOf (show a.toNat % 4 * 16 < 64 by omega), Option.bind_eq_bind, Option.bind_some]
    rw [if_pos (by omega), ofNat_toNat_eq (a := a) (by omega)]
  | case4 => rfl

theorem mem_encode (s : Bytes) : ∀ c ∈ encode s, c ∈ alphabet := by
  fun_induction encode s with
  | case1 a b c s ih =>
    have ha := a.toNat_lt; have hb := b.toNat_lt; have hc := c.toNat_lt
    intro x hx
    simp only [List.mem_cons] at hx
    rcases hx with rfl | rfl | rfl | rfl | hx
    · exact charOf_mem (by omega)
    · exact charOf_mem (by omega)
    · exact charOf_mem (by omega)
    · exact charOf_mem (by omega)
    · exact ih x hx
  | case2 a b =>
    have ha := a.toNat_lt; have hb := b.toNat_lt
    intro x hx
    simp only [List.mem_cons, List.not_mem_nil, or_false] at hx
    rcases hx with rfl | rfl | rfl <;> exact charOf_mem (by omega)
  | case3 a =>
    have ha := a.toNat_lt
    intro x hx
    simp only [List.mem_cons, List.not_mem_nil, or_false] at hx
    rcases hx with rfl | rfl <;> exact charOf_mem (by omega)
  | case4 => intro x hx; cases hx

/-- The length of an encoding: four characters for each three bytes, one more than the bytes left
over. -/
def encodedLength (n : Nat) : Nat := n / 3 * 4 + if n % 3 = 0 then 0 else n % 3 + 1

theorem length_encode (s : Bytes) : (encode s).length = encodedLength s.length := by
  fun_induction encode s with
  | case1 a b c s ih =>
    have h3 : (s.length + 1 + 1 + 1) % 3 = s.length % 3 := by omega
    simp only [List.length_cons, encodedLength, ih, h3]
    omega
  | case2 | case3 | case4 => simp [encodedLength]

end Base64Url
