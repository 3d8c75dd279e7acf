import ApiServer.Lib.Json

/-!
# Valid UTF-8

A text is valid when it is the encoding of a sequence of Unicode scalar values. Each of them has
exactly one byte that does not continue a sequence.
-/

namespace Utf8
open Json

/-- A code point that is no surrogate. -/
def IsScalar (u : Nat) : Prop := u < 0xD800 ∨ (0xE000 ≤ u ∧ u < 0x110000)

def encode (us : List Nat) : Bytes := us.flatMap utf8

def Valid (s : Bytes) : Prop := ∃ us : List Nat, (∀ u ∈ us, IsScalar u) ∧ s = encode us

/-- A byte that continues a sequence. -/
def isContinuation (c : UInt8) : Bool := c &&& 0xC0 == 0x80

theorem isContinuation_tail : ∀ k < 64, isContinuation (.ofNat (0x80 + k)) = true := by
  decide +kernel

theorem isContinuation_lead : ∀ c < 256, 0xC0 ≤ c → isContinuation (.ofNat c) = false := by
  decide +kernel

theorem isContinuation_ascii : ∀ c < 0x80, isContinuation (.ofNat c) = false := by
  decide +kernel

/-- A code point is one ASCII byte, or a leading byte with one to three that continue it. -/
theorem utf8_cases {u : Nat} (h : IsScalar u) :
    (u < 0x80 ∧ utf8 u = [.ofNat u]) ∨
      ∃ (lead : Nat) (tail : List Nat), utf8 u = .ofNat lead :: tail.map (fun k => .ofNat (0x80 + k)) ∧
        0xC0 ≤ lead ∧ lead < 256 ∧ tail.length ≤ 3 ∧ ∀ k ∈ tail, k < 64 := by
  have htop : u < 0x110000 := by
    unfold IsScalar at h
    omega
  unfold utf8
  split
  · exact .inl ⟨‹_›, rfl⟩
  right
  split
  · exact ⟨0xC0 + u / 64, [u % 64], rfl, by omega, by omega, by simp, by simp; omega⟩
  split
  · exact ⟨0xE0 + u / 4096, [u / 64 % 64, u % 64], rfl, by omega, by omega, by simp, by simp; omega⟩
  · exact ⟨0xF0 + u / 262144, [u / 4096 % 64, u / 64 % 64, u % 64], rfl, by omega, by omega, by simp,
      by simp; omega⟩

theorem countP_utf8 {u : Nat} (h : IsScalar u) :
    (utf8 u).countP (fun c => !isContinuation c) = 1 := by
  obtain ⟨hlt, heq⟩ | ⟨lead, tail, heq, hlead, htop, -, htail⟩ := utf8_cases h
  · simp [heq, isContinuation_ascii u hlt]
  · have hrest :
        (tail.map fun k => UInt8.ofNat (0x80 + k)).countP (fun c => !isContinuation c) = 0 := by
      rw [List.countP_eq_zero]
      intro c hc
      obtain ⟨k, hk, rfl⟩ := List.mem_map.mp hc
      rw [isContinuation_tail k (htail k hk)]
      exact Bool.false_ne_true
    rw [heq, List.countP_cons, hrest, isContinuation_lead lead htop hlead]
    rfl

/-- Counting the bytes that do not continue a sequence counts the code points. -/
theorem countP_encode {us : List Nat} (h : ∀ u ∈ us, IsScalar u) :
    (encode us).countP (fun c => !isContinuation c) = us.length := by
  induction us with
  | nil => rfl
  | cons u us ih =>
    have hhead := countP_utf8 (h u (List.mem_cons_self ..))
    have htail := ih fun u hu => h u (List.mem_cons_of_mem _ hu)
    rw [encode, List.flatMap_cons, List.countP_append, hhead]
    rw [encode] at htail
    rw [htail, List.length_cons, Nat.add_comm]

theorem length_encode_le {us : List Nat} (h : ∀ u ∈ us, IsScalar u) :
    (encode us).length ≤ 4 * us.length := by
  induction us with
  | nil => exact Nat.zero_le _
  | cons u us ih =>
    have htail := ih fun u hu => h u (List.mem_cons_of_mem _ hu)
    have hhead : (utf8 u).length ≤ 4 := by
      obtain ⟨-, heq⟩ | ⟨lead, tail, heq, -, -, hlen, -⟩ := utf8_cases (h u (List.mem_cons_self ..))
      · simp [heq]
      · rw [heq, List.length_cons, List.length_map]
        omega
    rw [encode] at htail
    rw [encode, List.flatMap_cons, List.length_append, List.length_cons]
    omega

end Utf8
