import ApiServer.Lib.Bytes

/-!
# Writing into a buffer

A buffer is seen through a pointer to its first byte: the byte at each index, and every index
written so far. Indices are integers, so that a write in front of the buffer shows. `Wrote m i bs
m'` says all there is about the writes that lead from `m` to `m'`: the bytes from `i` on are `bs`,
nothing else changed, and nothing else was touched. Writes next to each other are one write, in
whichever order they come.
-/

structure Mem where
  byte : Int → UInt8
  touched : List Int := []

namespace Mem

/-- `buf[i] = b`. -/
def store (m : Mem) (i : Int) (b : UInt8) : Mem where
  byte k := if k = i then b else m.byte k
  touched := i :: m.touched

/-- `memcpy(buf + i, bs, len)`. -/
def storeAll (m : Mem) (i : Int) : Bytes → Mem
  | [] => m
  | b :: bs => (m.store i b).storeAll (i + 1) bs

/-- The `n` bytes from `i` on. -/
def load (m : Mem) (i : Int) : Nat → Bytes
  | 0 => []
  | n + 1 => m.byte i :: m.load (i + 1) n

@[simp] theorem length_load (m : Mem) (i : Int) (n : Nat) : (m.load i n).length = n := by
  induction n generalizing i with
  | zero => rfl
  | succ n ih => rw [load, List.length_cons, ih]

theorem load_append (m : Mem) (i : Int) (n k : Nat) :
    m.load i (n + k) = m.load i n ++ m.load (i + n) k := by
  induction n generalizing i with
  | zero => simp [load]
  | succ n ih =>
    rw [Nat.succ_add, load, ih, load, List.cons_append]
    congr 3
    push_cast
    omega

theorem load_congr {m m' : Mem} {i : Int} {n : Nat}
    (h : ∀ k, i ≤ k → k < i + n → m'.byte k = m.byte k) : m'.load i n = m.load i n := by
  induction n generalizing i with
  | zero => rfl
  | succ n ih =>
    rw [load, load, h i (Int.le_refl i) (by omega), ih fun k h1 h2 => h k (by omega) (by omega)]

/-- From `m` to `m'`, the bytes `bs` were written at `i`, and no more. -/
structure Wrote (m : Mem) (i : Int) (bs : Bytes) (m' : Mem) : Prop where
  load_eq : m'.load i bs.length = bs
  frame : ∀ k, k < i ∨ i + bs.length ≤ k → m'.byte k = m.byte k
  touched : ∀ k, k ∈ m'.touched ↔ k ∈ m.touched ∨ i ≤ k ∧ k < i + bs.length

variable {m m' m'' : Mem} {i j : Int} {s t : Bytes} {b : UInt8}

theorem wrote_nil : Wrote m i [] m := by
  refine ⟨rfl, fun _ _ => rfl, fun k => ?_⟩
  simp only [List.length_nil]
  grind

theorem wrote_store : Wrote m i [b] (m.store i b) where
  load_eq := by simp [load, store]
  frame k hk := if_neg (by simp only [List.length_singleton] at hk; omega)
  touched k := by
    simp only [store, List.mem_cons, List.length_singleton]
    grind

/-- What is written behind the bytes that were just written. -/
theorem Wrote.then (h : Wrote m i s m') (h' : Wrote m' j t m'') (hj : j = i + s.length) :
    Wrote m i (s ++ t) m'' := by
  subst hj
  refine ⟨?_, fun k hk => ?_, fun k => ?_⟩
  · rw [List.length_append, load_append, h'.load_eq,
      load_congr fun k _ hk => h'.frame k (.inl hk), h.load_eq]
  · rw [List.length_append] at hk
    rw [h'.frame k (by omega), h.frame k (by omega)]
  · rw [h'.touched, h.touched, List.length_append]
    grind

/-- What is written in front of the bytes that were just written. -/
theorem Wrote.before (h : Wrote m j t m') (h' : Wrote m' i s m'') (hj : j = i + s.length) :
    Wrote m i (s ++ t) m'' := by
  subst hj
  refine ⟨?_, fun k hk => ?_, fun k => ?_⟩
  · rw [List.length_append, load_append, h'.load_eq,
      load_congr fun k hk _ => h'.frame k (.inr hk), h.load_eq]
  · rw [List.length_append] at hk
    rw [h'.frame k (by omega), h.frame k (by omega)]
  · rw [h'.touched, h.touched, List.length_append]
    grind

theorem wrote_storeAll : Wrote m i s (m.storeAll i s) := by
  induction s generalizing m i with
  | nil => exact wrote_nil
  | cons b s ih => exact wrote_store.then ih rfl

/-- What is written behind the bytes that are there. -/
theorem Wrote.load_behind (h : Wrote m (i + s.length) t m') (hs : m.load i s.length = s) :
    m'.load i (s ++ t).length = s ++ t := by
  rw [List.length_append, load_append, h.load_eq, load_congr fun k _ hk => h.frame k (.inl hk), hs]

theorem byte_of_load (m : Mem) (i : Int) {n k : Nat} (hk : k < n) :
    (m.load i n)[k]? = some (m.byte (i + k)) := by
  induction n generalizing i k with
  | zero => omega
  | succ n ih =>
    cases k with
    | zero => simp [load]
    | succ k =>
      rw [load, List.getElem?_cons_succ, ih (i + 1) (by omega)]
      congr 2
      push_cast
      omega

theorem take_load {n k : Nat} (h : k ≤ n) : (m.load i n).take k = m.load i k := by
  obtain ⟨d, rfl⟩ := Nat.exists_eq_add_of_le h
  rw [load_append, List.take_left' (length_load ..)]

theorem drop_load {n k : Nat} (h : k ≤ n) : (m.load i n).drop k = m.load (i + k) (n - k) := by
  obtain ⟨d, rfl⟩ := Nat.exists_eq_add_of_le h
  rw [load_append, List.drop_left' (length_load ..), Nat.add_sub_cancel_left]

/-- The bytes written and those that were there before determine the rest. -/
theorem Wrote.unique (h : Wrote m i s m') (h' : Wrote m i s m'') : m'.byte = m''.byte := by
  funext k
  by_cases hk : k < i ∨ i + s.length ≤ k
  · rw [h.frame k hk, h'.frame k hk]
  · obtain ⟨d, rfl⟩ : ∃ d : Nat, k = i + d := ⟨(k - i).toNat, by omega⟩
    have hload := h.load_eq.trans h'.load_eq.symm
    have hbyte := congrArg (·[d]?) hload
    simp only [byte_of_load _ i (show d < s.length by omega), Option.some.injEq] at hbyte
    exact hbyte

theorem load_of_prefix {n : Nat} (h : m.load i n = t) (hs : s <+: t) : m.load i s.length = s := by
  obtain ⟨u, rfl⟩ := hs
  have hlen := congrArg List.length h
  rw [length_load, List.length_append] at hlen
  rw [hlen, load_append] at h
  exact (List.append_inj h (length_load ..)).1

end Mem
