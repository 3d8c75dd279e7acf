import Mathlib.Logic.Function.Basic
import Mathlib.Data.List.Basic

/-!
# Arrays as stacks and as rings

An array is a function on its indices. `stackOf` lists the entries below a top, bottom first, and
`ringOf` the `count` entries of a ring of size `n` from `tail` on, oldest first.
-/

open Function

variable {α : Type} {slots : Nat → α}

def stackOf (slots : Nat → α) (top : Nat) : List α := (List.range top).map slots

@[simp] theorem length_stackOf (slots : Nat → α) (top : Nat) :
    (stackOf slots top).length = top := by
  rw [stackOf, List.length_map, List.length_range]

theorem stackOf_succ (slots : Nat → α) (top : Nat) :
    stackOf slots (top + 1) = stackOf slots top ++ [slots top] := by
  rw [stackOf, List.range_succ, List.map_append]
  rfl

theorem stackOf_push (slots : Nat → α) (top : Nat) (a : α) :
    stackOf (update slots top a) (top + 1) = stackOf slots top ++ [a] := by
  have hbelow : stackOf (update slots top a) top = stackOf slots top := by
    refine List.map_congr_left fun i hi => update_of_ne ?_ ..
    exact Nat.ne_of_lt (List.mem_range.mp hi)
  rw [stackOf_succ, hbelow, update_self]

def ringOf (n : Nat) (slots : Nat → α) (tail count : Nat) : List α :=
  (List.range count).map fun i => slots ((tail + i) % n)

variable {n tail count : Nat}

@[simp] theorem length_ringOf : (ringOf n slots tail count).length = count := by
  rw [ringOf, List.length_map, List.length_range]

/-- Two entries of a window that is no longer than the ring are at different indices. -/
theorem ring_index_ne {i : Nat} (hi : i < count) (h : count < n) :
    (tail + i) % n ≠ (tail + count) % n := by
  intro heq
  have hdvd : n ∣ tail + count - (tail + i) :=
    Nat.dvd_of_mod_eq_zero (Nat.sub_mod_eq_zero_of_mod_eq heq.symm)
  have hle := Nat.le_of_dvd (by omega) hdvd
  omega

theorem ringOf_push (h : count < n) (a : α) :
    ringOf n (update slots ((tail + count) % n) a) tail (count + 1) =
      ringOf n slots tail count ++ [a] := by
  rw [ringOf, List.range_succ, List.map_append, List.map_singleton, update_self]
  congr 1
  exact List.map_congr_left fun i hi => update_of_ne (ring_index_ne (List.mem_range.mp hi) h) ..

theorem ringOf_pop (h : tail < n) : ringOf n slots tail (count + 1) =
    slots tail :: ringOf n slots ((tail + 1) % n) count := by
  rw [ringOf, List.range_succ_eq_map, List.map_cons, List.map_map, Nat.add_zero, Nat.mod_eq_of_lt h]
  congr 1
  refine List.map_congr_left fun i _ => ?_
  rw [comp_apply, Nat.mod_add_mod, Nat.succ_eq_add_one, Nat.add_assoc, Nat.add_comm 1 i]
