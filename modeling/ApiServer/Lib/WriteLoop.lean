import Mathlib.Data.List.Basic

/-!
# Loops around `write`

A loop offers what it has left to a descriptor, and goes on until nothing is left. Each call takes a
part of the offer or fails, and a call that was interrupted is made again. What the loop keeps about
its progress is its own: `Lawful` says that it amounts to a position in the offer. Then what went
out and what is left are the offer at all times.
-/

/-- What a call does: it takes at most so many elements, or it fails. -/
inductive WriteResult where
  | takes (n : Nat)
  | fails (interrupted : Bool)
  deriving DecidableEq

namespace WriteResult

/-- What the call returns. It takes no more than it is offered. -/
def ret (offered : Nat) : WriteResult → Int
  | .takes n => min n offered
  | .fails _ => -1

/-- `errno == EINTR`. -/
def interrupted : WriteResult → Bool
  | .takes _ => false
  | .fails interrupted => interrupted

def isPositive : WriteResult → Bool
  | .takes n => 0 < n
  | .fails _ => false

theorem ret_le {r : WriteResult} {offered : Nat} : (r.ret offered).toNat ≤ offered := by
  cases r with
  | takes n => simp only [ret]; omega
  | fails => simp [ret]

theorem eq_fails {r : WriteResult} {offered : Nat} (h : r.ret offered < 0 ∧ ¬r.interrupted) :
    r = .fails false := by
  cases r with
  | takes n => exact absurd h.1 (by simp only [ret]; omega)
  | fails interrupted => exact congrArg fails (Bool.eq_false_iff.mpr h.2)

theorem isPositive_eq_false {r : WriteResult} {offered : Nat} (hoffer : 0 < offered)
    (h : ¬0 < r.ret offered) : r.isPositive = false := by
  cases r with
  | takes n => simp only [ret, isPositive, decide_eq_false_iff_not] at h ⊢; omega
  | fails => rfl

end WriteResult

/-- A loop with a state of its own. -/
structure WriteLoop (σ β : Type*) where
  more : σ → Bool
  offered : σ → List β
  advance : σ → Nat → σ

namespace WriteLoop
variable {σ β : Type*}

/-- What the descriptor has got, the state of the loop, and whether the loop has been left. If not,
it is in a call. -/
structure Outcome (σ β : Type*) where
  out : List β
  state : σ
  returned : Bool

def run (L : WriteLoop σ β) (results : List WriteResult) (s : σ) : Outcome σ β :=
  if L.more s then
    match results with
    | [] => ⟨[], s, false⟩
    | r :: results =>
      let n := r.ret (L.offered s).length
      if 0 < n then
        let o := L.run results (L.advance s n.toNat)
        { o with out := (L.offered s).take n.toNat ++ o.out }
      else if n < 0 ∧ ¬r.interrupted then ⟨[], s, true⟩
      -- A call that took nothing is made again, too.
      else L.run results s
  else ⟨[], s, true⟩

/-- The state amounts to what is left of the offer. -/
structure Lawful (L : WriteLoop σ β) (inv : σ → Prop) : Prop where
  more_iff {s} : inv s → (L.more s ↔ L.offered s ≠ [])
  inv_advance {s n} : inv s → 0 < n → n ≤ (L.offered s).length → inv (L.advance s n)
  offered_advance {s n} : inv s → 0 < n → n ≤ (L.offered s).length →
    L.offered (L.advance s n) = (L.offered s).drop n

variable {L : WriteLoop σ β} {s : σ} {results : List WriteResult} {r : WriteResult}

variable {inv : σ → Prop} (H : L.Lawful inv)
include H

theorem Lawful.offered_eq_nil (hs : inv s) (h : ¬L.more s) : L.offered s = [] :=
  not_not.mp (mt (H.more_iff hs).mpr h)

/-- Nothing is lost, repeated or moved. -/
theorem Lawful.out_append_offered (hs : inv s) :
    (L.run results s).out ++ L.offered (L.run results s).state = L.offered s := by
  fun_induction L.run results s with
  | case1 | case3 | case5 => exact List.nil_append _
  | case2 s hmore r results n hn o ih =>
    have hpos : 0 < n.toNat := by omega
    rw [List.append_assoc, ih (H.inv_advance hs hpos r.ret_le), H.offered_advance hs hpos r.ret_le,
      List.take_append_drop]
  | case4 s hmore r results n hn hr ih => exact ih hs

/-- Without a failure the loop is left when nothing is left to offer, and not before. -/
theorem Lawful.returned_iff (hs : inv s) (hok : .fails false ∉ results) :
    (L.run results s).returned ↔ L.offered (L.run results s).state = [] := by
  fun_induction L.run results s with
  | case1 s hmore => exact iff_of_false nofun ((H.more_iff hs).mp hmore)
  | case2 s hmore r results n hn o ih =>
    exact ih (H.inv_advance hs (by omega) r.ret_le) (List.not_mem_of_not_mem_cons hok)
  | case3 s hmore r results n hn hr =>
    exact absurd (WriteResult.eq_fails hr ▸ List.mem_cons_self) hok
  | case4 s hmore r results n hn hr ih => exact ih hs (List.not_mem_of_not_mem_cons hok)
  | case5 results s hmore => exact iff_of_true rfl (H.offered_eq_nil hs hmore)

/-- Each call that takes something brings the end nearer. -/
theorem Lawful.returned_of_length_le (hs : inv s) (hok : .fails false ∉ results)
    (hlen : (L.offered s).length ≤ results.countP (·.isPositive)) :
    (L.run results s).returned := by
  fun_induction L.run results s with
  | case1 s hmore =>
    exact absurd (List.length_eq_zero_iff.mp (Nat.le_zero.mp hlen)) ((H.more_iff hs).mp hmore)
  | case2 s hmore r results n hn o ih =>
    have hpos : 0 < n.toNat := by omega
    refine ih (H.inv_advance hs hpos r.ret_le) (List.not_mem_of_not_mem_cons hok) ?_
    rw [H.offered_advance hs hpos r.ret_le, List.length_drop]
    rw [List.countP_cons] at hlen
    split at hlen <;> omega
  | case3 => rfl
  | case4 s hmore r results n hn hr ih =>
    have hoffer : 0 < (L.offered s).length := List.length_pos_iff.mpr ((H.more_iff hs).mp hmore)
    refine ih hs (List.not_mem_of_not_mem_cons hok) ?_
    rwa [List.countP_cons_of_neg] at hlen
    rw [WriteResult.isPositive_eq_false hoffer hn]
    exact Bool.false_ne_true
  | case5 => rfl

/-- What went out is the start of the offer. Without a failure the loop is left when that is all of
it, and as many calls that take something as there are elements bring it there. -/
theorem Lawful.intact (hs : inv s) (results : List WriteResult) :
    (L.run results s).out <+: L.offered s ∧
      (.fails false ∉ results →
        ((L.run results s).returned ↔ (L.run results s).out = L.offered s) ∧
        ((L.offered s).length ≤ results.countP (·.isPositive) → (L.run results s).returned)) := by
  have hsplit : (L.run results s).out ++ L.offered (L.run results s).state = L.offered s :=
    H.out_append_offered hs
  refine ⟨⟨_, hsplit⟩, fun hok => ⟨?_, H.returned_of_length_le hs hok⟩⟩
  rw [H.returned_iff hs hok, ← hsplit, List.self_eq_append_right]

end WriteLoop
