import Mathlib.Logic.Function.Basic
import Mathlib.Data.List.Nodup

/-!
# Intrusive singly linked queues

Nodes of a type `T` carry one `next` pointer each, which every queue shares. A queue is the pair of
its end pointers. `IsQueue` says which list of nodes the pointers represent; pushing, popping and
detaching on the pointers are the operations on that list.
-/

open Function

structure Links (T : Type) where
  head : Option T := none
  tail : Option T := none

variable {T : Type} {next next' : T → Option T} {h : Option T} {l : List T} {t : T}

/-- Following `next` from `h` visits the nodes of the list and ends with a null pointer. -/
def Chain (next : T → Option T) : Option T → List T → Prop
  | h, [] => h = none
  | h, t :: l => h = some t ∧ Chain next (next t) l

namespace Chain

theorem frame (H : Chain next h l) (heq : ∀ t ∈ l, next' t = next t) : Chain next' h l := by
  induction l generalizing h with
  | nil => exact H
  | cons t l ih =>
    obtain ⟨ht, hl⟩ := H
    refine ⟨ht, ?_⟩
    rw [heq t (.head l)]
    exact ih hl fun u hu => heq u (.tail t hu)

theorem eq_nil (H : Chain next none l) : l = [] := by
  cases l with
  | nil => rfl
  | cons t l => cases H.1

theorem eq_cons (H : Chain next (some t) l) : ∃ l', l = t :: l' ∧ Chain next (next t) l' := by
  cases l with
  | nil => cases H
  | cons u l =>
    cases H.1
    exact ⟨l, rfl, H.2⟩

theorem head_eq_none (H : Chain next h l) : h = none ↔ l = [] := by
  cases l with
  | nil => exact iff_of_true H rfl
  | cons t l => exact iff_of_false (fun e => by cases H.1.symm.trans e) nofun

/-- Linking a node behind the last one. -/
theorem snoc [DecidableEq T] {last : T} (H : Chain next h (l ++ [last])) (hl : last ∉ l)
    (ht : t ∉ l) (hne : t ≠ last) (hnext : next t = none) :
    Chain (update next last (some t)) h (l ++ [last] ++ [t]) := by
  induction l generalizing h with
  | nil =>
    refine ⟨H.1, ?_⟩
    rw [update_self]
    refine ⟨rfl, ?_⟩
    rw [update_of_ne hne]
    exact hnext
  | cons u l ih =>
    rw [List.mem_cons, not_or] at hl ht
    refine ⟨H.1, ?_⟩
    rw [update_of_ne (Ne.symm hl.1)]
    exact ih H.2 hl.2 ht.2

end Chain

namespace Links
variable {q : Links T}

structure IsQueue (next : T → Option T) (q : Links T) (l : List T) : Prop where
  chain : Chain next q.head l
  tail : q.tail = l.getLast?

/-- Append a node whose `next` is null. -/
def push [DecidableEq T] (next : T → Option T) (q : Links T) (t : T) : (T → Option T) × Links T :=
  match q.tail with
  | none => (next, { head := some t, tail := some t })
  | some last => (update next last (some t), { q with tail := some t })

/-- Take off the first node. -/
def pop (next : T → Option T) (q : Links T) (t : T) : Links T :=
  { head := next t, tail := if next t = none then none else q.tail }

namespace IsQueue

theorem empty (next : T → Option T) : IsQueue next {} [] := ⟨rfl, rfl⟩

theorem frame (H : IsQueue next q l) (heq : ∀ t ∈ l, next' t = next t) : IsQueue next' q l :=
  ⟨H.chain.frame heq, H.tail⟩

theorem head_eq_none (H : IsQueue next q l) : q.head = none ↔ l = [] := H.chain.head_eq_none

theorem tail_eq_none (H : IsQueue next q l) : q.tail = none ↔ l = [] := by
  rw [H.tail, List.getLast?_eq_none_iff]

theorem push [DecidableEq T] (H : IsQueue next q l) (hnd : l.Nodup) (ht : t ∉ l)
    (hnext : next t = none) : IsQueue (push next q t).1 (push next q t).2 (l ++ [t]) := by
  unfold Links.push
  split
  · rename_i htail
    rw [H.tail_eq_none.mp htail]
    exact ⟨⟨rfl, hnext⟩, rfl⟩
  · rename_i last htail
    rw [H.tail, List.getLast?_eq_some_iff] at htail
    obtain ⟨l, rfl⟩ := htail
    have hlast : last ∉ l := fun hm => (List.nodup_append.mp hnd).2.2 last hm last (.head _) rfl
    rw [List.mem_append, not_or] at ht
    refine ⟨H.chain.snoc hlast ht.1 (fun e => ht.2 (e ▸ .head _)) hnext, ?_⟩
    rw [List.getLast?_concat]

/-- The push writes to no node but the last of the queue. -/
theorem push_next [DecidableEq T] (H : IsQueue next q l) {u : T} (hu : u ∉ l) :
    (Links.push next q t).1 u = next u := by
  unfold Links.push
  split
  · rfl
  · rename_i last htail
    rw [H.tail] at htail
    have hlast := List.mem_of_getLast? htail
    have hne : u ≠ last := fun e => hu (e ▸ hlast)
    exact update_of_ne hne ..

theorem pop (H : IsQueue next q (t :: l)) : IsQueue next (pop next q t) l := by
  refine ⟨H.chain.2, ?_⟩
  show (if next t = none then none else q.tail) = _
  split
  · rename_i hnone
    rw [H.chain.2.head_eq_none.mp hnone]
    rfl
  · rename_i hsome
    have hl : l ≠ [] := fun e => hsome (H.chain.2.head_eq_none.mpr e)
    rw [H.tail, List.getLast?_cons, List.getLast?_eq_some_getLast hl]
    rfl

end IsQueue

end Links
