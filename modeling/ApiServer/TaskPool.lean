import ApiServer.Lib.Transition
import ApiServer.Lib.Placement
import Mathlib.Data.Fintype.BigOperators

/-!
# The task pool (`lib/task_pool.c`)

Threads take tasks of a slab of `N` from their own caches, which they refill from and flush to a
shared stack in batches. Each access to shared memory is one step: the section under
`g_pool_mutex`, a store to `g_is_free_flag`, the compare-and-exchange of `task_pool_free`. What a
thread does to its own cache belongs to the step before it.

The fields of a task that the pool itself does not look at are in `ApiServer.TaskSlot`.
-/

namespace ApiServer.TaskPool
open Function

def tlCacheSize : Nat := 64

/-- Where a thread is in the pool's code. -/
inductive Phase (N : Nat) where
  | idle
  /-- `task_pool_alloc` has taken the task and not yet cleared its flag. -/
  | taken (t : Fin N)
  /-- `task_pool_alloc` has cleared the flag and not yet returned. -/
  | cleared (t : Fin N)
  /-- `task_pool_free`, after the exchange. It was called by `task_pool_alloc` itself when
  `evbuffer_new` has failed. -/
  | freed (t : Fin N) (inAlloc : Bool)
  deriving DecidableEq

def Phase.task : Phase N → Option (Fin N)
  | .idle => none
  | .taken t | .cleared t | .freed t _ => some t

/-- The two calls of `abort`. -/
inductive Abort where
  | doubleFree | stackOverflow
  deriving DecidableEq

structure State (Thread : Type) (N : Nat) where
  /-- `g_free_stack` below `g_stack_top`, from the top. -/
  stack : List (Fin N)
  /-- `g_is_free_flag`. -/
  isFree : Fin N → Bool
  /-- `tl_cache` below `tl_cache_count`, from the last entry. -/
  cache : Thread → List (Fin N)
  /-- `worker_buf` is not null. -/
  workerBuf : Fin N → Bool
  phase : Thread → Phase N
  aborted : Option Abort
  /-- History: what `task_pool_alloc` has returned and nobody has freed since. -/
  leases : List (Fin N)
  /-- History: what a refill has put into a cache and `task_pool_alloc` has not taken from there. It
  may have gone back to the stack with a flush. -/
  refilled : Fin N → Bool

/-- The argument of `task_pool_free`. -/
inductive Ptr (N : Nat) where
  | null
  /-- Outside the slab. -/
  | foreign
  | slot (t : Fin N)
  deriving DecidableEq

inductive Event (Thread : Type) (N : Nat) where
  /-- Enter `task_pool_alloc` and take a task from the cache or, under the lock, from the stack. -/
  | alloc (τ : Thread)
  | clear (τ : Thread)
  /-- Reset the task, with the outcome of `evbuffer_new` where it is called. -/
  | ready (τ : Thread) (evbufferNew : Bool)
  /-- Call `task_pool_free`, up to the exchange. -/
  | free (τ : Thread) (p : Ptr N)
  /-- Put the freed task into the cache, after a flush where that is full. -/
  | stash (τ : Thread)

/-- What the caller sees of a step. -/
inductive Reply (N : Nat) where
  | none
  /-- `task_pool_alloc` returns. -/
  | allocated (t : Option (Fin N))
  /-- `task_pool_free` returns. -/
  | freed
  | abort
  deriving DecidableEq

section
variable {Thread : Type} [DecidableEq Thread] {N : Nat}

/-- `task_pool_init`. -/
def init (Thread : Type) (N : Nat) : State Thread N where
  stack := (List.finRange N).reverse
  isFree _ := true
  cache _ := []
  workerBuf _ := false
  phase _ := .idle
  aborted := none
  leases := []
  refilled _ := false

/-- One round of the refill loop. -/
def refillOne (s : State Thread N) (τ : Thread) (t : Fin N) (stack : List (Fin N)) :
    State Thread N :=
  { s with
    stack
    isFree := update s.isFree t false
    cache := update s.cache τ (t :: s.cache τ)
    refilled := update s.refilled t true }

def refill (τ : Thread) : Nat → State Thread N → State Thread N
  | 0, s => s
  | n + 1, s =>
    match s.stack with
    | [] => s
    | t :: stack => refill τ n (refillOne s τ t stack)

def take (s : State Thread N) (τ : Thread) : State Thread N × Reply N :=
  match s.cache τ with
  | [] => (s, .allocated none)
  | t :: cache =>
    ({ s with cache := update s.cache τ cache, phase := update s.phase τ (.taken t) }, .none)

/-- The first half of `task_pool_alloc`, up to the flag store. -/
def taskPoolAlloc (s : State Thread N) (τ : Thread) : State Thread N × Reply N :=
  if s.cache τ ≠ [] then take s τ
  else
    let batch := if s.stack.length < tlCacheSize then s.stack.length else tlCacheSize
    take (refill τ batch s) τ

/-- `task_pool_free` of a task of the slab, up to the exchange. -/
def taskPoolFree (s : State Thread N) (τ : Thread) (t : Fin N) (inAlloc : Bool) :
    State Thread N × Reply N :=
  if s.isFree t then ({ s with aborted := some .doubleFree }, .abort)
  else
    ({ s with
        isFree := update s.isFree t true
        phase := update s.phase τ (.freed t inAlloc)
        leases := s.leases.erase t }, .none)

/-- The rest of `task_pool_free`. -/
def stash (s : State Thread N) (τ : Thread) (t : Fin N) (inAlloc : Bool) :
    State Thread N × Reply N :=
  let reply := if inAlloc then Reply.allocated none else .freed
  if (s.cache τ).length < tlCacheSize then
    ({ s with
        cache := update s.cache τ (t :: s.cache τ)
        phase := update s.phase τ .idle }, reply)
  else if N < s.stack.length + (s.cache τ).length then
    ({ s with aborted := some .stackOverflow }, .abort)
  else
    ({ s with
        stack := s.cache τ ++ s.stack
        cache := update s.cache τ [t]
        phase := update s.phase τ .idle }, reply)

/-- The step of an event, if the thread is at that point of the code. -/
def exec (s : State Thread N) : Event Thread N → Option (State Thread N × Reply N)
  | .alloc τ => if s.phase τ = .idle then some (taskPoolAlloc s τ) else none
  | .clear τ =>
    match s.phase τ with
    | .taken t =>
      some ({ s with
        isFree := update s.isFree t false
        phase := update s.phase τ (.cleared t)
        refilled := update s.refilled t false }, .none)
    | _ => none
  | .ready τ evbufferNew =>
    match s.phase τ with
    | .cleared t =>
      if s.workerBuf t || evbufferNew then
        some ({ s with
          workerBuf := update s.workerBuf t true
          phase := update s.phase τ .idle
          leases := t :: s.leases }, .allocated (some t))
      else some (taskPoolFree s τ t true)
    | _ => none
  | .free τ p =>
    if s.phase τ = .idle then
      match p with
      | .null | .foreign => some (s, .freed)
      | .slot t => some (taskPoolFree s τ t false)
    else none
  | .stash τ =>
    match s.phase τ with
    | .freed t inAlloc => some (stash s τ t inAlloc)
    | _ => none

variable (Thread N) in
/-- The pool under any interleaving, until a call of `abort`. -/
def system : System (State Thread N) (Event Thread N) where
  init s := s = TaskPool.init Thread N
  step s e s' := s.aborted = none ∧ ∃ r, exec s e = some (s', r)

/-! ## Ownership -/

/-- Where a task is. A leased task is with its lessee or with a thread in the pool's code. -/
inductive Place (Thread : Type) where
  | stack
  | cache (τ : Thread)
  | call (τ : Thread)
  | lease

def InPlace (s : State Thread N) (i : Fin N) : Place Thread → Prop
  | .stack => i ∈ s.stack
  | .cache τ => i ∈ s.cache τ
  | .call τ => (s.phase τ).task = some i
  | .lease => i ∈ s.leases

/-- The flag is false, though nobody holds a lease: from the moment `task_pool_alloc` clears it,
which a refill does for a whole batch, until it returns the task. -/
def Exposed (s : State Thread N) (i : Fin N) : Prop :=
  s.refilled i = true ∨ ∃ τ, s.phase τ = .cleared i

/-- Each task is where `own` says and nowhere else. -/
structure Owned (s : State Thread N) (own : Fin N → Place Thread) : Prop where
  place : Placed (InPlace s) own
  stack_nodup : s.stack.Nodup
  cache_nodup : ∀ τ, (s.cache τ).Nodup
  leases_nodup : s.leases.Nodup
  cache_le : ∀ τ, (s.cache τ).length ≤ tlCacheSize
  flag : ∀ i, s.isFree i = false ↔ i ∈ s.leases ∨ Exposed s i
  refilled : ∀ i, s.refilled i = true → i ∈ s.stack ∨ ∃ τ, i ∈ s.cache τ ∨ s.phase τ = .taken i
  overflow : s.aborted ≠ some .stackOverflow

end

end ApiServer.TaskPool
