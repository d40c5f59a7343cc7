import ChatOnC.Common.System
import Mathlib.Data.Int.Notation
import Mathlib.Logic.Function.Basic

/-!
# The task queue of `task5_designPattren/queue.c`

Model of `createQueue`, `enqueue`, `dequeue` and `isEmpty` over an explicit
heap of nodes, and of any number of threads calling them on one queue.

The mutex makes each of the three operations one critical section, which is one
step here; the `malloc` of `enqueue` and the two writes that initialise the node
come before the lock and are a step of their own, so other threads run between
the two. `pthread_cond_wait` gives the mutex up until the queue is not empty:
the step of `dequeue` is enabled only then. The mutex and the condition
variable themselves carry no data and are left out of `Queue`.

Reading, writing or freeing through a null pointer or through a pointer to a
node that is not allocated is a `Fault`.
-/

namespace ChatOnC.TaskQueue

/-- Addresses of nodes. A pointer is an `Option Addr`; `none` is `NULL`. -/
abbrev Addr := ℕ

/-- `Node` (`queue.h`, lines 9–13). A `void *` task is an `Option τ`. -/
structure Node (τ : Type*) where
  next : Option Addr
  task : Option τ

/-- `Queue` (`queue.h`, lines 15–21). -/
structure Queue where
  head : Option Addr
  tail : Option Addr

/-- The heap: `none` is an address `malloc` may return. -/
abbrev Heap (τ : Type*) := Addr → Option (Node τ)

/-- Undefined memory accesses. -/
inductive Fault
  | null
  | dead
  deriving DecidableEq

variable {τ : Type*}

/-- `*p`. -/
def load (heap : Heap τ) : Option Addr → Except Fault (Node τ)
  | none => .error .null
  | some a =>
    match heap a with
    | none => .error .dead
    | some node => .ok node

/-- `*p = node`. -/
def store (heap : Heap τ) (p : Option Addr) (node : Node τ) : Except Fault (Heap τ) :=
  match p with
  | none => .error .null
  | some a =>
    match heap a with
    | none => .error .dead
    | some _ => .ok (Function.update heap a (some node))

/-- `free(p)`; `free(NULL)` does nothing. -/
def free (heap : Heap τ) : Option Addr → Except Fault (Heap τ)
  | none => .ok heap
  | some a =>
    match heap a with
    | none => .error .dead
    | some _ => .ok (Function.update heap a none)

/-- `createQueue` (lines 5–30). -/
def createQueue : Queue := { head := none, tail := none }

/-- Lines 56–62 of `enqueue`, when `malloc` returns `a`. -/
def newNode (heap : Heap τ) (a : Addr) (task : Option τ) : Heap τ :=
  Function.update heap a (some { next := none, task := task })

/-- The critical section of `enqueue` (lines 64–78). -/
def enqueue (queue : Queue) (heap : Heap τ) (node : Addr) : Except Fault (Queue × Heap τ) :=
  match queue.head with
  | none => .ok ({ head := some node, tail := some node }, heap)
  | some _ => do
    let last ← load heap queue.tail
    let heap ← store heap queue.tail { last with next := some node }
    .ok ({ queue with tail := some node }, heap)

/-- The critical section of `dequeue` after its wait loop (lines 96–105). The
    queue of the system below exists, so the guard of lines 83–87 is not
    taken. -/
def dequeue (queue : Queue) (heap : Heap τ) : Except Fault (Option τ × Queue × Heap τ) := do
  let node ← load heap queue.head
  let memory := node.task
  let head := node.next
  let tail := if head.isNone then none else queue.tail
  let heap ← free heap queue.head
  .ok (memory, { head := head, tail := tail }, heap)

/-- `isEmpty` (lines 109–120). -/
def isEmpty : Option Queue → ℤ
  | none => 1
  | some queue => if queue.head.isNone then 1 else 0

/-! ## Threads -/

/-- A queue shared by the threads `Tid`. `linking t` holds the local variables
    `node` and `task` of a thread between the `malloc` and the critical section
    of its `enqueue`. `enqueued` and `dequeued` are history: the tasks in the
    order of the critical sections. -/
structure State (Tid τ : Type*) where
  queue : Queue
  heap : Heap τ
  linking : Tid → Option (Addr × Option τ)
  enqueued : List (Option τ)
  dequeued : List (Option τ)
  fault : Option Fault

/-- The steps of the threads; `malloc t a task` starts `enqueue(queue, task)`
    with `malloc` returning `a`. -/
inductive Act (Tid τ : Type*)
  | malloc (t : Tid) (a : Addr) (task : Option τ)
  | enqueue (t : Tid)
  | dequeue (t : Tid)
  | isEmpty (t : Tid)

variable {Tid : Type*} [DecidableEq Tid]

/-- `malloc` returns an address that is not allocated. -/
def mallocStep (s : State Tid τ) (t : Tid) (a : Addr) (task : Option τ) : Option (State Tid τ) :=
  if (s.linking t).isNone ∧ (s.heap a).isNone then
    some { s with
      heap := newNode s.heap a task
      linking := Function.update s.linking t (some (a, task)) }
  else none

def enqueueStep (s : State Tid τ) (t : Tid) : Option (State Tid τ) :=
  match s.linking t with
  | none => none
  | some (node, task) =>
    match enqueue s.queue s.heap node with
    | .error e => some { s with fault := some e }
    | .ok (queue, heap) =>
      some { s with
        queue := queue
        heap := heap
        linking := Function.update s.linking t none
        enqueued := s.enqueued ++ [task] }

/-- Blocked in `pthread_cond_wait` while `head` is null (lines 91–94). -/
def dequeueStep (s : State Tid τ) (t : Tid) : Option (State Tid τ) :=
  if (s.linking t).isNone ∧ s.queue.head.isSome then
    match dequeue s.queue s.heap with
    | .error e => some { s with fault := some e }
    | .ok (memory, queue, heap) =>
      some { s with queue := queue, heap := heap, dequeued := s.dequeued ++ [memory] }
  else none

/-- Any number of producers and consumers on one queue, from `createQueue`'s
    state. -/
def system (Tid τ : Type*) [DecidableEq Tid] : Common.System (State Tid τ) (Act Tid τ) where
  init :=
    { queue := createQueue, heap := fun _ => none, linking := fun _ => none,
      enqueued := [], dequeued := [], fault := none }
  step
    | .malloc t a task, s => mallocStep s t a task
    | .enqueue t, s => enqueueStep s t
    | .dequeue t, s => dequeueStep s t
    | .isEmpty t, s => if (s.linking t).isNone then some s else none

end ChatOnC.TaskQueue
