import ChatOnC.Common.Fifo
import Mathlib.Data.Int.Notation
import Mathlib.Logic.Function.Basic

/-!
# Chains of active objects (`task5_designPattren/activeobject.c`)

Model of `run`, `getQueue` and `stop` for a chain `A_0 → A_1 → … → A_k` of
active objects, `A_{i+1}` being the `next` of `A_i` and `A_k` having none. Every
object's thread executes `run`; a further thread enqueues tasks on the queue of
`A_0` from outside, and `stop` is called on every object by threads of its own.

The queues are `Fifo`s: `TaskQueue.simulation` shows that the linked queue of
`queue.c` behaves as one under any interleaving. A step of a thread is one
critical section of a queue, one call of `getQueue`, one step of the function of
the object, or one test of `run`.

The function of an object is given by what other threads can see of it: what it
enqueues on its own and on the next object's queue, and what it does to the
program's memory, in order (`Effect`). A task is a non-null `void *`; `none` is
`NULL`.
-/

namespace ChatOnC.ActiveObject

open ChatOnC.Common

/-- One step of the function of an object. `ε` are the accesses to the program's
    memory. -/
inductive Effect (τ ε : Type*)
  | enqueueOwn (p : Option τ)
  | enqueueNext (p : Option τ)
  | act (a : ε)
  deriving DecidableEq

/-- The objects `A_0, …, A_last` (`activeobject.h`, lines 13–20). The fields
    `queue` and `thread` are part of the state. -/
structure Chain (τ ε μ : Type*) where
  last : ℕ
  flag : ℕ → ℤ
  func : ℕ → τ → List (Effect τ ε)
  exec : ε → μ → μ

/-- Where the thread of an object stands in `run` (`activeobject.c`, lines
    5–20). -/
inductive Pc (τ ε : Type*)
  /-- before `dequeue(this->queue)` (line 9) -/
  | dequeue
  /-- before `this->func(temp)` (line 11) -/
  | func (temp : τ)
  /-- inside `this->func(temp)`, with these steps left -/
  | inFunc (temp : τ) (rest : List (Effect τ ε))
  /-- before the test of `flag` and `next` (line 12) -/
  | test (temp : τ)
  /-- behind the loop, before the test of `next` (line 17) -/
  | last
  /-- before `getQueue(this->next)` (lines 14 and 18) -/
  | getQueue (temp : Option τ)
  /-- before `enqueue` on the queue of `this->next` (lines 14 and 18) -/
  | enqueue (temp : Option τ)
  | returned
  deriving DecidableEq

/-- Where the call of `stop` on an object stands (lines 41–48). -/
inductive StopPc
  | notCalled
  | join
  | deleteQueue
  | free
  | done
  deriving DecidableEq

/-- `stop` has freed the queue, and then the object. -/
def StopPc.freed : StopPc → Bool
  | .free | .done => true
  | _ => false

/-- The accesses to an object that must not come after `stop` has freed it. -/
inductive Access
  | enqueue
  | dequeue
  | getQueue
  deriving DecidableEq

/-- `input` is what the outside has still to enqueue on the queue of `A_0`.
    `applied`, `forwarded` and `afterFree` are history: the tasks an object
    applied its function to, what its `run` enqueued on the next queue, and the
    accesses to objects that were already freed. -/
structure State (τ ε μ : Type*) where
  pc : ℕ → Pc τ ε
  queue : ℕ → Fifo (Option τ)
  stop : ℕ → StopPc
  mem : μ
  input : List (Option τ)
  applied : ℕ → List τ
  forwarded : ℕ → List (Option τ)
  afterFree : List (ℕ × Access)

/-- Who takes the next step. -/
inductive Actor
  | outside
  | thread (i : ℕ)
  | stop (i : ℕ)
  deriving DecidableEq

variable {τ ε μ : Type*}

namespace State

variable (s : State τ ε μ)

def setPc (i : ℕ) (pc : Pc τ ε) : State τ ε μ := { s with pc := Function.update s.pc i pc }

/-- Record an access to object `j` if it comes too late. -/
def access (j : ℕ) (a : Access) : State τ ε μ :=
  { s with afterFree := if (s.stop j).freed then s.afterFree ++ [(j, a)] else s.afterFree }

/-- `enqueue(queue of j, p)`. -/
def enqueueOn (j : ℕ) (p : Option τ) : State τ ε μ :=
  { s.access j .enqueue with queue := Function.update s.queue j ((s.queue j).enqueue p) }

end State

/-- One step of the function of object `i`. -/
def perform (c : Chain τ ε μ) (i : ℕ) (s : State τ ε μ) : Effect τ ε → State τ ε μ
  | .enqueueOwn p => s.enqueueOn i p
  | .enqueueNext p => s.enqueueOn (i + 1) p
  | .act a => { s with mem := c.exec a s.mem }

/-- The loop test `temp != NULL` (line 9). -/
def Pc.ofTemp : Option τ → Pc τ ε
  | some temp => .func temp
  | none => .last

/-- Line 9: `dequeue(this->queue)` and the loop test. Blocked while the queue is
    empty. -/
def dequeueStep (i : ℕ) (s : State τ ε μ) : Option (State τ ε μ) :=
  (s.queue i).dequeue.map fun (temp, queue) =>
    let s := { s.access i .dequeue with queue := Function.update s.queue i queue }
    s.setPc i (.ofTemp temp)

/-- A step of the thread of `A_i`, which executes `run`. -/
def threadStep (c : Chain τ ε μ) (i : ℕ) (s : State τ ε μ) : Option (State τ ε μ) :=
  match s.pc i with
  | .dequeue => dequeueStep i s
  | .func temp =>
    some { s.setPc i (.inFunc temp (c.func i temp)) with
      applied := Function.update s.applied i (s.applied i ++ [temp]) }
  | .inFunc temp [] => some (s.setPc i (.test temp))
  | .inFunc temp (e :: rest) => some ((perform c i s e).setPc i (.inFunc temp rest))
  | .test temp =>
    some (s.setPc i (if c.flag i ≠ 1 ∧ i < c.last then .getQueue (some temp) else .dequeue))
  | .last => some (s.setPc i (if i < c.last then .getQueue none else .returned))
  | .getQueue temp => some ((s.access (i + 1) .getQueue).setPc i (.enqueue temp))
  | .enqueue temp =>
    some { (s.enqueueOn (i + 1) temp).setPc i (if temp.isSome then .dequeue else .returned) with
      forwarded := Function.update s.forwarded i (s.forwarded i ++ [temp]) }
  | .returned => none

/-- A step of the call of `stop` on `A_i`: `pthread_join` blocks until `run` has
    returned. -/
def stopStep (i : ℕ) (s : State τ ε μ) : Option (State τ ε μ) :=
  match s.stop i, s.pc i with
  | .notCalled, _ => some { s with stop := Function.update s.stop i .join }
  | .join, .returned => some { s with stop := Function.update s.stop i .deleteQueue }
  | .join, _ => none
  | .deleteQueue, _ => some { s with stop := Function.update s.stop i .free }
  | .free, _ => some { s with stop := Function.update s.stop i .done }
  | .done, _ => none

/-- The outside enqueues its next task on the queue of `A_0`. -/
def outsideStep (s : State τ ε μ) : Option (State τ ε μ) :=
  match s.input with
  | [] => none
  | p :: rest => some { s.enqueueOn 0 p with input := rest }

/-- The chain with the threads started, the queues empty, and `input` to come. -/
def system (c : Chain τ ε μ) (input : List (Option τ)) (mem : μ) :
    System (State τ ε μ) Actor where
  init :=
    { pc := fun _ => .dequeue, queue := fun _ => .empty, stop := fun _ => .notCalled, mem := mem,
      input := input, applied := fun _ => [], forwarded := fun _ => [], afterFree := [] }
  step
    | .outside, s => outsideStep s
    | .thread i, s => if i ≤ c.last then threadStep c i s else none
    | .stop i, s => if i ≤ c.last then stopStep i s else none

end ChatOnC.ActiveObject
