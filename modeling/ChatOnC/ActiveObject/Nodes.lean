import ChatOnC.ActiveObject.Model
import ChatOnC.TaskQueue.Delete
import ChatOnC.TaskQueue.Shared

/-!
# Chains of active objects on linked queues

The chain of `ChatOnC.ActiveObject.Model` with its queues as `queue.c` has them: lists of
nodes in one heap. `enqueue` is two steps, the `malloc` of the node and the critical section;
`dequeue` frees the node it takes; `stop` runs the loop of `deleteQueue` over what is left in
the queue, one round a step. That `deleteQueue` holds the mutex meanwhile is left out, which
only adds runs.

The queue of an object lives until `deleteQueue` frees it, the object until `stop` frees it.
An access after that, or through a pointer that is null or points to a freed node, is a
`Fault`.
-/

namespace ChatOnC.ActiveObject

open ChatOnC.Common
open ChatOnC.TaskQueue (Addr Fault Shared deleteRound)

/-- As `State`, with the nodes of the queues. `current i` is the variable of the loop of
    `deleteQueue` in `stop` on object `i`, `none` before the loop. `enqueued` and `dequeued`
    are history: the tasks in the order of the critical sections. -/
structure NodeState (τ ε μ : Type*) where
  pc : ℕ → Pc τ ε
  nodes : Shared Actor τ
  stop : ℕ → StopPc
  current : ℕ → Option (Option Addr)
  mem : μ
  input : List (Option τ)
  enqueued : ℕ → List (Option τ)
  dequeued : ℕ → List (Option τ)
  fault : Option Fault

/-- The steps: `malloc who a` is the `malloc` of the `enqueue` in front of which `who` stands,
    returning `a`. -/
inductive NodeAct
  | malloc (who : Actor) (a : Addr)
  | step (who : Actor)

variable {τ ε μ : Type*}

/-- The queue on which the thread of `A_i` at `pc` is about to enqueue, and the task. -/
def Pc.call (i : ℕ) : Pc τ ε → Option (ℕ × Option τ)
  | .inFunc _ (.enqueueOwn p :: _) => some (i, p)
  | .inFunc _ (.enqueueNext p :: _) => some (i + 1, p)
  | .enqueue p => some (i + 1, p)
  | _ => none

namespace NodeState

variable (s : NodeState τ ε μ)

def setPc (i : ℕ) (pc : Pc τ ε) : NodeState τ ε μ := { s with pc := Function.update s.pc i pc }

def setStop (i : ℕ) (pc : StopPc) : NodeState τ ε μ :=
  { s with stop := Function.update s.stop i pc }

def fail (e : Fault) : NodeState τ ε μ := { s with fault := some e }

/-- The call of `enqueue` in front of which `who` stands. -/
def call (c : Chain τ ε μ) : Actor → Option (ℕ × Option τ)
  | .outside => s.input.head?.map fun p => (0, p)
  | .thread i => if i ≤ c.last then (s.pc i).call i else none
  | .stop _ => none

/-- Lines 56–62 of `enqueue`. -/
def mallocStep (c : Chain τ ε μ) (who : Actor) (a : Addr) : Option (NodeState τ ε μ) :=
  match s.call c who with
  | none => none
  | some (_, task) => (s.nodes.malloc who a task).map fun nodes => { s with nodes := nodes }

/-- The critical section of `enqueue` on the queue of `A_j`, with the node `who` has allocated;
    `who` goes on with `next`. -/
def link (who : Actor) (j : ℕ) (next : NodeState τ ε μ → NodeState τ ε μ) :
    Option (NodeState τ ε μ) :=
  match s.nodes.linking who with
  | none => none
  | some (node, task) =>
    if (s.stop j).freed then some (s.fail .dead)
    else
      match s.nodes.link who j node with
      | .error e => some (s.fail e)
      | .ok nodes => some (next { s with
          nodes := nodes
          enqueued := Function.update s.enqueued j (s.enqueued j ++ [task]) })

/-- Line 9 of `run`: the critical section of `dequeue` and the loop test. Blocked while the
    queue is empty. -/
def take (i : ℕ) : Option (NodeState τ ε μ) :=
  if (s.stop i).freed then some (s.fail .dead)
  else if (s.nodes.queue i).head.isNone then none
  else
    match s.nodes.take i with
    | .error e => some (s.fail e)
    | .ok (temp, nodes) => some (setPc { s with
        nodes := nodes
        dequeued := Function.update s.dequeued i (s.dequeued i ++ [temp]) } i (.ofTemp temp))

/-- A step of the thread of `A_i`, which executes `run`. -/
def threadStep (c : Chain τ ε μ) (i : ℕ) : Option (NodeState τ ε μ) :=
  match s.pc i with
  | .dequeue => s.take i
  | .func temp => some (s.setPc i (.inFunc temp (c.func i temp)))
  | .inFunc temp [] => some (s.setPc i (.test temp))
  | .inFunc temp (.enqueueOwn _ :: rest) =>
    s.link (.thread i) i fun s => s.setPc i (.inFunc temp rest)
  | .inFunc temp (.enqueueNext _ :: rest) =>
    s.link (.thread i) (i + 1) fun s => s.setPc i (.inFunc temp rest)
  | .inFunc temp (.act a :: rest) =>
    some (setPc { s with mem := c.exec a s.mem } i (.inFunc temp rest))
  | .test temp =>
    some (s.setPc i (if c.flag i ≠ 1 ∧ i < c.last then .getQueue (some temp) else .dequeue))
  | .last => some (s.setPc i (if i < c.last then .getQueue none else .returned))
  | .getQueue temp =>
    some (if s.stop (i + 1) = .done then s.fail .dead else s.setPc i (.enqueue temp))
  | .enqueue temp =>
    s.link (.thread i) (i + 1) fun s => s.setPc i (if temp.isSome then .dequeue else .returned)
  | .returned => none

/-- One step of the loop of `deleteQueue` (lines 41–46 of `queue.c`); behind it the queue is
    freed. -/
def deleteStep (i : ℕ) : NodeState τ ε μ :=
  match s.current i with
  | none => { s with current := Function.update s.current i (some (s.nodes.queue i).head) }
  | some current =>
    match deleteRound { current := current, heap := s.nodes.heap, freed := [] } with
    | .inl d => { s with
        nodes := { s.nodes with heap := d.heap }
        current := Function.update s.current i (some d.current) }
    | .inr (.ok _) => s.setStop i .free
    | .inr (.error e) => s.fail e

/-- A step of the call of `stop` on `A_i`. -/
def stopStep (i : ℕ) : Option (NodeState τ ε μ) :=
  match s.stop i, s.pc i with
  | .notCalled, _ => some (s.setStop i .join)
  | .join, .returned => some (s.setStop i .deleteQueue)
  | .join, _ => none
  | .deleteQueue, _ => some (s.deleteStep i)
  | .free, _ => some (s.setStop i .done)
  | .done, _ => none

/-- The outside enqueues its next task on the queue of `A_0`. -/
def outsideStep : Option (NodeState τ ε μ) :=
  match s.input with
  | [] => none
  | _ :: rest => s.link .outside 0 fun s => { s with input := rest }

end NodeState

/-- The chain with the threads started, the queues as created, and `input` to come. -/
def nodeSystem (c : Chain τ ε μ) (input : List (Option τ)) (mem : μ) :
    System (NodeState τ ε μ) NodeAct where
  init :=
    { pc := fun _ => .dequeue, nodes := .empty, stop := fun _ => .notCalled,
      current := fun _ => none, mem := mem, input := input, enqueued := fun _ => [],
      dequeued := fun _ => [], fault := none }
  step
    | .malloc who a, s => s.mallocStep c who a
    | .step .outside, s => s.outsideStep
    | .step (.thread i), s => if i ≤ c.last then s.threadStep c i else none
    | .step (.stop i), s => if i ≤ c.last then s.stopStep i else none

end ChatOnC.ActiveObject
