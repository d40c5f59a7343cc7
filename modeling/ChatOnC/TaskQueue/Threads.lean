import ChatOnC.Common.Monitor
import ChatOnC.TaskQueue.Model

/-!
# Producers and consumers with the mutex and the condition variable

The threads of `queue.c` one `pthread` call and one queue operation at a time:
`enqueue` (lines 54–79) locks, links its node, signals and unlocks; `dequeue`
(lines 81–107) locks, waits while the queue is empty, takes the first node and
unlocks. The operations on the queue are those of the coarser model, in which a
critical section is one step.

A signal wakes one or more blocked threads, a blocked thread may also wake by
itself, and a woken thread competes for the mutex with newly arriving ones.
-/

namespace ChatOnC.TaskQueue

open ChatOnC.Common

/-- Where a thread stands. -/
inductive Pc
  | outside
  /-- in `enqueue`, before `pthread_mutex_lock` (line 64) -/
  | allocated
  /-- in `enqueue`, before the node is linked (line 66) -/
  | link
  /-- before `pthread_cond_signal` (line 77) -/
  | signal
  /-- in `dequeue`, before the test of `head` (line 91) -/
  | test
  /-- before `pthread_cond_wait` (line 93) -/
  | wait
  /-- in `pthread_cond_wait` -/
  | waiting
  /-- behind the wait loop (line 96) -/
  | take
  /-- before `pthread_mutex_unlock` (lines 78 and 105) -/
  | unlock
  deriving DecidableEq

/-- Between getting the mutex and giving it up. -/
def Pc.inside : Pc → Bool
  | .link | .signal | .test | .wait | .take | .unlock => true
  | .outside | .allocated | .waiting => false

/-- The queue with its nodes and history, its mutex and condition variable, and
    the threads. -/
structure Threads (Tid τ : Type*) where
  base : State Tid τ
  monitor : Monitor Tid
  pc : Tid → Pc

/-- The steps of the threads; `signal` says which blocked threads it wakes. -/
inductive ThreadAct (Tid τ : Type*)
  | malloc (t : Tid) (a : Addr) (task : Option τ)
  | lockEnqueue (t : Tid)
  | link (t : Tid)
  | signal (t : Tid) (awake : Finset Tid)
  | lockDequeue (t : Tid)
  | test (t : Tid)
  | wait (t : Tid)
  | spurious (t : Tid)
  | reacquire (t : Tid)
  | take (t : Tid)
  | unlock (t : Tid)

/-- Lines 96–104: `dequeue` behind its wait loop, whatever `head` is. -/
def takeStep {Tid τ : Type*} (s : State Tid τ) : State Tid τ :=
  match dequeue s.queue s.heap with
  | .error e => { s with fault := some e }
  | .ok (memory, queue, heap) =>
    { s with queue := queue, heap := heap, dequeued := s.dequeued ++ [memory] }

namespace Threads

variable {Tid τ : Type*} [DecidableEq Tid]

/-- The thread moves on to `pc`. -/
def move (s : Threads Tid τ) (t : Tid) (pc : Pc) (base : State Tid τ) (monitor : Monitor Tid) :
    Threads Tid τ where
  base := base
  monitor := monitor
  pc := Function.update s.pc t pc

/-- A call on the mutex or the condition variable by a thread that stands at `pc`. -/
def call (s : Threads Tid τ) (t : Tid) (pc pc' : Pc) (monitor : Option (Monitor Tid)) :
    Option (Threads Tid τ) :=
  if s.pc t = pc then monitor.map (s.move t pc' s.base) else none

/-- An operation on the queue by a thread that stands at `pc`. -/
def access (s : Threads Tid τ) (t : Tid) (pc pc' : Pc) (base : Option (State Tid τ)) :
    Option (Threads Tid τ) :=
  if s.pc t = pc then base.map fun base => s.move t pc' base s.monitor else none

/-- One step. -/
def step : ThreadAct Tid τ → Threads Tid τ → Option (Threads Tid τ)
  | .malloc t a task, s => s.access t .outside .allocated (mallocStep s.base t a task)
  | .lockEnqueue t, s => s.call t .allocated .link (s.monitor.lock t)
  | .link t, s => s.access t .link .signal (enqueueStep s.base t)
  | .signal t awake, s => s.call t .signal .unlock (s.monitor.signal awake)
  | .lockDequeue t, s => s.call t .outside .test (s.monitor.lock t)
  | .test t, s =>
    s.access t .test (if s.base.queue.head.isNone then .wait else .take) (some s.base)
  | .wait t, s => s.call t .wait .waiting (s.monitor.wait t)
  | .spurious t, s => s.call t .waiting .waiting (s.monitor.spurious t)
  | .reacquire t, s => s.call t .waiting .test (s.monitor.reacquire t)
  | .take t, s => s.access t .take .unlock (some (takeStep s.base))
  | .unlock t, s => s.call t .unlock .outside (s.monitor.unlock t)

/-- Any number of threads on the queue of `createQueue`. -/
def system (Tid τ : Type*) [DecidableEq Tid] : System (Threads Tid τ) (ThreadAct Tid τ) where
  init :=
    { base := (TaskQueue.system Tid τ).init, monitor := Monitor.free, pc := fun _ => .outside }
  step := step

end Threads

end ChatOnC.TaskQueue
