import ChatOnC.Common.System

/-!
# First-in-first-out queues with their history

A `Fifo` is a queue together with everything that was ever put into it and
everything that was ever taken out. Its field `balanced` says that what was
taken, followed by what is still there, is what was put, so a queue that has
lost, repeated or reordered an item cannot be built.

`Fifo.system` is the queue as a transition system: `put x` is always enabled,
`take` only when the queue is not empty.
-/

namespace ChatOnC.Common

/-- A queue with the history of its two ends. -/
@[ext] structure Fifo (α : Type*) where
  put : List α
  taken : List α
  items : List α
  balanced : taken ++ items = put

namespace Fifo

variable {α : Type*}

/-- The queue nothing was ever put into. -/
def empty : Fifo α := ⟨[], [], [], rfl⟩

/-- Append an item. -/
def enqueue (q : Fifo α) (x : α) : Fifo α where
  put := q.put ++ [x]
  taken := q.taken
  items := q.items ++ [x]
  balanced := by rw [← List.append_assoc, q.balanced]

/-- Remove the oldest item; `none` when there is none. -/
def dequeue (q : Fifo α) : Option (α × Fifo α) :=
  match h : q.items with
  | [] => none
  | x :: xs => some (x,
      { put := q.put
        taken := q.taken ++ [x]
        items := xs
        balanced := by rw [← q.balanced, h, List.append_assoc, List.singleton_append] })

@[simp] theorem empty_put : (empty : Fifo α).put = [] := rfl
@[simp] theorem empty_taken : (empty : Fifo α).taken = [] := rfl
@[simp] theorem empty_items : (empty : Fifo α).items = [] := rfl

@[simp] theorem enqueue_put (q : Fifo α) (x : α) : (q.enqueue x).put = q.put ++ [x] := rfl
@[simp] theorem enqueue_taken (q : Fifo α) (x : α) : (q.enqueue x).taken = q.taken := rfl
@[simp] theorem enqueue_items (q : Fifo α) (x : α) : (q.enqueue x).items = q.items ++ [x] := rfl

/-- What a successful `dequeue` does. -/
theorem dequeue_eq_some {q q' : Fifo α} {x : α} (h : q.dequeue = some (x, q')) :
    q.items = x :: q'.items ∧ q'.put = q.put ∧ q'.taken = q.taken ++ [x] := by
  unfold dequeue at h
  split at h
  · cases h
  · rename_i y ys hitems
    simp only [Option.some.injEq, Prod.mk.injEq] at h
    obtain ⟨rfl, rfl⟩ := h
    exact ⟨hitems, rfl, rfl⟩

theorem dequeue_eq_none {q : Fifo α} : q.dequeue = none ↔ q.items = [] := by
  unfold dequeue
  split
  · rename_i hitems
    simp [hitems]
  · rename_i y ys hitems
    simp [hitems]

/-- `dequeue` succeeds on a queue with a first item. -/
theorem dequeue_of_items {q : Fifo α} {x : α} {xs : List α} (h : q.items = x :: xs) :
    ∃ q', q.dequeue = some (x, q') := by
  cases hd : q.dequeue with
  | none => rw [dequeue_eq_none] at hd; rw [hd] at h; cases h
  | some r =>
    obtain ⟨y, q'⟩ := r
    obtain ⟨hitems, -, -⟩ := dequeue_eq_some hd
    rw [hitems] at h
    cases h
    exact ⟨q', rfl⟩

theorem taken_isPrefix (q : Fifo α) : q.taken <+: q.put := ⟨q.items, q.balanced⟩

theorem mem_put_of_mem_taken {q : Fifo α} {x : α} (h : x ∈ q.taken) : x ∈ q.put :=
  q.taken_isPrefix.subset h

/-- The operations of the queue system. -/
inductive Op (α : Type*)
  | put (x : α)
  | take

/-- The queue as a transition system. -/
def system (α : Type*) : System (Fifo α) (Op α) where
  init := empty
  step
    | .put x, q => some (q.enqueue x)
    | .take, q => q.dequeue.map Prod.snd

end Fifo

end ChatOnC.Common
