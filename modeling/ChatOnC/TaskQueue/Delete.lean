import ChatOnC.Common.Loop
import ChatOnC.TaskQueue.Refinement

/-!
# What `deleteQueue` frees

The loop of `deleteQueue` (`queue.c` lines 41–46) sets `current` to the next
node at the end of its body, and its header then moves on once more. So each
round frees one node and skips the one behind it. `free` fails on a node that is
not allocated, so a loop that ends without a fault has freed no node twice.

* `deleteLoop_even`: a queue of even length loses every second node.
* `deleteLoop_odd`: on a queue of odd length the header reads the link of `NULL`.
* `deleteQueue_iff_empty`: the loop frees the whole list only if it is empty.
-/

namespace ChatOnC.TaskQueue

open ChatOnC.Common

variable {τ : Type*}

/-- The variable `current`, the heap and the nodes freed so far. -/
structure DeleteState (τ : Type*) where
  current : Option Addr
  heap : Heap τ
  freed : List Addr

/-- Lines 43–45, and `current = current->next` of the header, for a `current` that
    is not null. -/
def deleteBody (s : DeleteState τ) (current : Addr) : Except Fault (DeleteState τ) := do
  let node ← load s.heap (some current)
  let next := node.next
  let heap ← free s.heap (some current)
  let node ← load heap next
  return { current := node.next, heap := heap, freed := s.freed ++ [current] }

/-- One test of `current != NULL` and the round behind it. -/
def deleteRound (s : DeleteState τ) : DeleteState τ ⊕ Except Fault (DeleteState τ) :=
  match s.current with
  | none => .inr (.ok s)
  | some current =>
    match deleteBody s current with
    | .ok s' => .inl s'
    | .error e => .inr (.error e)

/-- The loop ends: with no fault in the state it leaves, or with a fault. -/
def DeleteLoopEnds (s : DeleteState τ) (result : Except Fault (DeleteState τ)) : Prop :=
  LoopEnds deleteRound s result

/-- The state in which `deleteQueue(queue)` enters its loop. -/
def deleteStart (queue : Queue) (heap : Heap τ) : DeleteState τ where
  current := queue.head
  heap := heap
  freed := []

/-- The queue has exactly the nodes `as`, in this order. -/
structure WellFormed (queue : Queue) (heap : Heap τ) (as : List Addr) : Prop where
  list : IsList Node.next heap queue.head as
  tail : queue.tail = as.getLast?

/-- The loop ends without a fault and has freed each of the nodes `as` once. -/
def FreesOnce (queue : Queue) (heap : Heap τ) (as : List Addr) : Prop :=
  ∃ s, DeleteLoopEnds (deleteStart queue heap) (.ok s) ∧ s.freed.Perm as

/-- The queue of a reachable state is well-formed. -/
theorem Inv.wellFormed {Tid : Type*} {s : State Tid τ} {as : List Addr} (h : Inv s as) :
    WellFormed s.queue s.heap as :=
  ⟨h.list, h.tail⟩

/-! ## The rounds -/

theorem deleteRound_nil {s : DeleteState τ} (h : IsList Node.next s.heap s.current []) :
    deleteRound s = .inr (.ok s) := by
  have hcur : s.current = none := h
  rw [deleteRound, hcur]

/-- On the last node the header follows the null link. -/
theorem deleteRound_singleton {s : DeleteState τ} {a : Addr}
    (h : IsList Node.next s.heap s.current [a]) : deleteRound s = .inr (.error .null) := by
  obtain ⟨hcur, node, hnode, hnext⟩ := h
  have hnull : node.next = none := hnext
  rw [deleteRound, hcur]
  simp [deleteBody, load, free, hnode, hnull, bind, Except.bind]

/-- A round frees one node and skips the next one. -/
theorem deleteRound_cons {s : DeleteState τ} {a b : Addr} {as : List Addr}
    (h : IsList Node.next s.heap s.current (a :: b :: as)) :
    ∃ s', deleteRound s = .inl s' ∧ IsList Node.next s'.heap s'.current as ∧
      s'.freed = s.freed ++ [a] := by
  have hcur := h.1
  obtain ⟨node, hnode⟩ := h.live (List.mem_cons_self ..)
  obtain ⟨hnext, skipped, hskipped, hrest⟩ := h.pop hnode
  refine ⟨⟨skipped.next, Function.update s.heap a none, s.freed ++ [a]⟩, ?_, hrest, rfl⟩
  rw [deleteRound, hcur]
  simp [deleteBody, load, free, hnode, hnext, hskipped, bind, Except.bind, pure, Except.pure]

/-! ## The loop -/

/-- The first, the third, … element of a list of even length. -/
def everySecond {α : Type*} : List α → List α
  | a :: _ :: as => a :: everySecond as
  | [_] => []
  | [] => []

theorem length_everySecond {α : Type*} (as : List α) : (everySecond as).length = as.length / 2 := by
  fun_induction everySecond as with
  | case1 a b as ih =>
    rw [List.length_cons, ih, List.length_cons, List.length_cons]
    omega
  | case2 a => simp
  | case3 => simp

/-- **Even length.** The loop ends, having freed every second node. -/
theorem deleteLoop_even {s : DeleteState τ} {as : List Addr}
    (h : IsList Node.next s.heap s.current as) (heven : as.length % 2 = 0) :
    ∃ s', DeleteLoopEnds s (.ok s') ∧ s'.freed = s.freed ++ everySecond as := by
  fun_induction everySecond as generalizing s with
  | case1 a b as ih =>
    obtain ⟨t, hround, hlist, hfreed⟩ := deleteRound_cons h
    have hlen : as.length % 2 = 0 := by
      rw [List.length_cons, List.length_cons] at heven
      omega
    obtain ⟨s', hends, hs'⟩ := ih hlist hlen
    refine ⟨s', hends.again hround, ?_⟩
    rw [hs', hfreed, List.append_assoc, List.singleton_append]
  | case2 a => simp at heven
  | case3 => exact ⟨s, .stop (deleteRound_nil h), (List.append_nil _).symm⟩

/-- **Odd length.** The loop reads the link of the null pointer behind the last
    node. -/
theorem deleteLoop_odd {s : DeleteState τ} {as : List Addr}
    (h : IsList Node.next s.heap s.current as) (hodd : as.length % 2 = 1) :
    DeleteLoopEnds s (.error .null) := by
  fun_induction everySecond as generalizing s with
  | case1 a b as ih =>
    obtain ⟨t, hround, hlist, -⟩ := deleteRound_cons h
    have hlen : as.length % 2 = 1 := by
      rw [List.length_cons, List.length_cons] at hodd
      omega
    exact (ih hlist hlen).again hround
  | case2 a => exact .stop (deleteRound_singleton h)
  | case3 => simp at hodd

/-- The loop never frees the second node of a list. -/
theorem not_freesOnce_of_cons {queue : Queue} {heap : Heap τ} {a : Addr} {as : List Addr}
    (h : WellFormed queue heap (a :: as)) : ¬FreesOnce queue heap (a :: as) := by
  rintro ⟨s, hends, hperm⟩
  have hstart : IsList Node.next (deleteStart queue heap).heap (deleteStart queue heap).current
      (a :: as) := h.list
  rcases Nat.mod_two_eq_zero_or_one (a :: as).length with heven | hodd
  · obtain ⟨s', hends', hfreed⟩ := deleteLoop_even hstart heven
    have heq := hends.unique hends'
    simp only [Except.ok.injEq] at heq
    rw [heq, hfreed] at hperm
    have hlen := hperm.length_eq
    rw [List.length_append, length_everySecond, List.length_cons] at hlen
    simp [deleteStart] at hlen
    omega
  · have heq := hends.unique (deleteLoop_odd hstart hodd)
    cases heq

/-- **What `deleteQueue` frees.** On a well-formed queue the loop frees every node
    once, without an undefined access, exactly if the queue is empty. -/
theorem deleteQueue_iff_empty {queue : Queue} {heap : Heap τ} {as : List Addr}
    (h : WellFormed queue heap as) : FreesOnce queue heap as ↔ as = [] := by
  constructor
  · intro hfrees
    cases as with
    | nil => rfl
    | cons a as => exact absurd hfrees (not_freesOnce_of_cons h)
  · rintro rfl
    exact ⟨deleteStart queue heap, .stop (deleteRound_nil h.list), .nil⟩

/-- The heap with one node, of a queue with one task. -/
def oneNode : Heap ℕ := fun a => if a = 0 then some { next := none, task := some 7 } else none

theorem deleteQueue_iff_empty_created :
    (FreesOnce createQueue (fun _ => none : Heap ℕ) [] ↔ ([] : List Addr) = []) ∧
      (FreesOnce { head := some 0, tail := some 0 } oneNode [0] ↔ [0] = ([] : List Addr)) :=
  ⟨deleteQueue_iff_empty ⟨rfl, rfl⟩, deleteQueue_iff_empty ⟨⟨rfl, _, rfl, rfl⟩, rfl⟩⟩

/-- A queue with one task in it: the loop reads the link of `NULL`. -/
theorem deleteQueue_oneTask :
    WellFormed { head := some 0, tail := some 0 } oneNode [0] ∧
      DeleteLoopEnds (deleteStart { head := some 0, tail := some 0 } oneNode) (.error .null) ∧
      ¬FreesOnce { head := some 0, tail := some 0 } oneNode [0] := by
  have hwf : WellFormed { head := some 0, tail := some 0 } oneNode [0] :=
    ⟨⟨rfl, _, rfl, rfl⟩, rfl⟩
  exact ⟨hwf, .stop (deleteRound_singleton hwf.list), not_freesOnce_of_cons hwf⟩

end ChatOnC.TaskQueue
