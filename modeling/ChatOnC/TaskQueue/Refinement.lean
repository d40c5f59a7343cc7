import ChatOnC.Common.Fifo
import ChatOnC.Common.LinkedList
import ChatOnC.TaskQueue.Model

/-!
# The linked queue refines a first-in-first-out queue

`Inv s as` is the shape of the heap in every reachable state: `as` is the list
of nodes from `head`, `tail` points to its last node, and a node that a thread
has allocated and not yet linked is live, outside the list and owned by that
thread alone (`Pending`).

* `simulation`: the threads' steps on the heap are steps of `Fifo.system`, so
  every critical section acts on the queue as on a list of tasks.
* `reachable_fifo`: the resulting statement about every reachable state.
-/

namespace ChatOnC.TaskQueue

open ChatOnC.Common

variable {τ Tid : Type*}

/-- The tasks of the nodes at the addresses. -/
def tasks (heap : Heap τ) (as : List Addr) : List (Option τ) :=
  as.filterMap fun a => (heap a).map Node.task

theorem tasks_append (heap : Heap τ) (as bs : List Addr) :
    tasks heap (as ++ bs) = tasks heap as ++ tasks heap bs :=
  List.filterMap_append

theorem tasks_congr {heap heap' : Heap τ} {as : List Addr}
    (h : ∀ a ∈ as, (heap' a).map Node.task = (heap a).map Node.task) :
    tasks heap' as = tasks heap as :=
  List.filterMap_congr h

/-- The nodes allocated and not yet linked: each is initialised, outside the
    queue `as` and owned by one thread. -/
structure Pending (linking : Tid → Option (Addr × Option τ)) (heap : Heap τ)
    (as : List Addr) : Prop where
  cell : ∀ t a task, linking t = some (a, task) → heap a = some { next := none, task := task }
  outside : ∀ t a task, linking t = some (a, task) → a ∉ as
  owner : ∀ t t' a task task', linking t = some (a, task) → linking t' = some (a, task') → t = t'

/-- The shape of the heap: the nodes of the queue are `as`. -/
structure Inv (s : State Tid τ) (as : List Addr) : Prop where
  noFault : s.fault = none
  list : IsList Node.next s.heap s.queue.head as
  tail : s.queue.tail = as.getLast?
  pending : Pending s.linking s.heap as

theorem inv_init [DecidableEq Tid] : Inv (system Tid τ).init [] where
  noFault := rfl
  list := rfl
  tail := rfl
  pending :=
    { cell := nofun
      outside := nofun
      owner := nofun }

namespace Pending

variable {linking : Tid → Option (Addr × Option τ)} {heap heap' : Heap τ} {as : List Addr}
  {t : Tid} {a : Addr} {task : Option τ}

theorem ne_of_not_live (h : Pending linking heap as) (ha : heap a = none) {b : Addr}
    {task' : Option τ} (hb : linking t = some (b, task')) : b ≠ a := by
  rintro rfl
  rw [h.cell _ _ _ hb] at ha
  cases ha

/-- A thread that allocates a node owns it. -/
theorem malloc [DecidableEq Tid] (h : Pending linking heap as) (ha : heap a = none) (has : a ∉ as) :
    Pending (Function.update linking t (some (a, task))) (newNode heap a task) as := by
  refine ⟨?_, ?_, ?_⟩
  · intro t' b task' hb
    by_cases ht : t' = t
    · subst ht
      rw [Function.update_self] at hb
      cases hb
      exact Function.update_self ..
    · rw [Function.update_of_ne ht] at hb
      rw [← h.cell _ _ _ hb]
      exact Function.update_of_ne (h.ne_of_not_live ha hb) _ _
  · intro t' b task' hb
    by_cases ht : t' = t
    · subst ht
      rw [Function.update_self] at hb
      cases hb
      exact has
    · rw [Function.update_of_ne ht] at hb
      exact h.outside _ _ _ hb
  · intro t₁ t₂ b task₁ task₂ h₁ h₂
    by_cases e₁ : t₁ = t <;> by_cases e₂ : t₂ = t
    · rw [e₁, e₂]
    · subst e₁
      rw [Function.update_self] at h₁
      rw [Function.update_of_ne e₂] at h₂
      cases h₁
      exact absurd rfl (h.ne_of_not_live ha h₂)
    · subst e₂
      rw [Function.update_self] at h₂
      rw [Function.update_of_ne e₁] at h₁
      cases h₂
      exact absurd rfl (h.ne_of_not_live ha h₁)
    · rw [Function.update_of_ne e₁] at h₁
      rw [Function.update_of_ne e₂] at h₂
      exact h.owner _ _ _ _ _ h₁ h₂

/-- A thread that links its node gives it up to the queue. -/
theorem link [DecidableEq Tid] (h : Pending linking heap as) (hlink : linking t = some (a, task))
    (hsame : ∀ b, b ∉ as → heap' b = heap b) :
    Pending (Function.update linking t none) heap' (as ++ [a]) := by
  have hother : ∀ t' p, Function.update linking t none t' = some p →
      t' ≠ t ∧ linking t' = some p := by
    intro t' p hp
    by_cases ht : t' = t
    · subst ht
      rw [Function.update_self] at hp
      cases hp
    · rw [Function.update_of_ne ht] at hp
      exact ⟨ht, hp⟩
  refine ⟨?_, ?_, ?_⟩
  · intro t' b task' hb
    obtain ⟨-, hb⟩ := hother _ _ hb
    rw [hsame b (h.outside _ _ _ hb), h.cell _ _ _ hb]
  · intro t' b task' hb
    obtain ⟨ht, hb⟩ := hother _ _ hb
    have hba : b ≠ a := fun e => ht (h.owner _ _ _ _ _ hb (e ▸ hlink))
    simp [h.outside _ _ _ hb, hba]
  · intro t₁ t₂ b task₁ task₂ h₁ h₂
    exact h.owner _ _ _ _ _ (hother _ _ h₁).2 (hother _ _ h₂).2

/-- Removing the first node of the queue does not touch the pending ones. -/
theorem unlink (h : Pending linking heap (a :: as)) (hsame : ∀ b, b ≠ a → heap' b = heap b) :
    Pending linking heap' as := by
  have hout : ∀ t b task, linking t = some (b, task) → b ≠ a ∧ b ∉ as := fun t b task hb => by
    simpa using h.outside t b task hb
  refine ⟨fun t b task hb => ?_, fun t b task hb => (hout t b task hb).2, h.owner⟩
  rw [hsame b (hout t b task hb).1, h.cell _ _ _ hb]

end Pending

/-! ## What each step does to the list -/

/-- An address `malloc` may return is not used by the queue nor by a thread. -/
theorem inv_malloc [DecidableEq Tid] {s : State Tid τ} {as : List Addr} (h : Inv s as) {t : Tid}
    {a : Addr} (ha : s.heap a = none) (task : Option τ) :
    Inv { s with heap := newNode s.heap a task
                 linking := Function.update s.linking t (some (a, task)) } as ∧
      tasks (newNode s.heap a task) as = tasks s.heap as := by
  have hne : ∀ b ∈ as, b ≠ a := by
    rintro b hb rfl
    obtain ⟨c, hc⟩ := h.list.live hb
    rw [ha] at hc
    cases hc
  have hsame : ∀ b ∈ as, newNode s.heap a task b = s.heap b := fun b hb =>
    Function.update_of_ne (hne b hb) _ _
  refine ⟨⟨h.noFault, h.list.congr hsame, h.tail, ?_⟩, tasks_congr fun b hb => by rw [hsame b hb]⟩
  exact h.pending.malloc ha fun hmem => hne a hmem rfl

/-- The critical section of `enqueue` appends the node. -/
theorem enqueue_spec {s : State Tid τ} {as : List Addr} (h : Inv s as) {t : Tid} {a : Addr}
    {task : Option τ} (hlink : s.linking t = some (a, task)) :
    ∃ queue heap, enqueue s.queue s.heap a = .ok (queue, heap) ∧
      IsList Node.next heap queue.head (as ++ [a]) ∧ queue.tail = some a ∧
      tasks heap (as ++ [a]) = tasks s.heap as ++ [task] ∧
      ∀ b, b ∉ as → heap b = s.heap b := by
  have hcell := h.pending.cell t a task hlink
  have hmem := h.pending.outside t a task hlink
  cases hhead : s.queue.head with
  | none =>
    have has : as = [] := (h.list.ptr_eq_none_iff).mp hhead
    subst has
    refine ⟨_, s.heap, by rw [enqueue, hhead], ?_, rfl, ?_, fun b _ => rfl⟩
    · exact ⟨rfl, _, hcell, rfl⟩
    · simp [tasks, hcell]
  | some p =>
    obtain ⟨as', l, rfl⟩ : ∃ as' l, as = as' ++ [l] := by
      rcases List.eq_nil_or_concat as with rfl | ⟨as', l, rfl⟩
      · have := h.list
        rw [hhead] at this
        cases this
      · exact ⟨as', l, by simp⟩
    obtain ⟨c, hc, -⟩ := h.list.last_next
    have htail : s.queue.tail = some l := by rw [h.tail]; simp
    have hal : a ≠ l := by
      rintro rfl
      exact hmem (by simp)
    refine ⟨{ s.queue with tail := some a },
      Function.update s.heap l (some { c with next := some a }), ?_, ?_, rfl, ?_, ?_⟩
    · simp [enqueue, hhead, htail, load, store, hc, bind, Except.bind]
    · simp only [List.append_assoc, List.cons_append, List.nil_append]
      exact h.list.push hmem rfl rfl hcell
    · have hold : tasks (Function.update s.heap l (some { c with next := some a })) (as' ++ [l]) =
          tasks s.heap (as' ++ [l]) := by
        refine tasks_congr fun b _ => ?_
        by_cases hbl : b = l
        · subst hbl
          simp [hc]
        · rw [Function.update_of_ne hbl]
      rw [tasks_append _ (as' ++ [l]), hold]
      simp [tasks, Function.update_of_ne hal, hcell]
    · intro b hb
      exact Function.update_of_ne (fun e => hb (by simp [e])) _ _

/-- The critical section of `dequeue` removes the first node and returns its
    task. -/
theorem dequeue_spec {s : State Tid τ} {a : Addr} {as : List Addr} (h : Inv s (a :: as)) :
    ∃ memory queue heap, dequeue s.queue s.heap = .ok (memory, queue, heap) ∧
      IsList Node.next heap queue.head as ∧ queue.tail = as.getLast? ∧
      tasks s.heap (a :: as) = memory :: tasks heap as ∧
      ∀ b, b ≠ a → heap b = s.heap b := by
  have hnd := (List.nodup_cons.mp h.list.nodup).1
  obtain ⟨c, hc⟩ := h.list.live (List.mem_cons_self ..)
  have hhead : s.queue.head = some a := h.list.1
  have hpop := h.list.pop hc
  have hsame : ∀ b, b ≠ a → Function.update s.heap a none b = s.heap b := fun b hb =>
    Function.update_of_ne hb _ _
  refine ⟨c.task, { head := c.next, tail := if c.next.isNone then none else s.queue.tail },
    Function.update s.heap a none, ?_, hpop, ?_, ?_, hsame⟩
  · simp [dequeue, hhead, load, free, hc, bind, Except.bind]
  · cases as with
    | nil =>
      have hnext : c.next = none := hpop
      simp [hnext]
    | cons b bs =>
      have hnext : c.next = some b := hpop.1
      simp [hnext, h.tail]
  · have hrest : tasks (Function.update s.heap a none) as = tasks s.heap as :=
      tasks_congr fun b hb => by rw [hsame b fun e => hnd (e ▸ hb)]
    rw [hrest]
    simp [tasks, hc]

/-! ## Simulation -/

/-- The heap represents the queue `q`. -/
def Represents (s : State Tid τ) (q : Fifo (Option τ)) : Prop :=
  (∃ as, Inv s as ∧ q.items = tasks s.heap as) ∧ q.put = s.enqueued ∧ q.taken = s.dequeued

theorem represents_malloc [DecidableEq Tid] {s s' : State Tid τ} {t : Tid} {a : Addr}
    {task : Option τ} {q : Fifo (Option τ)} (hr : Represents s q)
    (h : mallocStep s t a task = some s') : Represents s' q := by
  unfold mallocStep at h
  split_ifs at h with hguard
  cases h
  obtain ⟨⟨as, hinv, hitems⟩, hput, htaken⟩ := hr
  have ha : s.heap a = none := by simpa using hguard.2
  obtain ⟨hinv', htasks⟩ := inv_malloc (t := t) hinv ha task
  exact ⟨⟨as, hinv', by rw [hitems, htasks]⟩, hput, htaken⟩

theorem represents_enqueue [DecidableEq Tid] {s s' : State Tid τ} {t : Tid} {q : Fifo (Option τ)}
    (hr : Represents s q) (h : enqueueStep s t = some s') :
    ∃ task, Represents s' (q.enqueue task) := by
  obtain ⟨⟨as, hinv, hitems⟩, hput, htaken⟩ := hr
  unfold enqueueStep at h
  cases hlink : s.linking t with
  | none => rw [hlink] at h; cases h
  | some p =>
    obtain ⟨a, task⟩ := p
    obtain ⟨queue, heap, hok, hlist, htail, htasks, hsame⟩ := enqueue_spec hinv hlink
    simp only [hlink, hok, Option.some.injEq] at h
    subst h
    refine ⟨task, ⟨as ++ [a], ⟨hinv.noFault, hlist, by simp [htail], ?_⟩, ?_⟩, ?_, htaken⟩
    · exact hinv.pending.link hlink hsame
    · rw [Fifo.enqueue_items, hitems, htasks]
    · rw [Fifo.enqueue_put, hput]

theorem represents_dequeue {s s' : State Tid τ} {t : Tid} {q : Fifo (Option τ)}
    (hr : Represents s q) (h : dequeueStep s t = some s') :
    ∃ memory q', q.dequeue = some (memory, q') ∧ Represents s' q' := by
  obtain ⟨⟨as, hinv, hitems⟩, hput, htaken⟩ := hr
  unfold dequeueStep at h
  split_ifs at h with hguard
  cases as with
  | nil =>
    have hhead : s.queue.head = none := hinv.list
    simp [hhead] at hguard
  | cons a as =>
    obtain ⟨memory, queue, heap, hok, hlist, htail, htasks, hsame⟩ := dequeue_spec hinv
    simp only [hok, Option.some.injEq] at h
    subst h
    rw [htasks] at hitems
    obtain ⟨q', hq'⟩ := Fifo.dequeue_of_items hitems
    obtain ⟨hitems', hput', htaken'⟩ := Fifo.dequeue_eq_some hq'
    rw [hitems'] at hitems
    obtain ⟨-, hrest⟩ := List.cons.inj hitems
    refine ⟨memory, q', hq', ⟨as, ⟨hinv.noFault, hlist, htail, ?_⟩, hrest⟩, ?_, ?_⟩
    · exact hinv.pending.unlink hsame
    · rw [hput', hput]
    · rw [htaken', htaken]

/-- Every step of the threads on the heap is a step of the list queue, or none
    (`malloc` and `isEmpty`). -/
theorem simulation [DecidableEq Tid] :
    System.Simulation (system Tid τ) (fun _ _ => True) (Fifo.system (Option τ)) Represents where
  init := ⟨⟨[], inv_init, rfl⟩, rfl, rfl⟩
  step := by
    intro act s s' q _ hr h
    cases act with
    | malloc t a task =>
      exact ⟨[], q, rfl, represents_malloc hr h⟩
    | enqueue t =>
      obtain ⟨task, hr'⟩ := represents_enqueue hr h
      exact ⟨[.put task], _, rfl, hr'⟩
    | dequeue t =>
      obtain ⟨memory, q', hq', hr'⟩ := represents_dequeue hr h
      exact ⟨[.take], q', by simp [Fifo.system, hq'], hr'⟩
    | isEmpty t =>
      simp only [system] at h
      split_ifs at h
      cases h
      exact ⟨[], q, rfl, hr⟩

/-- In every reachable state, whatever the threads and their order: no access
    faulted; the nodes reachable from `head` are a finite list without
    repetition of live nodes; `tail` is its last node, with a null link, or null
    when the list is empty; what `dequeue` returned so far followed by the tasks
    of the list is what was enqueued; and `isEmpty` returns 1 exactly on the
    empty list. -/
theorem reachable_fifo [DecidableEq Tid] {s : State Tid τ} (h : (system Tid τ).Reachable s) :
    s.fault = none ∧ ∃ as : List Addr,
      IsList Node.next s.heap s.queue.head as ∧ as.Nodup ∧
      (∀ a, a ∈ as ↔ Reaches Node.next s.heap s.queue.head a) ∧
      (∀ a ∈ as, ∃ node, s.heap a = some node) ∧
      (s.queue.head ≠ none → ∃ a node, as.getLast? = some a ∧ s.queue.tail = some a ∧
        s.heap a = some node ∧ node.next = none) ∧
      (s.queue.head = none → s.queue.tail = none) ∧
      s.dequeued ++ tasks s.heap as = s.enqueued ∧
      (isEmpty (some s.queue) = 1 ↔ as = []) := by
  obtain ⟨q, -, ⟨as, hinv, hitems⟩, hput, htaken⟩ := simulation.reach h
  have hnil := hinv.list.ptr_eq_none_iff
  refine ⟨hinv.noFault, as, hinv.list, hinv.list.nodup, fun a => hinv.list.mem_iff_reaches,
    fun a => hinv.list.live, ?_, ?_, ?_, ?_⟩
  · intro hhead
    rcases List.eq_nil_or_concat as with rfl | ⟨as', l, rfl⟩
    · exact absurd (hnil.mpr rfl) hhead
    · rw [List.concat_eq_append] at hinv
      obtain ⟨c, hc, hnext⟩ := hinv.list.last_next
      exact ⟨l, c, by simp, by rw [hinv.tail]; simp, hc, hnext⟩
  · intro hhead
    rw [hinv.tail, hnil.mp hhead]
    rfl
  · rw [← htaken, ← hitems, ← hput]
    exact q.balanced
  · rw [← hnil]
    cases hhead : s.queue.head <;> simp [isEmpty, hhead]

/-- Two threads allocate, link in the other order, and one of them dequeues. -/
def crossedRun : List (Act ℕ ℕ) :=
  [.malloc 0 10 (some 1), .malloc 1 20 (some 2), .enqueue 1, .enqueue 0, .isEmpty 0, .dequeue 1]

theorem reachable_fifo_crossedRun :
    ∃ s, (system ℕ ℕ).exec crossedRun (system ℕ ℕ).init = some s ∧ s.fault = none ∧
      ∃ as, IsList Node.next s.heap s.queue.head as ∧
        s.dequeued ++ tasks s.heap as = [some 2, some 1] := by
  refine ⟨_, rfl, ?_⟩
  obtain ⟨hfault, as, hlist, -, -, -, -, -, htasks, -⟩ :=
    reachable_fifo (System.Reach.of_exec (S := system ℕ ℕ) (l := crossedRun) rfl)
  exact ⟨hfault, as, hlist, htasks⟩

end ChatOnC.TaskQueue
