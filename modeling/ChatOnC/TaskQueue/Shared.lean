import ChatOnC.TaskQueue.Refinement

/-!
# Several queues in one heap

The queues of a program take their nodes from one heap. `Shared` holds the queues, the heap
and the nodes that `enqueue` has allocated and not yet linked, and has the operations of
`queue.c` on one of the queues. `Holds s items` says that queue `j` is a list of nodes with
the tasks `items j`, that no node is in two queues, and that every live node is in a queue or
in the hand of one thread.

* `Holds.malloc`, `Holds.link`, `Holds.take`: an operation on one queue does to its tasks what
  it does to a list, and nothing to the other queues.
* `Holds.heap_eq_none`: where the queues are empty and no thread is inside `enqueue`, every
  node has been freed.
-/

namespace ChatOnC.TaskQueue

open ChatOnC.Common

variable {Tid τ : Type*}

/-- Queues and the heap of their nodes. `linking t` holds the variables `node` and `task` of a
    thread between the `malloc` and the critical section of its `enqueue`. -/
structure Shared (Tid τ : Type*) where
  queue : ℕ → Queue
  heap : Heap τ
  linking : Tid → Option (Addr × Option τ)

namespace Shared

/-- Every queue as `createQueue` returns it. -/
def empty : Shared Tid τ where
  queue := fun _ => createQueue
  heap := fun _ => none
  linking := fun _ => none

/-- One of the queues. -/
def view (s : Shared Tid τ) (j : ℕ) : State Tid τ where
  queue := s.queue j
  heap := s.heap
  linking := s.linking
  enqueued := []
  dequeued := []
  fault := none

variable [DecidableEq Tid]

/-- Lines 56–62 of `enqueue`, when `malloc` returns `a`. -/
def malloc (s : Shared Tid τ) (t : Tid) (a : Addr) (task : Option τ) : Option (Shared Tid τ) :=
  if (s.linking t).isNone ∧ (s.heap a).isNone then
    some { s with
      heap := newNode s.heap a task
      linking := Function.update s.linking t (some (a, task)) }
  else none

/-- The critical section of `enqueue` on queue `j`. -/
def link (s : Shared Tid τ) (t : Tid) (j : ℕ) (node : Addr) : Except Fault (Shared Tid τ) :=
  match enqueue (s.queue j) s.heap node with
  | .error e => .error e
  | .ok (queue, heap) => .ok
    { queue := Function.update s.queue j queue
      heap := heap
      linking := Function.update s.linking t none }

/-- The critical section of `dequeue` on queue `j`. -/
def take (s : Shared Tid τ) (j : ℕ) : Except Fault (Option τ × Shared Tid τ) :=
  match dequeue (s.queue j) s.heap with
  | .error e => .error e
  | .ok (memory, queue, heap) => .ok
    (memory, { s with queue := Function.update s.queue j queue, heap := heap })

theorem link_linking {s s' : Shared Tid τ} {t : Tid} {j : ℕ} {node : Addr}
    (h : s.link t j node = .ok s') : s'.linking = Function.update s.linking t none := by
  unfold link at h
  split at h
  · cases h
  · cases h
    rfl

omit [DecidableEq Tid] in
theorem take_linking {s s' : Shared Tid τ} {j : ℕ} {memory : Option τ}
    (h : s.take j = .ok (memory, s')) : s'.linking = s.linking := by
  unfold take at h
  split at h
  · cases h
  · cases h
    rfl

/-! ## What the heap holds -/

/-- The nodes of queue `j` are `as j`. -/
structure Sound (s : Shared Tid τ) (as : ℕ → List Addr) : Prop where
  queues : ∀ j, Inv (s.view j) (as j)
  disjoint : ∀ j k a, a ∈ as j → a ∈ as k → j = k
  owned : ∀ a, s.heap a ≠ none → (∃ j, a ∈ as j) ∨ ∃ t task, s.linking t = some (a, task)
  finite : ∃ n, ∀ a, n ≤ a → s.heap a = none

/-- The tasks of queue `j` are `items j`. -/
def Holds (s : Shared Tid τ) (items : ℕ → List (Option τ)) : Prop :=
  ∃ as, s.Sound as ∧ ∀ j, items j = tasks s.heap (as j)

theorem holds_empty : (empty : Shared Tid τ).Holds fun _ => [] := by
  refine ⟨fun _ => [], ⟨fun _ => inv_init, ?_, ?_, ⟨0, fun _ _ => rfl⟩⟩, fun _ => rfl⟩
  · intro j k a ha
    cases ha
  · intro a ha
    exact absurd rfl ha

omit [DecidableEq Tid] in
/-- The node that `dequeue` removes is freed. -/
theorem dequeue_frees {queue queue' : Queue} {heap heap' : Heap τ} {memory : Option τ} {a : Addr}
    (h : dequeue queue heap = .ok (memory, queue', heap')) (hhead : queue.head = some a) :
    heap' a = none := by
  unfold dequeue load free at h
  rw [hhead] at h
  cases ha : heap a with
  | none => simp [ha, bind, Except.bind] at h
  | some node =>
    simp only [ha, bind, Except.bind, Except.ok.injEq, Prod.mk.injEq] at h
    rw [← h.2.2, Function.update_self]

omit [DecidableEq Tid] in
theorem mem_push {as : ℕ → List Addr} {j k : ℕ} {a b : Addr} :
    b ∈ Function.update as j (as j ++ [a]) k ↔ b ∈ as k ∨ k = j ∧ b = a := by
  by_cases hk : k = j
  · subst hk
    simp
  · simp [hk]

omit [DecidableEq Tid] in
theorem mem_of_mem_pop {as : ℕ → List Addr} {j k : ℕ} {a b : Addr} {as' : List Addr}
    (has : as j = a :: as') (hb : b ∈ Function.update as j as' k) : b ∈ as k := by
  by_cases hk : k = j
  · subst hk
    rw [Function.update_self] at hb
    rw [has]
    exact List.mem_cons_of_mem _ hb
  · rwa [Function.update_of_ne hk] at hb

/-- A thread gives its node up to another queue. -/
theorem Pending.elsewhere {linking : Tid → Option (Addr × Option τ)} {heap heap' : Heap τ}
    {as bs : List Addr} {t : Tid} (h : Pending linking heap as)
    (h' : Pending (Function.update linking t none) heap' bs) :
    Pending (Function.update linking t none) heap' as where
  cell := h'.cell
  owner := h'.owner
  outside := by
    intro t' b task hb
    by_cases ht : t' = t
    · subst ht
      rw [Function.update_self] at hb
      cases hb
    · rw [Function.update_of_ne ht] at hb
      exact h.outside t' b task hb

namespace Holds

variable {s s' : Shared Tid τ} {items : ℕ → List (Option τ)} {t : Tid} {a : Addr}
  {task : Option τ} {j : ℕ}

omit [DecidableEq Tid] in
theorem head_eq_none (h : s.Holds items) : (s.queue j).head = none ↔ items j = [] := by
  obtain ⟨as, hs, hitems⟩ := h
  have hlist := (hs.queues j).list
  rw [hitems, show (s.queue j).head = none ↔ as j = [] from hlist.ptr_eq_none_iff]
  constructor
  · intro has
    rw [has]
    rfl
  · intro htasks
    cases has : as j with
    | nil => rfl
    | cons b bs =>
      obtain ⟨c, hc⟩ := hlist.live (a := b) (by simp [has])
      have hcell : s.heap b = some c := hc
      simp [tasks, has, hcell] at htasks

/-- There is always an address that `malloc` may return. -/
theorem exists_malloc (h : s.Holds items) (ht : s.linking t = none) (task : Option τ) :
    ∃ a s', s.malloc t a task = some s' := by
  obtain ⟨as, hs, -⟩ := h
  obtain ⟨n, hn⟩ := hs.finite
  exact ⟨n, _, by rw [Shared.malloc, if_pos (by simp [ht, hn n (Nat.le_refl n)])]⟩

theorem malloc (h : s.Holds items) (hstep : s.malloc t a task = some s') :
    s'.Holds items ∧ s.linking t = none ∧
      s'.linking = Function.update s.linking t (some (a, task)) := by
  obtain ⟨as, hs, hitems⟩ := h
  unfold Shared.malloc at hstep
  split_ifs at hstep with hguard
  cases hstep
  have ht : s.linking t = none := by simpa using hguard.1
  have ha : s.heap a = none := by simpa using hguard.2
  have hinv : ∀ j, Inv _ (as j) ∧ _ := fun j => inv_malloc (t := t) (hs.queues j) ha task
  refine ⟨⟨as, ⟨fun j => (hinv j).1, hs.disjoint, fun b hb => ?_, ?_⟩, fun j => ?_⟩, ht, rfl⟩
  · by_cases hba : b = a
    · exact .inr ⟨t, task, by rw [hba]; exact Function.update_self ..⟩
    · have hb' : s.heap b ≠ none := by simpa [newNode, Function.update_of_ne hba] using hb
      refine (hs.owned b hb').imp_right ?_
      rintro ⟨t', task', hlink⟩
      have hne : t' ≠ t := by
        rintro rfl
        rw [ht] at hlink
        cases hlink
      exact ⟨t', task', by rw [← hlink]; exact Function.update_of_ne hne ..⟩
  · obtain ⟨n, hn⟩ := hs.finite
    refine ⟨max n (a + 1), fun b hb => ?_⟩
    have hne : b ≠ a :=
      Nat.ne_of_gt (Nat.lt_of_succ_le (Nat.le_trans (Nat.le_max_right ..) hb))
    rw [← hn b (Nat.le_trans (Nat.le_max_left ..) hb)]
    exact Function.update_of_ne hne ..
  · rw [hitems]
    exact (hinv j).2.symm

/-- The critical section of `enqueue` appends the task of the node. -/
theorem link (h : s.Holds items) (hlink : s.linking t = some (a, task)) (j : ℕ) :
    ∃ s', s.link t j a = .ok s' ∧
      s'.Holds (Function.update items j (items j ++ [task])) ∧
      s'.linking = Function.update s.linking t none := by
  obtain ⟨as, hs, hitems⟩ := h
  obtain ⟨queue, heap, hok, hlist, htail, htasks, hsame⟩ :=
    enqueue_spec (hs.queues j) (show (s.view j).linking t = _ from hlink)
  change enqueue (s.queue j) s.heap a = _ at hok
  change ∀ b, b ∉ as j → heap b = s.heap b at hsame
  change tasks heap (as j ++ [a]) = tasks s.heap (as j) ++ [task] at htasks
  have hout : ∀ k, a ∉ as k := fun k => (hs.queues k).pending.outside t a task hlink
  have hother : ∀ k, k ≠ j → ∀ b ∈ as k, heap b = s.heap b := fun k hk b hb =>
    hsame b fun hbj => hk (hs.disjoint k j b hb hbj)
  have hpending := (hs.queues j).pending.link hlink hsame
  refine ⟨_, by rw [Shared.link, hok], ⟨Function.update as j (as j ++ [a]), ?_, fun k => ?_⟩, rfl⟩
  · constructor
    · intro k
      by_cases hk : k = j
      · subst hk
        refine ⟨rfl, ?_, ?_, ?_⟩
        · simpa [view] using hlist
        · simp [view, htail]
        · simpa [view] using hpending
      · refine ⟨rfl, ?_, ?_, ?_⟩
        · simpa [view, hk] using (hs.queues k).list.congr (hother k hk)
        · simpa [view, hk] using (hs.queues k).tail
        · simpa [view, hk] using Pending.elsewhere (hs.queues k).pending hpending
    · intro k l b hk hl
      rcases mem_push.mp hk with hk | ⟨rfl, rfl⟩ <;> rcases mem_push.mp hl with hl | ⟨hl, hb⟩
      · exact hs.disjoint k l b hk hl
      · exact absurd (hb ▸ hk) (hout k)
      · exact absurd hl (hout l)
      · exact hl.symm
    · intro b hb
      by_cases hbj : b ∈ as j
      · exact .inl ⟨j, mem_push.mpr (.inl hbj)⟩
      · rcases hs.owned b (by rwa [← hsame b hbj]) with ⟨k, hk⟩ | ⟨t', task', hb'⟩
        · exact .inl ⟨k, mem_push.mpr (.inl hk)⟩
        · by_cases ht : t' = t
          · subst ht
            rw [hlink] at hb'
            cases hb'
            exact .inl ⟨j, mem_push.mpr (.inr ⟨rfl, rfl⟩)⟩
          · exact .inr ⟨t', task', by rw [← hb']; exact Function.update_of_ne ht ..⟩
    · obtain ⟨n, hn⟩ := hs.finite
      refine ⟨n, fun b hb => ?_⟩
      rw [← hn b hb]
      refine hsame b fun hbj => ?_
      obtain ⟨c, hc⟩ := (hs.queues j).list.live hbj
      exact absurd (hn b hb) (by rw [show s.heap b = some c from hc]; exact Option.some_ne_none c)
  · by_cases hk : k = j
    · subst hk
      simp [hitems, htasks]
    · simp only [Function.update_of_ne hk, hitems]
      exact (tasks_congr fun b hb => by rw [hother k hk b hb]).symm

omit [DecidableEq Tid] in
/-- The critical section of `dequeue` removes the first task. -/
theorem take (h : s.Holds items) {p : Option τ} {ps : List (Option τ)} (hj : items j = p :: ps) :
    ∃ s', s.take j = .ok (p, s') ∧ s'.Holds (Function.update items j ps) ∧
      s'.linking = s.linking := by
  obtain ⟨as, hs, hitems⟩ := h
  cases has : as j with
  | nil =>
    rw [hitems, has] at hj
    cases hj
  | cons a as' =>
    have hinv := hs.queues j
    rw [has] at hinv
    obtain ⟨memory, queue, heap, hok, hlist, htail, htasks, hsame⟩ := dequeue_spec hinv
    change dequeue (s.queue j) s.heap = _ at hok
    change ∀ b, b ≠ a → heap b = s.heap b at hsame
    change tasks s.heap (a :: as') = memory :: tasks heap as' at htasks
    rw [hitems, has, htasks] at hj
    obtain ⟨rfl, rfl⟩ := List.cons.inj hj
    have hfreed : heap a = none := dequeue_frees hok hinv.list.1
    have hmem : ∀ k, k ≠ j → ∀ b ∈ as k, b ≠ a := by
      rintro k hk b hb rfl
      exact hk (hs.disjoint k j b hb (by simp [has]))
    have hpending : Pending s.linking heap as' := hinv.pending.unlink hsame
    refine ⟨{ s with queue := Function.update s.queue j queue, heap := heap },
      by rw [Shared.take, hok], ⟨Function.update as j as', ?_, fun k => ?_⟩, rfl⟩
    · constructor
      · intro k
        by_cases hk : k = j
        · subst hk
          exact ⟨rfl, by simpa [view] using hlist, by simpa [view] using htail,
            by simpa [view] using hpending⟩
        · have hold := hs.queues k
          refine ⟨rfl, ?_, by simpa [view, hk] using hold.tail, ?_⟩
          · simpa [view, hk] using hold.list.congr fun b hb => hsame b (hmem k hk b hb)
          · rw [Function.update_of_ne hk]
            exact ⟨hpending.cell, hold.pending.outside, hpending.owner⟩
      · intro k l b hk hl
        exact hs.disjoint k l b (mem_of_mem_pop has hk) (mem_of_mem_pop has hl)
      · intro b hb
        have hba : b ≠ a := by
          rintro rfl
          exact hb hfreed
        refine (hs.owned b (by rwa [← hsame b hba])).imp_left ?_
        rintro ⟨k, hk⟩
        refine ⟨k, ?_⟩
        by_cases hkj : k = j
        · subst hkj
          simpa [has, hba] using hk
        · rwa [Function.update_of_ne hkj]
      · obtain ⟨n, hn⟩ := hs.finite
        refine ⟨n, fun b hb => ?_⟩
        by_cases hba : b = a
        · rw [hba]
          exact hfreed
        · exact (hsame b hba).trans (hn b hb)
    · by_cases hk : k = j
      · subst hk
        simp
      · simp only [Function.update_of_ne hk, hitems]
        exact (tasks_congr fun b hb => by rw [hsame b (hmem k hk b hb)]).symm

omit [DecidableEq Tid] in
/-- With the queues empty and no thread inside `enqueue`, every node has been freed. -/
theorem heap_eq_none (h : s.Holds items) (hitems : ∀ j, items j = [])
    (hlinking : ∀ t, s.linking t = none) (a : Addr) : s.heap a = none := by
  by_contra hlive
  have hempty : ∀ j, (s.queue j).head = none := fun j => h.head_eq_none.mpr (hitems j)
  obtain ⟨as, hs, -⟩ := h
  rcases hs.owned a hlive with ⟨j, ha⟩ | ⟨t, task, ht⟩
  · have has : as j = [] := (hs.queues j).list.ptr_eq_none_iff.mp (hempty j)
    rw [has] at ha
    cases ha
  · rw [hlinking] at ht
    cases ht

end Holds

end Shared

end ChatOnC.TaskQueue
