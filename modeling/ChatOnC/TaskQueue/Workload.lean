import ChatOnC.Common.Termination
import ChatOnC.TaskQueue.WakeUp
import Mathlib.Algebra.Order.BigOperators.Group.Finset
import Mathlib.Data.Multiset.AddSub

/-!
# Threads with a given amount of work

A finite number of threads on one queue. Each of them has a list of tasks to enqueue and,
behind that, a number of times to dequeue; the steps of a call are those of `Threads`, and
signals wake whom they like, but at least one thread if one is blocked.

* `workInv_step`: what is known of the nodes in hand, and the books: every task is still to
  be enqueued, in the hands of a thread or in the queue's history, and every `dequeue` is
  still to be called, under way or in that history.
* `effort_lt`: a step that is no spurious wake-up is one step less to make.
* `workload_ends`: every run ends, with every task enqueued once and as many of them
  dequeued as was asked for, in order; all calls have returned if and only if there were
  enough tasks.
-/

namespace ChatOnC.TaskQueue

open ChatOnC.Common

/-! ## The model -/

/-- The threads, and what each of them has not begun to do yet. -/
structure Workload (Tid τ : Type*) where
  threads : Threads Tid τ
  tasks : Tid → List (Option τ)
  wants : Tid → ℕ

/-- A step: a thread begins its next `enqueue`, `malloc` returning `a`, or its next
    `dequeue`, or goes on with a call. -/
inductive WorkAct (Tid τ : Type*)
  | enqueue (t : Tid) (a : Addr)
  | dequeue (t : Tid)
  | within (act : ThreadAct Tid τ)

/-- The step begins a call. -/
def ThreadAct.begins {Tid τ : Type*} : ThreadAct Tid τ → Bool
  | .malloc _ _ _ | .lockDequeue _ => true
  | _ => false

variable {Tid τ : Type*} [DecidableEq Tid]

/-- One step. -/
def Workload.step : WorkAct Tid τ → Workload Tid τ → Option (Workload Tid τ)
  | .enqueue t a, s =>
    match s.tasks t with
    | [] => none
    | task :: rest =>
      (Threads.step (.malloc t a task) s.threads).map fun threads =>
        { threads := threads, tasks := Function.update s.tasks t rest, wants := s.wants }
  | .dequeue t, s =>
    match s.tasks t, s.wants t with
    | [], n + 1 =>
      (Threads.step (.lockDequeue t) s.threads).map fun threads =>
        { threads := threads, tasks := s.tasks, wants := Function.update s.wants t n }
    | _, _ => none
  | .within act, s =>
    if act.begins then none
    else (Threads.step act s.threads).map fun threads => { s with threads := threads }

/-- Threads with this work, on the queue of `createQueue`. -/
def workload (tasks : Tid → List (Option τ)) (wants : Tid → ℕ) :
    System (Workload Tid τ) (WorkAct Tid τ) where
  init := { threads := (Threads.system Tid τ).init, tasks := tasks, wants := wants }
  step := Workload.step

/-- No thread is woken without a signal. -/
def NoSpurious (act : WorkAct Tid τ) (_ : Workload Tid τ) : Prop :=
  match act with
  | .within (.spurious _) => False
  | _ => True

/-! ## The steps of the queue -/

variable {b b' : State Tid τ} {t : Tid} {a : Addr} {task : Option τ} {q q' : Fifo (Option τ)}

theorem mallocStep_eq_some (h : mallocStep b t a task = some b') :
    b'.linking t = some (a, task) ∧ b'.enqueued = b.enqueued ∧ b'.dequeued = b.dequeued ∧
      ∀ c ≠ a, b'.heap c = b.heap c := by
  unfold mallocStep at h
  split_ifs at h
  cases h
  exact ⟨Function.update_self .., rfl, rfl, fun c hc => Function.update_of_ne hc _ _⟩

omit [DecidableEq Tid] in
theorem heap_of_enqueue {queue queue' : Queue} {heap heap' : Heap τ}
    (h : enqueue queue heap a = .ok (queue', heap')) {c : Addr} (hc : heap c = none) :
    heap' c = none := by
  unfold enqueue at h
  split at h
  · cases h
    exact hc
  · unfold load store at h
    cases hlast : queue.tail with
    | none => simp [hlast, bind, Except.bind] at h
    | some last =>
      cases hnode : heap last with
      | none => simp [hlast, hnode, bind, Except.bind] at h
      | some node =>
        simp only [hlast, hnode, bind, Except.bind, Except.ok.injEq, Prod.mk.injEq] at h
        obtain ⟨-, rfl⟩ := h
        have hne : c ≠ last := by
          rintro rfl
          rw [hc] at hnode
          cases hnode
        rw [Function.update_of_ne hne, hc]

/-- The node in hand goes to the end of the queue. -/
theorem enqueueStep_eq_some (hrep : Represents b' q') (h : enqueueStep b t = some b') :
    ∃ a task, b.linking t = some (a, task) ∧ b'.enqueued = b.enqueued ++ [task] ∧
      b'.dequeued = b.dequeued ∧ ∀ c, b.heap c = none → b'.heap c = none := by
  unfold enqueueStep at h
  cases hlink : b.linking t with
  | none =>
    rw [hlink] at h
    cases h
  | some p =>
    obtain ⟨node, task⟩ := p
    simp only [hlink] at h
    cases hq : enqueue b.queue b.heap node with
    | error e =>
      obtain ⟨⟨as, hinv, -⟩, -⟩ := hrep
      have hnone := hinv.noFault
      rw [hq] at h
      cases h
      cases hnone
    | ok r =>
      obtain ⟨queue, heap⟩ := r
      rw [hq] at h
      cases h
      exact ⟨node, task, rfl, rfl, rfl, fun c hc => heap_of_enqueue hq hc⟩

omit [DecidableEq Tid] in
theorem heap_of_dequeue {queue queue' : Queue} {heap heap' : Heap τ} {memory : Option τ}
    (h : dequeue queue heap = .ok (memory, queue', heap')) {c : Addr} (hc : heap c = none) :
    heap' c = none := by
  unfold dequeue load free at h
  cases hhead : queue.head with
  | none => simp [hhead, bind, Except.bind] at h
  | some first =>
    cases hnode : heap first with
    | none => simp [hhead, hnode, bind, Except.bind] at h
    | some node =>
      simp only [hhead, hnode, bind, Except.bind, Except.ok.injEq, Prod.mk.injEq] at h
      obtain ⟨-, -, rfl⟩ := h
      by_cases heq : c = first
      · rw [heq, Function.update_self]
      · rw [Function.update_of_ne heq, hc]

omit [DecidableEq Tid] in
/-- Behind its wait loop a `dequeue` takes one item. -/
theorem takeStep_eq_some (hrep : Represents (takeStep b) q') :
    (takeStep b).enqueued = b.enqueued ∧
      (takeStep b).dequeued.length = b.dequeued.length + 1 ∧
      ∀ c, b.heap c = none → (takeStep b).heap c = none := by
  obtain ⟨⟨as, hinv, -⟩, -⟩ := hrep
  have hnone := hinv.noFault
  unfold takeStep at hnone ⊢
  cases hq : dequeue b.queue b.heap with
  | error e =>
    rw [hq] at hnone
    cases hnone
  | ok r =>
    obtain ⟨memory, queue, heap⟩ := r
    refine ⟨rfl, ?_, fun c hc => heap_of_dequeue hq hc⟩
    simp

theorem Threads.call_eq_none {s : Threads Tid τ} {pc pc' : Pc} {monitor : Option (Monitor Tid)}
    (h : s.call t pc pc' monitor = none) (hpc : s.pc t = pc) : monitor = none := by
  rw [Threads.call, if_pos hpc] at h
  exact Option.map_eq_none_iff.mp h

theorem Threads.access_eq_none {s : Threads Tid τ} {pc pc' : Pc} {base : Option (State Tid τ)}
    (h : s.access t pc pc' base = none) (hpc : s.pc t = pc) : base = none := by
  rw [Threads.access, if_pos hpc] at h
  exact Option.map_eq_none_iff.mp h

theorem mallocStep_ne_none (hlink : b.linking t = none) (hfree : b.heap a = none) :
    mallocStep b t a task ≠ none := by
  simp [mallocStep, hlink, hfree]

theorem enqueueStep_ne_none (hlink : (b.linking t).isSome) : enqueueStep b t ≠ none := by
  obtain ⟨⟨node, task⟩, hp⟩ := Option.isSome_iff_exists.mp hlink
  unfold enqueueStep
  simp only [hp]
  cases enqueue b.queue b.heap node with
  | error e => exact Option.some_ne_none _
  | ok r => exact Option.some_ne_none _

/-! ## The books -/

/-- A `dequeue` is under way that has not taken its item. -/
def Pc.wanting : Pc → ℕ
  | .test | .wait | .waiting | .take => 1
  | _ => 0

/-- What a thread has still to enqueue, the task in hand included. -/
def Workload.owed (s : Workload Tid τ) (t : Tid) : List (Option τ) :=
  ((s.threads.base.linking t).map Prod.snd).toList ++ s.tasks t

/-- How often a thread has still to take an item. -/
def Workload.due (s : Workload Tid τ) (t : Tid) : ℕ := s.wants t + (s.threads.pc t).wanting

variable [Fintype Tid]

/-- The invariant of threads that began with this work. -/
structure WorkInv (tasks : Tid → List (Option τ)) (wants : Tid → ℕ) (s : Workload Tid τ) :
    Prop where
  wake : ∃ q, WakeInv s.threads q
  inHand : ∀ t, s.threads.pc t = .allocated ∨ s.threads.pc t = .link →
    (s.threads.base.linking t).isSome
  room : ∃ n, ∀ a ≥ n, s.threads.base.heap a = none
  tasksFirst : ∀ t, 0 < (s.threads.pc t).wanting → s.tasks t = []
  enqueues : (∑ t, ↑(s.owed t) + ↑s.threads.base.enqueued : Multiset (Option τ)) = ∑ t, ↑(tasks t)
  order : ∀ t, ∃ done, tasks t = done ++ s.owed t ∧ done.Sublist s.threads.base.enqueued
  dequeues : ∑ t, s.due t + s.threads.base.dequeued.length = ∑ t, wants t

variable {tasks tasks' : Tid → List (Option τ)} {wants wants' : Tid → ℕ} {s s' : Workload Tid τ}
  {pc pc' : Pc} {base : State Tid τ} {m : Monitor Tid}

theorem workInv_init : WorkInv tasks wants (workload tasks wants).init where
  wake := ⟨_, wakeInv_init⟩
  inHand := by
    rintro t (hpc | hpc)
    · cases hpc
    · cases hpc
  room := ⟨0, fun _ _ => rfl⟩
  tasksFirst := nofun
  enqueues := add_zero _
  order := fun t => ⟨[], rfl, List.nil_sublist _⟩
  dequeues := rfl

/-- A step of one thread leaves the books of the others as they are. -/
theorem WorkInv.move (h : WorkInv tasks wants s)
    (hwake : ∃ q, WakeInv (s.threads.move t pc' base m) q)
    (hinHand : pc' = .allocated ∨ pc' = .link → (base.linking t).isSome)
    (hlinks : ∀ u, u ≠ t → base.linking u = s.threads.base.linking u)
    (hroom : ∃ c, ∀ a ≠ c, s.threads.base.heap a = none → base.heap a = none)
    (hothers : ∀ u, u ≠ t → tasks' u = s.tasks u ∧ wants' u = s.wants u)
    (hfirst : 0 < pc'.wanting → tasks' t = [])
    (henqueue : ∃ l, s.owed t = l ++ ((base.linking t).map Prod.snd).toList ++ tasks' t ∧
      base.enqueued = s.threads.base.enqueued ++ l)
    (hdequeue : wants' t + pc'.wanting + base.dequeued.length =
      s.due t + s.threads.base.dequeued.length) :
    WorkInv tasks wants ⟨s.threads.move t pc' base m, tasks', wants'⟩ := by
  have hself : (s.threads.move t pc' base m).pc t = pc' := Function.update_self ..
  have hne : ∀ u, u ≠ t → (s.threads.move t pc' base m).pc u = s.threads.pc u :=
    fun u hu => Function.update_of_ne hu _ _
  obtain ⟨l, howed, henqueued⟩ := henqueue
  rw [List.append_assoc] at howed
  have howes : ∀ u, u ≠ t → ((base.linking u).map Prod.snd).toList ++ tasks' u = s.owed u := by
    intro u hu
    rw [hlinks u hu, (hothers u hu).1]
    rfl
  refine ⟨hwake, fun u hpc => ?_, ?_, fun u hpc => ?_, ?_, fun u => ?_, ?_⟩
  · by_cases hu : u = t
    · subst hu
      rw [hself] at hpc
      exact hinHand hpc
    · rw [hne u hu] at hpc
      show (base.linking u).isSome
      rw [hlinks u hu]
      exact h.inHand u hpc
  · obtain ⟨n, hn⟩ := h.room
    obtain ⟨c, hc⟩ := hroom
    refine ⟨max n (c + 1), fun a ha => hc a ?_ (hn a (le_of_max_le_left ha))⟩
    exact Nat.ne_of_gt (le_of_max_le_right ha)
  · by_cases hu : u = t
    · subst hu
      rw [hself] at hpc
      exact hfirst hpc
    · rw [hne u hu] at hpc
      exact (hothers u hu).1.trans (h.tasksFirst u hpc)
  · have hsum := System.sum_add_of_one (Finset.mem_univ t)
      (f := fun u => (↑(((base.linking u).map Prod.snd).toList ++ tasks' u) :
        Multiset (Option τ)))
      (g := fun u => ↑(s.owed u)) fun u _ hu => congrArg _ (howes u hu)
    rw [howed, ← Multiset.coe_add, ← add_assoc] at hsum
    show _ + (↑base.enqueued : Multiset (Option τ)) = _
    rw [← h.enqueues, ← add_right_cancel hsum, henqueued, ← Multiset.coe_add, add_assoc,
      add_comm (↑l : Multiset (Option τ))]
    rfl
  · obtain ⟨done, hdone, hsub⟩ := h.order u
    by_cases hu : u = t
    · subst hu
      refine ⟨done ++ l, ?_, ?_⟩
      · rw [hdone, howed, List.append_assoc]
        rfl
      · exact henqueued ▸ hsub.append_right l
    · refine ⟨done, ?_, hsub.trans (henqueued ▸ List.sublist_append_left _ l)⟩
      rw [hdone, ← howes u hu]
      rfl
  · have hsum := System.sum_add_of_one (Finset.mem_univ t)
      (f := (⟨s.threads.move t pc' base m, tasks', wants'⟩ : Workload Tid τ).due)
      (g := s.due) fun u _ hu => by
        show wants' u + ((s.threads.move t pc' base m).pc u).wanting = s.due u
        rw [(hothers u hu).2, hne u hu]
        rfl
    have hdue : (⟨s.threads.move t pc' base m, tasks', wants'⟩ : Workload Tid τ).due t =
        wants' t + pc'.wanting := by
      rw [Workload.due, hself]
    rw [hdue] at hsum
    have hbooks := h.dequeues
    show _ + base.dequeued.length = _
    omega

/-- A call on the mutex or the condition variable, and the test of `head`, leave the queue and
    the nodes alone. -/
theorem WorkInv.call (h : WorkInv tasks wants s)
    (hwake : ∃ q, WakeInv (s.threads.move t pc' s.threads.base m) q) (hpc : s.threads.pc t = pc)
    (hinHand : pc' = .allocated ∨ pc' = .link → pc = .allocated ∨ pc = .link)
    (hwanting : pc'.wanting = pc.wanting) :
    WorkInv tasks wants { s with threads := s.threads.move t pc' s.threads.base m } := by
  apply h.move hwake
  · exact fun hin => h.inHand t (hpc ▸ hinHand hin)
  · exact fun _ _ => rfl
  · exact ⟨0, fun _ _ ha => ha⟩
  · exact fun _ _ => ⟨rfl, rfl⟩
  · intro hpos
    apply h.tasksFirst t
    rw [hpc, ← hwanting]
    exact hpos
  · exact ⟨[], rfl, (List.append_nil _).symm⟩
  · rw [Workload.due, hpc, hwanting]

/-- **Step lemma.** -/
theorem workInv_step {act : WorkAct Tid τ} (h : WorkInv tasks wants s)
    (hs : s.step act = some s') : WorkInv tasks wants s' := by
  obtain ⟨q, hq⟩ := h.wake
  cases act with
  | enqueue t a =>
    simp only [Workload.step] at hs
    split at hs
    · cases hs
    · rename_i task rest htasks
      obtain ⟨threads, hstep, rfl⟩ := Option.map_eq_some_iff.mp hs
      have hwake := wakeInv_step hq hstep
      obtain ⟨hpc, base, hbase, rfl⟩ := Threads.access_eq_some hstep
      obtain ⟨hlink, henqueued, hdequeued, hheap⟩ := mallocStep_eq_some hbase
      have hnone : s.threads.base.linking t = none :=
        hq.linking_eq_none hpc (by decide) (by decide)
      apply h.move hwake
      · exact fun _ => by rw [hlink]; rfl
      · exact fun u hu => mallocStep_linking hbase hu
      · exact ⟨a, fun c hc hfree => (hheap c hc).trans hfree⟩
      · exact fun u hu => ⟨Function.update_of_ne hu _ _, rfl⟩
      · nofun
      · refine ⟨[], ?_, by rw [henqueued, List.append_nil]⟩
        rw [Workload.owed, hnone, htasks, hlink, Function.update_self]
        rfl
      · rw [Workload.due, hpc, hdequeued]
        rfl
  | dequeue t =>
    simp only [Workload.step] at hs
    split at hs
    · rename_i n htasks hwants
      obtain ⟨threads, hstep, rfl⟩ := Option.map_eq_some_iff.mp hs
      have hwake := wakeInv_step hq hstep
      obtain ⟨hpc, m, -, rfl⟩ := Threads.call_eq_some hstep
      apply h.move hwake
      · simp
      · exact fun _ _ => rfl
      · exact ⟨0, fun _ _ ha => ha⟩
      · exact fun u hu => ⟨rfl, Function.update_of_ne hu _ _⟩
      · exact fun _ => htasks
      · exact ⟨[], rfl, (List.append_nil _).symm⟩
      · rw [Function.update_self, Workload.due, hpc, hwants]
        rfl
    · cases hs
  | within act =>
    simp only [Workload.step] at hs
    split_ifs at hs with hbegins
    obtain ⟨threads, hstep, rfl⟩ := Option.map_eq_some_iff.mp hs
    have hwake := wakeInv_step hq hstep
    cases act with
    | malloc t a task | lockDequeue t => exact absurd rfl hbegins
    | lockEnqueue t =>
      obtain ⟨hpc, m, -, rfl⟩ := Threads.call_eq_some hstep
      exact h.call hwake hpc (fun _ => .inl rfl) rfl
    | signal t awake =>
      obtain ⟨hpc, m, -, rfl⟩ := Threads.call_eq_some hstep
      exact h.call hwake hpc (by simp) rfl
    | wait t =>
      obtain ⟨hpc, m, -, rfl⟩ := Threads.call_eq_some hstep
      exact h.call hwake hpc (by simp) rfl
    | spurious t =>
      obtain ⟨hpc, m, -, rfl⟩ := Threads.call_eq_some hstep
      exact h.call hwake hpc (by simp) rfl
    | reacquire t =>
      obtain ⟨hpc, m, -, rfl⟩ := Threads.call_eq_some hstep
      exact h.call hwake hpc (by simp) rfl
    | unlock t =>
      obtain ⟨hpc, m, -, rfl⟩ := Threads.call_eq_some hstep
      exact h.call hwake hpc (by simp) rfl
    | test t =>
      obtain ⟨hpc, base, hbase, rfl⟩ := Threads.access_eq_some hstep
      cases hbase
      apply h.call hwake hpc
      · split_ifs
        · simp
        · simp
      · split_ifs
        · rfl
        · rfl
    | link t =>
      obtain ⟨hpc, base, hbase, rfl⟩ := Threads.access_eq_some hstep
      obtain ⟨q', hq'⟩ := hwake
      have hrep : Represents base q' := hq'.represents
      obtain ⟨a, task, hlink, henqueued, hdequeued, hheap⟩ := enqueueStep_eq_some hrep hbase
      obtain ⟨hnone, hlinks⟩ := enqueueStep_linking hrep hbase
      apply h.move ⟨q', hq'⟩
      · simp
      · exact hlinks
      · exact ⟨0, fun c _ hc => hheap c hc⟩
      · exact fun _ _ => ⟨rfl, rfl⟩
      · nofun
      · refine ⟨[task], ?_, henqueued⟩
        rw [Workload.owed, hlink, hnone]
        rfl
      · rw [Workload.due, hpc, hdequeued]
        rfl
    | take t =>
      obtain ⟨hpc, base, hbase, rfl⟩ := Threads.access_eq_some hstep
      cases hbase
      obtain ⟨q', hq'⟩ := hwake
      have hrep : Represents (takeStep s.threads.base) q' := hq'.represents
      obtain ⟨henqueued, hdequeued, hheap⟩ := takeStep_eq_some hrep
      apply h.move ⟨q', hq'⟩
      · simp
      · exact fun u _ => by rw [takeStep_linking]
      · exact ⟨0, fun c _ hc => hheap c hc⟩
      · exact fun _ _ => ⟨rfl, rfl⟩
      · nofun
      · refine ⟨[], ?_, by rw [henqueued, List.append_nil]⟩
        rw [takeStep_linking]
        rfl
      · rw [Workload.due, hpc, hdequeued]
        simp only [Pc.wanting]
        omega

/-! ## The steps still to make -/

/-- The steps to the end of a call in the worst case, a signal counted with the wake-ups it
    causes among `n` threads. -/
def Pc.effort (n : ℕ) (woken : Bool) : Pc → ℕ
  | .outside => 0
  | .unlock => 1
  | .take => 2
  | .wait => 3
  | .test => 4
  | .waiting => if woken then 5 else 2
  | .signal => 3 * n + 2
  | .link => 3 * n + 3
  | .allocated => 3 * n + 4

theorem Pc.effort_le (n : ℕ) (woken woken' : Bool) (pc : Pc) :
    pc.effort n woken ≤ pc.effort n woken' + 3 := by
  cases pc <;> cases woken <;> cases woken' <;> simp [Pc.effort]

/-- What a thread has before it. -/
def Workload.effort (s : Workload Tid τ) (t : Tid) : ℕ :=
  (3 * Fintype.card Tid + 5) * (s.tasks t).length + 5 * s.wants t +
    (s.threads.pc t).effort (Fintype.card Tid) (decide (t ∈ s.threads.monitor.woken))

theorem Workload.effort_self :
    (⟨s.threads.move t pc' base m, tasks', wants'⟩ : Workload Tid τ).effort t =
      (3 * Fintype.card Tid + 5) * (tasks' t).length + 5 * wants' t +
        pc'.effort (Fintype.card Tid) (decide (t ∈ m.woken)) := by
  show _ + (Function.update s.threads.pc t pc' t).effort _ _ = _
  rw [Function.update_self]
  rfl

/-- A step that wakes no other thread. -/
theorem effort_lt_of_move
    (hothers : ∀ u, u ≠ t → tasks' u = s.tasks u ∧ wants' u = s.wants u)
    (hwoken : ∀ u, u ≠ t → (u ∈ m.woken ↔ u ∈ s.threads.monitor.woken))
    (hlt : (3 * Fintype.card Tid + 5) * (tasks' t).length + 5 * wants' t +
      pc'.effort (Fintype.card Tid) (decide (t ∈ m.woken)) < s.effort t) :
    ∑ u, (⟨s.threads.move t pc' base m, tasks', wants'⟩ : Workload Tid τ).effort u <
      ∑ u, s.effort u := by
  apply System.sum_lt_of_one (Finset.mem_univ t)
  · intro u _ hu
    simp only [Workload.effort, Threads.move, Function.update_of_ne hu, (hothers u hu).1,
      (hothers u hu).2, hwoken u hu]
  · rw [Workload.effort_self]
    exact hlt

/-- A step within a call. -/
theorem effort_lt_within (hpc : s.threads.pc t = pc)
    (hwoken : ∀ u, u ≠ t → (u ∈ m.woken ↔ u ∈ s.threads.monitor.woken))
    (hlt : pc'.effort (Fintype.card Tid) (decide (t ∈ m.woken)) <
      pc.effort (Fintype.card Tid) (decide (t ∈ s.threads.monitor.woken))) :
    ∑ u, ({ s with threads := s.threads.move t pc' base m } : Workload Tid τ).effort u <
      ∑ u, s.effort u := by
  apply effort_lt_of_move (fun _ _ => ⟨rfl, rfl⟩) hwoken
  rw [Workload.effort, hpc]
  omega

/-- A step that is no spurious wake-up is one step less to make. -/
theorem effort_lt {act : WorkAct Tid τ} (h : WorkInv tasks wants s) (hact : NoSpurious act s)
    (hs : s.step act = some s') : ∑ u, s'.effort u < ∑ u, s.effort u := by
  obtain ⟨q, hq⟩ := h.wake
  cases act with
  | enqueue t a =>
    simp only [Workload.step] at hs
    split at hs
    · cases hs
    · rename_i task rest htasks
      obtain ⟨threads, hstep, rfl⟩ := Option.map_eq_some_iff.mp hs
      obtain ⟨hpc, base, -, rfl⟩ := Threads.access_eq_some hstep
      apply effort_lt_of_move
      · exact fun u hu => ⟨Function.update_of_ne hu _ _, rfl⟩
      · exact fun _ _ => Iff.rfl
      · rw [Workload.effort, hpc, htasks, Function.update_self, List.length_cons, Nat.mul_succ]
        simp only [Pc.effort]
        omega
  | dequeue t =>
    simp only [Workload.step] at hs
    split at hs
    · rename_i n htasks hwants
      obtain ⟨threads, hstep, rfl⟩ := Option.map_eq_some_iff.mp hs
      obtain ⟨hpc, m, hm, rfl⟩ := Threads.call_eq_some hstep
      obtain ⟨-, -, -, hwoken⟩ := Monitor.lock_eq_some hm
      apply effort_lt_of_move
      · exact fun u hu => ⟨rfl, Function.update_of_ne hu _ _⟩
      · exact fun u _ => by rw [hwoken]
      · rw [Workload.effort, hpc, hwants, Function.update_self]
        simp only [Pc.effort]
        omega
    · cases hs
  | within act =>
    simp only [Workload.step] at hs
    split_ifs at hs with hbegins
    obtain ⟨threads, hstep, rfl⟩ := Option.map_eq_some_iff.mp hs
    cases act with
    | malloc t a task | lockDequeue t => exact absurd rfl hbegins
    | spurious t => exact absurd hact id
    | lockEnqueue t =>
      obtain ⟨hpc, m, hm, rfl⟩ := Threads.call_eq_some hstep
      obtain ⟨-, -, -, hwoken⟩ := Monitor.lock_eq_some hm
      exact effort_lt_within hpc (fun u _ => by rw [hwoken]) (by simp [Pc.effort])
    | signal t awake =>
      obtain ⟨hpc, m, hm, rfl⟩ := Threads.call_eq_some hstep
      -- each of the others may be woken, which gives it at most three more steps to make
      apply System.sum_lt_of_raise (Finset.mem_univ t) (c := 3)
      · intro u _ hu
        have hle := Pc.effort_le (Fintype.card Tid) (decide (u ∈ m.woken))
          (decide (u ∈ s.threads.monitor.woken)) (s.threads.pc u)
        show _ + (Function.update s.threads.pc t .unlock u).effort _ _ ≤ s.effort u + 3
        rw [Function.update_of_ne hu, Workload.effort]
        exact Nat.add_le_add_left hle _
      · rw [Workload.effort_self, Workload.effort, hpc, Finset.card_univ]
        simp only [Pc.effort]
        omega
    | wait t =>
      obtain ⟨hpc, m, hm, rfl⟩ := Threads.call_eq_some hstep
      obtain ⟨hheld, -, -, hwoken⟩ := Monitor.wait_eq_some hm
      have hnot := (s.threads.monitor.running t hheld).2
      apply effort_lt_within hpc
      · exact fun u _ => by rw [hwoken]
      · rw [hwoken]
        simp [Pc.effort, hnot]
    | reacquire t =>
      obtain ⟨hpc, m, hm, rfl⟩ := Threads.call_eq_some hstep
      obtain ⟨-, hmem, -, -, hwoken⟩ := Monitor.reacquire_eq_some hm
      apply effort_lt_within hpc
      · intro u hu
        rw [hwoken, Finset.mem_erase, and_iff_right hu]
      · simp [Pc.effort, hmem]
    | unlock t =>
      obtain ⟨hpc, m, hm, rfl⟩ := Threads.call_eq_some hstep
      obtain ⟨-, -, -, hwoken⟩ := Monitor.unlock_eq_some hm
      exact effort_lt_within hpc (fun u _ => by rw [hwoken]) (by simp [Pc.effort])
    | test t =>
      obtain ⟨hpc, base, -, rfl⟩ := Threads.access_eq_some hstep
      apply effort_lt_within hpc (fun _ _ => Iff.rfl)
      split_ifs
      · simp [Pc.effort]
      · simp [Pc.effort]
    | link t =>
      obtain ⟨hpc, base, -, rfl⟩ := Threads.access_eq_some hstep
      exact effort_lt_within hpc (fun _ _ => Iff.rfl) (by simp [Pc.effort])
    | take t =>
      obtain ⟨hpc, base, -, rfl⟩ := Threads.access_eq_some hstep
      exact effort_lt_within hpc (fun _ _ => Iff.rfl) (by simp [Pc.effort])

/-! ## Where the threads come to a stop -/

namespace WorkInv

omit [Fintype Tid] in
/-- No thread can make a step within its call. -/
theorem stuck_within (hstuck : (workload tasks wants).Stuck NoSpurious s) (act : ThreadAct Tid τ)
    (hbegins : act.begins = false) (hact : NoSpurious (.within act) s) :
    Threads.step act s.threads = none := by
  have hnone := hstuck (.within act) hact
  simp only [workload, Workload.step, hbegins, Bool.false_eq_true, if_false] at hnone
  exact Option.map_eq_none_iff.mp hnone

/-- A thread with the mutex can always go on. -/
theorem holder_eq_none (h : WorkInv tasks wants s)
    (hstuck : (workload tasks wants).Stuck NoSpurious s) :
    s.threads.monitor.holder = none := by
  obtain ⟨q, hq⟩ := h.wake
  by_contra hne
  obtain ⟨t, ht⟩ := Option.ne_none_iff_exists'.mp hne
  have hin := (hq.placed.holder t).mp ht
  cases hpc : s.threads.pc t with
  | outside | allocated | waiting =>
    rw [hpc] at hin
    cases hin
  | link =>
    have hnone := Threads.access_eq_none (stuck_within hstuck (.link t) rfl trivial) hpc
    exact enqueueStep_ne_none (h.inHand t (.inr hpc)) hnone
  | signal =>
    have hnone := Threads.call_eq_none
      (stuck_within hstuck (.signal t s.threads.monitor.blocked) rfl trivial) hpc
    simp [Monitor.signal, Classical.em] at hnone
  | test =>
    cases Threads.access_eq_none (stuck_within hstuck (.test t) rfl trivial) hpc
  | wait =>
    have hnone := Threads.call_eq_none (stuck_within hstuck (.wait t) rfl trivial) hpc
    simp [Monitor.wait, ht] at hnone
  | take =>
    cases Threads.access_eq_none (stuck_within hstuck (.take t) rfl trivial) hpc
  | unlock =>
    have hnone := Threads.call_eq_none (stuck_within hstuck (.unlock t) rfl trivial) hpc
    simp [Monitor.unlock, ht] at hnone

/-- A thread between two calls has no more to make. -/
theorem done_of_outside (h : WorkInv tasks wants s)
    (hstuck : (workload tasks wants).Stuck NoSpurious s) (hpc : s.threads.pc t = .outside) :
    s.tasks t = [] ∧ s.wants t = 0 := by
  obtain ⟨q, hq⟩ := h.wake
  have htasks : s.tasks t = [] := by
    cases htasks : s.tasks t with
    | nil => rfl
    | cons task rest =>
      obtain ⟨n, hn⟩ := h.room
      have hnone := hstuck (.enqueue t n) trivial
      simp only [workload, Workload.step, htasks] at hnone
      have hmalloc := Threads.access_eq_none (Option.map_eq_none_iff.mp hnone) hpc
      exact absurd hmalloc
        (mallocStep_ne_none (hq.linking_eq_none hpc (by decide) (by decide)) (hn n le_rfl))
  refine ⟨htasks, ?_⟩
  cases hwants : s.wants t with
  | zero => rfl
  | succ n =>
    have hnone := hstuck (.dequeue t) trivial
    simp only [workload, Workload.step, htasks, hwants] at hnone
    have hlock := Threads.call_eq_none (Option.map_eq_none_iff.mp hnone) hpc
    have hwaits := not_or.mp (hq.not_waits hpc (by decide))
    simp [Monitor.lock, h.holder_eq_none hstuck, hwaits.1, hwaits.2] at hlock

/-- A thread is between two calls, or blocked. -/
theorem outside_or_blocked (h : WorkInv tasks wants s)
    (hstuck : (workload tasks wants).Stuck NoSpurious s) (t : Tid) :
    s.threads.pc t = .outside ∨
      s.threads.pc t = .waiting ∧ t ∈ s.threads.monitor.blocked := by
  obtain ⟨q, hq⟩ := h.wake
  have hfree := h.holder_eq_none hstuck
  have hout : (s.threads.pc t).inside = false := by
    rw [← Bool.not_eq_true, ← hq.placed.holder t, hfree]
    nofun
  cases hpc : s.threads.pc t with
  | outside => exact .inl rfl
  | link | signal | test | wait | take | unlock =>
    rw [hpc] at hout
    cases hout
  | allocated =>
    have hlock := Threads.call_eq_none
      (stuck_within hstuck (.lockEnqueue t) rfl trivial) hpc
    have hwaits := not_or.mp (hq.not_waits hpc (by decide))
    simp [Monitor.lock, hfree, hwaits.1, hwaits.2] at hlock
  | waiting =>
    refine .inr ⟨rfl, ((hq.placed.waiting t).mpr hpc).resolve_right fun hwoken => ?_⟩
    have hnone := Threads.call_eq_none
      (stuck_within hstuck (.reacquire t) rfl trivial) hpc
    simp [Monitor.reacquire, hfree, hwoken] at hnone

/-- A thread that has stopped has enqueued all its tasks. -/
theorem owed_eq_nil (h : WorkInv tasks wants s)
    (hstuck : (workload tasks wants).Stuck NoSpurious s) (t : Tid) : s.owed t = [] := by
  obtain ⟨q, hq⟩ := h.wake
  rcases h.outside_or_blocked hstuck t with hpc | ⟨hpc, -⟩
  · rw [Workload.owed, hq.linking_eq_none hpc (by decide) (by decide),
      (h.done_of_outside hstuck hpc).1]
    rfl
  · rw [Workload.owed, hq.linking_eq_none hpc (by decide) (by decide),
      h.tasksFirst t (by rw [hpc]; decide)]
    rfl

/-- While a thread is blocked the queue is empty. -/
theorem items_eq_nil (h : WorkInv tasks wants s)
    (hstuck : (workload tasks wants).Stuck NoSpurious s) {q : Fifo (Option τ)}
    (hq : WakeInv s.threads q) (hpc : s.threads.pc t ≠ .outside) : q.items = [] := by
  have hwoken : s.threads.monitor.woken = ∅ := by
    rw [Finset.eq_empty_iff_forall_notMem]
    intro u hu
    have hwaits := (hq.placed.waiting u).mp (.inr hu)
    rcases h.outside_or_blocked hstuck u with hout | ⟨-, hblocked⟩
    · rw [hwaits] at hout
      cases hout
    · exact Finset.disjoint_left.mp s.threads.monitor.disjoint hblocked hu
  obtain ⟨-, hblocked⟩ := (h.outside_or_blocked hstuck t).resolve_left hpc
  have hle := hq.of_free (h.holder_eq_none hstuck) (Finset.ne_empty_of_mem hblocked)
  rw [hwoken, Finset.card_empty] at hle
  exact List.eq_nil_of_length_eq_zero (Nat.le_zero.mp hle)

end WorkInv

/-- All that can be done is done: the tasks of every thread are in the history of the queue,
    each once and those of one thread in their order, and as many of them have been dequeued as
    was asked for, or all; a thread that has not returned is blocked in `dequeue`. -/
structure Over (tasks : Tid → List (Option τ)) (wants : Tid → ℕ) (s : Workload Tid τ) : Prop where
  noFault : s.threads.base.fault = none
  free : s.threads.monitor.holder = none
  enqueued : (↑s.threads.base.enqueued : Multiset (Option τ)) = ∑ t, ↑(tasks t)
  order : ∀ t, (tasks t).Sublist s.threads.base.enqueued
  dequeued : s.threads.base.dequeued = s.threads.base.enqueued.take (∑ t, wants t)
  places : ∀ t, s.threads.pc t = .outside ∧ s.tasks t = [] ∧ s.wants t = 0 ∨
    s.threads.pc t = .waiting ∧ s.tasks t = []
  returned : (∀ t, s.threads.pc t = .outside) ↔ ∑ t, wants t ≤ ∑ t, (tasks t).length

theorem over_of_stuck (h : WorkInv tasks wants s)
    (hstuck : (workload tasks wants).Stuck NoSpurious s) : Over tasks wants s := by
  obtain ⟨q, hq⟩ := h.wake
  obtain ⟨⟨as, hinv, -⟩, henq, hdeq⟩ := hq.represents
  have henqueued : (↑s.threads.base.enqueued : Multiset (Option τ)) = ∑ t, ↑(tasks t) := by
    rw [← h.enqueues, Finset.sum_congr rfl fun t _ => by rw [h.owed_eq_nil hstuck t]]
    simp
  have hlength : s.threads.base.enqueued.length = ∑ t, (tasks t).length := by
    rw [← Multiset.coe_card, henqueued, Multiset.card_sum]
    rfl
  have hbalance : s.threads.base.dequeued ++ q.items = s.threads.base.enqueued := by
    rw [← henq, ← hdeq]
    exact q.balanced
  have hbooks := h.dequeues
  -- the two last fields, by whether a thread is blocked
  have hends : s.threads.base.dequeued = s.threads.base.enqueued.take (∑ t, wants t) ∧
      ((∀ t, s.threads.pc t = .outside) ↔ ∑ t, wants t ≤ ∑ t, (tasks t).length) := by
    by_cases hall : ∀ t, s.threads.pc t = .outside
    · have hdue : ∀ t, s.due t = 0 := by
        intro t
        rw [Workload.due, (h.done_of_outside hstuck (hall t)).2, hall t]
        rfl
      rw [Finset.sum_eq_zero fun t _ => hdue t, Nat.zero_add] at hbooks
      refine ⟨?_, iff_of_true hall ?_⟩
      · rw [← hbooks, ← hbalance, List.take_left]
      · rw [← hbooks, ← hlength, ← hbalance, List.length_append]
        exact Nat.le_add_right _ _
    · obtain ⟨t, ht⟩ := not_forall.mp hall
      have hdue : 1 ≤ s.due t := by
        rw [Workload.due, ((h.outside_or_blocked hstuck t).resolve_left ht).1]
        exact Nat.le_add_left _ _
      have hsum : s.due t ≤ ∑ u, s.due u :=
        Finset.single_le_sum (fun _ _ => Nat.zero_le _) (Finset.mem_univ t)
      rw [h.items_eq_nil hstuck hq ht, List.append_nil] at hbalance
      rw [hbalance] at hbooks ⊢
      refine ⟨(List.take_of_length_le ?_).symm, iff_of_false hall ?_⟩
      · omega
      · omega
  exact
    { noFault := hinv.noFault
      free := h.holder_eq_none hstuck
      enqueued := henqueued
      order := by
        intro t
        obtain ⟨done, hdone, hsub⟩ := h.order t
        rw [hdone, h.owed_eq_nil hstuck t, List.append_nil]
        exact hsub
      dequeued := hends.1
      places := by
        intro t
        rcases h.outside_or_blocked hstuck t with hpc | ⟨hpc, -⟩
        · exact .inl ⟨hpc, h.done_of_outside hstuck hpc⟩
        · exact .inr ⟨hpc, h.tasksFirst t (by rw [hpc]; decide)⟩
      returned := hends.2 }

/-- **Runs end.** -/
theorem workload_ends (tasks : Tid → List (Option τ)) (wants : Tid → ℕ) :
    (workload tasks wants).AlwaysEnds NoSpurious (Over tasks wants) := by
  have hinv : ∀ s, (workload tasks wants).Reach NoSpurious s → WorkInv tasks wants s :=
    fun s hs => hs.invariant workInv_init fun _ _ _ _ h hstep => workInv_step h hstep
  apply System.alwaysEnds_of_measure (fun s => ∑ t, s.effort t) hinv
  · exact fun _ _ _ hact h hstep => effort_lt h hact hstep
  · exact fun _ h hstuck => over_of_stuck h hstuck

end ChatOnC.TaskQueue
