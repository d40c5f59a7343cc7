import ChatOnC.TaskQueue.Refinement
import ChatOnC.TaskQueue.Threads

/-!
# No lost wake-up

While a consumer is blocked, every item in the queue has a woken consumer on its
way to it; inside a critical section one item may be without one: between the
link and the signal of `enqueue`, and between the wake-up and the `dequeue`.

* `Placed`: the program counters agree with the mutex and the condition variable.
* `Counted`: the items against the woken threads, by where the holder stands.
* `wakeInv_reach`: both hold in every reachable state, and the queue is the list
  of tasks of the coarser model.
-/

namespace ChatOnC.TaskQueue

open ChatOnC.Common

variable {Tid τ : Type*}

/-! ## The operations on the queue -/

/-- `head` is null exactly if the queue is empty. -/
theorem Represents.head_isNone {b : State Tid τ} {q : Fifo (Option τ)} (h : Represents b q) :
    b.queue.head.isNone ↔ q.items = [] := by
  obtain ⟨⟨as, hinv, hitems⟩, -⟩ := h
  rw [Option.isNone_iff_eq_none, hinv.list.ptr_eq_none_iff, hitems]
  constructor
  · rintro rfl
    rfl
  · intro hnil
    cases as with
    | nil => rfl
    | cons a as =>
      obtain ⟨c, hc⟩ := hinv.list.live (List.mem_cons_self ..)
      simp [tasks, hc] at hnil

/-- As many items as nodes. -/
theorem Represents.length_eq {b : State Tid τ} {q : Fifo (Option τ)} (h : Represents b q) :
    ∃ as, IsList Node.next b.heap b.queue.head as ∧ q.items.length = as.length := by
  obtain ⟨⟨as, hinv, hitems⟩, -⟩ := h
  refine ⟨as, hinv.list, ?_⟩
  rw [hitems, tasks, List.length_filterMap_eq_countP, List.countP_eq_length]
  intro a ha
  obtain ⟨c, hc⟩ := hinv.list.live ha
  rw [hc]
  rfl

/-- Behind the wait loop `dequeue` is the critical section of the coarser model. -/
theorem takeStep_eq {b : State Tid τ} {q : Fifo (Option τ)} (h : Represents b q)
    (hne : q.items ≠ []) (hlink : b.linking t = none) :
    dequeueStep b t = some (takeStep b) := by
  have hhead : b.queue.head.isSome := by
    rw [Option.isSome_iff_ne_none]
    intro hnone
    exact hne (h.head_isNone.mp (by rw [hnone]; rfl))
  unfold dequeueStep takeStep
  rw [if_pos ⟨by rw [hlink]; rfl, hhead⟩]
  cases dequeue b.queue b.heap <;> rfl

/-! ## The invariant -/

variable {s s' : Threads Tid τ} {t : Tid} {pc pc' : Pc}

/-- The program counters agree with the mutex, the condition variable and the
    nodes in hand. -/
structure Placed (s : Threads Tid τ) : Prop where
  holder : ∀ t, s.monitor.holder = some t ↔ (s.pc t).inside = true
  waiting : ∀ t, s.monitor.Waits t ↔ s.pc t = .waiting
  linking : ∀ t, (s.base.linking t).isSome → s.pc t = .allocated ∨ s.pc t = .link

/-- How many items the holder of the mutex may leave without a woken thread. -/
def Pc.slack : Pc → ℕ
  | .signal | .test | .take => 1
  | _ => 0

theorem Pc.of_slack {pc : Pc} (h : 0 < pc.slack) : pc = .signal ∨ pc = .test ∨ pc = .take := by
  cases pc <;> simp [Pc.slack] at h ⊢

/-- The items, the woken threads and where the holder of the mutex stands. -/
structure Counted (pc : Option Pc) (m : Monitor Tid) (items : List (Option τ)) : Prop where
  covered : m.Covered (pc.elim 0 Pc.slack) items.length
  wait : pc = some .wait → items = []
  take : pc = some .take → items ≠ []

/-- Where nobody is between the test of `head` and what follows it, only the count
    matters. -/
theorem Counted.of_covered {pc : Option Pc} {m : Monitor Tid} {items : List (Option τ)}
    (h : m.Covered (pc.elim 0 Pc.slack) items.length) (hwait : pc ≠ some .wait)
    (htake : pc ≠ some .take) : Counted pc m items :=
  ⟨h, fun hpc => absurd hpc hwait, fun hpc => absurd hpc htake⟩

/-- The invariant of the threads; the queue is `q`. -/
structure WakeInv (s : Threads Tid τ) (q : Fifo (Option τ)) : Prop where
  represents : Represents s.base q
  placed : Placed s
  counted : Counted (s.monitor.holder.map s.pc) s.monitor q.items

namespace WakeInv

variable {q : Fifo (Option τ)}

/-- A thread between its lock and its unlock has the mutex. -/
theorem of_inside (h : WakeInv s q) (hpc : s.pc t = pc) (hin : pc.inside = true) :
    s.monitor.holder = some t ∧ Counted (some pc) s.monitor q.items := by
  have hheld : s.monitor.holder = some t := by rw [h.placed.holder t, hpc, hin]
  have hcounted := h.counted
  rw [hheld, Option.map_some, hpc] at hcounted
  exact ⟨hheld, hcounted⟩

theorem of_free (h : WakeInv s q) (hnone : s.monitor.holder = none) :
    s.monitor.Covered 0 q.items.length := by
  have hcounted := h.counted.covered
  rwa [hnone] at hcounted

theorem linking_eq_none (h : WakeInv s q) (hpc : s.pc t = pc) (halloc : pc ≠ .allocated)
    (hlink : pc ≠ .link) : s.base.linking t = none := by
  by_contra hne
  have hplace := h.placed.linking t (Option.isSome_iff_ne_none.mpr hne)
  rw [hpc] at hplace
  exact hplace.elim halloc hlink

theorem not_waits (h : WakeInv s q) (hpc : s.pc t = pc) (hne : pc ≠ .waiting) :
    ¬s.monitor.Waits t := by
  rw [h.placed.waiting t, hpc]
  exact hne

end WakeInv

/-! ## What a step does to the program counters -/

variable [DecidableEq Tid]

theorem Threads.call_eq_some {monitor : Option (Monitor Tid)}
    (h : s.call t pc pc' monitor = some s') :
    s.pc t = pc ∧ ∃ m, monitor = some m ∧ s' = s.move t pc' s.base m := by
  unfold Threads.call at h
  split_ifs at h with hpc
  obtain ⟨m, hm, rfl⟩ := Option.map_eq_some_iff.mp h
  exact ⟨hpc, m, hm, rfl⟩

theorem Threads.access_eq_some {base : Option (State Tid τ)}
    (h : s.access t pc pc' base = some s') :
    s.pc t = pc ∧ ∃ b, base = some b ∧ s' = s.move t pc' b s.monitor := by
  unfold Threads.access at h
  split_ifs at h with hpc
  obtain ⟨b, hb, rfl⟩ := Option.map_eq_some_iff.mp h
  exact ⟨hpc, b, hb, rfl⟩

/-- A step of one thread leaves the others where they are. -/
theorem Placed.move (h : Placed s) {base : State Tid τ} {m : Monitor Tid}
    (hholder : m.holder = some t ↔ pc.inside = true) (hwaits : m.Waits t ↔ pc = .waiting)
    (hlink : (base.linking t).isSome → pc = .allocated ∨ pc = .link)
    (hothers : ∀ u, u ≠ t → (m.holder = some u ↔ s.monitor.holder = some u) ∧
      (m.Waits u ↔ s.monitor.Waits u) ∧ base.linking u = s.base.linking u) :
    Placed (s.move t pc base m) := by
  have hself : (s.move t pc base m).pc t = pc := Function.update_self ..
  have hne : ∀ u, u ≠ t → (s.move t pc base m).pc u = s.pc u := fun u hu =>
    Function.update_of_ne hu _ _
  refine ⟨fun u => ?_, fun u => ?_, fun u => ?_⟩ <;> by_cases hu : u = t
  · rw [hu, hself]
    exact hholder
  · rw [hne u hu, ← h.holder u]
    exact (hothers u hu).1
  · rw [hu, hself]
    exact hwaits
  · rw [hne u hu, ← h.waiting u]
    exact (hothers u hu).2.1
  · rw [hu, hself]
    exact hlink
  · rw [hne u hu]
    intro hsome
    apply h.linking u
    rwa [← (hothers u hu).2.2]

section Moves

variable {q q' : Fifo (Option τ)} {base : State Tid τ} {m : Monitor Tid}

/-- A step after which the thread holds the mutex. -/
theorem WakeInv.holds (h : WakeInv s q)
    (hbefore : s.monitor.holder = none ∨ s.monitor.holder = some t) (hm : m.holder = some t)
    (hin : pc.inside = true) (hrep : Represents base q')
    (hlink : (base.linking t).isSome → pc = .link)
    (hothers : ∀ u, u ≠ t → (m.Waits u ↔ s.monitor.Waits u) ∧
      base.linking u = s.base.linking u)
    (hcounted : Counted (some pc) m q'.items) : WakeInv (s.move t pc base m) q' where
  represents := hrep
  placed := by
    apply h.placed.move
    · rw [hm, hin]
      simp
    · have hrun := m.running t hm
      refine iff_of_false (fun hw => hw.elim hrun.1 hrun.2) ?_
      rintro rfl
      cases hin
    · exact fun hsome => .inr (hlink hsome)
    · intro u hu
      refine ⟨?_, hothers u hu⟩
      rw [hm]
      rcases hbefore with hb | hb
      · simp [hb, Ne.symm hu]
      · simp [hb, Ne.symm hu]
  counted := by
    show Counted (m.holder.map (Function.update s.pc t pc)) m q'.items
    rw [hm, Option.map_some, Function.update_self]
    exact hcounted

/-- A step in which the thread gives the mutex up. -/
theorem WakeInv.released (h : WakeInv s q) (hheld : s.monitor.holder = some t)
    (hm : m.holder = none) (hin : pc.inside = false) (hwaits : m.Waits t ↔ pc = .waiting)
    (hothers : ∀ u, u ≠ t → (m.Waits u ↔ s.monitor.Waits u))
    (hlink : s.base.linking t = none)
    (hcounted : Counted none m q.items) : WakeInv (s.move t pc s.base m) q where
  represents := h.represents
  placed := by
    apply h.placed.move
    · rw [hm, hin]
      simp
    · exact hwaits
    · intro hsome
      rw [hlink] at hsome
      cases hsome
    · intro u hu
      refine ⟨?_, hothers u hu, rfl⟩
      rw [hm, hheld]
      simp [Ne.symm hu]
  counted := by
    show Counted (m.holder.map _) m q.items
    rw [hm]
    exact hcounted

/-- A step of a thread without the mutex. -/
theorem WakeInv.apart (h : WakeInv s q) (hout : (s.pc t).inside = false)
    (hm : m.holder = s.monitor.holder) (hin : pc.inside = false)
    (hwaits : m.Waits t ↔ pc = .waiting) (hrep : Represents base q)
    (hlink : (base.linking t).isSome → pc = .allocated)
    (hothers : ∀ u, u ≠ t → (m.Waits u ↔ s.monitor.Waits u) ∧
      base.linking u = s.base.linking u)
    (hcovered : ∀ k, s.monitor.Covered k q.items.length → m.Covered k q.items.length) :
    WakeInv (s.move t pc base m) q := by
  have hnot : s.monitor.holder ≠ some t := by
    rw [ne_eq, h.placed.holder t, hout]
    exact Bool.false_ne_true
  have hpcs : m.holder.map (Function.update s.pc t pc) = s.monitor.holder.map s.pc := by
    rw [hm]
    cases hu : s.monitor.holder with
    | none => rfl
    | some u =>
      rw [Option.map_some, Option.map_some, Function.update_of_ne]
      rintro rfl
      exact hnot hu
  refine ⟨hrep, ?_, ?_⟩
  · apply h.placed.move
    · rw [hm, hin]
      simp [hnot]
    · exact hwaits
    · exact fun hsome => .inl (hlink hsome)
    · intro u hu
      exact ⟨by rw [hm], hothers u hu⟩
  · show Counted (m.holder.map (Function.update s.pc t pc)) m q.items
    rw [hpcs]
    exact ⟨hcovered _ h.counted.covered, h.counted.wait, h.counted.take⟩

end Moves

/-! ## The nodes in hand -/

/-- `malloc` gives the thread a node, and the others nothing. -/
theorem mallocStep_linking {b b' : State Tid τ} {a : Addr} {task : Option τ}
    (h : mallocStep b t a task = some b') {u : Tid} (hu : u ≠ t) :
    b'.linking u = b.linking u := by
  unfold mallocStep at h
  split_ifs at h
  cases h
  exact Function.update_of_ne hu _ _

/-- The thread gives its node to the queue. -/
theorem enqueueStep_linking {b b' : State Tid τ} {q : Fifo (Option τ)} (hrep : Represents b' q)
    (h : enqueueStep b t = some b') :
    b'.linking t = none ∧ ∀ u, u ≠ t → b'.linking u = b.linking u := by
  unfold enqueueStep at h
  cases hlink : b.linking t with
  | none =>
    rw [hlink] at h
    cases h
  | some p =>
    obtain ⟨node, task⟩ := p
    simp only [hlink] at h
    cases hq : enqueue b.queue b.heap node with
    | error e =>
      obtain ⟨⟨as, hinv, -⟩, -⟩ := hrep
      have hnone := hinv.noFault
      rw [hq] at h
      cases h
      cases hnone
    | ok r =>
      obtain ⟨queue, heap⟩ := r
      rw [hq] at h
      cases h
      exact ⟨Function.update_self .., fun u hu => Function.update_of_ne hu _ _⟩

omit [DecidableEq Tid] in
theorem takeStep_linking (b : State Tid τ) : (takeStep b).linking = b.linking := by
  unfold takeStep
  cases dequeue b.queue b.heap <;> rfl

/-! ## Every step keeps the invariant -/

theorem wakeInv_init : WakeInv (Threads.system Tid τ).init Fifo.empty where
  represents := ⟨⟨[], inv_init, rfl⟩, rfl, rfl⟩
  placed :=
    { holder := fun t => iff_of_false nofun Bool.false_ne_true
      waiting := fun t => iff_of_false (by simp [Monitor.Waits, Threads.system, Monitor.free]) nofun
      linking := nofun }
  counted :=
    { covered := Monitor.covered_zero _ _
      wait := nofun
      take := nofun }

section Steps

variable {q : Fifo (Option τ)} {m : Monitor Tid}

theorem WakeInv.malloc (h : WakeInv s q) {a : Addr} {task : Option τ} {base : State Tid τ}
    (hpc : s.pc t = .outside) (hb : mallocStep s.base t a task = some base) :
    WakeInv (s.move t .allocated base s.monitor) q := by
  apply h.apart
  · rw [hpc]
    rfl
  · rfl
  · rfl
  · exact iff_of_false (h.not_waits hpc (by decide)) (by decide)
  · exact represents_malloc h.represents hb
  · exact fun _ => rfl
  · exact fun u hu => ⟨Iff.rfl, mallocStep_linking hb hu⟩
  · exact fun k hk => hk

/-- Getting the mutex, before the link or the test. -/
theorem WakeInv.lock (h : WakeInv s q) (hm : s.monitor.lock t = some m) (hin : pc.inside = true)
    (hwait : pc ≠ .wait) (htake : pc ≠ .take)
    (hlink : (s.base.linking t).isSome → pc = .link) : WakeInv (s.move t pc s.base m) q := by
  obtain ⟨hnone, hheld, hblocked, hwoken⟩ := Monitor.lock_eq_some hm
  apply h.holds (.inl hnone) hheld hin h.represents hlink
  · intro u hu
    rw [Monitor.Waits, Monitor.Waits, hblocked, hwoken]
    exact ⟨Iff.rfl, rfl⟩
  · refine ⟨?_, fun heq => absurd (Option.some.inj heq) hwait,
      fun heq => absurd (Option.some.inj heq) htake⟩
    exact ((h.of_free hnone).congr hblocked hwoken).weaken (Nat.zero_le _)

/-- A woken thread goes back to the test, and leaves its item uncovered. -/
theorem WakeInv.reacquire (h : WakeInv s q) (hpc : s.pc t = .waiting)
    (hm : s.monitor.reacquire t = some m) : WakeInv (s.move t .test s.base m) q := by
  obtain ⟨hnone, -, hheld, hblocked, hwoken⟩ := Monitor.reacquire_eq_some hm
  apply h.holds (.inl hnone) hheld rfl h.represents
  · rw [h.linking_eq_none hpc (by decide) (by decide)]
    exact nofun
  · intro u hu
    rw [Monitor.Waits, Monitor.Waits, hblocked, hwoken, Finset.mem_erase, and_iff_right hu]
    exact ⟨Iff.rfl, rfl⟩
  · exact .of_covered ((h.of_free hnone).reacquire hm) (by decide) (by decide)

/-- The link adds an item nobody was woken for. -/
theorem WakeInv.link (h : WakeInv s q) {base : State Tid τ} (hpc : s.pc t = .link)
    (hb : enqueueStep s.base t = some base) :
    ∃ q', WakeInv (s.move t .signal base s.monitor) q' := by
  obtain ⟨task, hrep⟩ := represents_enqueue h.represents hb
  obtain ⟨hnone, hsame⟩ := enqueueStep_linking hrep hb
  obtain ⟨hheld, hcounted⟩ := h.of_inside hpc rfl
  refine ⟨q.enqueue task, h.holds (.inr hheld) hheld rfl hrep ?_ ?_
    (.of_covered ?_ (by decide) (by decide))⟩
  · rw [hnone]
    exact nofun
  · exact fun u hu => ⟨Iff.rfl, hsame u hu⟩
  · rw [Fifo.enqueue_items, List.length_append]
    exact hcounted.covered.put

/-- The signal wakes a thread for it. -/
theorem WakeInv.signal (h : WakeInv s q) {awake : Finset Tid} (hpc : s.pc t = .signal)
    (hm : s.monitor.signal awake = some m) : WakeInv (s.move t .unlock s.base m) q := by
  obtain ⟨hheld, hcounted⟩ := h.of_inside hpc rfl
  have hcovered := hcounted.covered.signal hm
  obtain ⟨hsub, -, rfl⟩ := Monitor.signal_eq_some hm
  have hheld' : (s.monitor.wake awake hsub).holder = some t := hheld
  apply h.holds (.inr hheld) hheld' rfl h.represents
  · rw [h.linking_eq_none hpc (by decide) (by decide)]
    exact nofun
  · exact fun u hu => ⟨Monitor.waits_wake, rfl⟩
  · exact .of_covered hcovered (by decide) (by decide)

/-- The test tells whether there is an item. -/
theorem WakeInv.test (h : WakeInv s q) (hpc : s.pc t = .test) :
    WakeInv (s.move t (if s.base.queue.head.isNone then .wait else .take) s.base s.monitor) q := by
  obtain ⟨hheld, hcounted⟩ := h.of_inside hpc rfl
  have hlink := h.linking_eq_none hpc (by decide) (by decide)
  by_cases hnil : q.items = []
  · rw [if_pos (h.represents.head_isNone.mpr hnil)]
    apply h.holds (.inr hheld) hheld rfl h.represents
    · rw [hlink]
      exact nofun
    · exact fun u hu => ⟨Iff.rfl, rfl⟩
    · refine ⟨?_, fun _ => hnil, nofun⟩
      rw [hnil]
      exact Monitor.covered_zero _ _
  · rw [if_neg (fun hnone => hnil (h.represents.head_isNone.mp hnone))]
    apply h.holds (.inr hheld) hheld rfl h.represents
    · rw [hlink]
      exact nofun
    · exact fun u hu => ⟨Iff.rfl, rfl⟩
    · exact ⟨hcounted.covered, nofun, fun _ => hnil⟩

/-- A thread blocks only on an empty queue. -/
theorem WakeInv.wait (h : WakeInv s q) (hpc : s.pc t = .wait) (hm : s.monitor.wait t = some m) :
    WakeInv (s.move t .waiting s.base m) q := by
  obtain ⟨hheld, hcounted⟩ := h.of_inside hpc rfl
  obtain ⟨-, hnone, hblocked, hwoken⟩ := Monitor.wait_eq_some hm
  apply h.released hheld hnone rfl
  · rw [Monitor.Waits, hblocked]
    exact iff_of_true (.inl (Finset.mem_insert_self t _)) rfl
  · intro u hu
    rw [Monitor.Waits, Monitor.Waits, hblocked, hwoken, Finset.mem_insert, or_iff_right hu]
  · exact h.linking_eq_none hpc (by decide) (by decide)
  · refine .of_covered ?_ (by decide) (by decide)
    rw [hcounted.wait rfl]
    exact Monitor.covered_zero _ _

theorem WakeInv.spurious (h : WakeInv s q) (hpc : s.pc t = .waiting)
    (hm : s.monitor.spurious t = some m) : WakeInv (s.move t .waiting s.base m) q := by
  obtain ⟨hsub, rfl⟩ := Monitor.spurious_eq_some hm
  apply h.apart
  · rw [hpc]
    rfl
  · rfl
  · rfl
  · rw [Monitor.waits_wake, h.placed.waiting t, hpc]
  · exact h.represents
  · rw [h.linking_eq_none hpc (by decide) (by decide)]
    exact nofun
  · exact fun u hu => ⟨Monitor.waits_wake, rfl⟩
  · exact fun k hk => hk.wake hsub

/-- Taking the item settles what the wake-up left uncovered. -/
theorem WakeInv.take (h : WakeInv s q) (hpc : s.pc t = .take) :
    ∃ q', WakeInv (s.move t .unlock (takeStep s.base) s.monitor) q' := by
  obtain ⟨hheld, hcounted⟩ := h.of_inside hpc rfl
  have hlink := h.linking_eq_none hpc (by decide) (by decide)
  obtain ⟨memory, q', hq', hrep⟩ :=
    represents_dequeue h.represents (takeStep_eq h.represents (hcounted.take rfl) hlink)
  obtain ⟨hitems, -, -⟩ := Fifo.dequeue_eq_some hq'
  have hcovered := hcounted.covered
  rw [hitems, List.length_cons] at hcovered
  refine ⟨q', h.holds (.inr hheld) hheld rfl hrep ?_ ?_
    (.of_covered hcovered.take (by decide) (by decide))⟩
  · rw [takeStep_linking, hlink]
    exact nofun
  · exact fun u hu => ⟨Iff.rfl, by rw [takeStep_linking]⟩

theorem WakeInv.unlock (h : WakeInv s q) (hpc : s.pc t = .unlock)
    (hm : s.monitor.unlock t = some m) : WakeInv (s.move t .outside s.base m) q := by
  obtain ⟨hheld, hcounted⟩ := h.of_inside hpc rfl
  obtain ⟨-, hnone, hblocked, hwoken⟩ := Monitor.unlock_eq_some hm
  have hsame : ∀ u, m.Waits u ↔ s.monitor.Waits u := by
    intro u
    rw [Monitor.Waits, Monitor.Waits, hblocked, hwoken]
  apply h.released hheld hnone rfl
  · rw [hsame t]
    exact iff_of_false (h.not_waits hpc (by decide)) (by decide)
  · exact fun u hu => hsame u
  · exact h.linking_eq_none hpc (by decide) (by decide)
  · exact .of_covered (hcounted.covered.congr hblocked hwoken) (by decide) (by decide)

/-- **Step lemma.** -/
theorem wakeInv_step {act : ThreadAct Tid τ} (h : WakeInv s q)
    (hs : Threads.step act s = some s') : ∃ q', WakeInv s' q' := by
  cases act with
  | malloc t a task =>
    obtain ⟨hpc, b, hb, rfl⟩ := Threads.access_eq_some hs
    exact ⟨q, h.malloc hpc hb⟩
  | lockEnqueue t =>
    obtain ⟨hpc, m, hm, rfl⟩ := Threads.call_eq_some hs
    exact ⟨q, h.lock hm rfl nofun nofun fun _ => rfl⟩
  | link t =>
    obtain ⟨hpc, b, hb, rfl⟩ := Threads.access_eq_some hs
    exact h.link hpc hb
  | signal t awake =>
    obtain ⟨hpc, m, hm, rfl⟩ := Threads.call_eq_some hs
    exact ⟨q, h.signal hpc hm⟩
  | lockDequeue t =>
    obtain ⟨hpc, m, hm, rfl⟩ := Threads.call_eq_some hs
    refine ⟨q, h.lock hm rfl nofun nofun ?_⟩
    rw [h.linking_eq_none hpc (by decide) (by decide)]
    exact nofun
  | test t =>
    obtain ⟨hpc, b, hb, rfl⟩ := Threads.access_eq_some hs
    cases hb
    exact ⟨q, h.test hpc⟩
  | wait t =>
    obtain ⟨hpc, m, hm, rfl⟩ := Threads.call_eq_some hs
    exact ⟨q, h.wait hpc hm⟩
  | spurious t =>
    obtain ⟨hpc, m, hm, rfl⟩ := Threads.call_eq_some hs
    exact ⟨q, h.spurious hpc hm⟩
  | reacquire t =>
    obtain ⟨hpc, m, hm, rfl⟩ := Threads.call_eq_some hs
    exact ⟨q, h.reacquire hpc hm⟩
  | take t =>
    obtain ⟨hpc, b, hb, rfl⟩ := Threads.access_eq_some hs
    cases hb
    exact h.take hpc
  | unlock t =>
    obtain ⟨hpc, m, hm, rfl⟩ := Threads.call_eq_some hs
    exact ⟨q, h.unlock hpc hm⟩

end Steps

theorem wakeInv_reach (h : (Threads.system Tid τ).Reachable s) : ∃ q, WakeInv s q := by
  apply h.invariant (I := fun s => ∃ q, WakeInv s q) ⟨_, wakeInv_init⟩
  rintro act s s' - ⟨q, hinv⟩ hs
  exact wakeInv_step hinv hs

/-- Without the mutex and the condition variable the steps are those of the coarser
    model, in which a critical section is one step. -/
theorem threads_simulation :
    System.Simulation (Threads.system Tid τ) (fun _ _ => True) (TaskQueue.system Tid τ)
      (fun s b => b = s.base ∧ ∃ q, WakeInv s q) where
  init := ⟨rfl, _, wakeInv_init⟩
  step := by
    rintro act s s' b - ⟨rfl, q, hinv⟩ hs
    have hinv' := wakeInv_step hinv hs
    cases act with
    | malloc t a task =>
      obtain ⟨-, b, hb, rfl⟩ := Threads.access_eq_some hs
      refine ⟨[.malloc t a task], b, ?_, rfl, hinv'⟩
      rw [System.exec_cons]
      simp only [TaskQueue.system, hb]
      rfl
    | link t =>
      obtain ⟨-, b, hb, rfl⟩ := Threads.access_eq_some hs
      refine ⟨[.enqueue t], b, ?_, rfl, hinv'⟩
      rw [System.exec_cons]
      simp only [TaskQueue.system, hb]
      rfl
    | take t =>
      obtain ⟨hpc, b, hb, rfl⟩ := Threads.access_eq_some hs
      cases hb
      have hne := (hinv.of_inside hpc rfl).2.take rfl
      have hlink := hinv.linking_eq_none hpc (by decide) (by decide)
      have hdeq := takeStep_eq hinv.represents hne hlink
      refine ⟨[.dequeue t], takeStep s.base, ?_, rfl, hinv'⟩
      rw [System.exec_cons]
      simp only [TaskQueue.system, hdeq]
      rfl
    | test t =>
      obtain ⟨-, b, hb, rfl⟩ := Threads.access_eq_some hs
      cases hb
      exact ⟨[], s.base, rfl, rfl, hinv'⟩
    | lockEnqueue t | signal t awake | lockDequeue t | wait t | spurious t | reacquire t
    | unlock t =>
      obtain ⟨-, m, -, rfl⟩ := Threads.call_eq_some hs
      exact ⟨[], s.base, rfl, rfl, hinv'⟩

/-- **No lost wake-up.** In every reachable state, with `as` the nodes of the queue:
    if the mutex is free and a thread is blocked in its wait, there are at most as
    many items as threads that have been woken and wait for the mutex; and if there
    is an item, a thread blocked and none woken, the mutex is held by a thread about
    to signal or on its way to the item. -/
theorem no_lost_wakeup (h : (Threads.system Tid τ).Reachable s) :
    ∃ as, IsList Node.next s.base.heap s.base.queue.head as ∧
      (∀ t, t ∈ s.monitor.blocked ∨ t ∈ s.monitor.woken ↔ s.pc t = .waiting) ∧
      (s.monitor.holder = none → s.monitor.blocked ≠ ∅ → as.length ≤ s.monitor.woken.card) ∧
      (as ≠ [] → s.monitor.blocked ≠ ∅ → s.monitor.woken = ∅ →
        ∃ t, s.monitor.holder = some t ∧
          (s.pc t = .signal ∨ s.pc t = .test ∨ s.pc t = .take)) := by
  obtain ⟨q, hinv⟩ := wakeInv_reach h
  obtain ⟨as, hlist, hlen⟩ := hinv.represents.length_eq
  refine ⟨as, hlist, hinv.placed.waiting, fun hfree hblocked => ?_, fun hne hblocked hwoken => ?_⟩
  · rw [← hlen]
    exact hinv.of_free hfree hblocked
  · have hpos : 0 < as.length := List.length_pos_iff.mpr hne
    have hcovered := hinv.counted.covered hblocked
    rw [hwoken, Finset.card_empty, hlen] at hcovered
    cases hholder : s.monitor.holder with
    | none =>
      rw [hholder, Option.map_none, Option.elim_none] at hcovered
      omega
    | some t =>
      rw [hholder, Option.map_some, Option.elim_some] at hcovered
      exact ⟨t, rfl, Pc.of_slack (by omega)⟩

/-- Two consumers block; a producer adds a task and its signal wakes one of them. -/
def oneSignal : List (ThreadAct ℕ ℕ) :=
  [.lockDequeue 1, .test 1, .wait 1, .lockDequeue 2, .test 2, .wait 2,
    .malloc 0 10 (some 7), .lockEnqueue 0, .link 0, .signal 0 {1}, .unlock 0]

theorem no_lost_wakeup_oneSignal :
    ∃ s, (Threads.system ℕ ℕ).exec oneSignal (Threads.system ℕ ℕ).init = some s ∧
      s.monitor.blocked = {2} ∧ s.monitor.woken = {1} ∧
      ∃ as, IsList Node.next s.base.heap s.base.queue.head as ∧ as.length ≤ 1 := by
  have hrun : ((Threads.system ℕ ℕ).exec oneSignal (Threads.system ℕ ℕ).init).map
      (fun s => (s.monitor.holder, s.monitor.blocked, s.monitor.woken)) =
        some (none, {2}, {1}) := by
    decide +kernel
  obtain ⟨s, hexec, hmonitor⟩ := Option.map_eq_some_iff.mp hrun
  simp only [Prod.mk.injEq] at hmonitor
  obtain ⟨hholder, hblocked, hwoken⟩ := hmonitor
  refine ⟨s, hexec, hblocked, hwoken, ?_⟩
  obtain ⟨as, hlist, -, hfree, -⟩ := no_lost_wakeup (System.Reach.of_exec hexec)
  refine ⟨as, hlist, ?_⟩
  have hle := hfree hholder (by rw [hblocked]; decide)
  rwa [hwoken] at hle

end ChatOnC.TaskQueue
