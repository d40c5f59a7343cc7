import ChatOnC.ActiveObject.Delivery
import ChatOnC.ActiveObject.Shutdown
import ChatOnC.Common.Termination
import Mathlib.Algebra.Order.Ring.Nat

/-!
# A chain comes to its end

A chain that is handed one task and whose first object behaves as `partD_a`, with the
calls of `stop`, in whatever order the threads take their steps. Every queue is given a
known list at most (`given`), so each thread has a known number of steps; and a thread
that waits for an item is owed one as long as the thread in front of it runs.

* `rest_lt`, `work_lt`: a step is one step less to make.
* `returned_of_stuck`: where no thread has a step, all have returned.
* `chain_ends`: every run ends, with every task handled by every object, every object freed
  and none accessed after that.
-/

namespace ChatOnC.ActiveObject

open ChatOnC.Common

variable {τ ε μ : Type*} {c : Chain τ ε μ} {arr : τ} {xs : List τ} {s s' : State τ ε μ} {i : ℕ}

/-! ## The steps of a thread -/

/-- What is enqueued on the queue of `A_i` in the course of a run. -/
def given (arr : τ) (xs : List τ) : ℕ → List (Option τ)
  | 0 => [some arr, none]
  | _ + 1 => xs.map some ++ [none]

/-- The steps of `run` on an item, from its `dequeue` on. -/
def cost (c : Chain τ ε μ) (i : ℕ) : Option τ → ℕ
  | some temp => (c.func i temp).length + 6
  | none => 4

/-- The steps that are left of those. -/
def pcCost (c : Chain τ ε μ) (i : ℕ) : Pc τ ε → ℕ
  | .dequeue | .returned => 0
  | .func temp => (c.func i temp).length + 5
  | .inFunc _ rest => rest.length + 4
  | .test _ | .last => 3
  | .getQueue _ => 2
  | .enqueue _ => 1

/-- The steps that the thread of `A_i` has still to make. -/
def rest (c : Chain τ ε μ) (arr : τ) (xs : List τ) (i : ℕ) (s : State τ ε μ) : ℕ :=
  (((given arr xs i).drop (s.queue i).taken.length).map (cost c i)).sum + pcCost c i (s.pc i)

theorem HeadPhase.put0_isPrefix {input put0 taken0 put1 : List (Option τ)} {pc : Pc τ ε}
    (h : HeadPhase arr xs input pc put0 taken0 put1) : put0 <+: [some arr, none] := by
  cases h with
  | waiting => exact List.nil_prefix
  | handed => exact ⟨[none], rfl⟩
  | call => exact ⟨[none], rfl⟩
  | @inside rest _ _ h0 h1 => exact ⟨owns rest, h0⟩
  | tested => exact List.prefix_rfl
  | again => exact List.prefix_rfl
  | leaving => exact List.prefix_rfl
  | returned => exact List.prefix_rfl

theorem Inv.put_isPrefix_given (hc : PartDAChain c arr xs) (hinv : Inv c arr xs s)
    (hi : i ≤ c.last) : (s.queue i).put <+: given arr xs i := by
  cases i with
  | zero => exact hinv.head.put0_isPrefix
  | succ i => exact hinv.put_isPrefix hc (Nat.succ_pos i) hi

/-- The item that is taken is the next one of the list. -/
theorem drop_of_isPrefix {taken l : List (Option τ)} {p : Option τ} (h : taken ++ [p] <+: l) :
    l.drop taken.length = p :: l.drop (taken ++ [p]).length := by
  obtain ⟨behind, rfl⟩ := h
  rw [List.drop_left, List.append_assoc, List.drop_left, List.singleton_append]

theorem rest_dequeue (hc : PartDAChain c arr xs) (hinv : Inv c arr xs s) (hi : i ≤ c.last)
    {temp : Option τ} {queue : Fifo (Option τ)} (hpc : s.pc i = .dequeue)
    (hq : (s.queue i).dequeue = some (temp, queue))
    (hpc' : s'.pc i = .ofTemp temp) (hqueue : s'.queue i = queue) :
    rest c arr xs i s' < rest c arr xs i s := by
  obtain ⟨hitems, -, htaken⟩ := Fifo.dequeue_eq_some hq
  have hput : (s.queue i).taken ++ [temp] <+: given arr xs i := by
    refine List.IsPrefix.trans ?_ (hinv.put_isPrefix_given hc hi)
    exact ⟨queue.items, by rw [← (s.queue i).balanced, hitems, List.append_assoc,
      List.singleton_append]⟩
  rw [rest, rest, hpc, hpc', hqueue, htaken, drop_of_isPrefix hput, List.map_cons, List.sum_cons]
  cases temp with
  | none =>
    simp only [Pc.ofTemp, pcCost, cost]
    omega
  | some temp =>
    simp only [Pc.ofTemp, pcCost, cost]
    omega

/-- Other steps take nothing from the queue. -/
theorem rest_lt_of_pc (htaken : (s'.queue i).taken = (s.queue i).taken)
    (hpc : pcCost c i (s'.pc i) < pcCost c i (s.pc i)) :
    rest c arr xs i s' < rest c arr xs i s := by
  rw [rest, rest, htaken]
  omega

theorem rest_lt (hc : PartDAChain c arr xs) (hinv : Inv c arr xs s) (hi : i ≤ c.last)
    (h : threadStep c i s = some s') : rest c arr xs i s' < rest c arr xs i s := by
  cases moves_of_threadStep h with
  | @dequeue temp queue hpc hq => exact rest_dequeue hc hinv hi hpc hq (by simp) (by simp)
  | func hpc => exact rest_lt_of_pc rfl (by simp [hpc, pcCost])
  | leave hpc => exact rest_lt_of_pc rfl (by simp [hpc, pcCost])
  | effect hpc =>
    refine rest_lt_of_pc ?_ (by simp [hpc, pcCost])
    exact perform_taken _ i
  | test hpc =>
    refine rest_lt_of_pc rfl ?_
    simp only [hpc, State.setPc_pc, Function.update_self]
    split_ifs
    · exact Nat.lt_succ_self 2
    · exact Nat.succ_pos 2
  | last hpc =>
    refine rest_lt_of_pc rfl ?_
    simp only [hpc, State.setPc_pc, Function.update_self]
    split_ifs
    · exact Nat.lt_succ_self 2
    · exact Nat.succ_pos 2
  | getQueue hpc => exact rest_lt_of_pc rfl (by simp [hpc, pcCost])
  | @enqueue temp hpc =>
    refine rest_lt_of_pc (s.enqueueOn_taken temp i) ?_
    simp only [hpc, State.setPc_pc, Function.update_self]
    split_ifs
    · exact Nat.one_pos
    · exact Nat.one_pos

/-- The other threads have as many steps to make as before. -/
theorem rest_congr (hpc : s'.pc i = s.pc i) (htaken : (s'.queue i).taken = (s.queue i).taken) :
    rest c arr xs i s' = rest c arr xs i s := by
  rw [rest, rest, hpc, htaken]

/-! ## The steps of the chain -/

/-- The steps that a call of `stop` has still to make. -/
def StopPc.rank : StopPc → ℕ
  | .notCalled => 4
  | .join => 3
  | .deleteQueue => 2
  | .free => 1
  | .done => 0

/-- The steps that are left. -/
def work (c : Chain τ ε μ) (arr : τ) (xs : List τ) (s : State τ ε μ) : ℕ :=
  s.input.length + ∑ i ∈ Finset.range (c.last + 1), (rest c arr xs i s + (s.stop i).rank)

theorem work_outside (h : outsideStep s = some s') : work c arr xs s' < work c arr xs s := by
  obtain ⟨hpc, -, -, hstop, htaken⟩ := outside_frame h
  obtain ⟨p, hin, -⟩ := outside_put h
  have hsum : ∀ i, rest c arr xs i s' + (s'.stop i).rank =
      rest c arr xs i s + (s.stop i).rank := by
    intro i
    rw [rest_congr (by rw [hpc]) (htaken i), hstop]
  rw [work, work, hin, List.length_cons, Finset.sum_congr rfl fun i _ => hsum i]
  omega

theorem work_thread (hc : PartDAChain c arr xs) (hinv : Inv c arr xs s) (hi : i ≤ c.last)
    (h : threadStep c i s = some s') : work c arr xs s' < work c arr xs s := by
  obtain ⟨hstop, hin⟩ := thread_stop h
  rw [work, work, hin, hstop]
  apply Nat.add_lt_add_left
  apply System.sum_lt_of_one (Finset.mem_range.mpr (Nat.lt_succ_of_le hi))
  · intro j _ hj
    obtain ⟨hpc, htaken, -⟩ := thread_frame h hj
    rw [rest_congr hpc htaken]
  · exact Nat.add_lt_add_right (rest_lt hc hinv hi h) _

theorem work_stop (hi : i ≤ c.last) (h : stopStep i s = some s') :
    work c arr xs s' < work c arr xs s := by
  obtain ⟨hpc, hqueue, -, -, hin, -, -, hother, -⟩ := stop_frame h
  have hrest : ∀ j, rest c arr xs j s' = rest c arr xs j s :=
    fun j => rest_congr (by rw [hpc]) (by rw [hqueue])
  rw [work, work, hin]
  apply Nat.add_lt_add_left
  apply System.sum_lt_of_one (Finset.mem_range.mpr (Nat.lt_succ_of_le hi))
  · intro j _ hj
    rw [hrest, hother j hj]
  · rw [hrest]
    apply Nat.add_lt_add_left
    unfold stopStep at h
    split at h <;> cases h
    all_goals simp [StopPc.rank, *]

theorem work_lt (hc : PartDAChain c arr xs) {mem : μ} {a : Actor} (hinv : Inv c arr xs s)
    (h : (system c [some arr] mem).step a s = some s') : work c arr xs s' < work c arr xs s := by
  cases a with
  | outside => exact work_outside h
  | thread i =>
    obtain ⟨hi, h⟩ := Option.ite_none_right_eq_some.mp h
    exact work_thread hc hinv hi h
  | stop i =>
    obtain ⟨hi, h⟩ := Option.ite_none_right_eq_some.mp h
    exact work_stop hi h

/-! ## Where nothing moves -/

/-- A thread without a step has returned or waits for an item. -/
theorem waits_of_stuck (h : threadStep c i s = none) :
    s.pc i = .returned ∨ s.pc i = .dequeue ∧ (s.queue i).items = [] := by
  unfold threadStep at h
  split at h <;> rename_i hpc
  · rw [dequeueStep, Option.map_eq_none_iff, Fifo.dequeue_eq_none] at h
    exact .inr ⟨hpc, h⟩
  · cases h
  · cases h
  · cases h
  · cases h
  · cases h
  · cases h
  · cases h
  · exact .inl hpc

/-- `A_0` is not left waiting once it has been handed its task. -/
theorem Inv.head_returned (hinv : Inv c arr xs s) (hin : s.input = [])
    (h : threadStep c 0 s = none) : s.pc 0 = .returned := by
  refine (waits_of_stuck h).resolve_right ?_
  rintro ⟨hpc, hitems⟩
  have hp := hinv.head
  have hbal := (s.queue 0).balanced
  rw [hitems, List.append_nil] at hbal
  rw [hin, hpc, ← hbal] at hp
  generalize (s.queue 0).taken = taken0, (s.queue 1).put = put1 at hp
  cases hp with
  | leaving hcases => simp at hcases

/-- An object that returns has passed `NULL` on. -/
theorem Inv.null_given (hc : PartDAChain c arr xs) (hinv : Inv c arr xs s) (hi : i < c.last)
    (hpc : s.pc i = .returned) : none ∈ (s.queue (i + 1)).put := by
  rcases Nat.eq_zero_or_pos i with rfl | h1
  · have hp := hinv.head
    rw [hpc] at hp
    rw [hp.of_returned.2]
    simp
  · obtain ⟨htaken, hfwd⟩ := hinv.stages i hi.le
    rw [hpc] at htaken hfwd
    rw [hinv.links i h1 hi]
    have heq := hfwd hi (hc.flag_rest i h1 hi.le)
    rw [htaken, held, List.append_nil] at heq
    rw [← heq]
    simp [unapplied]

/-- By induction along the chain: what a waiting object has taken holds no `NULL`. -/
theorem Inv.returned_of_stuck (hc : PartDAChain c arr xs) (hinv : Inv c arr xs s)
    (hin : s.input = []) (h : ∀ i ≤ c.last, threadStep c i s = none) (hi : i ≤ c.last) :
    s.pc i = .returned := by
  induction i with
  | zero => exact hinv.head_returned hin (h 0 hi)
  | succ i ih =>
    refine (waits_of_stuck (h (i + 1) hi)).resolve_right ?_
    rintro ⟨hpc, hitems⟩
    have hnull := hinv.null_given hc hi (ih (by omega))
    have htaken := (hinv.stages (i + 1) hi).1
    rw [← (s.queue (i + 1)).balanced, hitems, List.append_nil, htaken, hpc] at hnull
    simp [unapplied] at hnull

/-- A call of `stop` without a step is done, if the thread has returned. -/
theorem done_of_stuck (h : stopStep i s = none) (hpc : s.pc i = .returned) : s.stop i = .done := by
  unfold stopStep at h
  split at h
  · cases h
  · cases h
  · rename_i hne
    exact absurd hpc hne
  · cases h
  · cases h
  · assumption

/-! ## The end -/

/-- The chain has come to its end: the threads have returned and the calls of `stop` are
    done, every object has applied its function to the tasks, its queue is empty, and nothing
    was accessed after it had been freed. -/
structure Ended (c : Chain τ ε μ) (xs : List τ) (s : State τ ε μ) : Prop where
  returned : ∀ i, i ≤ c.last → s.pc i = .returned
  stopped : ∀ i, i ≤ c.last → s.stop i = .done
  applied : ∀ i, 1 ≤ i → i ≤ c.last → s.applied i = xs
  empty : ∀ i, i ≤ c.last → (s.queue i).items = []
  inTime : s.afterFree = []

/-- `partD_a` enqueues its `NULL` behind the task it was handed. -/
theorem Inv.singleNull (hinv : Inv c arr xs s) {a : Actor} {mem : μ}
    (h : (system c [some arr] mem).step a s = some s') : SingleNull a s := by
  have hp := hinv.head
  cases a with
  | outside =>
    obtain ⟨p, hin, -⟩ := outside_put h
    rw [hin] at hp
    show none ∉ (s.queue 0).put
    generalize (s.queue 0).put = put0, (s.queue 0).taken = taken0, (s.queue 1).put = put1,
      s'.input = input, s.pc 0 = pc at hp ⊢
    cases hp with
    | waiting => exact List.not_mem_nil
  | thread i =>
    rintro - t p rest hpc
    rw [hpc] at hp
    generalize (s.queue 0).put = put0, (s.queue 0).taken = taken0, (s.queue 1).put = put1,
      s.input = input at hp ⊢
    cases hp with
    | @inside _ _ _ h0 h1 =>
      simp only [owns, List.filterMap_cons] at h0
      rcases put0 with _ | ⟨a, _ | ⟨b, put0⟩⟩
      · exact List.not_mem_nil
      · simp only [List.singleton_append, List.cons.injEq] at h0
        simp [h0.1]
      · simp at h0
    | leaving hcases => simp at hcases
  | stop i => trivial

theorem reach_singleNull_of_partDA (hc : PartDAChain c arr xs) {ok : Actor → State τ ε μ → Prop}
    {mem : μ} (h : (system c [some arr] mem).Reach ok s) :
    (system c [some arr] mem).Reach SingleNull s := by
  induction h with
  | init => exact .init
  | step hs _ hstep ih =>
    have hinv := inv_reachable hc (hs.mono fun _ _ _ => trivial)
    exact .step ih (hinv.singleNull hstep) hstep

/-- What is known of the states of such a chain. -/
structure EndInv (c : Chain τ ε μ) (arr : τ) (xs : List τ) (s : State τ ε μ) : Prop where
  delivery : Inv c arr xs s
  shutdown : ShutdownInv c s

theorem endInv_reach (hc : PartDAChain c arr xs) (hu : UpstreamOnly c)
    {ok : Actor → State τ ε μ → Prop} {mem : μ} (h : (system c [some arr] mem).Reach ok s) :
    EndInv c arr xs s where
  delivery := inv_reachable hc (h.mono fun _ _ _ => trivial)
  shutdown := shutdownInv_reach hu (reach_singleNull_of_partDA hc h)

/-- A state without a step is an end. -/
theorem EndInv.ended (hc : PartDAChain c arr xs) (hinv : EndInv c arr xs s)
    (houtside : outsideStep s = none) (hthread : ∀ i ≤ c.last, threadStep c i s = none)
    (hstop : ∀ i ≤ c.last, stopStep i s = none) : Ended c xs s := by
  have hin : s.input = [] := by
    unfold outsideStep at houtside
    split at houtside
    · assumption
    · cases houtside
  have hreturned : ∀ i, i ≤ c.last → s.pc i = .returned :=
    fun i hi => hinv.delivery.returned_of_stuck hc hin hthread hi
  constructor
  · exact hreturned
  · exact fun i hi => done_of_stuck (hstop i hi) (hreturned i hi)
  · exact fun i h1 hi => (hinv.delivery.complete hc hreturned h1 hi).2
  · exact fun i hi => hinv.shutdown.items_of_returned hi (hreturned i hi)
  · exact hinv.shutdown.inTime

/-- **The end of a chain.** In whatever order the threads and the calls of `stop` take their
    steps, the chain comes to its end. -/
theorem chain_ends (hc : PartDAChain c arr xs) (hu : UpstreamOnly c) (mem : μ) :
    (system c [some arr] mem).AlwaysEnds (fun _ _ => True) (Ended c xs) := by
  apply System.alwaysEnds_of_measure (work c arr xs) fun s hs => endInv_reach hc hu hs
  · exact fun a s s' _ hinv hstep => work_lt hc hinv.delivery hstep
  · intro s hinv hstuck
    apply hinv.ended hc (hstuck .outside trivial)
    · intro i hi
      have hnone := hstuck (.thread i) trivial
      simp only [system] at hnone
      rwa [if_pos hi] at hnone
    · intro i hi
      have hnone := hstuck (.stop i) trivial
      simp only [system] at hnone
      rwa [if_pos hi] at hnone

theorem threeStages_upstreamOnly : UpstreamOnly threeStages where
  own := by
    intro i t p h
    by_contra hi
    simp [threeStages, hi] at h
  next := by
    intro i t p h
    by_cases hi : i = 0
    · subst hi
      simp only [threeStages, if_true, List.mem_cons, Effect.enqueueNext.injEq, reduceCtorEq,
        List.not_mem_nil, or_false] at h
      exact ⟨by decide, by rcases h with rfl | rfl <;> simp⟩
    · simp [threeStages, hi] at h

theorem chain_ends_threeStages : PartDAChain threeStages 0 [7, 8] ∧ UpstreamOnly threeStages ∧
    (system threeStages [some 0] ()).AlwaysEnds (fun _ _ => True) (Ended threeStages [7, 8]) :=
  ⟨threeStages_partDA, threeStages_upstreamOnly,
    chain_ends threeStages_partDA threeStages_upstreamOnly ()⟩

end ChatOnC.ActiveObject
