import ChatOnC.ActiveObject.NodeRefinement

/-!
# A chain on linked queues frees every node

A chain that is handed one task and whose first object behaves as `partD_a`, on the nodes of
`ChatOnC.ActiveObject.Nodes`. Its runs end as those on the lists do: a step on the nodes is a
step there, or one of the few that a `malloc` or the loop of `deleteQueue` takes (`silent`).

* `nodeWork_lt`: a step is one step less to make.
* `stuck_of_nodes`: where nothing moves on the nodes, nothing moves on the lists.
* `chain_frees`: every run ends with all objects stopped, every node freed and no fault.
-/

namespace ChatOnC.ActiveObject

open ChatOnC.Common

variable {τ ε μ : Type*} {c : Chain τ ε μ} {arr : τ} {xs : List τ} {i j : ℕ}
  {s s' : NodeState τ ε μ} {t t' : State τ ε μ}

/-! ## The steps that are left -/

/-- A chain on lists whose threads have come as far. -/
def NodeState.shadow (s : NodeState τ ε μ) : State τ ε μ where
  pc := s.pc
  queue := fun i => ⟨s.dequeued i, s.dequeued i, [], List.append_nil _⟩
  stop := s.stop
  mem := s.mem
  input := s.input
  applied := fun _ => []
  forwarded := fun _ => []
  afterFree := []

theorem Refines.work_shadow (hR : Refines c s t) :
    work c arr xs s.shadow = work c arr xs t := by
  simp only [work, rest, NodeState.shadow, hR.pc, hR.stop, hR.input, hR.dequeued]

/-- One `malloc` to come, if `who` has no node in its hand. -/
def NodeState.mallocs (s : NodeState τ ε μ) (who : Actor) : ℕ :=
  if (s.nodes.linking who).isNone then 1 else 0

/-- The entry of the loop of `deleteQueue`, if `stop` on `A_i` has it to come. -/
def NodeState.loops (s : NodeState τ ε μ) (i : ℕ) : ℕ :=
  if (s.current i).isNone then 1 else 0

/-- The silent steps to come, without those that other steps will call for. -/
def NodeState.silent (c : Chain τ ε μ) (s : NodeState τ ε μ) : ℕ :=
  s.mallocs .outside + ∑ i ∈ Finset.range (c.last + 1), (s.mallocs (.thread i) + s.loops i)

/-- The steps that are left. -/
def nodeWork (c : Chain τ ε μ) (arr : τ) (xs : List τ) (s : NodeState τ ε μ) : ℕ :=
  2 * work c arr xs s.shadow + s.silent c

theorem mallocs_le_one (who : Actor) : s.mallocs who ≤ 1 := by
  unfold NodeState.mallocs
  split_ifs <;> omega

/-- The silent steps to come after a step that touches the hand of one actor only. -/
theorem silent_add {who : Actor} (hwho : who = .outside ∨ ∃ i ≤ c.last, who = .thread i)
    (hother : ∀ w, w ≠ who → s'.nodes.linking w = s.nodes.linking w)
    (hcur : s'.current = s.current) :
    s'.silent c + s.mallocs who = s.silent c + s'.mallocs who := by
  have hmallocs : ∀ w, w ≠ who → s'.mallocs w = s.mallocs w := fun w hw => by
    rw [NodeState.mallocs, hother w hw, NodeState.mallocs]
  have hloops : ∀ i, s'.loops i = s.loops i := fun i => by
    rw [NodeState.loops, hcur, NodeState.loops]
  rcases hwho with rfl | ⟨i, hi, rfl⟩
  · have hsum : ∀ i, s'.mallocs (.thread i) + s'.loops i = s.mallocs (.thread i) + s.loops i :=
      fun i => by rw [hmallocs _ (by simp), hloops]
    rw [NodeState.silent, NodeState.silent, Finset.sum_congr rfl fun i _ => hsum i]
    omega
  · have hsum := System.sum_add_of_one (M := ℕ) (i := i)
      (f := fun i => s'.mallocs (.thread i) + s'.loops i)
      (g := fun i => s.mallocs (.thread i) + s.loops i)
      (s := Finset.range (c.last + 1)) (Finset.mem_range.mpr (Nat.lt_succ_of_le hi))
      fun j _ hj => by
        rw [hmallocs _ (by simpa using hj), hloops]
    simp only [hloops] at hsum
    simp only [NodeState.silent, hmallocs .outside (by simp), hloops]
    omega

/-- A silent step is one silent step less to come. -/
theorem NodeOnly.silent_lt (h : NodeOnly c s s') : s'.silent c < s.silent c := by
  cases h with
  | @malloc who p node nodes hcall hlink hlinking =>
    have hwho : who = .outside ∨ ∃ i ≤ c.last, who = .thread i := by
      cases who with
      | outside => exact .inl rfl
      | thread i =>
        simp only [NodeState.call, Option.ite_none_right_eq_some] at hcall
        exact .inr ⟨i, hcall.1, rfl⟩
      | stop i => cases hcall
    have hsum : NodeState.silent c { s with nodes := nodes } + s.mallocs who =
        s.silent c + NodeState.mallocs { s with nodes := nodes } who :=
      silent_add hwho (fun w hw => by simp [hlinking, hw]) rfl
    simp only [NodeState.mallocs, hlinking, Function.update_self, hlink, Option.isNone_none,
      Option.isNone_some, if_true, Bool.false_eq_true, if_false] at hsum
    omega
  | @loop i p hi hcur =>
    apply Nat.add_lt_add_left
    apply System.sum_lt_of_one (Finset.mem_range.mpr (Nat.lt_succ_of_le hi))
    · intro j _ hj
      simp [NodeState.mallocs, NodeState.loops, hj]
    · simp [NodeState.mallocs, NodeState.loops, hcur]

/-! ## What a step leaves alone -/

theorem link_frame {who : Actor} {next : NodeState τ ε μ → NodeState τ ε μ}
    (h : s.link who j next = some s')
    (hnext : ∀ s, (next s).nodes = s.nodes ∧ (next s).current = s.current) :
    (∀ w, w ≠ who → s'.nodes.linking w = s.nodes.linking w) ∧ s'.current = s.current := by
  unfold NodeState.link at h
  split at h
  · cases h
  · split_ifs at h
    · cases h
      exact ⟨fun _ _ => rfl, rfl⟩
    · split at h
      · cases h
        exact ⟨fun _ _ => rfl, rfl⟩
      · rename_i nodes hok
        cases h
        refine ⟨fun w hw => ?_, (hnext _).2⟩
        rw [(hnext _).1, TaskQueue.Shared.link_linking hok, Function.update_of_ne hw]

theorem take_frame (h : s.take i = some s') :
    s'.nodes.linking = s.nodes.linking ∧ s'.current = s.current := by
  unfold NodeState.take at h
  split_ifs at h
  · cases h
    exact ⟨rfl, rfl⟩
  · split at h
    · cases h
      exact ⟨rfl, rfl⟩
    · rename_i temp nodes hok
      cases h
      exact ⟨TaskQueue.Shared.take_linking hok, rfl⟩

theorem nodeThread_frame (h : s.threadStep c i = some s') :
    (∀ w, w ≠ .thread i → s'.nodes.linking w = s.nodes.linking w) ∧ s'.current = s.current := by
  unfold NodeState.threadStep at h
  split at h
  case h_1 =>
    obtain ⟨hlinking, hcur⟩ := take_frame h
    exact ⟨fun w _ => by rw [hlinking], hcur⟩
  case h_4 => exact link_frame h fun _ => ⟨rfl, rfl⟩
  case h_5 => exact link_frame h fun _ => ⟨rfl, rfl⟩
  case h_9 =>
    cases h
    split_ifs <;> exact ⟨fun _ _ => rfl, rfl⟩
  case h_10 => exact link_frame h fun _ => ⟨rfl, rfl⟩
  case h_11 => cases h
  all_goals
    cases h
    exact ⟨fun _ _ => rfl, rfl⟩

theorem outside_silent (h : s.outsideStep = some s') : s'.silent c ≤ s.silent c + 1 := by
  unfold NodeState.outsideStep at h
  split at h
  · cases h
  · obtain ⟨hother, hcur⟩ := link_frame h fun _ => ⟨rfl, rfl⟩
    have hsum := silent_add (c := c) (.inl rfl) hother hcur
    have hle := mallocs_le_one (s := s') .outside
    omega

theorem thread_silent (hi : i ≤ c.last) (h : s.threadStep c i = some s') :
    s'.silent c ≤ s.silent c + 1 := by
  obtain ⟨hother, hcur⟩ := nodeThread_frame h
  have hsum := silent_add (.inr ⟨i, hi, rfl⟩) hother hcur
  have hle := mallocs_le_one (s := s') (.thread i)
  omega

/-- The loop of `deleteQueue` finds nothing to free. -/
theorem stop_silent (hi : i ≤ c.last)
    (hcur : ∀ current, s.current i = some current → current = none)
    (h : s.stopStep i = some s') : s'.silent c ≤ s.silent c := by
  unfold NodeState.stopStep at h
  split at h
  case h_4 =>
    cases h
    unfold NodeState.deleteStep
    cases hcase : s.current i with
    | none => exact (NodeOnly.loop hi hcase).silent_lt.le
    | some current =>
      rw [hcur current hcase]
      exact le_rfl
  all_goals
    cases h
    try exact le_rfl

theorem step_silent {input : List (Option τ)} {mem : μ} (hR : Refines c s t) {act : NodeAct}
    (hs : (nodeSystem c input mem).step act s = some s') : s'.silent c ≤ s.silent c + 1 := by
  cases act with
  | malloc who a =>
    have hlt := (hR.malloc hs).2.silent_lt
    omega
  | step who =>
    cases who with
    | outside => exact outside_silent hs
    | thread i =>
      obtain ⟨hi, hs⟩ := Option.ite_none_right_eq_some.mp hs
      exact thread_silent hi hs
    | stop i =>
      obtain ⟨hi, hs⟩ := Option.ite_none_right_eq_some.mp hs
      exact (stop_silent hi (hR.current i) hs).trans (Nat.le_succ _)

/-- A step on the nodes leaves one step less to make. -/
theorem nodeWork_lt (hc : PartDAChain c arr xs) (hu : UpstreamOnly c) {mem : μ}
    (hR : Refines c s t) (hinv : EndInv c arr xs t) {act : NodeAct}
    (hs : (nodeSystem c [some arr] mem).step act s = some s') :
    nodeWork c arr xs s' < nodeWork c arr xs s := by
  have hle := step_silent hR hs
  rcases hR.step hu hinv.shutdown (hR.nodeSingleNull hinv.delivery hs) hs with
    ⟨hR', hsilent⟩ | ⟨who, -, -, t', ht, hR'⟩
  · have hlt := hsilent.silent_lt
    rw [nodeWork, nodeWork, hR.work_shadow, hR'.work_shadow]
    omega
  · have hlt := work_lt hc hinv.delivery ht
    rw [nodeWork, nodeWork, hR.work_shadow, hR'.work_shadow]
    omega

/-! ## Where nothing moves -/

theorem nodeThread_of_none (hi : i ≤ c.last) {input : List (Option τ)} {mem : μ}
    (h : (nodeSystem c input mem).step (.step (.thread i)) s = none) : s.threadStep c i = none :=
  (if_pos hi).symm.trans h

theorem nodeStop_of_none (hi : i ≤ c.last) {input : List (Option τ)} {mem : μ}
    (h : (nodeSystem c input mem).step (.step (.stop i)) s = none) : s.stopStep i = none :=
  (if_pos hi).symm.trans h

/-- With its node in hand, an actor links it. -/
theorem link_ne_none {who : Actor} {next : NodeState τ ε μ → NodeState τ ε μ}
    (hlink : s.nodes.linking who ≠ none) : s.link who j next ≠ none := by
  unfold NodeState.link
  split
  · rename_i h
    exact absurd h hlink
  · split_ifs
    · simp
    · split <;> simp

/-- In front of an `enqueue` there is always a step to make. -/
theorem Refines.not_waiting (hR : Refines c s t) {who : Actor} {p : ℕ × Option τ}
    (hcall : s.call c who = some p) (hmalloc : ∀ a, s.mallocStep c who a = none) :
    s.nodes.linking who ≠ none := by
  intro hnone
  obtain ⟨a, nodes, hnodes⟩ := hR.nodes.exists_malloc hnone p.2
  have hstep := hmalloc a
  rw [NodeState.mallocStep, hcall] at hstep
  simp [hnodes] at hstep

theorem Refines.outside_stuck (hR : Refines c s t)
    (hmalloc : ∀ a, s.mallocStep c .outside a = none) (hstep : s.outsideStep = none) :
    outsideStep t = none := by
  cases hin : t.input with
  | nil => rw [outsideStep, hin]
  | cons p rest =>
    rw [← hR.input] at hin
    have hlink := hR.not_waiting (p := (0, p)) (by simp [NodeState.call, hin]) hmalloc
    rw [NodeState.outsideStep, hin] at hstep
    exact absurd hstep (link_ne_none hlink)

theorem Refines.stop_stuck (hR : Refines c s t) (hstep : s.stopStep i = none) :
    stopStep i t = none := by
  unfold NodeState.stopStep at hstep
  split at hstep
  case h_3 h hpc =>
    rw [hR.stop] at h
    rw [hR.pc] at hpc
    unfold stopStep
    rw [h]
    split
    · rename_i heq
      cases heq
    · rename_i heq
      exact absurd heq hpc
    · rfl
    all_goals
      rename_i heq
      cases heq
  case h_6 h =>
    rw [hR.stop] at h
    rw [stopStep, h]
  all_goals cases hstep

theorem Refines.thread_stuck (hR : Refines c s t) (hi : i ≤ c.last)
    (hmalloc : ∀ a, s.mallocStep c (.thread i) a = none) (hstep : s.threadStep c i = none) :
    threadStep c i t = none := by
  have hpceq : s.pc i = t.pc i := by rw [hR.pc]
  have hlink : ∀ p, (s.pc i).call i = some p → s.nodes.linking (.thread i) ≠ none :=
    fun p hp => hR.not_waiting (by rw [NodeState.call, if_pos hi, hp]) hmalloc
  unfold NodeState.threadStep at hstep
  split at hstep <;> rename_i hpc
  case h_1 =>
    rw [hpceq] at hpc
    rw [threadStep, hpc, dequeueStep, Option.map_eq_none_iff, Fifo.dequeue_eq_none]
    unfold NodeState.take at hstep
    split_ifs at hstep with hfreed hhead
    · exact (hR.nodes.head_eq_none (j := i)).mp (by simpa using hhead)
    · split at hstep <;> cases hstep
  case h_4 => exact absurd hstep (link_ne_none (hlink _ (by rw [hpc]; rfl)))
  case h_5 => exact absurd hstep (link_ne_none (hlink _ (by rw [hpc]; rfl)))
  case h_10 => exact absurd hstep (link_ne_none (hlink _ (by rw [hpc]; rfl)))
  case h_11 =>
    rw [hpceq] at hpc
    rw [threadStep, hpc]
  all_goals cases hstep

/-! ## The end -/

/-- Nothing is enqueued behind the last object. -/
theorem put_beyond (hu : UpstreamOnly c) {input : List (Option τ)} {mem : μ}
    (h : (system c input mem).Reach SingleNull t) (hj : c.last < j) : (t.queue j).put = [] := by
  refine h.invariant_of (J := ShutdownInv c) (I := fun t => (t.queue j).put = [])
    (fun _ => shutdownInv_reach hu) rfl fun a t t' hok hinv hI ht => ?_
  cases a with
  | outside =>
    obtain ⟨p, -, hput⟩ := outside_put ht
    rw [hput, hI, if_neg (by omega)]
    rfl
  | stop i =>
    obtain ⟨-, ht⟩ := Option.ite_none_right_eq_some.mp ht
    rw [(stop_frame ht).2.1]
    exact hI
  | thread i =>
    obtain ⟨hi, ht⟩ := Option.ite_none_right_eq_some.mp ht
    rw [thread_put ht, hI, List.nil_append, List.eq_nil_iff_forall_not_mem]
    intro p hp
    rcases mem_emits hp with ⟨-, rfl⟩ | ⟨⟨u, rest, hpc⟩ | hpc, rfl⟩
    · omega
    · have hmem := hinv.inFunc i u _ hi hpc (List.mem_cons_self ..)
      have := (hu.next i u p hmem).1
      omega
    · have := hinv.next i p hi (.inr hpc)
      omega

/-- The threads have returned and the calls of `stop` are done, every object behind the first
    has dequeued the tasks and one `NULL`, every node has been freed, and no access failed. -/
structure Cleaned (c : Chain τ ε μ) (xs : List τ) (s : NodeState τ ε μ) : Prop where
  returned : ∀ i, i ≤ c.last → s.pc i = .returned
  stopped : ∀ i, i ≤ c.last → s.stop i = .done
  dequeued : ∀ i, 1 ≤ i → i ≤ c.last → s.dequeued i = xs.map some ++ [none]
  freed : ∀ a, s.nodes.heap a = none
  noFault : s.fault = none

/-- No node is in a queue or in a hand. -/
theorem Refines.cleaned (hc : PartDAChain c arr xs) (hu : UpstreamOnly c) {mem : μ}
    {ok : Actor → State τ ε μ → Prop} (hR : Refines c s t)
    (hreach : (system c [some arr] mem).Reach ok t) (hinput : outsideStep t = none)
    (hended : Ended c xs t) : Cleaned c xs s := by
  have hinv := inv_reachable hc (hreach.mono fun _ _ _ => trivial)
  have hempty : t.input = [] := by
    unfold outsideStep at hinput
    split at hinput
    · assumption
    · cases hinput
  have hitems : ∀ j, (t.queue j).items = [] := by
    intro j
    by_cases hj : j ≤ c.last
    · exact hended.empty j hj
    · have hput := put_beyond hu (reach_singleNull_of_partDA hc hreach) (Nat.lt_of_not_le hj)
      rw [← (t.queue j).balanced] at hput
      exact (List.append_eq_nil_iff.mp hput).2
  have hlinking : ∀ who, s.nodes.linking who = none := by
    intro who
    by_contra hne
    obtain ⟨⟨a, p⟩, hlink⟩ := Option.ne_none_iff_exists'.mp hne
    obtain ⟨j, hcall⟩ := hR.linking who a p hlink
    cases who with
    | outside => simp [NodeState.call, hR.input, hempty] at hcall
    | thread i =>
      simp only [NodeState.call, Option.ite_none_right_eq_some] at hcall
      rw [hR.pc, hended.returned i hcall.1] at hcall
      cases hcall.2
    | stop i => cases hcall
  refine ⟨by rw [hR.pc]; exact hended.returned, by rw [hR.stop]; exact hended.stopped,
    fun i h1 hi => ?_, hR.nodes.heap_eq_none hitems hlinking, hR.noFault⟩
  have hput := (hinv.complete hc hended.returned h1 hi).1
  rw [← (t.queue i).balanced, hitems i, List.append_nil] at hput
  rw [hR.dequeued, hput]

/-- **Every node is freed.** In whatever order the threads and the calls of `stop` take their
    steps on the nodes, and whichever addresses `malloc` returns, the chain comes to its end
    with every node freed, and no access has failed on the way. -/
theorem chain_frees (hc : PartDAChain c arr xs) (hu : UpstreamOnly c) (mem : μ) :
    (nodeSystem c [some arr] mem).AlwaysEnds (fun _ _ => True) (Cleaned c xs) := by
  apply System.alwaysEnds_of_measure (nodeWork c arr xs)
    (I := fun s => ∃ t, (system c [some arr] mem).Reachable t ∧ Refines c s t)
  · exact fun s hs => reach_refines hc hu (fun _ _ _ _ _ _ => trivial) hs
  · rintro act s s' - ⟨t, hreach, hR⟩ hs
    exact nodeWork_lt hc hu hR (endInv_reach hc hu hreach) hs
  · rintro s ⟨t, hreach, hR⟩ hstuck
    have hmalloc : ∀ who a, s.mallocStep c who a = none :=
      fun who a => hstuck (.malloc who a) trivial
    have houtside := hR.outside_stuck (hmalloc .outside) (hstuck (.step .outside) trivial)
    refine hR.cleaned hc hu hreach houtside ?_
    apply (endInv_reach hc hu hreach).ended hc houtside
    · intro i hi
      apply hR.thread_stuck hi (hmalloc (.thread i))
      exact nodeThread_of_none hi (hstuck (.step (.thread i)) trivial)
    · intro i hi
      apply hR.stop_stuck
      exact nodeStop_of_none hi (hstuck (.step (.stop i)) trivial)

theorem chain_frees_threeStages : PartDAChain threeStages 0 [7, 8] ∧ UpstreamOnly threeStages ∧
    (nodeSystem threeStages [some 0] ()).AlwaysEnds (fun _ _ => True)
      (Cleaned threeStages [7, 8]) :=
  ⟨threeStages_partDA, threeStages_upstreamOnly,
    chain_frees threeStages_partDA threeStages_upstreamOnly ()⟩

end ChatOnC.ActiveObject
