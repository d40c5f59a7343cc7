import ChatOnC.ActiveObject.Nodes
import ChatOnC.ActiveObject.Progress

/-!
# A chain on linked queues is a chain on lists

`Refines` relates a chain whose queues are nodes in a heap to the chain of
`ChatOnC.ActiveObject.Model`: the threads stand at the same places, and the nodes of each
queue hold its items. Every step on the nodes is a step on the lists, or none (`malloc`, and
the loop of `deleteQueue`, which finds an empty queue). No access fails on the way: what
`Shutdown` shows of the lists is what keeps a freed queue from being used.

* `nodes_refine`: the simulation.
* `chain_nodes`: what it says of every state that a run reaches.
-/

namespace ChatOnC.ActiveObject

open ChatOnC.Common
open ChatOnC.TaskQueue (Addr Shared)

variable {τ ε μ : Type*} {c : Chain τ ε μ} {i j : ℕ} {s s' : NodeState τ ε μ} {t t' : State τ ε μ}

/-- The nodes of `s` hold the queues of `t`. -/
structure Refines (c : Chain τ ε μ) (s : NodeState τ ε μ) (t : State τ ε μ) : Prop where
  pc : s.pc = t.pc
  stop : s.stop = t.stop
  mem : s.mem = t.mem
  input : s.input = t.input
  enqueued : ∀ j, s.enqueued j = (t.queue j).put
  dequeued : ∀ j, s.dequeued j = (t.queue j).taken
  noFault : s.fault = none
  nodes : s.nodes.Holds fun j => (t.queue j).items
  linking : ∀ who a p, s.nodes.linking who = some (a, p) → ∃ j, s.call c who = some (j, p)
  current : ∀ i current, s.current i = some current → current = none

theorem refines_init (input : List (Option τ)) (mem : μ) :
    Refines c (nodeSystem c input mem).init (system c input mem).init where
  pc := rfl
  stop := rfl
  mem := rfl
  input := rfl
  enqueued := fun _ => rfl
  dequeued := fun _ => rfl
  noFault := rfl
  nodes := Shared.holds_empty
  linking := by
    intro who a p h
    cases h
  current := by
    intro i current h
    cases h

/-! ## Steps that leave the nodes alone -/

theorem call_setPc {who : Actor} (hwho : who ≠ .thread i) (pc : Pc τ ε) :
    (s.setPc i pc).call c who = s.call c who := by
  cases who with
  | outside => rfl
  | stop k => rfl
  | thread k =>
    have hk : k ≠ i := by
      rintro rfl
      exact hwho rfl
    simp [NodeState.call, NodeState.setPc, hk]

/-- A thread that is not about to enqueue has no node in its hand. -/
theorem Refines.not_linking (hR : Refines c s t) (hcall : (s.pc i).call i = none) {a : Addr}
    {p : Option τ} : s.nodes.linking (.thread i) ≠ some (a, p) := by
  intro hlink
  obtain ⟨j, hj⟩ := hR.linking _ _ _ hlink
  simp [NodeState.call, hcall] at hj

theorem Refines.setPc (hR : Refines c s t) (hcall : (s.pc i).call i = none) {pc : Pc τ ε}
    (hpc : t'.pc = Function.update t.pc i pc) (hqueue : t'.queue = t.queue)
    (hstop : t'.stop = t.stop) (hmem : t'.mem = t.mem) (hinput : t'.input = t.input) :
    Refines c (s.setPc i pc) t' where
  pc := by rw [hpc, ← hR.pc]; rfl
  stop := by rw [hstop]; exact hR.stop
  mem := by rw [hmem]; exact hR.mem
  input := by rw [hinput]; exact hR.input
  enqueued := by rw [hqueue]; exact hR.enqueued
  dequeued := by rw [hqueue]; exact hR.dequeued
  noFault := hR.noFault
  nodes := by rw [hqueue]; exact hR.nodes
  linking := by
    intro who a p hlink
    have hwho : who ≠ .thread i := by
      rintro rfl
      exact hR.not_linking hcall hlink
    rw [call_setPc hwho]
    exact hR.linking who a p hlink
  current := hR.current

theorem Refines.exec (hR : Refines c s t) (m : μ) :
    Refines c { s with mem := m } { t with mem := m } :=
  { hR with mem := rfl, linking := hR.linking }

/-! ## Critical sections -/

/-- An access that is not recorded found the object in place. -/
theorem not_freed_of_inTime {a : Access} (h : (t.access j a).afterFree = []) :
    (t.stop j).freed = false := by
  cases hf : (t.stop j).freed with
  | false => rfl
  | true => simp [State.access, hf] at h

theorem items_enqueueOn (t : State τ ε μ) (j : ℕ) (p : Option τ) :
    (fun k => ((t.enqueueOn j p).queue k).items) =
      Function.update (fun k => (t.queue k).items) j ((t.queue j).items ++ [p]) := by
  funext k
  by_cases hk : k = j
  · subst hk
    simp
  · simp [hk]

/-- The critical section of `enqueue`, on a queue that has not been freed. -/
theorem Refines.link (hR : Refines c s t) {who : Actor} {p : Option τ}
    (hcall : s.call c who = some (j, p)) (hlive : (t.stop j).freed = false)
    {next : NodeState τ ε μ → NodeState τ ε μ} (hs : s.link who j next = some s') :
    ∃ nodes, s' = next { s with
        nodes := nodes, enqueued := Function.update s.enqueued j (s.enqueued j ++ [p]) } ∧
      nodes.Holds (fun k => ((t.enqueueOn j p).queue k).items) ∧
      nodes.linking = Function.update s.nodes.linking who none := by
  unfold NodeState.link at hs
  split at hs
  · cases hs
  · rename_i node task hlink
    obtain ⟨k, hk⟩ := hR.linking who node task hlink
    obtain ⟨rfl, rfl⟩ : j = k ∧ p = task := by simpa [hcall] using hk
    obtain ⟨nodes, hok, hnodes, hlinking⟩ := hR.nodes.link hlink j
    have hlive' : (s.stop j).freed = false := by
      rw [hR.stop]
      exact hlive
    rw [if_neg (by simp [hlive']), hok] at hs
    cases hs
    rw [items_enqueueOn]
    exact ⟨nodes, rfl, hnodes, hlinking⟩

/-- What the nodes and the histories are behind it. -/
theorem Refines.linked (hR : Refines c s t) {who : Actor} {p : Option τ} {nodes : Shared Actor τ}
    (hnodes : nodes.Holds fun k => ((t.enqueueOn j p).queue k).items)
    (hlinking : nodes.linking = Function.update s.nodes.linking who none)
    (hs : s'.nodes = nodes ∧ s'.enqueued = Function.update s.enqueued j (s.enqueued j ++ [p]) ∧
      s'.dequeued = s.dequeued ∧ s'.fault = s.fault ∧ s'.current = s.current ∧
      s'.stop = s.stop ∧ s'.mem = s.mem)
    (ht : t'.queue = (t.enqueueOn j p).queue ∧ t'.stop = t.stop ∧ t'.mem = t.mem)
    (hpc : s'.pc = t'.pc) (hinput : s'.input = t'.input)
    (hcalls : ∀ w, w ≠ who → s'.call c w = s.call c w) : Refines c s' t' := by
  obtain ⟨rfl, hen, hde, hfault, hcur, hstop, hmem⟩ := hs
  obtain ⟨hqueue, hstop', hmem'⟩ := ht
  refine ⟨hpc, by rw [hstop, hstop', hR.stop], by rw [hmem, hmem', hR.mem], hinput, fun k => ?_,
    fun k => ?_, by rw [hfault, hR.noFault], by rw [hqueue]; exact hnodes, fun w a q hw => ?_,
    by rw [hcur]; exact hR.current⟩
  · rw [hen, hqueue, t.enqueueOn_put]
    by_cases hk : k = j
    · subst hk
      simp [hR.enqueued]
    · simp [hk, hR.enqueued]
  · rw [hde, hqueue, t.enqueueOn_taken, hR.dequeued]
  · rw [hlinking] at hw
    by_cases hwho : w = who
    · subst hwho
      rw [Function.update_self] at hw
      cases hw
    · rw [Function.update_of_ne hwho] at hw
      rw [hcalls w hwho]
      exact hR.linking w a q hw

/-- What the nodes and the histories are behind the critical section of `dequeue`. -/
theorem Refines.taken (hR : Refines c s t) {p : Option τ} {nodes : Shared Actor τ}
    {q : Fifo (Option τ)}
    (hnodes : nodes.Holds (Function.update (fun k => (t.queue k).items) i q.items))
    (hlinking : nodes.linking = s.nodes.linking) (hput : q.put = (t.queue i).put)
    (htaken : q.taken = (t.queue i).taken ++ [p]) :
    Refines c { s with
        nodes := nodes, dequeued := Function.update s.dequeued i (s.dequeued i ++ [p]) }
      { t.access i .dequeue with queue := Function.update t.queue i q } where
  pc := hR.pc
  stop := hR.stop
  mem := hR.mem
  input := hR.input
  noFault := hR.noFault
  current := hR.current
  enqueued := by
    intro k
    rw [hR.enqueued]
    by_cases hk : k = i
    · subst hk
      simp [hput]
    · simp [hk]
  dequeued := by
    intro k
    by_cases hk : k = i
    · subst hk
      simp [htaken, hR.dequeued]
    · simp [hk, hR.dequeued]
  nodes := by
    have hitems : (fun k => (Function.update t.queue i q k).items) =
        Function.update (fun k => (t.queue k).items) i q.items := by
      funext k
      by_cases hk : k = i
      · subst hk
        simp
      · simp [hk]
    rw [← hitems] at hnodes
    exact hnodes
  linking := by
    intro who a p hlink
    rw [hlinking] at hlink
    exact hR.linking who a p hlink

/-- Line 9 of `run`: the thread takes the first item. -/
theorem Refines.take (hR : Refines c s t) (hlive : (t.stop i).freed = false)
    (hpc : t.pc i = .dequeue) (hs : s.take i = some s') :
    ∃ t', dequeueStep i t = some t' ∧ Refines c s' t' := by
  have hlive' : (s.stop i).freed = false := by
    rw [hR.stop]
    exact hlive
  unfold NodeState.take at hs
  rw [if_neg (by simp [hlive'])] at hs
  split_ifs at hs with hhead
  cases hitems : (t.queue i).items with
  | nil =>
    have hnone := (hR.nodes.head_eq_none (j := i)).mpr hitems
    rw [hnone] at hhead
    exact absurd rfl hhead
  | cons p ps =>
    obtain ⟨nodes, hok, hnodes, hlinking⟩ := hR.nodes.take hitems
    obtain ⟨q, hq⟩ := Fifo.dequeue_of_items hitems
    obtain ⟨hqitems, hput, htaken⟩ := Fifo.dequeue_eq_some hq
    rw [hitems] at hqitems
    obtain ⟨-, rfl⟩ := List.cons.inj hqitems
    rw [hok] at hs
    cases hs
    refine ⟨_, by rw [dequeueStep, hq]; rfl, ?_⟩
    have hcall : (s.pc i).call i = none := by
      rw [hR.pc, hpc]
      rfl
    exact (hR.taken hnodes hlinking hput htaken).setPc hcall rfl rfl rfl rfl rfl

/-! ## Steps -/

/-- The critical section of an `enqueue` by the thread of `A_i`, which goes on at `pc`. -/
theorem Refines.thread_link (hR : Refines c s t) (hi : i ≤ c.last) {p : Option τ} {pc : Pc τ ε}
    (hcall : (s.pc i).call i = some (j, p)) (hlive : (t.stop j).freed = false)
    (hs : s.link (.thread i) j (fun s => s.setPc i pc) = some s')
    (ht : t'.pc = Function.update t.pc i pc ∧ t'.queue = (t.enqueueOn j p).queue ∧
      t'.stop = t.stop ∧ t'.mem = t.mem ∧ t'.input = t.input) : Refines c s' t' := by
  obtain ⟨hpc, hqueue, hstop, hmem, hinput⟩ := ht
  have hcall' : s.call c (.thread i) = some (j, p) := by rw [NodeState.call, if_pos hi, hcall]
  obtain ⟨nodes, rfl, hnodes, hlinking⟩ := hR.link hcall' hlive hs
  refine hR.linked hnodes hlinking ⟨rfl, rfl, rfl, rfl, rfl, rfl, rfl⟩ ⟨hqueue, hstop, hmem⟩
    ?_ ?_ ?_
  · rw [hpc, ← hR.pc]
    rfl
  · rw [hinput]
    exact hR.input
  · exact fun w hw => call_setPc (s := { s with
      nodes := nodes, enqueued := Function.update s.enqueued j (s.enqueued j ++ [p]) }) hw pc

/-- A step of a thread on the nodes is the same step on the lists. -/
theorem Refines.thread (hc : UpstreamOnly c) (hR : Refines c s t) (hinv : ShutdownInv c t)
    (hi : i ≤ c.last) (hok : SingleNull (.thread i) t) (hs : s.threadStep c i = some s') :
    ∃ t', threadStep c i t = some t' ∧ Refines c s' t' := by
  have hinTime : ∀ t', threadStep c i t = some t' → t'.afterFree = [] := fun t' ht =>
    (shutdownInv_thread hc hi hok ht hinv).inTime
  have hcall : s.pc i = t.pc i := by rw [hR.pc]
  unfold NodeState.threadStep at hs
  split at hs <;> rename_i hpc <;> rw [hcall] at hpc <;> rw [hpc] at hcall <;>
    simp only [threadStep, hpc, Option.some.injEq, exists_eq_left', forall_eq'] at hinTime ⊢
  case h_1 => exact hR.take (hinv.not_freed hi (by simp [hpc])) hpc hs
  case h_2 =>
    cases hs
    exact hR.setPc (by rw [hcall]; rfl) rfl rfl rfl rfl rfl
  case h_3 =>
    cases hs
    exact hR.setPc (by rw [hcall]; rfl) rfl rfl rfl rfl rfl
  case h_4 =>
    have hlive := not_freed_of_inTime (t := t) (j := i) (a := .enqueue) hinTime
    exact hR.thread_link hi (by rw [hcall]; rfl) hlive hs ⟨rfl, rfl, rfl, rfl, rfl⟩
  case h_5 =>
    have hlive := not_freed_of_inTime (t := t) (j := i + 1) (a := .enqueue) hinTime
    exact hR.thread_link hi (by rw [hcall]; rfl) hlive hs ⟨rfl, rfl, rfl, rfl, rfl⟩
  case h_6 =>
    rw [hR.mem] at hs
    cases hs
    exact (hR.exec _).setPc (by rw [hcall]; rfl) rfl rfl rfl rfl rfl
  case h_7 =>
    cases hs
    exact hR.setPc (by rw [hcall]; rfl) rfl rfl rfl rfl rfl
  case h_8 =>
    cases hs
    exact hR.setPc (by rw [hcall]; rfl) rfl rfl rfl rfl rfl
  case h_9 =>
    have hlive := not_freed_of_inTime (t := t) (j := i + 1) (a := .getQueue) hinTime
    rw [hR.stop, if_neg (by intro hd; rw [hd] at hlive; cases hlive)] at hs
    cases hs
    exact hR.setPc (by rw [hcall]; rfl) rfl rfl rfl rfl rfl
  case h_10 =>
    have hlive := not_freed_of_inTime (t := t) (j := i + 1) (a := .enqueue) hinTime
    exact hR.thread_link hi (by rw [hcall]; rfl) hlive hs ⟨rfl, rfl, rfl, rfl, rfl⟩
  case h_11 => cases hs

theorem Refines.setStop (hR : Refines c s t) (i : ℕ) (pc : StopPc) :
    Refines c (s.setStop i pc) { t with stop := Function.update t.stop i pc } :=
  { hR with
    stop := by
      show Function.update s.stop i pc = Function.update t.stop i pc
      rw [hR.stop]
    linking := hR.linking }

/-- The steps that are none on the lists: a `malloc`, and the entry of the loop of
    `deleteQueue`. -/
inductive NodeOnly (c : Chain τ ε μ) (s : NodeState τ ε μ) : NodeState τ ε μ → Prop
  | malloc {who : Actor} {p : ℕ × Option τ} {node : Addr × Option τ} {nodes : Shared Actor τ}
      (hcall : s.call c who = some p) (hlink : s.nodes.linking who = none)
      (hlinking : nodes.linking = Function.update s.nodes.linking who (some node)) :
      NodeOnly c s { s with nodes := nodes }
  | loop {i : ℕ} {p : Option Addr} (hi : i ≤ c.last) (hcur : s.current i = none) :
      NodeOnly c s { s with current := Function.update s.current i (some p) }

/-- A step of `stop` is the same step on the lists, or the entry of the loop of `deleteQueue`,
    which finds the queue empty. -/
theorem Refines.stop_step (hR : Refines c s t) (hinv : ShutdownInv c t) (hi : i ≤ c.last)
    (hs : s.stopStep i = some s') :
    Refines c s' t ∧ NodeOnly c s s' ∨ ∃ t', stopStep i t = some t' ∧ Refines c s' t' := by
  have hstop : s.stop i = t.stop i := by rw [hR.stop]
  unfold NodeState.stopStep at hs
  split at hs
  case h_1 h =>
    cases hs
    exact .inr ⟨_, by rw [stopStep, ← hstop, h], hR.setStop i .join⟩
  case h_2 h hpc =>
    cases hs
    rw [hR.pc] at hpc
    exact .inr ⟨_, by rw [stopStep, ← hstop, h, hpc], hR.setStop i .deleteQueue⟩
  case h_3 => cases hs
  case h_4 h =>
    cases hs
    have hreturned := hinv.joined i hi (by rw [← hstop, h]; rfl)
    have hhead := (hR.nodes.head_eq_none (j := i)).mpr (hinv.items_of_returned hi hreturned)
    unfold NodeState.deleteStep
    cases hcur : s.current i with
    | none =>
      rw [hhead]
      refine .inl ⟨{ hR with linking := hR.linking, current := fun k current hk => ?_ },
        .loop hi hcur⟩
      by_cases hki : k = i
      · subst hki
        simpa using hk.symm
      · exact hR.current k current (by simpa [hki] using hk)
    | some current =>
      rw [hR.current i current hcur]
      exact .inr ⟨_, by rw [stopStep, ← hstop, h], hR.setStop i .free⟩
  case h_5 h =>
    cases hs
    exact .inr ⟨_, by rw [stopStep, ← hstop, h], hR.setStop i .done⟩
  case h_6 => cases hs

/-- The critical section of the `enqueue` from outside. -/
theorem Refines.outside (hR : Refines c s t) (hinv : ShutdownInv c t)
    (hok : SingleNull .outside t) (hs : s.outsideStep = some s') :
    ∃ t', outsideStep t = some t' ∧ Refines c s' t' := by
  unfold NodeState.outsideStep at hs
  split at hs
  · cases hs
  · rename_i p rest hin
    have hcall : s.call c .outside = some (0, p) := by simp [NodeState.call, hin]
    have hlive := hinv.not_freed_of_put (Nat.zero_le _) hok
    obtain ⟨nodes, rfl, hnodes, hlinking⟩ := hR.link hcall hlive hs
    rw [hR.input] at hin
    refine ⟨{ t.enqueueOn 0 p with input := rest }, by rw [outsideStep, hin], ?_⟩
    refine hR.linked hnodes hlinking ⟨rfl, rfl, rfl, rfl, rfl, rfl, rfl⟩ ⟨rfl, rfl, rfl⟩ hR.pc
      rfl ?_
    intro w hw
    cases w with
    | outside => exact absurd rfl hw
    | thread k => rfl
    | stop k => rfl

theorem Refines.malloc (hR : Refines c s t) {who : Actor} {a : Addr}
    (hs : s.mallocStep c who a = some s') : Refines c s' t ∧ NodeOnly c s s' := by
  unfold NodeState.mallocStep at hs
  split at hs
  · cases hs
  · rename_i j task hcall
    obtain ⟨nodes, hmalloc, rfl⟩ := Option.map_eq_some_iff.mp hs
    obtain ⟨hnodes, hnone, hlinking⟩ := hR.nodes.malloc hmalloc
    refine ⟨{ hR with nodes := hnodes, linking := fun w b p hw => ?_ },
      .malloc hcall hnone hlinking⟩
    change nodes.linking w = some (b, p) at hw
    rw [hlinking] at hw
    by_cases hwho : w = who
    · subst hwho
      rw [Function.update_self] at hw
      cases hw
      exact ⟨j, hcall⟩
    · rw [Function.update_of_ne hwho] at hw
      exact hR.linking w b p hw

/-! ## Simulation -/

/-- As `SingleNull`: the step does not link a node into the queue of `A_0` behind a `NULL`. -/
def NodeSingleNull (act : NodeAct) (s : NodeState τ ε μ) : Prop :=
  match act with
  | .step .outside => none ∉ s.enqueued 0
  | .step (.thread i) => i = 0 → ∀ t p rest, s.pc 0 = .inFunc t (.enqueueOwn p :: rest) →
      none ∉ s.enqueued 0
  | _ => True

theorem Refines.singleNull (hR : Refines c s t) {who : Actor} (h : NodeSingleNull (.step who) s) :
    SingleNull who t := by
  cases who with
  | outside =>
    show none ∉ (t.queue 0).put
    rw [← hR.enqueued]
    exact h
  | thread i =>
    intro hi u p rest hpc
    rw [← hR.enqueued]
    rw [← hR.pc] at hpc
    exact h hi u p rest hpc
  | stop i => trivial

/-- A step on the nodes is silent, or the step of the same actor on the lists. -/
theorem Refines.step (hc : UpstreamOnly c) {input : List (Option τ)} {mem : μ}
    (hR : Refines c s t) (hinv : ShutdownInv c t) {act : NodeAct} (hok : NodeSingleNull act s)
    (hs : (nodeSystem c input mem).step act s = some s') :
    Refines c s' t ∧ NodeOnly c s s' ∨ ∃ who, act = .step who ∧ SingleNull who t ∧
      ∃ t', (system c input mem).step who t = some t' ∧ Refines c s' t' := by
  cases act with
  | malloc who a => exact .inl (hR.malloc hs)
  | step who =>
    have hok' := hR.singleNull hok
    cases who with
    | outside => exact .inr ⟨_, rfl, hok', hR.outside hinv hok' hs⟩
    | thread i =>
      obtain ⟨hi, hs⟩ := Option.ite_none_right_eq_some.mp hs
      obtain ⟨t', ht, hR'⟩ := hR.thread hc hinv hi hok' hs
      exact .inr ⟨_, rfl, hok', t', by rw [← ht]; exact if_pos hi, hR'⟩
    | stop i =>
      obtain ⟨hi, hs⟩ := Option.ite_none_right_eq_some.mp hs
      refine (hR.stop_step hinv hi hs).imp_right ?_
      rintro ⟨t', ht, hR'⟩
      exact ⟨_, rfl, hok', t', by rw [← ht]; exact if_pos hi, hR'⟩

/-- **Simulation.** Every run on the nodes that meets `NodeSingleNull` is a run on the lists. -/
theorem nodes_refine (hc : UpstreamOnly c) (input : List (Option τ)) (mem : μ) :
    System.Simulation (nodeSystem c input mem) NodeSingleNull (system c input mem)
      fun s t => (system c input mem).Reach SingleNull t ∧ Refines c s t where
  init := ⟨.init, refines_init input mem⟩
  step := by
    rintro act s s' t hok ⟨hreach, hR⟩ hs
    rcases hR.step hc (shutdownInv_reach hc hreach) hok hs with
      ⟨hR', -⟩ | ⟨who, -, hok', t', ht, hR'⟩
    · exact ⟨[], t, rfl, hreach, hR'⟩
    · exact ⟨[who], t', by rw [System.exec_cons, ht]; rfl, .step hreach hok' ht, hR'⟩

/-- A chain that behaves as `partD_a` enqueues its `NULL` last. -/
theorem Refines.nodeSingleNull {arr : τ} {xs : List τ} {mem : μ} (hR : Refines c s t)
    (hinv : Inv c arr xs t) {act : NodeAct}
    (hs : (nodeSystem c [some arr] mem).step act s = some s') : NodeSingleNull act s := by
  cases act with
  | malloc who a => trivial
  | step who =>
    cases who with
    | outside =>
      show none ∉ s.enqueued 0
      rw [hR.enqueued]
      have hs' : s.outsideStep = some s' := hs
      unfold NodeState.outsideStep at hs'
      split at hs'
      · cases hs'
      · rename_i p rest hin
        rw [hR.input] at hin
        have hstep : (system c [some arr] mem).step .outside t =
            some { t.enqueueOn 0 p with input := rest } := by
          simp only [system, outsideStep, hin]
        exact hinv.singleNull hstep
    | thread i =>
      rintro rfl u p rest hpc
      rw [hR.enqueued]
      rw [hR.pc] at hpc
      have hstep : (system c [some arr] mem).step (.thread 0) t =
          some ((t.enqueueOn 0 p).setPc 0 (.inFunc u rest)) := by
        simp only [system, Nat.zero_le, if_true, threadStep, hpc, perform]
      exact hinv.singleNull hstep rfl u p rest hpc
    | stop i => trivial

/-- A run on the nodes of such a chain is a run on its lists that meets a condition, where the
    condition of the run on the nodes implies it. -/
theorem reach_refines {arr : τ} {xs : List τ} {mem : μ} (hc : PartDAChain c arr xs)
    (hu : UpstreamOnly c) {okNodes : NodeAct → NodeState τ ε μ → Prop}
    {ok : Actor → State τ ε μ → Prop}
    (himp : ∀ who s t, okNodes (.step who) s → EndInv c arr xs t → Refines c s t → ok who t)
    (h : (nodeSystem c [some arr] mem).Reach okNodes s) :
    ∃ t, (system c [some arr] mem).Reach ok t ∧ Refines c s t := by
  induction h with
  | init => exact ⟨_, .init, refines_init _ mem⟩
  | step _ hact hs ih =>
    obtain ⟨t, hreach, hR⟩ := ih
    have hinv := endInv_reach hc hu hreach
    rcases hR.step hu hinv.shutdown (hR.nodeSingleNull hinv.delivery hs) hs with
      ⟨hR', -⟩ | ⟨who, rfl, -, t', ht, hR'⟩
    · exact ⟨t, hreach, hR'⟩
    · exact ⟨t', .step hreach (himp who _ t hact hinv hR) ht, hR'⟩

theorem reach_nodeSingleNull {arr : τ} {xs : List τ} {mem : μ} (hc : PartDAChain c arr xs)
    (hu : UpstreamOnly c) (h : (nodeSystem c [some arr] mem).Reachable s) :
    (nodeSystem c [some arr] mem).Reach NodeSingleNull s := by
  induction h with
  | init => exact .init
  | @step s s' act hs _ hstep ih =>
    obtain ⟨t, hreach, hR⟩ :
        ∃ t, (system c [some arr] mem).Reachable t ∧ Refines c s t :=
      reach_refines hc hu (fun _ _ _ _ _ _ => trivial) hs
    exact .step ih (hR.nodeSingleNull (inv_reachable hc hreach) hstep) hstep

/-- No run of a chain on its nodes, as long as it enqueues nothing behind the `NULL` of the
    first queue, accesses a node, a queue or an object that is null or has been freed. In every
    state it reaches, each queue is an acyclic list of live nodes with the tasks that the chain
    on lists has there, no node is in two queues, and every live node is in a queue or about to
    be linked by the one thread that allocated it. -/
theorem chain_nodes (hc : UpstreamOnly c) {input : List (Option τ)} {mem : μ}
    (h : (nodeSystem c input mem).Reach NodeSingleNull s) :
    s.fault = none ∧ ∃ t, (system c input mem).Reach SingleNull t ∧ s.pc = t.pc ∧
      s.stop = t.stop ∧ s.mem = t.mem ∧ s.input = t.input ∧ ∃ as : ℕ → List Addr,
        (∀ j, IsList TaskQueue.Node.next s.nodes.heap (s.nodes.queue j).head (as j) ∧
          TaskQueue.tasks s.nodes.heap (as j) = (t.queue j).items) ∧
        (∀ j k a, a ∈ as j → a ∈ as k → j = k) ∧
        (∀ who a task, s.nodes.linking who = some (a, task) → ∀ j, a ∉ as j) ∧
        ∀ a, s.nodes.heap a ≠ none →
          (∃ j, a ∈ as j) ∨ ∃! who, ∃ task, s.nodes.linking who = some (a, task) := by
  obtain ⟨t, -, hreach, hR⟩ := (nodes_refine hc input mem).reach h
  obtain ⟨as, hsound, hitems⟩ := hR.nodes
  refine ⟨hR.noFault, t, hreach, hR.pc, hR.stop, hR.mem, hR.input, as,
    fun j => ⟨(hsound.queues j).list, (hitems j).symm⟩, hsound.disjoint,
    fun who a task hlink j => (hsound.queues j).pending.outside who a task hlink, fun a ha => ?_⟩
  refine (hsound.owned a ha).imp_right ?_
  rintro ⟨who, task, hlink⟩
  refine ⟨who, ⟨task, hlink⟩, ?_⟩
  rintro who' ⟨task', hlink'⟩
  exact (hsound.queues 0).pending.owner who' who a task' task hlink' hlink

/-- Two nodes in the queue of `A_1` and one in the hand of `A_0`. -/
def threeStagesNodes : List NodeAct :=
  [.malloc .outside 4, .step .outside, .step (.thread 0), .step (.thread 0),
    .malloc (.thread 0) 4, .step (.thread 0), .malloc (.thread 0) 9, .step (.thread 0),
    .malloc (.thread 0) 2]

theorem chain_nodes_threeStages : UpstreamOnly threeStages ∧
    ∃ s, (nodeSystem threeStages [some 0] ()).exec threeStagesNodes
        (nodeSystem threeStages [some 0] ()).init = some s ∧
      (nodeSystem threeStages [some 0] ()).Reach NodeSingleNull s ∧ s.fault = none := by
  have hu := threeStages_upstreamOnly
  refine ⟨hu, _, rfl, ?_⟩
  have hreach := reach_nodeSingleNull threeStages_partDA hu
    (System.Reach.of_exec (S := nodeSystem threeStages [some 0] ()) (l := threeStagesNodes) rfl)
  exact ⟨hreach, (chain_nodes hu hreach).1⟩

end ChatOnC.ActiveObject
