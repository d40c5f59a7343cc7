import ChatOnC.ActiveObject.Cleanup
import ChatOnC.Pipeline.Output

/-!
# The number pipeline on linked queues

The four threads of `st_pipeline.c` and `stop` on their objects, down to the nodes of `queue.c`:
the chain of `main` on the queues of `ChatOnC.ActiveObject.Nodes`. The joins that `main` makes
in front of the calls of `stop` (lines 97–100) are left out: with them the join in `stop` is a
second one of the same thread, which is undefined.

* `partDDReturned_iff`: when the generator may go on, told from the queues of the nodes.
* `pipeline_nodes`: with pauses that are long enough every run ends, has printed what the
  threads are to print, and has freed every node.
-/

namespace ChatOnC.Pipeline

open ChatOnC.Common ChatOnC.ActiveObject

variable {size : ℤ} {rand : ℕ → ℕ} {flag : ℕ → ℤ} {s : NodeState Ptr Access Memory}
  {t : State Ptr Access Memory}

/-- The threads of the pipeline, and `stop` on each object, on the nodes of its queues. -/
def nodePipeline (size : ℤ) (rand : ℕ → ℕ) (flag : ℕ → ℤ) :
    System (NodeState Ptr Access Memory) NodeAct :=
  nodeSystem (chain size rand flag) [some .arr] .empty

/-- As `PartDDReturned`: the last object has dequeued a pointer for every number handed out, and
    is not in a call. -/
def NodePartDDReturned (s : NodeState Ptr Access Memory) : Prop :=
  nonNull (s.dequeued 3) = nonNull (s.enqueued 1) ∧ calling (s.pc 3) = false

/-- As `PauseSuffices`. -/
def NodePauseSuffices (act : NodeAct) (s : NodeState Ptr Access Memory) : Prop :=
  act = .step (.thread 0) → pauseOver (s.pc 0) = true → NodePartDDReturned s

theorem partDDReturned_iff (hR : Refines (chain size rand flag) s t)
    (hinv : Inv (chain size rand flag) .arr (List.replicate size.toNat .num) t) :
    NodePartDDReturned s ↔ PartDDReturned t := by
  rw [NodePartDDReturned, PartDDReturned, hR.dequeued, hR.enqueued, hR.pc,
    (hinv.stages 3 (Nat.le_refl 3)).1]
  refine and_congr_left fun hcalling => ?_
  have hunapplied : nonNull (unapplied (t.pc 3)) = 0 := by
    cases hpc : t.pc 3 with
    | func temp =>
      rw [hpc] at hcalling
      cases hcalling
    | getQueue temp => cases temp <;> rfl
    | enqueue temp => cases temp <;> rfl
    | _ => rfl
  rw [nonNull_append, nonNull_map_some, hunapplied, Nat.add_zero]

/-- The threads and `stop` are through on the nodes, and what is to be printed has been. -/
structure NodePrinted (size : ℤ) (rand : ℕ → ℕ) (flag : ℕ → ℤ)
    (s : NodeState Ptr Access Memory) : Prop where
  cleaned : Cleaned (chain size rand flag) (List.replicate size.toNat .num) s
  output : ∀ stage, s.mem.printed stage = (printouts size rand stage).map some

/-- **The pipeline on its nodes.** With pauses that are long enough, every run of the threads and
    of `stop` on the linked queues ends: the threads have printed for every number what they are
    to print, every node of the queues has been freed, and no access has failed. -/
theorem pipeline_nodes (size : ℤ) (rand : ℕ → ℕ) (flag : ℕ → ℤ)
    (hflag : ∀ i, 1 ≤ i → i ≤ 3 → flag i ≠ 1) :
    (nodePipeline size rand flag).AlwaysEnds NodePauseSuffices (NodePrinted size rand flag) := by
  have hc : PartDAChain (chain size rand flag) .arr (List.replicate size.toNat .num) :=
    chain_partDA hflag
  have hu := chain_upstreamOnly size rand flag
  have hpause : ∀ who s t, NodePauseSuffices (.step who) s →
      EndInv (chain size rand flag) .arr (List.replicate size.toNat .num) t →
      Refines (chain size rand flag) s t → PauseSuffices who t := by
    rintro who s t hok hinv hR rfl hover
    rw [← hR.pc] at hover
    exact (partDDReturned_iff hR hinv.delivery).mp (hok rfl hover)
  apply System.alwaysEnds_of_measure
    (nodeWork (chain size rand flag) .arr (List.replicate size.toNat .num))
    (I := fun s => ∃ t, (pipeline size rand flag).Reach PauseSuffices t ∧
      Refines (chain size rand flag) s t)
  · exact fun s hs => reach_refines hc hu hpause hs
  · rintro act s s' - ⟨t, hreach, hR⟩ hs
    exact nodeWork_lt hc hu hR (endInv_reach hc hu hreach) hs
  · rintro s ⟨t, hreach, hR⟩ hstuck
    have hinv := endInv_reach hc hu hreach
    have hmalloc : ∀ who a, s.mallocStep (chain size rand flag) who a = none :=
      fun who a => hstuck (.malloc who a) (by rintro ⟨⟩)
    have houtside := hR.outside_stuck (hmalloc .outside) (hstuck (.step .outside) (by rintro ⟨⟩))
    have hstages : ∀ i, 1 ≤ i → i ≤ 3 → threadStep (chain size rand flag) i t = none := by
      intro i h1 hi
      apply hR.thread_stuck hi (hmalloc (.thread i))
      exact nodeThread_of_none hi (hstuck (.step (.thread i)) (by rintro ⟨⟩; omega))
    have hsuffices : NodePauseSuffices (.step (.thread 0)) s := by
      intro _ hover
      rw [hR.pc] at hover
      exact (partDDReturned_iff hR hinv.delivery).mpr
        (pauseSuffices_of_quiet hflag hinv hstages _ rfl hover)
    have hgenerator : threadStep (chain size rand flag) 0 t = none := by
      apply hR.thread_stuck (Nat.zero_le 3) (hmalloc (.thread 0))
      exact nodeThread_of_none (Nat.zero_le _) (hstuck (.step (.thread 0)) hsuffices)
    have hended : Ended (chain size rand flag) (List.replicate size.toNat .num) t := by
      apply hinv.ended hc houtside
      · intro i hi
        rcases Nat.eq_zero_or_pos i with rfl | h1
        · exact hgenerator
        · exact hstages i h1 hi
      · intro i hi
        apply hR.stop_stuck
        exact nodeStop_of_none hi (hstuck (.step (.stop i)) (by rintro ⟨⟩))
    refine ⟨hR.cleaned hc hu hreach houtside hended, fun stage => ?_⟩
    rw [hR.mem]
    exact (printed_of_ended hflag hreach hended).output stage

theorem pipeline_nodes_two : (∀ i, 1 ≤ i → i ≤ 3 → (fun _ => 0 : ℕ → ℤ) i ≠ 1) ∧
    (nodePipeline 2 id fun _ => 0).AlwaysEnds NodePauseSuffices (NodePrinted 2 id fun _ => 0) :=
  ⟨by decide, pipeline_nodes 2 id (fun _ => 0) (by decide)⟩

end ChatOnC.Pipeline
