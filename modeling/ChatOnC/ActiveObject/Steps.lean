import ChatOnC.ActiveObject.Model
import Mathlib.Tactic.Common

/-!
# What the steps of a chain can change

Field lemmas of the state updates, and for a step of each kind the frame (what
it leaves alone) and its effect on the two ends of the queues:

* `moves_of_threadStep`: the steps of a thread, one case for each place in `run`.
* `thread_frame`: a thread changes the program counter and the histories of its
  own object only, and dequeues only from its own queue.
* `thread_put`, `outside_put`: what a step appends to each queue (`emits`).
* `thread_forwarded`, `thread_inFunc`, `thread_calls`: what `run` forwards, and the
  steps of a function.
* `thread_afterFree`: which accesses a step can record.
* `suffix_reachable`: in a call, an end of the function is left.
-/

namespace ChatOnC.ActiveObject

open ChatOnC.Common

variable {τ ε μ : Type*} {c : Chain τ ε μ} {s s' : State τ ε μ} {i j : ℕ}

namespace State

variable (s) (pc : Pc τ ε) (a : Access) (p : Option τ)

@[simp] theorem setPc_pc : (s.setPc i pc).pc = Function.update s.pc i pc := rfl
@[simp] theorem setPc_queue : (s.setPc i pc).queue = s.queue := rfl
@[simp] theorem setPc_stop : (s.setPc i pc).stop = s.stop := rfl
@[simp] theorem setPc_mem : (s.setPc i pc).mem = s.mem := rfl
@[simp] theorem setPc_input : (s.setPc i pc).input = s.input := rfl
@[simp] theorem setPc_applied : (s.setPc i pc).applied = s.applied := rfl
@[simp] theorem setPc_forwarded : (s.setPc i pc).forwarded = s.forwarded := rfl
@[simp] theorem setPc_afterFree : (s.setPc i pc).afterFree = s.afterFree := rfl

@[simp] theorem access_pc : (s.access j a).pc = s.pc := rfl
@[simp] theorem access_queue : (s.access j a).queue = s.queue := rfl
@[simp] theorem access_stop : (s.access j a).stop = s.stop := rfl
@[simp] theorem access_mem : (s.access j a).mem = s.mem := rfl
@[simp] theorem access_input : (s.access j a).input = s.input := rfl
@[simp] theorem access_applied : (s.access j a).applied = s.applied := rfl
@[simp] theorem access_forwarded : (s.access j a).forwarded = s.forwarded := rfl

@[simp] theorem enqueueOn_pc : (s.enqueueOn j p).pc = s.pc := rfl
@[simp] theorem enqueueOn_queue :
    (s.enqueueOn j p).queue = Function.update s.queue j ((s.queue j).enqueue p) := rfl
@[simp] theorem enqueueOn_stop : (s.enqueueOn j p).stop = s.stop := rfl
@[simp] theorem enqueueOn_mem : (s.enqueueOn j p).mem = s.mem := rfl
@[simp] theorem enqueueOn_input : (s.enqueueOn j p).input = s.input := rfl
@[simp] theorem enqueueOn_applied : (s.enqueueOn j p).applied = s.applied := rfl
@[simp] theorem enqueueOn_forwarded : (s.enqueueOn j p).forwarded = s.forwarded := rfl

theorem enqueueOn_put (i : ℕ) :
    ((s.enqueueOn j p).queue i).put = (s.queue i).put ++ (if i = j then [p] else []) := by
  by_cases h : i = j
  · subst h
    simp
  · simp [h]

theorem enqueueOn_taken (i : ℕ) : ((s.enqueueOn j p).queue i).taken = (s.queue i).taken := by
  by_cases h : i = j
  · subst h
    simp
  · simp [h]

/-- An access to an object that is not freed is not recorded. -/
theorem access_afterFree (h : (s.stop j).freed = false) :
    (s.access j a).afterFree = s.afterFree := by
  simp [access, h]

theorem enqueueOn_afterFree (h : (s.stop j).freed = false) :
    (s.enqueueOn j p).afterFree = s.afterFree :=
  s.access_afterFree _ h

end State

/-! ## Function steps -/

@[simp] theorem perform_pc (e : Effect τ ε) : (perform c i s e).pc = s.pc := by cases e <;> rfl
@[simp] theorem perform_stop (e : Effect τ ε) : (perform c i s e).stop = s.stop := by
  cases e <;> rfl
@[simp] theorem perform_input (e : Effect τ ε) : (perform c i s e).input = s.input := by
  cases e <;> rfl
@[simp] theorem perform_applied (e : Effect τ ε) : (perform c i s e).applied = s.applied := by
  cases e <;> rfl
@[simp] theorem perform_forwarded (e : Effect τ ε) :
    (perform c i s e).forwarded = s.forwarded := by cases e <;> rfl

theorem perform_taken (e : Effect τ ε) (j : ℕ) :
    ((perform c i s e).queue j).taken = (s.queue j).taken := by
  cases e with
  | enqueueOwn p => exact s.enqueueOn_taken p j
  | enqueueNext p => exact s.enqueueOn_taken p j
  | act a => rfl

/-- What a step of the thread of `A_i` at `pc` appends to the queue of `A_j`. -/
def emits (i : ℕ) (pc : Pc τ ε) (j : ℕ) : List (Option τ) :=
  match pc with
  | .inFunc _ (.enqueueOwn p :: _) => if j = i then [p] else []
  | .inFunc _ (.enqueueNext p :: _) => if j = i + 1 then [p] else []
  | .enqueue p => if j = i + 1 then [p] else []
  | _ => []

/-- A successful step of `dequeue`. -/
theorem dequeueStep_eq_some (h : dequeueStep i s = some s') :
    ∃ temp queue, (s.queue i).dequeue = some (temp, queue) ∧
      s' = ({ s.access i .dequeue with queue := Function.update s.queue i queue } :
        State τ ε μ).setPc i (.ofTemp temp) := by
  obtain ⟨⟨temp, queue⟩, hq, rfl⟩ := Option.map_eq_some_iff.mp h
  exact ⟨temp, queue, hq, rfl⟩

/-- The steps of the thread of `A_i`, by where it stands. -/
inductive Moves (c : Chain τ ε μ) (i : ℕ) (s : State τ ε μ) : State τ ε μ → Prop
  | dequeue {temp : Option τ} {queue : Fifo (Option τ)} (hpc : s.pc i = .dequeue)
      (hq : (s.queue i).dequeue = some (temp, queue)) :
      Moves c i s (({ s.access i .dequeue with queue := Function.update s.queue i queue } :
        State τ ε μ).setPc i (.ofTemp temp))
  | func {temp : τ} (hpc : s.pc i = .func temp) :
      Moves c i s { s.setPc i (.inFunc temp (c.func i temp)) with
        applied := Function.update s.applied i (s.applied i ++ [temp]) }
  | leave {temp : τ} (hpc : s.pc i = .inFunc temp []) : Moves c i s (s.setPc i (.test temp))
  | effect {temp : τ} {e : Effect τ ε} {rest : List (Effect τ ε)}
      (hpc : s.pc i = .inFunc temp (e :: rest)) :
      Moves c i s ((perform c i s e).setPc i (.inFunc temp rest))
  | test {temp : τ} (hpc : s.pc i = .test temp) :
      Moves c i s (s.setPc i (if c.flag i ≠ 1 ∧ i < c.last then .getQueue (some temp)
        else .dequeue))
  | last (hpc : s.pc i = .last) :
      Moves c i s (s.setPc i (if i < c.last then .getQueue none else .returned))
  | getQueue {temp : Option τ} (hpc : s.pc i = .getQueue temp) :
      Moves c i s ((s.access (i + 1) .getQueue).setPc i (.enqueue temp))
  | enqueue {temp : Option τ} (hpc : s.pc i = .enqueue temp) :
      Moves c i s
        { (s.enqueueOn (i + 1) temp).setPc i (if temp.isSome then .dequeue else .returned) with
          forwarded := Function.update s.forwarded i (s.forwarded i ++ [temp]) }

/-- **What a thread can do.** -/
theorem moves_of_threadStep (h : threadStep c i s = some s') : Moves c i s s' := by
  unfold threadStep at h
  split at h <;> rename_i hpc
  · obtain ⟨temp, queue, hq, rfl⟩ := dequeueStep_eq_some h
    exact .dequeue hpc hq
  · exact Option.some.inj h ▸ .func hpc
  · exact Option.some.inj h ▸ .leave hpc
  · exact Option.some.inj h ▸ .effect hpc
  · exact Option.some.inj h ▸ .test hpc
  · exact Option.some.inj h ▸ .last hpc
  · exact Option.some.inj h ▸ .getQueue hpc
  · exact Option.some.inj h ▸ .enqueue hpc
  · exact absurd h (Option.some_ne_none s').symm

/-! ## Frames -/

/-- What the thread of `A_i` leaves alone. -/
theorem thread_frame (h : threadStep c i s = some s') (hj : j ≠ i) :
    s'.pc j = s.pc j ∧ (s'.queue j).taken = (s.queue j).taken ∧ s'.applied j = s.applied j ∧
      s'.forwarded j = s.forwarded j := by
  cases moves_of_threadStep h with
  | dequeue hpc hq => simp [hj]
  | func hpc => simp [hj]
  | leave hpc => simp [hj]
  | effect hpc => simp [hj, perform_taken]
  | test hpc => simp [hj]
  | last hpc => simp [hj]
  | getQueue hpc => simp [hj]
  | enqueue hpc => simp [hj, State.enqueueOn_taken, -State.enqueueOn_queue]

theorem thread_stop (h : threadStep c i s = some s') : s'.stop = s.stop ∧ s'.input = s.input := by
  cases moves_of_threadStep h with
  | effect hpc => simp
  | _ => exact ⟨rfl, rfl⟩

theorem thread_put (h : threadStep c i s = some s') (j : ℕ) :
    (s'.queue j).put = (s.queue j).put ++ emits i (s.pc i) j := by
  cases moves_of_threadStep h with
  | dequeue hpc hq =>
    rw [hpc]
    by_cases hj : j = i
    · subst hj
      simpa [emits] using (Fifo.dequeue_eq_some hq).2.1
    · simp [emits, hj]
  | func hpc => simp [hpc, emits]
  | leave hpc => simp [hpc, emits]
  | @effect temp e rest hpc =>
    rw [hpc]
    cases e with
    | enqueueOwn p => simpa [perform, emits] using s.enqueueOn_put p j
    | enqueueNext p => simpa [perform, emits] using s.enqueueOn_put p j
    | act a => simp [perform, emits]
  | test hpc => simp [hpc, emits]
  | last hpc => simp [hpc, emits]
  | getQueue hpc => simp [hpc, emits]
  | @enqueue temp hpc =>
    rw [hpc]
    exact s.enqueueOn_put temp j

/-- What a step of `run` at `pc` forwards. -/
def passes : Pc τ ε → List (Option τ)
  | .enqueue temp => [temp]
  | _ => []

theorem thread_forwarded (h : threadStep c i s = some s') :
    s'.forwarded i = s.forwarded i ++ passes (s.pc i) := by
  cases moves_of_threadStep h with
  | dequeue hpc => simp [hpc, passes]
  | func hpc => simp [hpc, passes]
  | leave hpc => simp [hpc, passes]
  | effect hpc => simp [hpc, passes]
  | test hpc => simp [hpc, passes]
  | last hpc => simp [hpc, passes]
  | getQueue hpc => simp [hpc, passes]
  | enqueue hpc => simp [hpc, passes]

/-- The function steps left after a step of the thread of `A_i`. -/
theorem thread_inFunc (h : threadStep c i s = some s') {t : τ} {rest : List (Effect τ ε)}
    (hpc' : s'.pc i = .inFunc t rest) :
    s.pc i = .func t ∧ rest = c.func i t ∨ ∃ e, s.pc i = .inFunc t (e :: rest) := by
  cases moves_of_threadStep h with
  | @dequeue temp queue hpc hq =>
    rcases temp with _ | temp <;> simp [Pc.ofTemp] at hpc'
  | func hpc =>
    simp only [State.setPc_pc, Function.update_self, Pc.inFunc.injEq] at hpc'
    obtain ⟨rfl, rfl⟩ := hpc'
    exact .inl ⟨hpc, rfl⟩
  | leave hpc => simp at hpc'
  | @effect temp e rest' hpc =>
    simp only [State.setPc_pc, Function.update_self, Pc.inFunc.injEq] at hpc'
    obtain ⟨rfl, rfl⟩ := hpc'
    exact .inr ⟨e, hpc⟩
  | test hpc =>
    simp only [State.setPc_pc, Function.update_self] at hpc'
    split_ifs at hpc'
  | last hpc =>
    simp only [State.setPc_pc, Function.update_self] at hpc'
    split_ifs at hpc'
  | getQueue hpc => simp at hpc'
  | enqueue hpc =>
    simp only [State.setPc_pc, Function.update_self] at hpc'
    split_ifs at hpc'

/-- A step of the thread of `A_i` enters its function, is a step of it, or is
    outside of it and leaves the memory alone. -/
theorem thread_calls (h : threadStep c i s = some s') :
    (∃ t, s.pc i = .func t ∧ s'.pc i = .inFunc t (c.func i t) ∧
      s'.applied i = s.applied i ++ [t] ∧ s'.mem = s.mem) ∨
    (∃ t e rest, s.pc i = .inFunc t (e :: rest) ∧
      s' = (perform c i s e).setPc i (.inFunc t rest)) ∨
    ((∀ t, s.pc i ≠ .func t) ∧ (∀ t e rest, s.pc i ≠ .inFunc t (e :: rest)) ∧
      (∀ t rest, s'.pc i ≠ .inFunc t rest) ∧ s'.applied i = s.applied i ∧ s'.mem = s.mem) := by
  cases moves_of_threadStep h with
  | @func temp hpc => exact .inl ⟨temp, hpc, by simp, by simp, rfl⟩
  | @effect temp e rest hpc => exact .inr (.inl ⟨temp, e, rest, hpc, rfl⟩)
  | @dequeue temp queue hpc hq =>
    refine .inr (.inr ?_)
    simp only [hpc, State.setPc_pc, Function.update_self]
    rcases temp with _ | temp <;> simp [Pc.ofTemp, State.access]
  | leave hpc =>
    refine .inr (.inr ?_)
    simp [hpc]
  | test hpc =>
    refine .inr (.inr ?_)
    simp only [hpc, State.setPc_pc, Function.update_self]
    split_ifs <;> simp
  | last hpc =>
    refine .inr (.inr ?_)
    simp only [hpc, State.setPc_pc, Function.update_self]
    split_ifs <;> simp
  | getQueue hpc =>
    refine .inr (.inr ?_)
    simp [hpc]
  | enqueue hpc =>
    refine .inr (.inr ?_)
    simp only [hpc, State.setPc_pc, Function.update_self]
    split_ifs <;> simp

/-- The next step at `pc` accesses the next object. -/
def touchesNext : Pc τ ε → Bool
  | .inFunc _ (.enqueueNext _ :: _) | .getQueue _ | .enqueue _ => true
  | _ => false

/-- No late access is recorded if neither the object nor, when the step
    accesses it, the next one is freed. -/
theorem thread_afterFree (h : threadStep c i s = some s') (hi : (s.stop i).freed = false)
    (hn : touchesNext (s.pc i) = true → (s.stop (i + 1)).freed = false) :
    s'.afterFree = s.afterFree := by
  cases moves_of_threadStep h with
  | dequeue hpc hq => exact s.access_afterFree _ hi
  | @effect temp e rest hpc =>
    rw [hpc] at hn
    cases e with
    | enqueueOwn p => exact s.enqueueOn_afterFree p hi
    | enqueueNext p => exact s.enqueueOn_afterFree p (hn rfl)
    | act a => rfl
  | getQueue hpc =>
    rw [hpc] at hn
    exact s.access_afterFree _ (hn rfl)
  | @enqueue temp hpc =>
    rw [hpc] at hn
    exact s.enqueueOn_afterFree temp (hn rfl)
  | _ => rfl

/-- A step of the outside. -/
theorem outsideStep_eq_some (h : outsideStep s = some s') :
    ∃ p rest, s.input = p :: rest ∧ s' = { s.enqueueOn 0 p with input := rest } := by
  unfold outsideStep at h
  split at h
  · exact absurd h (Option.some_ne_none s').symm
  · rename_i p rest hin
    exact ⟨p, rest, hin, (Option.some.inj h).symm⟩

/-- The outside touches the queue of `A_0` only. -/
theorem outside_frame (h : outsideStep s = some s') :
    s'.pc = s.pc ∧ s'.applied = s.applied ∧ s'.forwarded = s.forwarded ∧ s'.stop = s.stop ∧
      ∀ j, (s'.queue j).taken = (s.queue j).taken := by
  obtain ⟨p, rest, -, rfl⟩ := outsideStep_eq_some h
  exact ⟨rfl, rfl, rfl, rfl, fun j => s.enqueueOn_taken p j⟩

theorem outside_mem (h : outsideStep s = some s') : s'.mem = s.mem := by
  obtain ⟨p, rest, -, rfl⟩ := outsideStep_eq_some h
  rfl

theorem outside_put (h : outsideStep s = some s') :
    ∃ p, s.input = p :: s'.input ∧
      ∀ j, (s'.queue j).put = (s.queue j).put ++ (if j = 0 then [p] else []) := by
  obtain ⟨p, rest, hin, rfl⟩ := outsideStep_eq_some h
  exact ⟨p, hin, fun j => s.enqueueOn_put p j⟩

/-- `stop` touches only its own progress, and passes `pthread_join` only when
    `run` has returned. -/
theorem stop_frame (h : stopStep i s = some s') :
    s'.pc = s.pc ∧ s'.queue = s.queue ∧ s'.applied = s.applied ∧ s'.forwarded = s.forwarded ∧
      s'.input = s.input ∧ s'.mem = s.mem ∧ s'.afterFree = s.afterFree ∧
      (∀ j, j ≠ i → s'.stop j = s.stop j) ∧
      (s'.stop i = .join ∨ s.stop i = .join ∧ s.pc i = .returned ∧ s'.stop i = .deleteQueue ∨
        s.stop i = .deleteQueue ∧ s'.stop i = .free ∨ s.stop i = .free ∧ s'.stop i = .done) := by
  unfold stopStep at h
  split at h <;> cases h
  all_goals
    refine ⟨rfl, rfl, rfl, rfl, rfl, rfl, rfl, fun j hj => Function.update_of_ne hj _ _, ?_⟩
    simp [*]

/-- What is left of a call is an end of the function. -/
theorem suffix_reachable {input : List (Option τ)} {mem : μ}
    (h : (system c input mem).Reachable s) :
    ∀ i t rest, s.pc i = .inFunc t rest → rest <:+ c.func i t := by
  refine h.invariant (I := fun s => ∀ i t rest, s.pc i = .inFunc t rest → rest <:+ c.func i t)
    ?_ ?_
  · intro i t rest hpc
    cases hpc
  · intro a s s' _ hI hstep i t rest hpc
    cases a with
    | outside =>
      rw [(outside_frame hstep).1] at hpc
      exact hI i t rest hpc
    | stop j =>
      obtain ⟨-, hstep⟩ := Option.ite_none_right_eq_some.mp hstep
      rw [(stop_frame hstep).1] at hpc
      exact hI i t rest hpc
    | thread j =>
      obtain ⟨-, hstep⟩ := Option.ite_none_right_eq_some.mp hstep
      by_cases hij : i = j
      · subst hij
        rcases thread_inFunc hstep hpc with ⟨-, rfl⟩ | ⟨e, he⟩
        · exact List.suffix_rfl
        · exact (List.suffix_cons e rest).trans (hI i t _ he)
      · rw [(thread_frame hstep hij).1] at hpc
        exact hI i t rest hpc

/-- **Invariants of single objects.** What the steps of its own thread keep of the
    program counter of an object, of what it has dequeued, applied its function to
    and forwarded, holds of every object in every reachable state. -/
theorem object_invariant {P : ℕ → Pc τ ε → List (Option τ) → List τ → List (Option τ) → Prop}
    (h0 : ∀ i, P i .dequeue [] [] [])
    (hthread : ∀ i (s s' : State τ ε μ), threadStep c i s = some s' →
      P i (s.pc i) (s.queue i).taken (s.applied i) (s.forwarded i) →
      P i (s'.pc i) (s'.queue i).taken (s'.applied i) (s'.forwarded i))
    {input : List (Option τ)} {mem : μ} (h : (system c input mem).Reachable s) (i : ℕ) :
    P i (s.pc i) (s.queue i).taken (s.applied i) (s.forwarded i) := by
  revert i
  apply h.invariant
  · exact h0
  · intro a s s' _ hI hstep i
    cases a with
    | outside =>
      obtain ⟨hpc, happlied, hfwd, -, htaken⟩ := outside_frame hstep
      rw [hpc, happlied, hfwd, htaken]
      exact hI i
    | stop j =>
      obtain ⟨-, hstep⟩ := Option.ite_none_right_eq_some.mp hstep
      obtain ⟨hpc, hqueue, happlied, hfwd, -⟩ := stop_frame hstep
      rw [hpc, hqueue, happlied, hfwd]
      exact hI i
    | thread j =>
      obtain ⟨-, hstep⟩ := Option.ite_none_right_eq_some.mp hstep
      by_cases hij : i = j
      · subst hij
        exact hthread i s s' hstep (hI i)
      · obtain ⟨hpc, htaken, happlied, hfwd⟩ := thread_frame hstep hij
        rw [hpc, htaken, happlied, hfwd]
        exact hI i

end ChatOnC.ActiveObject
