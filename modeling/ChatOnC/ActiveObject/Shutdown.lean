import ChatOnC.ActiveObject.Steps
import Mathlib.Data.List.Basic

/-!
# Shutting a chain down

`stop` is called on every object, in any order and interleaved with the
threads. The `NULL` an object dequeues is the last item its queue is ever
given, and the object upstream of it has returned by then; so by the time
`pthread_join` lets `stop` go on, nobody will access the object again and its
queue is empty (`shutdown_safe`).

Assumed of the chain (`UpstreamOnly`): functions enqueue tasks, never `NULL`, on
the next queue only; the function of `A_0` may also enqueue on its own queue, as
`partD_a` does. Assumed of the run (`SingleNull`): nothing is enqueued on the
queue of `A_0` behind a `NULL`.
-/

namespace ChatOnC.ActiveObject

open ChatOnC.Common

variable {τ ε μ : Type*}

/-- Functions enqueue tasks on the next queue only, and `A_0` on its own. -/
structure UpstreamOnly (c : Chain τ ε μ) : Prop where
  own : ∀ i t p, .enqueueOwn p ∈ c.func i t → i = 0
  next : ∀ i t p, .enqueueNext p ∈ c.func i t → i < c.last ∧ p ≠ none

/-- The step does not enqueue on the queue of `A_0` behind a `NULL`. -/
def SingleNull (a : Actor) (s : State τ ε μ) : Prop :=
  match a with
  | .outside => none ∉ (s.queue 0).put
  | .thread i => i = 0 → ∀ t p rest, s.pc 0 = .inFunc t (.enqueueOwn p :: rest) →
      none ∉ (s.queue 0).put
  | .stop _ => True

/-- The object has dequeued its `NULL`. -/
def leftLoop : Pc τ ε → Bool
  | .last | .getQueue none | .enqueue none | .returned => true
  | _ => false

/-- `pthread_join` has let `stop` go on. -/
def StopPc.joined : StopPc → Bool
  | .deleteQueue | .free | .done => true
  | _ => false

theorem StopPc.joined_of_freed {pc : StopPc} (h : pc.freed = true) : pc.joined = true := by
  cases pc <;> simp_all [freed, joined]

structure ShutdownInv (c : Chain τ ε μ) (s : State τ ε μ) : Prop where
  inTime : s.afterFree = []
  nullLast : ∀ i, i ≤ c.last → none ∉ (s.queue i).put.dropLast
  left : ∀ i, i ≤ c.last → leftLoop (s.pc i) = true → none ∈ (s.queue i).taken
  upstream : ∀ i, i < c.last → none ∈ (s.queue (i + 1)).put → s.pc i = .returned
  joined : ∀ i, i ≤ c.last → (s.stop i).joined = true → s.pc i = .returned
  inFunc : ∀ i t rest, i ≤ c.last → s.pc i = .inFunc t rest → rest ⊆ c.func i t
  next : ∀ i p, i ≤ c.last → s.pc i = .getQueue p ∨ s.pc i = .enqueue p → i < c.last

variable {c : Chain τ ε μ} {s s' : State τ ε μ} {i : ℕ}

theorem shutdownInv_init (input : List (Option τ)) (mem : μ) :
    ShutdownInv c (system c input mem).init where
  inTime := rfl
  nullLast := by intro i _; simp [system]
  left := by intro i _ h; cases h
  upstream := by intro i _ h; cases h
  joined := by intro i _ h; cases h
  inFunc := by intro i t rest _ h; cases h
  next := by intro i p _ h; rcases h with h | h <;> cases h

/-! ## Consequences of the invariant -/

/-- An object whose thread has returned was given a `NULL`. -/
theorem ShutdownInv.null_of_returned (h : ShutdownInv c s) (hi : i ≤ c.last)
    (hpc : s.pc i = .returned) : none ∈ (s.queue i).taken :=
  h.left i hi (by rw [hpc]; rfl)

/-- It has dequeued everything its queue was given. -/
theorem ShutdownInv.items_of_returned (h : ShutdownInv c s) (hi : i ≤ c.last)
    (hpc : s.pc i = .returned) : (s.queue i).items = [] := by
  by_contra hne
  apply h.nullLast i hi
  rw [← (s.queue i).balanced, List.dropLast_append_of_ne_nil hne]
  exact List.mem_append_left _ (h.null_of_returned hi hpc)

theorem ShutdownInv.not_freed (h : ShutdownInv c s) (hi : i ≤ c.last) (hpc : s.pc i ≠ .returned) :
    (s.stop i).freed = false := by
  cases hf : (s.stop i).freed with
  | false => rfl
  | true => exact absurd (h.joined i hi (StopPc.joined_of_freed hf)) hpc

/-- While a queue has not been given a `NULL`, its object is not freed. -/
theorem ShutdownInv.not_freed_of_put (h : ShutdownInv c s) (hi : i ≤ c.last)
    (hput : none ∉ (s.queue i).put) : (s.stop i).freed = false :=
  h.not_freed hi fun hpc => hput (Fifo.mem_put_of_mem_taken (h.null_of_returned hi hpc))

/-- While an object runs, the next queue has not been given a `NULL`. -/
theorem ShutdownInv.no_null_next (h : ShutdownInv c s) (hi : i < c.last)
    (hpc : s.pc i ≠ .returned) : none ∉ (s.queue (i + 1)).put :=
  fun hmem => hpc (h.upstream i hi hmem)

/-! ## Steps -/

theorem threadStep_ne_returned (h : threadStep c i s = some s') : s.pc i ≠ .returned := by
  intro hpc
  rw [threadStep, hpc] at h
  cases h

/-- Where a step of its thread leaves an object. -/
theorem thread_left (h : threadStep c i s = some s')
    (hleft : leftLoop (s.pc i) = true → none ∈ (s.queue i).taken)
    (h' : leftLoop (s'.pc i) = true) : none ∈ (s'.queue i).taken := by
  cases moves_of_threadStep h with
  | @dequeue temp queue hpc hq =>
    cases temp with
    | none => simp [(Fifo.dequeue_eq_some hq).2.2]
    | some temp => simp [Pc.ofTemp, leftLoop] at h'
  | func hpc => simp [leftLoop] at h'
  | leave hpc => simp [leftLoop] at h'
  | effect hpc => simp [leftLoop] at h'
  | test hpc =>
    simp only [State.setPc_pc, Function.update_self] at h'
    split_ifs at h' <;> simp [leftLoop] at h'
  | last hpc => exact hleft (by rw [hpc]; rfl)
  | @getQueue temp hpc =>
    cases temp with
    | none => exact hleft (by rw [hpc]; rfl)
    | some temp => simp [leftLoop] at h'
  | @enqueue temp hpc =>
    cases temp with
    | none => simpa [State.enqueueOn_taken] using hleft (by rw [hpc]; rfl)
    | some temp => simp [leftLoop] at h'

/-- Only an object with a `next` gets to `getQueue` and `enqueue`. -/
theorem thread_next (h : threadStep c i s = some s')
    (hnext : ∀ p, s.pc i = .getQueue p ∨ s.pc i = .enqueue p → i < c.last) {p : Option τ}
    (h' : s'.pc i = .getQueue p ∨ s'.pc i = .enqueue p) : i < c.last := by
  cases moves_of_threadStep h with
  | @dequeue temp queue hpc hq => rcases temp with _ | temp <;> simp [Pc.ofTemp] at h'
  | func hpc => simp at h'
  | leave hpc => simp at h'
  | effect hpc => simp at h'
  | test hpc =>
    simp only [State.setPc_pc, Function.update_self] at h'
    split_ifs at h' with hcond
    · exact hcond.2
    · simp at h'
  | last hpc =>
    simp only [State.setPc_pc, Function.update_self] at h'
    split_ifs at h' with hcond
    · exact hcond
    · simp at h'
  | @getQueue temp hpc => exact hnext temp (.inl hpc)
  | @enqueue temp hpc => exact hnext temp (.inr hpc)

/-- `run` returns with the step that forwards its `NULL`. -/
theorem thread_forwards_null (h : threadStep c i s = some s') (hpc : s.pc i = .enqueue none) :
    s'.pc i = .returned := by
  rw [threadStep, hpc] at h
  cases h
  simp

/-- What the thread of `A_i` can append, and where. -/
theorem mem_emits {i j : ℕ} {pc : Pc τ ε} {p : Option τ} (h : p ∈ emits i pc j) :
    (∃ t rest, pc = .inFunc t (.enqueueOwn p :: rest)) ∧ j = i ∨
      ((∃ t rest, pc = .inFunc t (.enqueueNext p :: rest)) ∨ pc = .enqueue p) ∧ j = i + 1 := by
  unfold emits at h
  split at h
  · rename_i t q rest
    split_ifs at h with hj
    · cases List.mem_singleton.mp h
      exact .inl ⟨⟨t, rest, rfl⟩, hj⟩
    · cases h
  · rename_i t q rest
    split_ifs at h with hj
    · cases List.mem_singleton.mp h
      exact .inr ⟨.inl ⟨t, rest, rfl⟩, hj⟩
    · cases h
  · rename_i q
    split_ifs at h with hj
    · cases List.mem_singleton.mp h
      exact .inr ⟨.inr rfl, hj⟩
    · cases h
  · cases h

theorem emits_length (i : ℕ) (pc : Pc τ ε) (j : ℕ) : (emits i pc j).length ≤ 1 := by
  unfold emits
  split <;> (try split_ifs) <;> simp

/-- Appending at most one item behind no `NULL` leaves `NULL` last. -/
theorem nullLast_append {l e : List (Option τ)} (hl : none ∉ l.dropLast) (he : e.length ≤ 1)
    (h : e ≠ [] → none ∉ l) : none ∉ (l ++ e).dropLast := by
  match e, he with
  | [], _ => simpa using hl
  | [p], _ => simpa using h (by simp)

theorem shutdownInv_thread (hc : UpstreamOnly c) (hi : i ≤ c.last)
    (hok : SingleNull (.thread i) s) (h : threadStep c i s = some s') (hinv : ShutdownInv c s) :
    ShutdownInv c s' := by
  have hrun := threadStep_ne_returned h
  have hput := thread_put h
  obtain ⟨hstop, -⟩ := thread_stop h
  -- what a function step can be
  have heff : ∀ t e rest, s.pc i = .inFunc t (e :: rest) → e ∈ c.func i t := fun t e rest hpc =>
    hinv.inFunc i t _ hi hpc (List.mem_cons_self ..)
  -- a step that enqueues finds no `NULL` in the queue
  have hfree : ∀ j, j ≤ c.last → emits i (s.pc i) j ≠ [] → none ∉ (s.queue j).put := by
    intro j hj hne
    obtain ⟨p, hp⟩ := List.exists_mem_of_ne_nil _ hne
    rcases mem_emits hp with ⟨⟨t, rest, hpc⟩, rfl⟩ | ⟨-, rfl⟩
    · cases hc.own _ _ _ (heff _ _ _ hpc)
      exact hok rfl t p rest hpc
    · exact hinv.no_null_next (by omega) hrun
  refine ⟨?_, fun j hj => ?_, fun j hj h' => ?_, fun j hj hmem => ?_, fun j hj hjoin => ?_,
    fun j t rest hj hpc' => ?_, fun j p hj h' => ?_⟩
  · rw [thread_afterFree h (hinv.not_freed hi hrun), hinv.inTime]
    intro htouch
    have hlt : i < c.last := by
      unfold touchesNext at htouch
      split at htouch
      · rename_i t p rest hpc
        exact (hc.next _ _ _ (heff _ _ _ hpc)).1
      · rename_i p hpc
        exact hinv.next i p hi (.inl hpc)
      · rename_i p hpc
        exact hinv.next i p hi (.inr hpc)
      · cases htouch
    exact hinv.not_freed_of_put (by omega) (hinv.no_null_next hlt hrun)
  · rw [hput j]
    exact nullLast_append (hinv.nullLast j hj) (emits_length ..) (hfree j hj)
  · by_cases hji : j = i
    · subst hji
      exact thread_left h (hinv.left j hj) h'
    · obtain ⟨hpc, htaken, -, -⟩ := thread_frame h hji
      rw [hpc] at h'
      rw [htaken]
      exact hinv.left j hj h'
  · rw [hput (j + 1), List.mem_append] at hmem
    rcases hmem with hmem | hmem
    · by_cases hji : j = i
      · subst hji
        exact absurd (hinv.upstream j hj hmem) hrun
      · rw [(thread_frame h hji).1]
        exact hinv.upstream j hj hmem
    · rcases mem_emits hmem with ⟨⟨t, rest, hpc⟩, hji⟩ | ⟨⟨t, rest, hpc⟩ | hpc, hji⟩
      · have := hc.own _ _ _ (heff _ _ _ hpc)
        omega
      · exact absurd rfl (hc.next _ _ _ (heff _ _ _ hpc)).2
      · obtain rfl : j = i := by omega
        exact thread_forwards_null h hpc
  · rw [hstop] at hjoin
    by_cases hji : j = i
    · subst hji
      exact absurd (hinv.joined j hj hjoin) hrun
    · rw [(thread_frame h hji).1]
      exact hinv.joined j hj hjoin
  · by_cases hji : j = i
    · subst hji
      rcases thread_inFunc h hpc' with ⟨-, rfl⟩ | ⟨e, hpc⟩
      · exact List.Subset.refl _
      · exact List.Subset.trans (List.subset_cons_self ..) (hinv.inFunc j t _ hj hpc)
    · rw [(thread_frame h hji).1] at hpc'
      exact hinv.inFunc j t rest hj hpc'
  · by_cases hji : j = i
    · subst hji
      exact thread_next h (fun p => hinv.next j p hj) h'
    · rw [(thread_frame h hji).1] at h'
      exact hinv.next j p hj h'

theorem shutdownInv_outside (hok : SingleNull .outside s) (h : outsideStep s = some s')
    (hinv : ShutdownInv c s) : ShutdownInv c s' := by
  obtain ⟨hpc, -, -, hstop, htaken⟩ := outside_frame h
  obtain ⟨p, -, hput⟩ := outside_put h
  refine ⟨?_, fun j hj => ?_, fun j hj => ?_, fun j hj => ?_, ?_, ?_, ?_⟩
  · have hfreed := hinv.not_freed_of_put (Nat.zero_le _) hok
    obtain ⟨q, rest, -, rfl⟩ := outsideStep_eq_some h
    rw [← hinv.inTime]
    exact s.enqueueOn_afterFree q hfreed
  · rw [hput j]
    refine nullLast_append (hinv.nullLast j hj) (by split_ifs <;> simp) fun hne => ?_
    split_ifs at hne with hj0
    · subst hj0
      exact hok
    · exact absurd rfl hne
  · rw [hpc, htaken]
    exact hinv.left j hj
  · rw [hput (j + 1), if_neg (by omega), List.append_nil, hpc]
    exact hinv.upstream j hj
  · rw [hpc, hstop]
    exact hinv.joined
  · rw [hpc]
    exact hinv.inFunc
  · rw [hpc]
    exact hinv.next

theorem shutdownInv_stop (h : stopStep i s = some s') (hi : i ≤ c.last)
    (hinv : ShutdownInv c s) : ShutdownInv c s' := by
  obtain ⟨hpc, hqueue, -, -, -, -, hafter, hother, hself⟩ := stop_frame h
  refine ⟨by rw [hafter, hinv.inTime], by rw [hqueue]; exact hinv.nullLast,
    by rw [hpc, hqueue]; exact hinv.left, by rw [hpc, hqueue]; exact hinv.upstream,
    fun j hj hjoin => ?_, by rw [hpc]; exact hinv.inFunc, by rw [hpc]; exact hinv.next⟩
  rw [hpc]
  by_cases hji : j = i
  · subst hji
    rcases hself with h1 | ⟨-, h1, -⟩ | ⟨h1, -⟩ | ⟨h1, -⟩
    · rw [h1] at hjoin
      cases hjoin
    · exact h1
    · exact hinv.joined j hj (by rw [h1]; rfl)
    · exact hinv.joined j hj (by rw [h1]; rfl)
  · rw [hother j hji] at hjoin
    exact hinv.joined j hj hjoin

theorem shutdownInv_reach (hc : UpstreamOnly c) {input : List (Option τ)} {mem : μ}
    (h : (system c input mem).Reach SingleNull s) : ShutdownInv c s := by
  refine h.invariant (shutdownInv_init input mem) fun a s s' hok hinv hs => ?_
  cases a with
  | outside => exact shutdownInv_outside hok hs hinv
  | thread i =>
    simp only [system] at hs
    split_ifs at hs with hi
    exact shutdownInv_thread hc hi hok hs hinv
  | stop i =>
    simp only [system] at hs
    split_ifs at hs with hi
    exact shutdownInv_stop hs hi hinv

/-- In every state reached by a run that enqueues nothing on the queue of `A_0`
    behind a `NULL`: no object was accessed after `stop` had freed it, and a
    queue that `stop` is about to delete is empty. -/
theorem shutdown_safe (hc : UpstreamOnly c) {input : List (Option τ)} {mem : μ}
    (h : (system c input mem).Reach SingleNull s) :
    s.afterFree = [] ∧ ∀ i, i ≤ c.last → s.stop i = .deleteQueue → (s.queue i).items = [] := by
  have hinv := shutdownInv_reach hc h
  refine ⟨hinv.inTime, fun i hi hstop => hinv.items_of_returned hi ?_⟩
  exact hinv.joined i hi (by rw [hstop]; rfl)

/-! ## Tasks from outside only -/

/-- When no function enqueues on its own queue and the input is a list of tasks
    and one `NULL`, every run meets `SingleNull`. -/
theorem reach_singleNull (hown : ∀ i t p, .enqueueOwn p ∉ c.func i t) {ts : List τ} {mem : μ}
    (h : (system c (ts.map some ++ [none]) mem).Reachable s) :
    (system c (ts.map some ++ [none]) mem).Reach SingleNull s ∧
      (s.queue 0).put ++ s.input = ts.map some ++ [none] ∧
      ∀ t rest, s.pc 0 = .inFunc t rest → rest ⊆ c.func 0 t := by
  induction h with
  | init => exact ⟨.init, rfl, by intro t rest h; cases h⟩
  | @step s s' a _ _ hs ih =>
    obtain ⟨hreach, hsplit, hfunc⟩ := ih
    have hno : ∀ t p rest, s.pc 0 ≠ .inFunc t (.enqueueOwn p :: rest) := fun t p rest hpc =>
      hown 0 t p (hfunc t _ hpc (List.mem_cons_self ..))
    refine ⟨.step hreach ?_ hs, ?_⟩
    · cases a with
      | outside =>
        obtain ⟨p, hin, -⟩ := outside_put hs
        intro hmem
        -- the `NULL` would stand before what is left of the input
        have hlast := congrArg List.dropLast hsplit
        rw [hin, List.dropLast_append_of_ne_nil (by simp), List.dropLast_concat] at hlast
        have : none ∈ ts.map some := hlast ▸ List.mem_append_left _ hmem
        simp at this
      | thread i => exact fun _ t p rest hpc => absurd hpc (hno t p rest)
      | stop i => trivial
    · cases a with
      | outside =>
        obtain ⟨hpc, -⟩ := outside_frame hs
        obtain ⟨p, hin, hput⟩ := outside_put hs
        rw [hpc, hput 0, if_pos rfl, List.append_assoc, List.singleton_append, ← hin]
        exact ⟨hsplit, hfunc⟩
      | thread i =>
        simp only [system] at hs
        split_ifs at hs
        have hemits : emits i (s.pc i) 0 = [] := by
          by_contra hne
          obtain ⟨p, hp⟩ := List.exists_mem_of_ne_nil _ hne
          rcases mem_emits hp with ⟨⟨t, rest, hpc⟩, rfl⟩ | ⟨-, hi⟩
          · exact hno t p rest hpc
          · omega
        rw [thread_put hs 0, (thread_stop hs).2, hemits, List.append_nil]
        refine ⟨hsplit, fun t rest hpc' => ?_⟩
        by_cases hi : i = 0
        · subst hi
          rcases thread_inFunc hs hpc' with ⟨-, rfl⟩ | ⟨e, hpc⟩
          · exact List.Subset.refl _
          · exact List.Subset.trans (List.subset_cons_self ..) (hfunc t _ hpc)
        · rw [(thread_frame hs (Ne.symm hi)).1] at hpc'
          exact hfunc t rest hpc'
      | stop i =>
        simp only [system] at hs
        split_ifs at hs
        obtain ⟨hpc, hqueue, -, -, hin, -⟩ := stop_frame hs
        rw [hpc, hqueue, hin]
        exact ⟨hsplit, hfunc⟩

/-- Two objects whose functions touch no queue. -/
def twoObjects : Chain ℕ Empty Unit where
  last := 1
  flag := fun _ => 0
  func := fun _ _ => []
  exec := fun _ m => m

theorem twoObjects_upstreamOnly : UpstreamOnly twoObjects where
  own := by intro i t p h; cases h
  next := by intro i t p h; cases h

/-- `stop` is called on both objects at once, and `A_0` is freed while `A_1`
    still runs. -/
def earlyStopRun : List Actor :=
  [[.stop 1, .stop 0, .outside, .outside], List.replicate 10 (.thread 0),
    [.stop 0, .stop 0, .stop 0], List.replicate 6 (.thread 1), [.stop 1]].flatten

theorem shutdown_safe_earlyStopRun :
    ∃ s, (system twoObjects [some 5, none] ()).exec earlyStopRun
        (system twoObjects [some 5, none] ()).init = some s ∧
      s.afterFree = [] ∧ s.stop 1 = .deleteQueue ∧ (s.queue 1).items = [] := by
  refine ⟨_, rfl, ?_⟩
  have hreach := System.Reach.of_exec (S := system twoObjects ([5].map some ++ [none]) ())
    (l := earlyStopRun) rfl
  have h := shutdown_safe twoObjects_upstreamOnly
    (reach_singleNull (fun i t p hmem => by cases hmem) hreach).1
  exact ⟨h.1, rfl, h.2 1 (by decide) rfl⟩

end ChatOnC.ActiveObject
