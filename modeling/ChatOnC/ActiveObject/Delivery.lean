import ChatOnC.ActiveObject.Steps
import Mathlib.Data.List.Infix
import Mathlib.Data.Nat.Init
import Mathlib.Data.Option.Basic

/-!
# Delivery along a chain

A chain whose first object is handed one task and behaves as `partD_a`
(`st_pipeline.c`, lines 28–44), and whose other functions leave the queues
alone (`PartDAChain`), passes every task on exactly once and in order.

The invariant has three parts. `Local` relates what an object has dequeued to
what it has applied its function to and what it has forwarded, by its program
counter. `HeadPhase` says how far `A_0` has come. Between two objects, what is
enqueued on `A_{i+1}` is what `A_i` forwarded. Along the chain these compose to
`Inv.put_isPrefix`: every queue has been given a prefix of the tasks followed by
one `NULL`.
-/

namespace ChatOnC.ActiveObject

open ChatOnC.Common

variable {τ ε μ : Type*}

/-- The steps of a function that touch a queue. -/
def queueEffects (es : List (Effect τ ε)) : List (Effect τ ε) :=
  es.filter fun e => match e with
    | .act _ => false
    | _ => true

/-- What the steps enqueue on the object's own queue. -/
def owns (es : List (Effect τ ε)) : List (Option τ) :=
  es.filterMap fun e => match e with
    | .enqueueOwn p => some p
    | _ => none

/-- What the steps enqueue on the next object's queue. -/
def nexts (es : List (Effect τ ε)) : List (Option τ) :=
  es.filterMap fun e => match e with
    | .enqueueNext p => some p
    | _ => none

theorem owns_queueEffects (es : List (Effect τ ε)) : owns (queueEffects es) = owns es := by
  induction es with
  | nil => rfl
  | cons e es ih => cases e <;> simpa [owns, queueEffects] using ih

theorem nexts_queueEffects (es : List (Effect τ ε)) : nexts (queueEffects es) = nexts es := by
  induction es with
  | nil => rfl
  | cons e es ih => cases e <;> simpa [nexts, queueEffects] using ih

/-- A chain of at least two objects: `A_0` has `flag` 1 and a function that, on
    the task `arr`, enqueues `xs` on the next queue and then `NULL` on its own;
    the others have `flag` other than 1 and functions that touch no queue. -/
structure PartDAChain (c : Chain τ ε μ) (arr : τ) (xs : List τ) : Prop where
  long : 1 ≤ c.last
  flag_head : c.flag 0 = 1
  flag_rest : ∀ i, 1 ≤ i → i ≤ c.last → c.flag i ≠ 1
  func_head : queueEffects (c.func 0 arr) =
    xs.map (fun x => .enqueueNext (some x)) ++ [.enqueueOwn none]
  func_rest : ∀ i t, 1 ≤ i → i ≤ c.last → queueEffects (c.func i t) = []

theorem PartDAChain.nexts_head {c : Chain τ ε μ} {arr : τ} {xs : List τ}
    (hc : PartDAChain c arr xs) : nexts (c.func 0 arr) = xs.map some := by
  rw [← nexts_queueEffects, hc.func_head]
  simp [nexts, List.filterMap_map]

theorem PartDAChain.owns_head {c : Chain τ ε μ} {arr : τ} {xs : List τ}
    (hc : PartDAChain c arr xs) : owns (c.func 0 arr) = [none] := by
  rw [← owns_queueEffects, hc.func_head]
  simp [owns, List.filterMap_map]

/-! ## The invariant -/

/-- The end of what was dequeued that the function has not been applied to. -/
def unapplied : Pc τ ε → List (Option τ)
  | .func temp => [some temp]
  | .last | .getQueue none | .enqueue none | .returned => [none]
  | _ => []

/-- The end of what was dequeued that has not been forwarded. -/
def held : Pc τ ε → List (Option τ)
  | .dequeue | .returned => []
  | .func temp | .inFunc temp _ | .test temp => [some temp]
  | .last => [none]
  | .getQueue temp | .enqueue temp => [temp]

/-- What an object at `pc` has dequeued, applied its function to and forwarded. -/
def Local (c : Chain τ ε μ) (i : ℕ) (pc : Pc τ ε) (taken : List (Option τ)) (applied : List τ)
    (forwarded : List (Option τ)) : Prop :=
  taken = applied.map some ++ unapplied pc ∧
    (i < c.last → c.flag i ≠ 1 → taken = forwarded ++ held pc)

/-- How far `A_0` has come: what is left of the input, its program counter, what
    its queue was given and has given, and what the queue of `A_1` was given. -/
inductive HeadPhase (arr : τ) (xs : List τ) : List (Option τ) → Pc τ ε → List (Option τ) →
    List (Option τ) → List (Option τ) → Prop
  | waiting : HeadPhase arr xs [some arr] .dequeue [] [] []
  | handed : HeadPhase arr xs [] .dequeue [some arr] [] []
  | call : HeadPhase arr xs [] (.func arr) [some arr] [some arr] []
  | inside {rest put0 put1} (h0 : put0 ++ owns rest = [some arr, none])
      (h1 : put1 ++ nexts rest = xs.map some) :
      HeadPhase arr xs [] (.inFunc arr rest) put0 [some arr] put1
  | tested : HeadPhase arr xs [] (.test arr) [some arr, none] [some arr] (xs.map some)
  | again : HeadPhase arr xs [] .dequeue [some arr, none] [some arr] (xs.map some)
  | leaving {pc} (hpc : pc = .last ∨ pc = .getQueue none ∨ pc = .enqueue none) :
      HeadPhase arr xs [] pc [some arr, none] [some arr, none] (xs.map some)
  | returned : HeadPhase arr xs [] .returned [some arr, none] [some arr, none]
      (xs.map some ++ [none])

structure Inv (c : Chain τ ε μ) (arr : τ) (xs : List τ) (s : State τ ε μ) : Prop where
  stages : ∀ i, i ≤ c.last →
    Local c i (s.pc i) (s.queue i).taken (s.applied i) (s.forwarded i)
  links : ∀ i, 1 ≤ i → i < c.last → (s.queue (i + 1)).put = s.forwarded i
  head : HeadPhase arr xs s.input (s.pc 0) (s.queue 0).put (s.queue 0).taken (s.queue 1).put
  quiet : ∀ i t rest, 1 ≤ i → i ≤ c.last → s.pc i = .inFunc t rest → queueEffects rest = []

variable {c : Chain τ ε μ} {arr : τ} {xs : List τ} {s s' : State τ ε μ}

theorem inv_init_chain (mem : μ) : Inv c arr xs (system c [some arr] mem).init where
  stages := fun i _ => ⟨rfl, fun _ _ => rfl⟩
  links := fun i _ _ => rfl
  head := .waiting
  quiet := by
    intro i t rest _ _ h
    cases h

/-! ## Steps of one object -/

/-- A step of its own thread keeps `Local`. -/
theorem local_thread {i : ℕ} (h : threadStep c i s = some s')
    (hl : Local c i (s.pc i) (s.queue i).taken (s.applied i) (s.forwarded i)) :
    Local c i (s'.pc i) (s'.queue i).taken (s'.applied i) (s'.forwarded i) := by
  obtain ⟨htaken, hfwd⟩ := hl
  cases moves_of_threadStep h with
  | @dequeue temp queue hpc hq =>
    -- the new item is the one held
    have hq' := (Fifo.dequeue_eq_some hq).2.2
    rw [hpc] at htaken hfwd
    simp only [unapplied, held, List.append_nil] at htaken hfwd
    cases temp <;>
      simp only [Local, State.setPc_pc, State.setPc_queue, State.setPc_applied,
        State.setPc_forwarded, State.access_applied, State.access_forwarded,
        Function.update_self, hq', Pc.ofTemp, unapplied, held, htaken, true_and] <;>
      intro h1 h2 <;> rw [← htaken, hfwd h1 h2]
  | func hpc => simp_all [Local, unapplied, held]
  | leave hpc => simp_all [Local, unapplied, held]
  | effect hpc => simp_all [Local, unapplied, held, perform_taken]
  | test hpc =>
    -- `A_i` forwards unless its flag is 1 or it has no next object
    by_cases hcond : c.flag i ≠ 1 ∧ i < c.last
    · simp_all [Local, unapplied, held]
    · refine ⟨?_, fun h1 h2 => absurd ⟨h2, h1⟩ hcond⟩
      simp only [State.setPc_pc, Function.update_self, if_neg hcond]
      simp_all [unapplied]
  | last hpc =>
    by_cases hcond : i < c.last
    · simp_all [Local, unapplied, held]
    · refine ⟨?_, fun h1 => absurd h1 hcond⟩
      simp only [State.setPc_pc, Function.update_self, if_neg hcond]
      simp_all [unapplied]
  | @getQueue temp hpc => cases temp <;> simp_all [Local, unapplied, held]
  | @enqueue temp hpc => cases temp <;> simp_all [Local, unapplied, held]

/-- A dequeue takes the first item. -/
theorem thread_dequeue {i : ℕ} (h : threadStep c i s = some s') (hpc : s.pc i = .dequeue) :
    ∃ p ps, (s.queue i).items = p :: ps ∧ s'.pc i = .ofTemp p ∧
      (s'.queue i).taken = (s.queue i).taken ++ [p] := by
  rw [threadStep, hpc] at h
  obtain ⟨temp, queue, hq, rfl⟩ := dequeueStep_eq_some h
  obtain ⟨hitems, -, htaken⟩ := Fifo.dequeue_eq_some hq
  exact ⟨temp, queue.items, hitems, by simp, by simp [htaken]⟩

/-- A step of the thread of `A_0` moves it to the next phase. -/
theorem head_thread (hc : PartDAChain c arr xs) (h : threadStep c 0 s = some s')
    (hp : HeadPhase arr xs s.input (s.pc 0) (s.queue 0).put (s.queue 0).taken (s.queue 1).put) :
    HeadPhase arr xs s'.input (s'.pc 0) (s'.queue 0).put (s'.queue 0).taken (s'.queue 1).put := by
  have hput0 := thread_put h 0
  have hput1 := thread_put h 1
  rw [(thread_stop h).2, hput0, hput1]
  have hbal := (s.queue 0).balanced
  have hdeq := thread_dequeue h
  generalize hin : s.input = input at hp
  generalize hpc : s.pc 0 = pc at hp hdeq
  generalize hp0 : (s.queue 0).put = put0 at hp hbal
  generalize ht0 : (s.queue 0).taken = taken0 at hp hbal hdeq
  generalize hp1 : (s.queue 1).put = put1 at hp
  cases hp with
  | waiting =>
    obtain ⟨p, ps, hitems, -⟩ := hdeq rfl
    rw [hitems] at hbal
    cases hbal
  | handed =>
    obtain ⟨p, ps, hitems, hpc', htaken⟩ := hdeq rfl
    rw [hitems] at hbal
    cases hbal
    rw [hpc', htaken]
    exact .call
  | call =>
    rw [threadStep, hpc] at h
    cases h
    simp only [State.setPc_pc, State.setPc_queue, Function.update_self, ht0, emits, List.append_nil]
    exact .inside (by rw [hc.owns_head]; rfl) (by rw [hc.nexts_head]; rfl)
  | @inside rest _ _ h0 h1 =>
    cases rest with
    | nil =>
      rw [threadStep, hpc] at h
      cases h
      simp only [owns, nexts, List.filterMap_nil, List.append_nil] at h0 h1
      simp only [State.setPc_pc, State.setPc_queue, Function.update_self, ht0, emits,
        List.append_nil, h0, h1]
      exact .tested
    | cons e rest =>
      rw [threadStep, hpc] at h
      cases h
      simp only [State.setPc_pc, State.setPc_queue, Function.update_self, perform_taken, ht0]
      apply HeadPhase.inside
      · cases e <;> simpa [emits, owns] using h0
      · cases e <;> simpa [emits, nexts] using h1
  | tested =>
    rw [threadStep, hpc] at h
    cases h
    simp only [State.setPc_pc, State.setPc_queue, Function.update_self, ht0, emits, List.append_nil,
      hc.flag_head, ne_eq, not_true_eq_false, false_and, ite_false]
    exact .again
  | again =>
    obtain ⟨p, ps, hitems, hpc', htaken⟩ := hdeq rfl
    rw [hitems] at hbal
    cases hbal
    rw [hpc', htaken]
    simp only [emits, List.append_nil]
    exact .leaving (.inl rfl)
  | leaving hcases =>
    have hlong : 0 < c.last := hc.long
    rcases hcases with rfl | rfl | rfl
    · rw [threadStep, hpc] at h
      cases h
      have hnext : HeadPhase arr xs [] (.getQueue none : Pc τ ε) [some arr, none] [some arr, none]
          (xs.map some) := .leaving (.inr (.inl rfl))
      simpa [hlong, ht0, emits] using hnext
    · rw [threadStep, hpc] at h
      cases h
      have hnext : HeadPhase arr xs [] (.enqueue none : Pc τ ε) [some arr, none] [some arr, none]
          (xs.map some) := .leaving (.inr (.inr rfl))
      simpa [ht0, emits] using hnext
    · rw [threadStep, hpc] at h
      cases h
      have hnext : HeadPhase arr xs [] (.returned : Pc τ ε) [some arr, none] [some arr, none]
          (xs.map some ++ [none]) := .returned
      simpa [ht0, emits] using hnext
  | returned =>
    rw [threadStep, hpc] at h
    cases h

/-- An object whose function steps touch no queue enqueues by forwarding only. -/
theorem emits_of_quiet {i j : ℕ} {pc : Pc τ ε}
    (hq : ∀ t rest, pc = .inFunc t rest → queueEffects rest = []) :
    emits i pc j = if j = i + 1 then passes pc else [] := by
  cases pc with
  | inFunc t rest =>
    have hrest := hq t rest rfl
    cases rest with
    | nil => simp [emits, passes]
    | cons e rest => cases e <;> simp [queueEffects, emits, passes] at hrest ⊢
  | enqueue p => simp [emits, passes]
  | _ => simp [emits, passes]

/-! ## Steps of the chain -/

theorem inv_thread (hc : PartDAChain c arr xs) {i : ℕ} (hi : i ≤ c.last)
    (h : threadStep c i s = some s') (hinv : Inv c arr xs s) : Inv c arr xs s' := by
  have hput := thread_put h
  -- the thread of `A_i`, `i ≥ 1`, appends to the queue of `A_{i+1}` only
  have hemits : 1 ≤ i → ∀ j, emits i (s.pc i) j = if j = i + 1 then passes (s.pc i) else [] :=
    fun h1 j => emits_of_quiet fun t rest => hinv.quiet i t rest h1 hi
  refine ⟨fun j hj => ?_, fun j h1 hj => ?_, ?_, fun j t rest h1 hj hpc' => ?_⟩
  · by_cases hji : j = i
    · subst hji
      exact local_thread h (hinv.stages j hj)
    · obtain ⟨hpc, htaken, happlied, hfwd⟩ := thread_frame h hji
      rw [hpc, htaken, happlied, hfwd]
      exact hinv.stages j hj
  · rw [hput (j + 1), hinv.links j h1 hj]
    by_cases hji : j = i
    · subst hji
      rw [hemits h1, if_pos rfl, thread_forwarded h]
    · rw [(thread_frame h hji).2.2.2]
      have hnone : emits i (s.pc i) (j + 1) = [] := by
        rcases Nat.eq_zero_or_pos i with rfl | hpos
        · cases s.pc 0 with
          | inFunc t rest =>
            cases rest with
            | nil => rfl
            | cons e rest => cases e <;> simp [emits]; omega
          | enqueue p => simp [emits]; omega
          | _ => rfl
        · rw [hemits hpos, if_neg (by omega)]
      rw [hnone, List.append_nil]
  · rcases Nat.eq_zero_or_pos i with rfl | hpos
    · exact head_thread hc h hinv.head
    · obtain ⟨hpc, htaken, -, -⟩ := thread_frame h (show 0 ≠ i by omega)
      rw [(thread_stop h).2, hpc, htaken, hput 0, hput 1, hemits hpos, hemits hpos,
        if_neg (by omega), if_neg (by omega), List.append_nil, List.append_nil]
      exact hinv.head
  · by_cases hji : j = i
    · subst hji
      rcases thread_inFunc h hpc' with ⟨-, rfl⟩ | ⟨e, hpc⟩
      · exact hc.func_rest j t h1 hj
      · have hq := hinv.quiet j t _ h1 hj hpc
        cases e <;> simp [queueEffects] at hq ⊢
        exact hq
    · rw [(thread_frame h hji).1] at hpc'
      exact hinv.quiet j t rest h1 hj hpc'

theorem inv_outside (h : outsideStep s = some s') (hinv : Inv c arr xs s) : Inv c arr xs s' := by
  obtain ⟨hpc, happlied, hfwd, -, htaken⟩ := outside_frame h
  obtain ⟨p, hin, hput⟩ := outside_put h
  refine ⟨fun j hj => ?_, fun j h1 hj => ?_, ?_, fun j t rest h1 hj => ?_⟩
  · rw [hpc, htaken, happlied, hfwd]
    exact hinv.stages j hj
  · rw [hput (j + 1), hfwd, if_neg (by omega), List.append_nil]
    exact hinv.links j h1 hj
  · have hp := hinv.head
    rw [hpc, htaken, hput 0, hput 1, if_pos rfl, if_neg (by omega), List.append_nil]
    rw [hin] at hp
    generalize s.pc 0 = pc, (s.queue 0).put = put0, (s.queue 0).taken = taken0,
      (s.queue 1).put = put1, s'.input = input at hp ⊢
    cases hp with
    | waiting => exact .handed
  · rw [hpc]
    exact hinv.quiet j t rest h1 hj

theorem inv_step (hc : PartDAChain c arr xs) {mem : μ} {a : Actor}
    (h : (system c [some arr] mem).step a s = some s') (hinv : Inv c arr xs s) :
    Inv c arr xs s' := by
  cases a with
  | outside => exact inv_outside h hinv
  | thread i =>
    simp only [system] at h
    split_ifs at h with hi
    exact inv_thread hc hi h hinv
  | stop i =>
    simp only [system] at h
    split_ifs at h with hi
    obtain ⟨hpc, hqueue, happlied, hfwd, hin, -, -, -, -⟩ := stop_frame h
    refine ⟨?_, ?_, ?_, ?_⟩
    · rw [hpc, hqueue, happlied, hfwd]; exact hinv.stages
    · rw [hqueue, hfwd]; exact hinv.links
    · rw [hin, hpc, hqueue]; exact hinv.head
    · rw [hpc]; exact hinv.quiet

theorem inv_reachable (hc : PartDAChain c arr xs) {mem : μ}
    (h : (system c [some arr] mem).Reachable s) : Inv c arr xs s :=
  h.invariant (inv_init_chain mem) fun _ _ _ _ hinv hs => inv_step hc hs hinv

/-! ## Along the chain -/

section HeadPhase

variable {input put0 taken0 put1 : List (Option τ)}

theorem HeadPhase.of_func {t : τ}
    (h : HeadPhase arr xs input (.func t : Pc τ ε) put0 taken0 put1) : put1 = [] := by
  cases h with
  | call => rfl
  | leaving hpc => simp at hpc

theorem HeadPhase.of_enqueue {temp : Option τ}
    (h : HeadPhase arr xs input (.enqueue temp : Pc τ ε) put0 taken0 put1) : temp = none := by
  cases h with
  | leaving hpc => simpa using hpc

theorem HeadPhase.of_returned
    (h : HeadPhase arr xs input (.returned : Pc τ ε) put0 taken0 put1) :
    put0 = [some arr, none] ∧ put1 = xs.map some ++ [none] := by
  cases h with
  | returned => exact ⟨rfl, rfl⟩
  | leaving hpc => simp at hpc

theorem HeadPhase.put1_isPrefix {pc : Pc τ ε}
    (h : HeadPhase arr xs input pc put0 taken0 put1) : put1 <+: xs.map some ++ [none] := by
  cases h with
  | waiting => exact List.nil_prefix
  | handed => exact List.nil_prefix
  | call => exact List.nil_prefix
  | @inside rest _ _ h0 h1 => exact ⟨nexts rest ++ [none], by rw [← h1, List.append_assoc]⟩
  | tested => exact List.prefix_append ..
  | again => exact List.prefix_append ..
  | leaving => exact List.prefix_append ..
  | returned => exact List.prefix_rfl

end HeadPhase

/-- Every later queue has been given a prefix of the tasks and one `NULL`: by
    induction along the chain, since an object forwards what it dequeued. -/
theorem Inv.put_isPrefix (hc : PartDAChain c arr xs) (hinv : Inv c arr xs s) {i : ℕ}
    (h1 : 1 ≤ i) (hi : i ≤ c.last) : (s.queue i).put <+: xs.map some ++ [none] := by
  induction i, h1 using Nat.le_induction with
  | base => exact hinv.head.put1_isPrefix
  | succ i h1 ih =>
    have htaken := (hinv.stages i (by omega)).2 (by omega) (hc.flag_rest i h1 (by omega))
    rw [hinv.links i h1 (by omega)]
    have hfwd : s.forwarded i <+: (s.queue i).taken := by
      rw [htaken]
      exact List.prefix_append ..
    exact (hfwd.trans (s.queue i).taken_isPrefix).trans (ih (by omega))

/-- What an object applied its function to is a prefix of the tasks. -/
theorem Inv.applied_isPrefix (hc : PartDAChain c arr xs) (hinv : Inv c arr xs s) {i : ℕ}
    (h1 : 1 ≤ i) (hi : i ≤ c.last) : s.applied i <+: xs := by
  have htaken := (hinv.stages i hi).1
  have happ : (s.applied i).map some <+: (s.queue i).taken := by
    rw [htaken]
    exact List.prefix_append ..
  have hpre := (happ.trans (s.queue i).taken_isPrefix).trans (hinv.put_isPrefix hc h1 hi)
  rcases List.prefix_concat_iff.mp hpre with heq | hpre
  · have hmem : none ∈ (s.applied i).map some := by rw [heq]; simp
    simp at hmem
  · exact (List.prefix_map_iff_of_injective (Option.some_injective τ)).mp hpre

/-- A list of tasks closed by `NULL` is no proper prefix of another one. -/
theorem eq_of_isPrefix {as bs : List τ} (h : as.map some ++ [none] <+: bs.map some ++ [none]) :
    as = bs := by
  rcases List.prefix_concat_iff.mp h with heq | hpre
  · have hmap := List.append_cancel_right heq
    exact (List.map_injective_iff.mpr (Option.some_injective τ)) hmap
  · have hmem : none ∈ bs.map some := hpre.subset (by simp)
    simp at hmem

/-- Once all threads have returned, every later queue was given exactly the
    tasks and one `NULL`, and every object applied its function to the tasks. -/
theorem Inv.complete (hc : PartDAChain c arr xs) (hinv : Inv c arr xs s)
    (hret : ∀ i, i ≤ c.last → s.pc i = .returned) {i : ℕ} (h1 : 1 ≤ i) (hi : i ≤ c.last) :
    (s.queue i).put = xs.map some ++ [none] ∧ s.applied i = xs := by
  -- an object that has returned has dequeued all its queue was given
  have hdone : ∀ i, 1 ≤ i → i ≤ c.last → (s.queue i).put = xs.map some ++ [none] →
      (s.queue i).taken = xs.map some ++ [none] ∧ s.applied i = xs := by
    intro i h1 hi hput
    have htaken := (hinv.stages i hi).1
    rw [hret i hi] at htaken
    have hpre := (s.queue i).taken_isPrefix
    rw [hput, htaken] at hpre
    have happ : s.applied i = xs := eq_of_isPrefix hpre
    exact ⟨by rw [htaken, happ]; rfl, happ⟩
  suffices hput : (s.queue i).put = xs.map some ++ [none] from ⟨hput, (hdone i h1 hi hput).2⟩
  induction i, h1 using Nat.le_induction with
  | base =>
    have hp := hinv.head
    rw [hret 0 (by omega)] at hp
    exact hp.of_returned.2
  | succ i h1 ih =>
    have hi' : i ≤ c.last := by omega
    have htaken := (hinv.stages i hi').2 (by omega) (hc.flag_rest i h1 hi')
    rw [hret i hi'] at htaken
    rw [hinv.links i h1 (by omega)]
    have := (hdone i h1 hi' (ih hi')).1
    rw [htaken] at this
    simpa [held] using this

/-! ## Accounting -/

/-- How many of the items are tasks. -/
def nonNull (l : List (Option τ)) : ℕ := l.countP Option.isSome

@[simp] theorem nonNull_nil : nonNull ([] : List (Option τ)) = 0 := rfl

@[simp] theorem nonNull_append (l l' : List (Option τ)) :
    nonNull (l ++ l') = nonNull l + nonNull l' := List.countP_append

@[simp] theorem nonNull_none : nonNull [(none : Option τ)] = 0 := rfl

@[simp] theorem nonNull_some (t : τ) : nonNull [some t] = 1 := rfl

@[simp] theorem nonNull_map_some (ts : List τ) : nonNull (ts.map some) = ts.length := by
  unfold nonNull
  rw [List.countP_map, List.countP_eq_length]
  intro t _
  rfl

/-- Every task the queue of `A_i` was given is still there or was dequeued, and
    `A_i` is about to apply its function to what it dequeued or has done so. -/
theorem Inv.tasks_put (hinv : Inv c arr xs s) {i : ℕ} (hi : i ≤ c.last) :
    (s.applied i).length + nonNull (unapplied (s.pc i)) + nonNull (s.queue i).items =
      nonNull (s.queue i).put := by
  rw [← (s.queue i).balanced, (hinv.stages i hi).1]
  simp only [nonNull_append, nonNull_map_some]

/-- What `A_i` has applied its function to, it holds or has forwarded. -/
theorem Inv.tasks_next (hc : PartDAChain c arr xs) (hinv : Inv c arr xs s) {i : ℕ} (h1 : 1 ≤ i)
    (hi : i < c.last) :
    nonNull (s.queue (i + 1)).put + nonNull (held (s.pc i)) =
      (s.applied i).length + nonNull (unapplied (s.pc i)) := by
  have hl := hinv.stages i hi.le
  have htaken := hl.2 hi (hc.flag_rest i h1 hi.le)
  rw [hl.1] at htaken
  have hcount := congrArg nonNull htaken
  rw [hinv.links i h1 hi]
  simpa using hcount.symm

/-- In every reachable state of a chain whose first object behaves as `partD_a`:
    what `A_i` (`i ≥ 1`) applied its function to is a prefix of the tasks `xs`,
    and what `A_{i+1}` dequeued followed by its queue is what `A_i` forwarded.
    Once all threads have returned, every `A_i` applied its function exactly to
    `xs`, in order, and every queue was given one `NULL`, behind its other
    items. -/
theorem chain_delivers (hc : PartDAChain c arr xs) {mem : μ}
    (h : (system c [some arr] mem).Reachable s) :
    (∀ i, 1 ≤ i → i ≤ c.last → s.applied i <+: xs) ∧
    (∀ i, 1 ≤ i → i < c.last →
      (s.queue (i + 1)).taken ++ (s.queue (i + 1)).items = s.forwarded i) ∧
    ((∀ i, i ≤ c.last → s.pc i = .returned) →
      (∀ i, 1 ≤ i → i ≤ c.last → s.applied i = xs) ∧
      ∀ i, i ≤ c.last → ∃ items, (s.queue i).put = items ++ [none] ∧ none ∉ items) := by
  have hinv := inv_reachable hc h
  refine ⟨fun i h1 hi => hinv.applied_isPrefix hc h1 hi, fun i h1 hi => ?_, fun hret => ⟨?_, ?_⟩⟩
  · rw [(s.queue (i + 1)).balanced, hinv.links i h1 hi]
  · exact fun i h1 hi => (hinv.complete hc hret h1 hi).2
  · intro i hi
    rcases Nat.eq_zero_or_pos i with rfl | hpos
    · have hp := hinv.head
      rw [hret 0 hi] at hp
      exact ⟨[some arr], hp.of_returned.1, by simp⟩
    · exact ⟨xs.map some, (hinv.complete hc hret hpos hi).1, by simp⟩

/-- Three objects; the first sends 7 and 8. -/
def threeStages : Chain ℕ Empty Unit where
  last := 2
  flag := fun i => if i = 0 then 1 else 0
  func := fun i _ =>
    if i = 0 then [.enqueueNext (some 7), .enqueueNext (some 8), .enqueueOwn none] else []
  exec := fun _ m => m

theorem threeStages_partDA : PartDAChain threeStages 0 [7, 8] where
  long := by decide
  flag_head := rfl
  flag_rest := by
    intro i h1 _
    simp [threeStages, show i ≠ 0 by omega]
  func_head := rfl
  func_rest := by
    intro i t h1 _
    simp [threeStages, show i ≠ 0 by omega, queueEffects]

/-- The second object starts before the first has finished. -/
def threeStagesRun : List Actor :=
  [[.outside], List.replicate 3 (.thread 0), List.replicate 6 (.thread 1),
    List.replicate 8 (.thread 0), List.replicate 10 (.thread 1),
    List.replicate 10 (.thread 2)].flatten

theorem chain_delivers_threeStages :
    ∃ s, (system threeStages [some 0] ()).exec threeStagesRun
        (system threeStages [some 0] ()).init = some s ∧
      ∀ i, 1 ≤ i → i ≤ 2 → s.applied i = [7, 8] := by
  refine ⟨_, rfl, ?_⟩
  have h := chain_delivers threeStages_partDA
    (System.Reach.of_exec (S := system threeStages [some 0] ()) (l := threeStagesRun) rfl)
  refine (h.2.2 fun i hi => ?_).1
  have hi' : i = 0 ∨ i = 1 ∨ i = 2 := by simp only [threeStages] at hi; omega
  rcases hi' with rfl | rfl | rfl <;> rfl

end ChatOnC.ActiveObject
