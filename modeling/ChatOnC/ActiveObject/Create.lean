import ChatOnC.ActiveObject.Delivery

/-!
# Objects as `createActiveObject` makes them

`createActiveObject` (`activeobject.c` lines 22–32) sets `queue`, `next`, `func` and
`thread` of the block that `malloc` has returned, and not `flag`: the test of
`run` (line 12) reads what the block held before.

* `silent_thread`: an object with `flag` 1 forwards nothing but the last `NULL`.
* `forwarded_of_ranOn`: what the thread of an object has forwarded when it returns.
* `forwarding_iff_flag`: two runs forward every task if and only if there is none, or
  neither block held a 1 in the place of `flag`.
-/

namespace ChatOnC.ActiveObject

open ChatOnC.Common

variable {τ ε μ : Type*}

/-- The fields of an object (`activeobject.h`, lines 13–20) that `run` reads, less
    its queue; `next` is the number of an object. -/
structure Ao (τ ε : Type*) where
  func : τ → List (Effect τ ε)
  next : Option ℕ
  flag : ℤ

/-- `createActiveObject(func, next)`, where `malloc` returns a block with these
    contents. -/
def createActiveObject (block : Ao τ ε) (func : τ → List (Effect τ ε)) (next : Option ℕ) :
    Ao τ ε :=
  { block with next := next, func := func }

/-- Objects `A_0, …, A_last`, each linked to the one behind it. -/
structure Objects (τ ε : Type*) where
  last : ℕ
  object : ℕ → Ao τ ε
  linked : ∀ i ≤ last, (object i).next = if i < last then some (i + 1) else none

/-- The chain of the objects, in a program whose memory accesses are `exec`. -/
def Objects.chain (objects : Objects τ ε) (exec : ε → μ → μ) : Chain τ ε μ where
  last := objects.last
  flag i := (objects.object i).flag
  func i := (objects.object i).func
  exec := exec

/-- The queue of `A_i` was given the tasks and `NULL`, and its thread has
    returned. -/
structure RanOn (s : State τ ε μ) (i : ℕ) (ts : List τ) : Prop where
  put : (s.queue i).put = ts.map some ++ [none]
  returned : s.pc i = .returned

/-! ## What one object forwards -/

/-- What an object that keeps its tasks to itself has forwarded. -/
def closing : Pc τ ε → List (Option τ)
  | .returned => [none]
  | _ => []

/-- The thread is about to forward a task. -/
def forwardsTask : Pc τ ε → Bool
  | .getQueue (some _) | .enqueue (some _) => true
  | _ => false

/-- What an object with `flag` 1 has forwarded. -/
def Silent (c : Chain τ ε μ) (i : ℕ) (pc : Pc τ ε) (forwarded : List (Option τ)) : Prop :=
  i < c.last → c.flag i = 1 → forwardsTask pc = false ∧ forwarded = closing pc

variable {c : Chain τ ε μ} {s s' : State τ ε μ} {i : ℕ}

/-- A step of its own thread keeps `Silent`. -/
theorem silent_thread (h : threadStep c i s = some s')
    (hs : Silent c i (s.pc i) (s.forwarded i)) : Silent c i (s'.pc i) (s'.forwarded i) := by
  intro hi hflag
  obtain ⟨hpcs, hfwd⟩ := hs hi hflag
  rw [thread_forwarded h, hfwd]
  cases moves_of_threadStep h with
  | @dequeue temp queue hpc hq =>
    cases temp <;> simp [hpc, Pc.ofTemp, closing, passes, forwardsTask]
  | func hpc => simp [hpc, closing, passes, forwardsTask]
  | leave hpc => simp [hpc, closing, passes, forwardsTask]
  | effect hpc => simp [hpc, closing, passes, forwardsTask]
  | test hpc =>
    -- the flag keeps the task from being forwarded
    simp [hpc, hflag, closing, passes, forwardsTask]
  | last hpc => simp [hpc, hi, closing, passes, forwardsTask]
  | @getQueue temp hpc =>
    cases temp with
    | none => simp [hpc, closing, passes, forwardsTask]
    | some t => simp [hpc, forwardsTask] at hpcs
  | @enqueue temp hpc =>
    cases temp with
    | none => simp [hpc, closing, passes, forwardsTask]
    | some t => simp [hpc, forwardsTask] at hpcs

/-- What an object has forwarded when its thread returns. -/
theorem forwarded_of_ranOn {input : List (Option τ)} {mem : μ} {ts : List τ}
    (h : (system c input mem).Reachable s) (hi : i < c.last) (hran : RanOn s i ts) :
    s.forwarded i = if c.flag i = 1 then [none] else ts.map some ++ [none] := by
  have hlocal := object_invariant (P := Local c) (fun i => ⟨rfl, fun _ _ => rfl⟩)
    (fun i s s' hs hl => local_thread hs hl) h i
  have hsilent := object_invariant (P := fun i pc _ _ forwarded => Silent c i pc forwarded)
    (fun i _ _ => ⟨rfl, rfl⟩) (fun i s s' hs hl => silent_thread hs hl) h i
  rw [hran.returned] at hlocal hsilent
  obtain ⟨htaken, hpassed⟩ := hlocal
  split_ifs with hflag
  · exact (hsilent hi hflag).2
  · have hpre := (s.queue i).taken_isPrefix
    rw [hran.put, htaken] at hpre
    have happ : s.applied i = ts := eq_of_isPrefix hpre
    have hall := hpassed hi hflag
    rw [htaken, happ, held, List.append_nil] at hall
    exact hall.symm

/-! ## Two runs -/

theorem forwards_all_iff (n : ℤ) (ts : List τ) :
    (if n = 1 then [none] else ts.map some ++ [none]) = ts.map some ++ [none] ↔
      ts = [] ∨ n ≠ 1 := by
  split_ifs with hn
  · cases ts with
    | nil => simp
    | cons t ts => simp [hn]
  · simp [hn]

/-- **What forwarding depends on.** Two runs on the same tasks, of objects that
    `createActiveObject` has made with a `next` from two blocks: both enqueue the same
    on the queue of `next`, every task in order and then `NULL`, if and only if there
    are no tasks or neither block held a 1 in the place of `flag`. -/
theorem forwarding_iff_flag {objects₁ objects₂ : Objects τ ε} {block₁ block₂ : Ao τ ε}
    {func : τ → List (Effect τ ε)} {exec₁ exec₂ : ε → μ → μ} {ts : List τ}
    {input₁ input₂ : List (Option τ)} {mem₁ mem₂ : μ} {s₁ s₂ : State τ ε μ}
    (hi₁ : i < objects₁.last) (hi₂ : i < objects₂.last)
    (hobject₁ : objects₁.object i = createActiveObject block₁ func (some (i + 1)))
    (hobject₂ : objects₂.object i = createActiveObject block₂ func (some (i + 1)))
    (h₁ : (system (objects₁.chain exec₁) input₁ mem₁).Reachable s₁) (hran₁ : RanOn s₁ i ts)
    (h₂ : (system (objects₂.chain exec₂) input₂ mem₂).Reachable s₂) (hran₂ : RanOn s₂ i ts) :
    s₁.forwarded i = s₂.forwarded i ∧ s₁.forwarded i = ts.map some ++ [none] ↔
      ts = [] ∨ block₁.flag ≠ 1 ∧ block₂.flag ≠ 1 := by
  have hflag₁ : (objects₁.chain exec₁).flag i = block₁.flag := by
    show (objects₁.object i).flag = block₁.flag
    rw [hobject₁]
    rfl
  have hflag₂ : (objects₂.chain exec₂).flag i = block₂.flag := by
    show (objects₂.object i).flag = block₂.flag
    rw [hobject₂]
    rfl
  have hfwd₁ := forwarded_of_ranOn h₁ hi₁ hran₁
  have hfwd₂ := forwarded_of_ranOn h₂ hi₂ hran₂
  rw [hflag₁] at hfwd₁
  rw [hflag₂] at hfwd₂
  rw [or_and_left, ← forwards_all_iff block₁.flag ts, ← forwards_all_iff block₂.flag ts, ← hfwd₁,
    ← hfwd₂]
  constructor
  · rintro ⟨hsame, hall⟩
    exact ⟨hall, hsame ▸ hall⟩
  · rintro ⟨hall₁, hall₂⟩
    exact ⟨hall₁.trans hall₂.symm, hall₁⟩

/-- Two objects that do nothing with their tasks, the first of them in a block with this
    value in the place of `flag`. -/
def twoCreated (flag : ℤ) : Objects ℕ Empty where
  last := 1
  object
    | 0 => createActiveObject ⟨fun _ => [], none, flag⟩ (fun _ => []) (some 1)
    | _ => createActiveObject ⟨fun _ => [], none, 0⟩ (fun _ => []) none
  linked := by
    intro i hi
    rcases i with _ | _ | i
    · rfl
    · rfl
    · omega

/-- The two objects in a program that does nothing with its memory. -/
def createdSystem (flag : ℤ) : System (State ℕ Empty Unit) Actor :=
  system ((twoCreated flag).chain fun _ m => m) [some 7, none] ()

/-- The first object is given one task and `NULL`, and makes `n` steps. -/
def createdRun (n : ℕ) : List Actor := [[.outside, .outside], List.replicate n (.thread 0)].flatten

/-- A run in which the object returns with one task applied. -/
theorem createdRun_ranOn {flag : ℤ} {n : ℕ} {forwarded : List (Option ℕ)}
    (hrun : ((createdSystem flag).exec (createdRun n) (createdSystem flag).init).map
      (fun s => ((s.queue 0).put, s.pc 0, s.forwarded 0)) =
        some ([some 7, none], .returned, forwarded)) :
    ∃ s, (createdSystem flag).exec (createdRun n) (createdSystem flag).init = some s ∧
      RanOn s 0 [7] ∧ s.forwarded 0 = forwarded := by
  obtain ⟨s, hexec, hs⟩ := Option.map_eq_some_iff.mp hrun
  simp only [Prod.mk.injEq] at hs
  exact ⟨s, hexec, ⟨hs.1, hs.2.1⟩, hs.2.2⟩

/-- With 0 in the place of `flag` the task is forwarded. -/
theorem createdRun_zero :
    ∃ s, (createdSystem 0).exec (createdRun 10) (createdSystem 0).init = some s ∧
      RanOn s 0 [7] ∧ s.forwarded 0 = [some 7, none] :=
  createdRun_ranOn (by decide +kernel)

/-- With 1 there, only `NULL` is. -/
theorem createdRun_one :
    ∃ s, (createdSystem 1).exec (createdRun 8) (createdSystem 1).init = some s ∧
      RanOn s 0 [7] ∧ s.forwarded 0 = [none] :=
  createdRun_ranOn (by decide +kernel)

theorem forwarding_iff_flag_zeroAndOne :
    ∃ s₁ s₂, (createdSystem 0).Reachable s₁ ∧ (createdSystem 1).Reachable s₂ ∧
      (s₁.forwarded 0 = s₂.forwarded 0 ∧ s₁.forwarded 0 = [7].map some ++ [none] ↔
        [7] = ([] : List ℕ) ∨ (0 : ℤ) ≠ 1 ∧ (1 : ℤ) ≠ 1) := by
  obtain ⟨s₁, hexec₁, hran₁, -⟩ := createdRun_zero
  obtain ⟨s₂, hexec₂, hran₂, -⟩ := createdRun_one
  have h₁ := System.Reach.of_exec hexec₁
  have h₂ := System.Reach.of_exec hexec₂
  exact ⟨s₁, s₂, h₁, h₂,
    forwarding_iff_flag (show 0 < (twoCreated 0).last by decide)
      (show 0 < (twoCreated 1).last by decide) rfl rfl h₁ hran₁ h₂ hran₂⟩

/-- The same task on the queue of the same object, in two blocks: the queue of `next` is
    given different sequences. -/
theorem forwarding_depends_on_block :
    ∃ s₁ s₂, (createdSystem 0).Reachable s₁ ∧ RanOn s₁ 0 [7] ∧
      (createdSystem 1).Reachable s₂ ∧ RanOn s₂ 0 [7] ∧
      s₁.forwarded 0 = [some 7, none] ∧ s₂.forwarded 0 = [none] := by
  obtain ⟨s₁, hexec₁, hran₁, hfwd₁⟩ := createdRun_zero
  obtain ⟨s₂, hexec₂, hran₂, hfwd₂⟩ := createdRun_one
  exact ⟨s₁, s₂, System.Reach.of_exec hexec₁, hran₁, System.Reach.of_exec hexec₂, hran₂, hfwd₁,
    hfwd₂⟩

end ChatOnC.ActiveObject
