import ChatOnC.ActiveObject.Delivery
import ChatOnC.Pipeline.Model

/-!
# What the number pipeline prints

`partD_a` hands out the address of a variable of its loop body and goes on
after a `sleep(1)`. When that pause does not last until `partD_d` has returned,
the next number is written over the one the stages still work on.

* `keepsValues_of_pause`: in a run in which every pause is long enough, every
  stage prints each number's own value, and the variable is written only when
  no pointer to it is queued or handled.
* `pipeline_overtaken`: without that condition `partD_b` can print the second
  number in its first call.

The invariant of the run: what the stages have still to do for the number handed
out last would complete the expected output (`ValuesInv.output`).
-/

namespace ChatOnC.Pipeline

open ChatOnC.Common ChatOnC.ActiveObject

/-! ## The property -/

/-- What the `j`-th call of a stage prints for the `j`-th number. -/
def expected (rand : ℕ → ℕ) (stage j : ℕ) : List (Option Output) :=
  match stage with
  | 1 => [some (verdictOf (drawn rand j + 11))]
  | 2 => [some (verdictOf (drawn rand j - 2))]
  | 3 => [some (verdictOf (drawn rand j - 2)), some (.number (drawn rand j))]
  | _ => []

/-- What a stage prints in its first `n` calls. -/
def expectedUpTo (rand : ℕ → ℕ) (n stage : ℕ) : List (Option Output) :=
  (List.range n).flatMap (expected rand stage)

/-- The object is in a call of its function, or about to make it. -/
def calling : Pc Ptr Access → Bool
  | .func _ | .inFunc _ _ => true
  | _ => false

/-- The pointer is queued on stage `i`, or handled by it: its function runs on
    it, or it is passed on. -/
def InFlight (s : State Ptr Access Memory) (i : ℕ) : Prop :=
  some .num ∈ (s.queue i).items ∨ calling (s.pc i) = true ∨
    i < 3 ∧ nonNull (held (s.pc i)) ≠ 0

/-- Every stage prints each number's own value, completely once its call has
    returned, and the next step of the generator is a write to the variable only
    when no pointer to it is in flight. -/
structure KeepsValues (rand : ℕ → ℕ) (s : State Ptr Access Memory) : Prop where
  prints : ∀ i, 1 ≤ i → i ≤ 3 →
    s.mem.printed i <+: expectedUpTo rand (s.applied i).length i ∧
      (calling (s.pc i) = false → s.mem.printed i = expectedUpTo rand (s.applied i).length i)
  writes : ∀ t n rest, s.pc 0 = .inFunc t (.act (.declare .num n) :: rest) →
    ∀ i, 1 ≤ i → i ≤ 3 → ¬ InFlight s i

/-- `partD_d` has returned from its call for every number handed out. -/
abbrev PartDDReturned (s : State Ptr Access Memory) : Prop :=
  (s.applied 3).length = nonNull (s.queue 1).put ∧ calling (s.pc 3) = false

/-- The pause is over: the next step is the end of the loop body (line 42). -/
def pauseOver : Pc Ptr Access → Bool
  | .inFunc _ (.act (.leaveBlock _) :: _) => true
  | _ => false

/-- The pause of the generator is long enough: when it is over, `partD_d` has
    returned. -/
abbrev PauseSuffices (a : Actor) (s : State Ptr Access Memory) : Prop :=
  a = .thread 0 → pauseOver (s.pc 0) = true → PartDDReturned s

/-! ## The chain -/

variable {size : ℤ} {rand : ℕ → ℕ} {flag : ℕ → ℤ} {s s' : State Ptr Access Memory}

theorem queueEffects_append {τ ε : Type*} (es es' : List (Effect τ ε)) :
    queueEffects (es ++ es') = queueEffects es ++ queueEffects es' := by
  simp [queueEffects]

theorem queueEffects_partDALoop (i left : ℕ) :
    queueEffects (partDALoop rand i left) =
      (List.replicate left Ptr.num).map fun p => .enqueueNext (some p) := by
  induction left generalizing i with
  | zero => rfl
  | succ left ih =>
    rw [partDALoop, queueEffects_append, ih, List.replicate_succ, List.map_cons]
    rfl

/-- The pipeline is a chain that delivers `size` pointers. -/
theorem chain_partDA (hflag : ∀ i, 1 ≤ i → i ≤ 3 → flag i ≠ 1) :
    PartDAChain (chain size rand flag) .arr (List.replicate size.toNat .num) where
  long := by
    show 1 ≤ 3
    omega
  flag_head := rfl
  flag_rest := by
    intro i h1 hi
    simp only [chain, show i ≠ 0 by omega, if_false]
    exact hflag i h1 hi
  func_head := by
    show queueEffects (partDA size rand) = _
    rw [partDA, queueEffects_append, queueEffects_partDALoop]
    rfl
  func_rest := by
    intro i t h1 hi
    have hcases : i = 1 ∨ i = 2 ∨ i = 3 := by
      have : i ≤ 3 := hi
      omega
    rcases hcases with rfl | rfl | rfl <;> rfl

/-! ## Running what is left -/

/-- The accesses among the steps of a function. -/
def accesses (es : List (Effect Ptr Access)) : List Access :=
  es.filterMap fun e => match e with
    | .act a => some a
    | _ => none

/-- The memory after these accesses. -/
def runAccesses : List Access → Memory → Memory
  | [], m => m
  | a :: as, m => runAccesses as (a.exec m)

/-- The access prints for stage `i`. -/
def Access.prints (i : ℕ) : Access → Bool
  | .printVerdict j _ | .printNumber j _ => j == i
  | _ => false

theorem Memory.print_printed (m : Memory) (j i : ℕ) (out : Option Output) :
    (m.print j out).printed i = m.printed i ++ (if j = i then [out] else []) := by
  by_cases h : j = i
  · subst h
    simp [print]
  · simp [print, h, Function.update_of_ne (Ne.symm h)]

/-- An access that prints for stage `i` appends one item to its output, and the
    others leave it alone. -/
theorem Access.exec_printed (a : Access) (m : Memory) (i : ℕ) :
    ∃ l, (a.exec m).printed i = m.printed i ++ l ∧
      l.length = if a.prints i then 1 else 0 := by
  have hprint : ∀ j out, ∃ l, (m.print j out).printed i = m.printed i ++ l ∧
      l.length = if j == i then 1 else 0 := by
    intro j out
    refine ⟨_, m.print_printed j i out, ?_⟩
    by_cases h : j = i <;> simp [h]
  have hquiet : ∃ l : List (Option Output), m.printed i = m.printed i ++ l ∧ l.length = 0 :=
    ⟨[], (List.append_nil _).symm, rfl⟩
  cases a with
  | declare p n => exact hquiet
  | leaveBlock p => exact hquiet
  | add p k => exact hquiet
  | printVerdict j p => exact hprint j _
  | printNumber j p => exact hprint j _

theorem runAccesses_printed (as : List Access) (m : Memory) (i : ℕ) :
    ∃ l, (runAccesses as m).printed i = m.printed i ++ l ∧
      l.length = as.countP (Access.prints i) := by
  induction as generalizing m with
  | nil => exact ⟨[], (List.append_nil _).symm, rfl⟩
  | cons a as ih =>
    obtain ⟨l, hl, hlen⟩ := ih (a.exec m)
    obtain ⟨l', hl', hlen'⟩ := a.exec_printed m i
    refine ⟨l' ++ l, ?_, ?_⟩
    · rw [runAccesses, hl, hl', List.append_assoc]
    · rw [List.countP_cons, List.length_append]
      omega

/-- The accesses of stage `i` in one call. -/
def stageAccesses (i : ℕ) : List Access :=
  match i with
  | 1 => accesses (partDB .num)
  | 2 => accesses (partDC .num)
  | 3 => accesses (partDD .num)
  | _ => []

/-- The three stages, run one after the other on number `e`. -/
theorem runAccesses_stages (m : Memory) (e : ℕ) (hcell : m.cell .num = some (drawn rand e))
    (hprinted : m.printed = expectedUpTo rand e) :
    (runAccesses (stageAccesses 1 ++ stageAccesses 2 ++ stageAccesses 3) m).printed =
      expectedUpTo rand (e + 1) := by
  have hc : drawn rand e + 11 + -13 = drawn rand e - 2 := by omega
  have hd : drawn rand e - 2 + 2 = drawn rand e := by omega
  funext i
  have happ : expectedUpTo rand (e + 1) i = m.printed i ++ expected rand i e := by
    rw [hprinted]
    simp [expectedUpTo, List.range_succ]
  rw [happ]
  have hstages : stageAccesses 1 ++ stageAccesses 2 ++ stageAccesses 3 =
      [.add .num 11, .printVerdict 1 .num, .add .num (-13), .printVerdict 2 .num,
        .printVerdict 3 .num, .add .num 2, .printNumber 3 .num] := rfl
  rw [hstages]
  simp only [runAccesses, Access.exec, Memory.print, Function.update_self, hcell, Option.map_some,
    hc, hd]
  rcases i with _ | _ | _ | _ | i <;> simp [expected]

/-! ## Pointers in flight -/

/-- How many pointers the generator has handed out. -/
def handedOut (s : State Ptr Access Memory) : ℕ := nonNull (s.queue 1).put

theorem held_of_calling {pc : Pc Ptr Access} (h : calling pc = true) : nonNull (held pc) = 1 := by
  cases pc with
  | func t => rfl
  | inFunc t rest => rfl
  | _ => simp [calling] at h

theorem unapplied_le_held (pc : Pc Ptr Access) :
    nonNull (unapplied pc) ≤ nonNull (held pc) := by
  cases pc with
  | getQueue temp => cases temp <;> simp [unapplied, held]
  | enqueue temp => cases temp <;> simp [unapplied, held]
  | returned => exact le_rfl
  | _ => simp [unapplied, held]

theorem unapplied_of_not_calling {pc : Pc Ptr Access} (h : calling pc = false) :
    nonNull (unapplied pc) = 0 := by
  cases pc with
  | func t => cases h
  | getQueue temp => cases temp <;> rfl
  | enqueue temp => cases temp <;> rfl
  | _ => rfl

/-- Every pointer handed out is queued on a stage, about to be handled by it,
    or passed on by it, until the last stage has been called on it. -/
theorem flow (hinv : Inv (chain size rand flag) .arr (List.replicate size.toNat .num) s)
    (hflag : ∀ i, 1 ≤ i → i ≤ 3 → flag i ≠ 1) :
    (s.applied 1).length + nonNull (unapplied (s.pc 1)) + nonNull (s.queue 1).items =
        handedOut s ∧
      (s.applied 2).length + nonNull (unapplied (s.pc 2)) + nonNull (s.queue 2).items +
        nonNull (held (s.pc 1)) = (s.applied 1).length + nonNull (unapplied (s.pc 1)) ∧
      (s.applied 3).length + nonNull (unapplied (s.pc 3)) + nonNull (s.queue 3).items +
        nonNull (held (s.pc 2)) = (s.applied 2).length + nonNull (unapplied (s.pc 2)) := by
  have hc : PartDAChain (chain size rand flag) .arr (List.replicate size.toNat .num) :=
    chain_partDA hflag
  have hput1 := hinv.tasks_put (show 1 ≤ 3 by omega)
  have hput2 := hinv.tasks_put (show 2 ≤ 3 by omega)
  have hput3 := hinv.tasks_put (show 3 ≤ 3 by omega)
  have hnext1 : nonNull (s.queue 2).put + nonNull (held (s.pc 1)) =
      (s.applied 1).length + nonNull (unapplied (s.pc 1)) :=
    hinv.tasks_next hc le_rfl (show 1 < 3 by omega)
  have hnext2 : nonNull (s.queue 3).put + nonNull (held (s.pc 2)) =
      (s.applied 2).length + nonNull (unapplied (s.pc 2)) :=
    hinv.tasks_next hc (show 1 ≤ 2 by omega) (show 2 < 3 by omega)
  exact ⟨hput1, by omega, by omega⟩

/-- Once `partD_d` has returned from its last call, every stage has been called
    on every pointer, and none is in flight. -/
theorem PartDDReturned.none_inFlight
    (hinv : Inv (chain size rand flag) .arr (List.replicate size.toNat .num) s)
    (hflag : ∀ i, 1 ≤ i → i ≤ 3 → flag i ≠ 1) (h : PartDDReturned s) {i : ℕ} (h1 : 1 ≤ i)
    (hi : i ≤ 3) :
    (s.applied i).length = handedOut s ∧ calling (s.pc i) = false ∧ ¬ InFlight s i := by
  obtain ⟨hcalls, hpc3⟩ := h
  obtain ⟨hf1, hf2, hf3⟩ := flow hinv hflag
  have hcalls' : (s.applied 3).length = handedOut s := hcalls
  have hw1 := unapplied_le_held (s.pc 1)
  have hw2 := unapplied_le_held (s.pc 2)
  have hw3 := unapplied_of_not_calling hpc3
  have hitems : nonNull (s.queue i).items = 0 ∧ (i < 3 → nonNull (held (s.pc i)) = 0) ∧
      (s.applied i).length = handedOut s := by
    have hcases : i = 1 ∨ i = 2 ∨ i = 3 := by omega
    rcases hcases with rfl | rfl | rfl
    · exact ⟨by omega, fun _ => by omega, by omega⟩
    · exact ⟨by omega, fun _ => by omega, by omega⟩
    · exact ⟨by omega, fun h => by omega, by omega⟩
  have hcalling : calling (s.pc i) = false := by
    by_cases h3 : i < 3
    · by_contra hne
      have := held_of_calling (by simpa using hne)
      have := hitems.2.1 h3
      omega
    · rwa [show i = 3 by omega]
  refine ⟨hitems.2.2, hcalling, ?_⟩
  rintro (hmem | hcall | ⟨h3, hheld⟩)
  · have hpos : 0 < nonNull (s.queue i).items := List.countP_pos_iff.mpr ⟨_, hmem, rfl⟩
    omega
  · rw [hcalling] at hcall
    cases hcall
  · exact hheld (hitems.2.1 h3)

/-! ## The invariant -/

/-- The accesses stage `i` has still to make on the number handed out last. -/
def remaining (s : State Ptr Access Memory) (i : ℕ) : List Access :=
  if (s.applied i).length < handedOut s then stageAccesses i
  else match s.pc i with
    | .inFunc _ rest => accesses rest
    | _ => []

/-- The accesses all stages have still to make on the number handed out last. -/
def pending (s : State Ptr Access Memory) : List Access :=
  remaining s 1 ++ remaining s 2 ++ remaining s 3

/-- Where `partD_a` stands, by the steps it has left. -/
inductive GenPhase (rand : ℕ → ℕ) (s : State Ptr Access Memory) :
    List (Effect Ptr Access) → Prop
  /-- before the next iteration, or behind the loop -/
  | next (left : ℕ) (hd : PartDDReturned s) :
      GenPhase rand s (partDALoop rand (handedOut s) left ++ [.enqueueOwn none])
  /-- the number is drawn -/
  | drawn (left : ℕ) (hd : PartDDReturned s)
      (hcell : s.mem.cell .num = some (drawn rand (handedOut s))) :
      GenPhase rand s (.enqueueNext (some .num) :: .act (.leaveBlock .num) ::
        (partDALoop rand (handedOut s + 1) left ++ [.enqueueOwn none]))
  /-- the pointer is handed out -/
  | pause (left : ℕ) :
      GenPhase rand s (.act (.leaveBlock .num) ::
        (partDALoop rand (handedOut s) left ++ [.enqueueOwn none]))
  | done : GenPhase rand s []

structure ValuesInv (rand : ℕ → ℕ) (s : State Ptr Access Memory) : Prop where
  behind : handedOut s ≤ (s.applied 3).length + 1
  last : ∀ t rest, s.pc 3 = .inFunc t rest →
    (s.applied 3).length = handedOut s ∧ 0 < handedOut s
  output : (runAccesses (pending s) s.mem).printed = expectedUpTo rand (handedOut s)
  gen : ∀ t rest, s.pc 0 = .inFunc t rest → GenPhase rand s rest

/-- With no pointer in flight no access is pending. -/
theorem PartDDReturned.pending_nil
    (hinv : Inv (chain size rand flag) .arr (List.replicate size.toNat .num) s)
    (hflag : ∀ i, 1 ≤ i → i ≤ 3 → flag i ≠ 1) (h : PartDDReturned s) : pending s = [] := by
  have hrem : ∀ i, 1 ≤ i → i ≤ 3 → remaining s i = [] := by
    intro i h1 hi
    obtain ⟨hcalls, hcalling, -⟩ := h.none_inFlight hinv hflag h1 hi
    rw [remaining, if_neg (by omega)]
    split
    · rename_i hpc
      rw [hpc] at hcalling
      cases hcalling
    · rfl
  rw [pending, hrem 1 (by omega) (by omega), hrem 2 (by omega) (by omega),
    hrem 3 (by omega) (by omega)]
  rfl

theorem remaining_congr {i : ℕ} (hout : handedOut s' = handedOut s)
    (happlied : s'.applied i = s.applied i) (hpc : s'.pc i = s.pc i) :
    remaining s' i = remaining s i := by
  rw [remaining, remaining, hout, happlied, hpc]

theorem pending_of_remaining (hrem : ∀ i, 1 ≤ i → remaining s' i = remaining s i) :
    pending s' = pending s := by
  rw [pending, pending, hrem 1 le_rfl, hrem 2 (by omega), hrem 3 (by omega)]

theorem PartDDReturned.congr (h : PartDDReturned s) (hout : handedOut s' = handedOut s)
    (happlied : s'.applied 3 = s.applied 3) (hpc : s'.pc 3 = s.pc 3) : PartDDReturned s' := by
  refine ⟨?_, ?_⟩
  · rw [happlied]
    exact h.1.trans hout.symm
  · rw [hpc]
    exact h.2

theorem GenPhase.congr {rest : List (Effect Ptr Access)} (h : GenPhase rand s rest)
    (hout : handedOut s' = handedOut s)
    (hd : PartDDReturned s → PartDDReturned s' ∧ s'.mem = s.mem) : GenPhase rand s' rest := by
  cases h with
  | next left hd0 =>
    rw [← hout]
    exact .next left (hd hd0).1
  | drawn left hd0 hcell =>
    rw [← hout] at hcell ⊢
    exact .drawn left (hd hd0).1 (by rw [(hd hd0).2, hcell])
  | pause left =>
    rw [← hout]
    exact .pause left
  | done => exact .done

/-! ## Steps -/

section Steps

variable (hflag : ∀ i, 1 ≤ i → i ≤ 3 → flag i ≠ 1)
  (hinv : Inv (chain size rand flag) .arr (List.replicate size.toNat .num) s)
  (hv : ValuesInv rand s)
include hflag hinv hv

/-- A stage about to make a call makes it on the number handed out last. -/
theorem ValuesInv.of_func {i : ℕ} (h1 : 1 ≤ i) (hi : i ≤ 3) {t : Ptr}
    (hpc : s.pc i = .func t) :
    (s.applied i).length + 1 = handedOut s ∧ ¬ PartDDReturned s := by
  obtain ⟨hf1, hf2, hf3⟩ := flow hinv hflag
  have hbehind := hv.behind
  have hu : nonNull (unapplied (s.pc i)) = 1 := by
    rw [hpc]
    rfl
  have hh : nonNull (held (s.pc i)) = 1 := by
    rw [hpc]
    rfl
  have hw1 := unapplied_le_held (s.pc 1)
  have hw2 := unapplied_le_held (s.pc 2)
  have hlast : (s.applied i).length + 1 = handedOut s ∧ (s.applied 3).length < handedOut s := by
    have hcases : i = 1 ∨ i = 2 ∨ i = 3 := by omega
    rcases hcases with rfl | rfl | rfl <;> omega
  refine ⟨hlast.1, fun hd => ?_⟩
  have hcalls : (s.applied 3).length = handedOut s := hd.1
  omega

/-- A stage in a call is in the call on the number handed out last, which the
    stages before it are done with. -/
theorem ValuesInv.of_inFunc {i : ℕ} (h1 : 1 ≤ i) (hi : i ≤ 3) {t : Ptr}
    {rest : List (Effect Ptr Access)} (hpc : s.pc i = .inFunc t rest) :
    (s.applied i).length = handedOut s ∧ ¬ PartDDReturned s ∧
      ∀ j, 1 ≤ j → j < i → remaining s j = [] := by
  obtain ⟨hf1, hf2, hf3⟩ := flow hinv hflag
  have hbehind := hv.behind
  have hu : nonNull (unapplied (s.pc i)) = 0 := by
    rw [hpc]
    rfl
  have hh : nonNull (held (s.pc i)) = 1 := by
    rw [hpc]
    rfl
  have hw1 := unapplied_le_held (s.pc 1)
  have hw2 := unapplied_le_held (s.pc 2)
  have hcases : i = 1 ∨ i = 2 ∨ i = 3 := by omega
  have hcalls : (s.applied i).length = handedOut s := by
    rcases hcases with rfl | rfl | rfl
    · omega
    · omega
    · exact (hv.last t rest hpc).1
  refine ⟨hcalls, ?_, ?_⟩
  · rintro ⟨hd, hcalling⟩
    have hd' : (s.applied 3).length = handedOut s := hd
    rcases hcases with rfl | rfl | rfl
    · omega
    · omega
    · rw [hpc] at hcalling
      cases hcalling
  · intro j hj1 hji
    have hj : (s.applied j).length = handedOut s ∧ nonNull (held (s.pc j)) = 0 := by
      have hcases' : j = 1 ∨ j = 2 := by omega
      rcases hcases with rfl | rfl | rfl <;> rcases hcases' with rfl | rfl <;>
        exact ⟨by omega, by omega⟩
    rw [remaining, if_neg (by omega)]
    split
    · rename_i hpcj
      rw [hpcj] at hj
      cases hj.2
    · rfl

end Steps

/-- Only stage `i` has moved, and the generator has handed out nothing. -/
structure OnlyStage (i : ℕ) (s s' : State Ptr Access Memory) : Prop where
  out : handedOut s' = handedOut s
  pc : ∀ j, j ≠ i → s'.pc j = s.pc j
  applied : ∀ j, j ≠ i → s'.applied j = s.applied j

namespace OnlyStage

variable {i : ℕ} (h : OnlyStage i s s')
include h

theorem remaining {j : ℕ} (hj : j ≠ i) : remaining s' j = Pipeline.remaining s j :=
  remaining_congr h.out (h.applied j hj) (h.pc j hj)

theorem pending (hself : Pipeline.remaining s' i = Pipeline.remaining s i) :
    pending s' = Pipeline.pending s := by
  apply pending_of_remaining
  intro j _
  by_cases hj : j = i
  · rw [hj, hself]
  · exact h.remaining hj

theorem gen (h1 : 1 ≤ i) (hv : ValuesInv rand s)
    (hd : PartDDReturned s → PartDDReturned s' ∧ s'.mem = s.mem) :
    ∀ t rest, s'.pc 0 = .inFunc t rest → GenPhase rand s' rest := by
  intro t rest hpc
  rw [h.pc 0 (by omega)] at hpc
  exact (hv.gen t rest hpc).congr h.out hd

/-- The last stage has been called on the pointers it had been called on, unless
    it is the one that moved. -/
theorem last (hv : ValuesInv rand s)
    (hself : 3 = i → ∀ t rest, s'.pc 3 = .inFunc t rest →
      (s'.applied 3).length = handedOut s' ∧ 0 < handedOut s') :
    ∀ t rest, s'.pc 3 = .inFunc t rest →
      (s'.applied 3).length = handedOut s' ∧ 0 < handedOut s' := by
  intro t rest hpc3
  by_cases h3 : 3 = i
  · exact hself h3 t rest hpc3
  · rw [h.applied 3 h3, h.out]
    rw [h.pc 3 h3] at hpc3
    exact hv.last t rest hpc3

end OnlyStage

section Stage

variable (hflag : ∀ i, 1 ≤ i → i ≤ 3 → flag i ≠ 1)
  (hinv : Inv (chain size rand flag) .arr (List.replicate size.toNat .num) s)
  (hv : ValuesInv rand s) {i : ℕ} (h1 : 1 ≤ i) (hi : i ≤ 3)
include hflag hinv hv h1 hi

/-- A call begins: what remains of the stage is its whole function. -/
theorem valuesInv_begins
    (hinv' : Inv (chain size rand flag) .arr (List.replicate size.toNat .num) s')
    (honly : OnlyStage i s s') {t : Ptr} (hpc : s.pc i = .func t)
    (hpc' : s'.pc i = .inFunc t ((chain size rand flag).func i t))
    (happlied : s'.applied i = s.applied i ++ [t]) (hmem : s'.mem = s.mem) :
    ValuesInv rand s' := by
  obtain ⟨hcalls, hnd⟩ := hv.of_func hflag hinv h1 hi hpc
  have hout := honly.out
  have ht : t = .num := by
    have hmem : t ∈ s'.applied i := by
      rw [happlied]
      simp
    have hpre := hinv'.applied_isPrefix (chain_partDA hflag) h1 hi
    exact List.eq_of_mem_replicate (hpre.subset hmem)
  have hlen : (s'.applied i).length = handedOut s' := by
    rw [happlied, hout, List.length_append]
    exact hcalls
  have hself : remaining s' i = remaining s i := by
    rw [remaining, remaining, if_neg (by omega), if_pos (by omega), hpc', ht]
    have hcases : i = 1 ∨ i = 2 ∨ i = 3 := by omega
    rcases hcases with rfl | rfl | rfl <;> rfl
  refine ⟨?_, honly.last hv ?_, ?_, honly.gen h1 hv fun hd => absurd hd hnd⟩
  · rw [hout]
    by_cases h3 : 3 = i
    · subst h3
      omega
    · rw [honly.applied 3 h3]
      exact hv.behind
  · rintro rfl t' rest' -
    exact ⟨hlen, by omega⟩
  · rw [honly.pending hself, hmem, hout]
    exact hv.output

/-- A stage makes an access: it was the first of those pending. -/
theorem valuesInv_access (honly : OnlyStage i s s') {t : Ptr} {a : Access}
    {rest : List (Effect Ptr Access)} (hpc : s.pc i = .inFunc t (.act a :: rest))
    (hpc' : s'.pc i = .inFunc t rest) (happlied : s'.applied = s.applied)
    (hmem : s'.mem = a.exec s.mem) : ValuesInv rand s' := by
  obtain ⟨hcalls, hnd, hbefore⟩ := hv.of_inFunc hflag hinv h1 hi hpc
  have hout := honly.out
  have hself : remaining s i = a :: remaining s' i := by
    rw [remaining, remaining, if_neg (by omega), if_neg (by rw [happlied]; omega), hpc, hpc']
    rfl
  have hpend : pending s = a :: pending s' := by
    have hcases : i = 1 ∨ i = 2 ∨ i = 3 := by omega
    rw [pending, pending]
    rcases hcases with rfl | rfl | rfl
    · rw [hself, honly.remaining (show 2 ≠ 1 by omega), honly.remaining (show 3 ≠ 1 by omega)]
      rfl
    · rw [hself, honly.remaining (show 1 ≠ 2 by omega), honly.remaining (show 3 ≠ 2 by omega),
        hbefore 1 le_rfl (by omega)]
      rfl
    · rw [hself, honly.remaining (show 1 ≠ 3 by omega), honly.remaining (show 2 ≠ 3 by omega),
        hbefore 1 le_rfl (by omega), hbefore 2 (by omega) (by omega)]
      rfl
  refine ⟨?_, honly.last hv ?_, ?_, honly.gen h1 hv fun hd => absurd hd hnd⟩
  · rw [hout, happlied]
    exact hv.behind
  · rintro rfl t' rest' -
    rw [happlied, hout]
    exact hv.last t _ hpc
  · have houtput := hv.output
    rw [hpend] at houtput
    rw [hout, hmem]
    exact houtput

omit hinv in
/-- A stage moves outside its function, or ends a call: nothing was pending
    there. -/
theorem valuesInv_between
    (hinv' : Inv (chain size rand flag) .arr (List.replicate size.toNat .num) s')
    (honly : OnlyStage i s s') (hni : ∀ t e rest, s.pc i ≠ .inFunc t (e :: rest))
    (hni' : ∀ t rest, s'.pc i ≠ .inFunc t rest) (happlied : s'.applied i = s.applied i)
    (hmem : s'.mem = s.mem) : ValuesInv rand s' := by
  have hout := honly.out
  have hself : remaining s' i = remaining s i := by
    rw [remaining, remaining, happlied, hout]
    split_ifs
    · rfl
    · split
      · rename_i hpc'
        exact absurd hpc' (hni' _ _)
      · split
        · rename_i t rest hpc
          cases rest with
          | nil => rfl
          | cons e rest => exact absurd hpc (hni t e rest)
        · rfl
  have happlied3 : s'.applied 3 = s.applied 3 := by
    by_cases h3 : 3 = i
    · subst h3
      exact happlied
    · exact honly.applied 3 h3
  refine ⟨?_, honly.last hv ?_, ?_, honly.gen h1 hv fun hd => ⟨?_, hmem⟩⟩
  · rw [hout, happlied3]
    exact hv.behind
  · rintro rfl t' rest' hpc3
    exact absurd hpc3 (hni' t' rest')
  · rw [honly.pending hself, hmem, hout]
    exact hv.output
  · refine ⟨by rw [happlied3]; exact hd.1.trans hout.symm, ?_⟩
    by_cases h3 : 3 = i
    · subst h3
      by_contra hne
      -- the last stage has been called on every pointer, so it finds none
      have hfunc : ∃ t, s'.pc 3 = .func t := by
        cases hpc3 : s'.pc 3 with
        | func t => exact ⟨t, rfl⟩
        | inFunc t rest => exact absurd hpc3 (hni' t rest)
        | _ => simp [hpc3, calling] at hne
      obtain ⟨t, hpc3⟩ := hfunc
      obtain ⟨hf1, hf2, hf3⟩ := flow hinv' hflag
      have hu : nonNull (unapplied (s'.pc 3)) = 1 := by
        rw [hpc3]
        rfl
      have hcalls : (s'.applied 3).length = handedOut s' := by
        rw [happlied3, hout]
        exact hd.1
      have hw1 := unapplied_le_held (s'.pc 1)
      have hw2 := unapplied_le_held (s'.pc 2)
      omega
    · rw [honly.pc 3 h3]
      exact hd.2

/-- A step of a stage keeps the invariant. -/
theorem valuesInv_stage
    (hinv' : Inv (chain size rand flag) .arr (List.replicate size.toNat .num) s')
    (h : threadStep (chain size rand flag) i s = some s') : ValuesInv rand s' := by
  have honly : OnlyStage i s s' := by
    refine ⟨?_, fun j hj => (thread_frame h hj).1, fun j hj => (thread_frame h hj).2.2.1⟩
    rw [handedOut, handedOut, thread_put h 1,
      emits_of_quiet fun t rest => hinv.quiet i t rest h1 hi, if_neg (by omega), List.append_nil]
  rcases thread_calls h with ⟨t, hpc, hpc', happlied, hmem⟩ | ⟨t, e, rest, hpc, hs'⟩ |
    ⟨-, hni, hni', happlied, hmem⟩
  · exact valuesInv_begins hflag hinv hv h1 hi hinv' honly hpc hpc' happlied hmem
  · obtain ⟨a, rfl⟩ : ∃ a, e = .act a := by
      have hq := hinv.quiet i t _ h1 hi hpc
      cases e with
      | act a => exact ⟨a, rfl⟩
      | enqueueOwn p => cases hq
      | enqueueNext p => cases hq
    exact valuesInv_access hflag hinv hv h1 hi honly hpc (by rw [hs']; simp) (by rw [hs']; rfl)
      (by rw [hs']; rfl)
  · exact valuesInv_between hflag hv h1 hi hinv' honly hni hni' happlied hmem

end Stage

/-- The next step of `partD_a`. -/
theorem GenPhase.of_cons {e : Effect Ptr Access} {rest : List (Effect Ptr Access)}
    (h : GenPhase rand s (e :: rest)) :
    (e = .enqueueOwn none ∧ rest = []) ∨
    (∃ left, PartDDReturned s ∧ e = .act (.declare .num (Pipeline.drawn rand (handedOut s))) ∧
      rest = .enqueueNext (some .num) :: .act (.leaveBlock .num) ::
        (partDALoop rand (handedOut s + 1) left ++ [.enqueueOwn none])) ∨
    (∃ left, PartDDReturned s ∧ e = .enqueueNext (some .num) ∧
      s.mem.cell .num = some (Pipeline.drawn rand (handedOut s)) ∧
      rest = .act (.leaveBlock .num) ::
        (partDALoop rand (handedOut s + 1) left ++ [.enqueueOwn none])) ∨
    (∃ left, e = .act (.leaveBlock .num) ∧
      rest = partDALoop rand (handedOut s) left ++ [.enqueueOwn none]) := by
  generalize hes : e :: rest = es at h
  cases h with
  | next left hd =>
    cases left with
    | zero =>
      cases hes
      exact .inl ⟨rfl, rfl⟩
    | succ left =>
      cases hes
      exact .inr (.inl ⟨left, hd, rfl, rfl⟩)
  | drawn left hd hcell =>
    cases hes
    exact .inr (.inr (.inl ⟨left, hd, rfl, hcell, rfl⟩))
  | pause left =>
    cases hes
    exact .inr (.inr (.inr ⟨left, rfl, rfl⟩))
  | done => cases hes

section Generator

variable (hflag : ∀ i, 1 ≤ i → i ≤ 3 → flag i ≠ 1)
  (hinv : Inv (chain size rand flag) .arr (List.replicate size.toNat .num) s)
  (hv : ValuesInv rand s)
include hflag hinv hv

/-- Before the call of `partD_a` nothing is handed out. -/
theorem partDDReturned_of_call {t : Ptr} (hpc : s.pc 0 = .func t) :
    handedOut s = 0 ∧ PartDDReturned s := by
  have hzero : handedOut s = 0 := by
    have hp := hinv.head
    rw [hpc] at hp
    rw [handedOut, hp.of_func]
    rfl
  obtain ⟨hf1, hf2, hf3⟩ := flow hinv hflag
  have hw1 := unapplied_le_held (s.pc 1)
  have hw2 := unapplied_le_held (s.pc 2)
  refine ⟨hzero, show (s.applied 3).length = handedOut s by omega, ?_⟩
  cases hpc3 : s.pc 3 with
  | func t =>
    have hu : nonNull (unapplied (s.pc 3)) = 1 := by
      rw [hpc3]
      rfl
    omega
  | inFunc t rest =>
    have := (hv.last t rest hpc3).2
    omega
  | _ => rfl

/-- The generator hands out a pointer: all stages have their accesses still to
    make. -/
theorem valuesInv_handOut (hothers : ∀ j, 1 ≤ j → s'.pc j = s.pc j ∧ s'.applied j = s.applied j)
    (hd : PartDDReturned s) (hcell : s.mem.cell .num = some (drawn rand (handedOut s)))
    (hout : handedOut s' = handedOut s + 1) (hmem : s'.mem = s.mem)
    (hgen : ∀ t rest, s'.pc 0 = .inFunc t rest → GenPhase rand s' rest) :
    ValuesInv rand s' := by
  have hprinted : s.mem.printed = expectedUpTo rand (handedOut s) := by
    have houtput := hv.output
    rw [hd.pending_nil hinv hflag] at houtput
    exact houtput
  have hrem : ∀ i, 1 ≤ i → i ≤ 3 → remaining s' i = stageAccesses i := by
    intro i h1 hi
    obtain ⟨hcalls, -, -⟩ := hd.none_inFlight hinv hflag h1 hi
    rw [remaining, if_pos]
    rw [(hothers i h1).2, hout]
    omega
  refine ⟨?_, ?_, ?_, hgen⟩
  · have hcalls : (s.applied 3).length = handedOut s := hd.1
    rw [(hothers 3 (by omega)).2, hout]
    omega
  · intro t rest hpc3
    rw [(hothers 3 (by omega)).1] at hpc3
    have hcalling := hd.2
    rw [hpc3] at hcalling
    cases hcalling
  · rw [pending, hrem 1 (by omega) (by omega), hrem 2 (by omega) (by omega),
      hrem 3 (by omega) (by omega), hout, hmem]
    exact runAccesses_stages s.mem _ hcell hprinted

/-- A step of the generator that hands out no pointer and prints nothing leaves
    the output due alone. -/
theorem valuesInv_noHandOut
    (hothers : ∀ j, 1 ≤ j → s'.pc j = s.pc j ∧ s'.applied j = s.applied j)
    (hout : handedOut s' = handedOut s) (hprinted : s'.mem.printed = s.mem.printed)
    (hmem : PartDDReturned s ∨ s'.mem = s.mem)
    (hgen : ∀ t rest, s'.pc 0 = .inFunc t rest → GenPhase rand s' rest) :
    ValuesInv rand s' := by
  have hpend : pending s' = pending s := pending_of_remaining fun i h1 =>
    remaining_congr hout (hothers i h1).2 (hothers i h1).1
  refine ⟨?_, ?_, ?_, hgen⟩
  · rw [hout, (hothers 3 (by omega)).2]
    exact hv.behind
  · intro t rest hpc3
    rw [(hothers 3 (by omega)).1] at hpc3
    rw [hout, (hothers 3 (by omega)).2]
    exact hv.last t rest hpc3
  · rw [hpend, hout]
    rcases hmem with hd | hmem
    · have houtput := hv.output
      rw [hd.pending_nil hinv hflag] at houtput ⊢
      exact hprinted.trans houtput
    · rw [hmem]
      exact hv.output

/-- A step of the generator keeps the invariant, if it leaves the block of its
    variable only after `partD_d` has returned. -/
theorem valuesInv_generator (hok : PauseSuffices (.thread 0) s)
    (h : threadStep (chain size rand flag) 0 s = some s') : ValuesInv rand s' := by
  have hothers : ∀ j, 1 ≤ j → s'.pc j = s.pc j ∧ s'.applied j = s.applied j :=
    fun j hj => ⟨(thread_frame h (by omega)).1, (thread_frame h (by omega)).2.2.1⟩
  have hput : (s'.queue 1).put = (s.queue 1).put ++ emits 0 (s.pc 0) 1 := thread_put h 1
  have hkeep := valuesInv_noHandOut hflag hinv hv hothers
  have hdone : PartDDReturned s → handedOut s' = handedOut s → PartDDReturned s' := fun hd hout =>
    hd.congr hout (hothers 3 (by omega)).2 (hothers 3 (by omega)).1
  rcases thread_calls h with ⟨t, hpc, hpc', -, hmem⟩ | ⟨t, e, rest, hpc, rfl⟩ |
    ⟨hnf, hni, hni', -, hmem⟩
  · -- the call of `partD_a`
    obtain ⟨hzero, hd⟩ := partDDReturned_of_call hflag hinv hv hpc
    have hout : handedOut s' = handedOut s := by
      rw [handedOut, hput, hpc, handedOut]
      simp [emits]
    apply hkeep hout (by rw [hmem]) (.inl hd)
    intro t' rest' hpc0
    rw [hpc'] at hpc0
    cases hpc0
    have hnext : GenPhase rand _ _ := .next size.toNat (hdone hd hout)
    rw [hout, hzero] at hnext
    exact hnext
  · -- a step of `partD_a`
    have hpc' : ∀ e, ((perform (chain size rand flag) 0 s e).setPc 0 (.inFunc t rest)).pc 0 =
        .inFunc t rest := by simp
    have hgen : ∀ s'' : State Ptr Access Memory, s''.pc 0 = .inFunc t rest →
        GenPhase rand s'' rest → ∀ t' rest', s''.pc 0 = .inFunc t' rest' →
          GenPhase rand s'' rest' := by
      intro s'' h0 hphase t' rest' h0'
      rw [h0] at h0'
      cases h0'
      exact hphase
    rcases (hv.gen t _ hpc).of_cons with ⟨rfl, rfl⟩ | ⟨left, hd, rfl, rfl⟩ |
      ⟨left, hd, rfl, hcell, rfl⟩ | ⟨left, rfl, rfl⟩
    · -- `enqueue(ao_1->queue, NULL)`
      exact hkeep rfl rfl (.inr rfl) (hgen _ (hpc' _) .done)
    · -- `int num = ...`
      have hd' := hdone hd rfl
      exact hkeep rfl rfl (.inl hd) (hgen _ (hpc' _) (.drawn left hd' (by
        simp [perform, chain, Access.exec, handedOut])))
    · -- `enqueue(ao_1->next->queue, &num)`
      have hout : handedOut ((perform (chain size rand flag) 0 s (.enqueueNext (some .num))).setPc 0
          (.inFunc t (.act (.leaveBlock .num) ::
            (partDALoop rand (handedOut s + 1) left ++ [.enqueueOwn none])))) =
          handedOut s + 1 := by
        rw [handedOut, hput, hpc, handedOut]
        simp [emits]
      apply valuesInv_handOut hflag hinv hv hothers hd hcell hout rfl
      apply hgen _ (hpc' _)
      rw [← hout]
      exact .pause left
    · -- the end of the block
      have hd : PartDDReturned s := hok rfl (by rw [hpc]; rfl)
      exact hkeep rfl rfl (.inl hd) (hgen _ (hpc' _) (.next left (hdone hd rfl)))
  · -- outside the function
    have hemits : nonNull (emits 0 (s.pc 0) 1) = 0 := by
      cases hpc : s.pc 0 with
      | inFunc t rest =>
        cases rest with
        | nil => rfl
        | cons e rest => exact absurd hpc (hni t e rest)
      | enqueue temp =>
        have hp := hinv.head
        rw [hpc] at hp
        rw [hp.of_enqueue]
        rfl
      | _ => rfl
    have hout : handedOut s' = handedOut s := by
      rw [handedOut, hput, nonNull_append, hemits]
      rfl
    exact hkeep hout (by rw [hmem]) (.inr hmem) fun t rest hpc0 => absurd hpc0 (hni' t rest)

end Generator

theorem valuesInv_init : ValuesInv rand (pipeline size rand flag).init where
  behind := Nat.zero_le _
  last := by
    intro t rest hpc
    cases hpc
  output := rfl
  gen := by
    intro t rest hpc
    cases hpc

/-- A step that changes neither the memory nor what the objects do keeps the
    invariant. -/
theorem ValuesInv.congr (hv : ValuesInv rand s) (hpc : s'.pc = s.pc)
    (happlied : s'.applied = s.applied) (hput : (s'.queue 1).put = (s.queue 1).put)
    (hmem : s'.mem = s.mem) : ValuesInv rand s' := by
  have hout : handedOut s' = handedOut s := by rw [handedOut, handedOut, hput]
  have hpend : pending s' = pending s := pending_of_remaining fun i _ =>
    remaining_congr hout (by rw [happlied]) (by rw [hpc])
  have hd : PartDDReturned s → PartDDReturned s' := fun hd =>
    hd.congr hout (by rw [happlied]) (by rw [hpc])
  refine ⟨?_, ?_, ?_, ?_⟩
  · rw [hout, happlied]
    exact hv.behind
  · rw [hpc, happlied, hout]
    exact hv.last
  · rw [hpend, hmem, hout]
    exact hv.output
  · intro t rest hpc0
    rw [hpc] at hpc0
    exact (hv.gen t rest hpc0).congr hout fun h => ⟨hd h, hmem⟩

theorem valuesInv_reach (hflag : ∀ i, 1 ≤ i → i ≤ 3 → flag i ≠ 1)
    (h : (pipeline size rand flag).Reach PauseSuffices s) :
    Inv (chain size rand flag) .arr (List.replicate size.toNat .num) s ∧ ValuesInv rand s := by
  have hinv : ∀ s, (pipeline size rand flag).Reach PauseSuffices s →
      Inv (chain size rand flag) .arr (List.replicate size.toNat .num) s := fun s hs =>
    inv_reachable (chain_partDA hflag) (hs.mono fun _ _ _ => trivial)
  refine ⟨hinv s h, ?_⟩
  induction h with
  | init => exact valuesInv_init
  | @step s s' a hs hok hstep ih =>
    cases a with
    | outside =>
      obtain ⟨hpc, happlied, -, -, -⟩ := outside_frame hstep
      obtain ⟨p, -, hput⟩ := outside_put hstep
      exact ih.congr hpc happlied (by simpa using hput 1) (outside_mem hstep)
    | stop i =>
      obtain ⟨-, hstop⟩ := Option.ite_none_right_eq_some.mp hstep
      obtain ⟨hpc, hqueue, happlied, -, -, hmem, -⟩ := stop_frame hstop
      exact ih.congr hpc happlied (by rw [hqueue]) hmem
    | thread i =>
      obtain ⟨hi, hthread⟩ := Option.ite_none_right_eq_some.mp hstep
      rcases Nat.eq_zero_or_pos i with rfl | h1
      · exact valuesInv_generator hflag (hinv s hs) ih hok hthread
      · exact valuesInv_stage hflag (hinv s hs) ih h1 hi (hinv s' (.step hs hok hstep)) hthread

/-! ## The output -/

theorem countP_stage (size : ℤ) (rand : ℕ → ℕ) (flag : ℕ → ℤ) {i j : ℕ} (hj1 : 1 ≤ j)
    (hj : j ≤ 3) (hij : i ≠ j) (t : Ptr) :
    (accesses ((chain size rand flag).func j t)).countP (Access.prints i) = 0 := by
  rw [List.countP_eq_zero]
  have hcases : j = 1 ∨ j = 2 ∨ j = 3 := by omega
  rcases hcases with rfl | rfl | rfl <;>
    simp [chain, partDB, partDC, partDD, accesses, Access.prints, Ne.symm hij]

/-- A stage prints nothing for another. -/
theorem countP_remaining (h : (pipeline size rand flag).Reachable s) {i j : ℕ} (hj1 : 1 ≤ j)
    (hj : j ≤ 3) (hij : i ≠ j) : (remaining s j).countP (Access.prints i) = 0 := by
  rw [remaining]
  split_ifs
  · have hcases : j = 1 ∨ j = 2 ∨ j = 3 := by omega
    have hstage := countP_stage size rand flag hj1 hj hij .num
    rcases hcases with rfl | rfl | rfl <;> exact hstage
  · split
    · rename_i t rest hpc
      have hsuf := (suffix_reachable h j t rest hpc).filterMap fun e => match e with
        | .act a => some a
        | _ => none
      have hle := hsuf.sublist.countP_le (p := Access.prints i)
      have hzero := countP_stage size rand flag hj1 hj hij t
      exact Nat.le_zero.mp (hle.trans hzero.le)
    · rfl

theorem countP_pending (h : (pipeline size rand flag).Reachable s) {i : ℕ} (h1 : 1 ≤ i)
    (hi : i ≤ 3) :
    (pending s).countP (Access.prints i) = (remaining s i).countP (Access.prints i) := by
  rw [pending, List.countP_append, List.countP_append]
  have hcases : i = 1 ∨ i = 2 ∨ i = 3 := by omega
  rcases hcases with rfl | rfl | rfl
  · rw [countP_remaining h (by omega) (by omega) (show 1 ≠ 2 by omega),
      countP_remaining h (by omega) (by omega) (show 1 ≠ 3 by omega), Nat.add_zero]
  · rw [countP_remaining h (by omega) (by omega) (show 2 ≠ 1 by omega),
      countP_remaining h (by omega) (by omega) (show 2 ≠ 3 by omega), Nat.zero_add, Nat.add_zero]
  · rw [countP_remaining h (by omega) (by omega) (show 3 ≠ 1 by omega),
      countP_remaining h (by omega) (by omega) (show 3 ≠ 2 by omega), Nat.zero_add]

theorem expectedUpTo_succ (rand : ℕ → ℕ) (n i : ℕ) :
    expectedUpTo rand (n + 1) i = expectedUpTo rand n i ++ expected rand i n := by
  simp [expectedUpTo, List.range_succ]

/-- If every pause of the generator is long enough, every stage prints each
    number's own value, and the variable is written only when no pointer to it
    is in flight, under every interleaving. -/
theorem keepsValues_of_pause (hflag : ∀ i, 1 ≤ i → i ≤ 3 → flag i ≠ 1)
    (h : (pipeline size rand flag).Reach PauseSuffices s) : KeepsValues rand s := by
  obtain ⟨hinv, hv⟩ := valuesInv_reach hflag h
  refine ⟨fun i h1 hi => ?_, fun t n rest hpc i h1 hi => ?_⟩
  · obtain ⟨hf1, hf2, hf3⟩ := flow hinv hflag
    have hbehind := hv.behind
    have hw1 := unapplied_le_held (s.pc 1)
    have hw2 := unapplied_le_held (s.pc 2)
    have hcalls : (s.applied i).length ≤ handedOut s ∧
        handedOut s ≤ (s.applied i).length + 1 := by
      have hcases : i = 1 ∨ i = 2 ∨ i = 3 := by omega
      rcases hcases with rfl | rfl | rfl <;> omega
    obtain ⟨l, hl, hlen⟩ := runAccesses_printed (pending s) s.mem i
    rw [hv.output] at hl
    rw [countP_pending (h.mono fun _ _ _ => trivial) h1 hi] at hlen
    by_cases hlt : (s.applied i).length < handedOut s
    · -- the stage has not begun its call on the last number
      rw [show handedOut s = (s.applied i).length + 1 by omega, expectedUpTo_succ] at hl
      rw [remaining, if_pos hlt] at hlen
      have hlen' : (expected rand i (s.applied i).length).length = l.length := by
        rw [hlen]
        have hcases : i = 1 ∨ i = 2 ∨ i = 3 := by omega
        rcases hcases with rfl | rfl | rfl <;> rfl
      have heq := List.append_inj_left' hl hlen'
      rw [heq]
      exact ⟨List.prefix_rfl, fun _ => rfl⟩
    · rw [show handedOut s = (s.applied i).length by omega] at hl
      refine ⟨⟨l, hl.symm⟩, fun hcalling => ?_⟩
      have hrem : remaining s i = [] := by
        rw [remaining, if_neg hlt]
        split
        · rename_i hpc
          rw [hpc] at hcalling
          cases hcalling
        · rfl
      rw [hrem] at hlen
      rw [hl, List.length_eq_zero_iff.mp hlen, List.append_nil]
  · rcases (hv.gen t _ hpc).of_cons with ⟨he, -⟩ | ⟨left, hd, -, -⟩ | ⟨left, -, he, -⟩ |
      ⟨left, he, -⟩
    · cases he
    · exact (hd.none_inFlight hinv hflag h1 hi).2.2
    · cases he
    · cases he

/-- Two numbers, with long enough pauses. -/
def pausedRun : List Actor :=
  [[.outside], List.replicate 4 (.thread 0), List.replicate 8 (.thread 1),
    List.replicate 8 (.thread 2), List.replicate 6 (.thread 3), List.replicate 3 (.thread 0),
    List.replicate 8 (.thread 1), List.replicate 8 (.thread 2), List.replicate 7 (.thread 3),
    List.replicate 3 (.thread 0)].flatten

theorem keepsValues_pausedRun :
    ∃ s, (pipeline 2 id fun _ => 0).execIf PauseSuffices pausedRun
        (pipeline 2 id fun _ => 0).init = some s ∧
      (s.applied 3).length = 2 ∧ KeepsValues id s := by
  obtain ⟨s, hs, hcalls⟩ : ∃ s, (pipeline 2 id fun _ => 0).execIf PauseSuffices pausedRun
      (pipeline 2 id fun _ => 0).init = some s ∧ (s.applied 3).length = 2 := ⟨_, rfl, rfl⟩
  have hreach : (pipeline 2 id fun _ => 0).Reach PauseSuffices s := .of_execIf .init hs
  exact ⟨s, hs, hcalls, keepsValues_of_pause (fun i _ _ => by simp) hreach⟩

/-- The generator draws the second number before `partD_b` is called. -/
def overtakenRun : List Actor :=
  .outside :: List.replicate 6 (.thread 0) ++ List.replicate 4 (.thread 1)

/-- In that run the first call of `partD_b` prints the second number plus 11. -/
theorem pipeline_overtaken :
    ¬ ∀ s, (pipeline 2 id fun _ => 0).Reachable s → KeepsValues id s := by
  intro hall
  obtain ⟨s, hs, hprinted, hcalls⟩ : ∃ s, (pipeline 2 id fun _ => 0).exec overtakenRun
      (pipeline 2 id fun _ => 0).init = some s ∧
      s.mem.printed 1 = [some (verdictOf 100012)] ∧ (s.applied 1).length = 1 :=
    ⟨_, rfl, rfl, rfl⟩
  have hpre := ((hall s (.of_exec hs)).prints 1 le_rfl (by omega)).1
  rw [hprinted, hcalls] at hpre
  have heq : [some (verdictOf 100012)] = expected id 1 0 := hpre.eq_of_length rfl
  simp [expected, drawn, verdictOf] at heq

end ChatOnC.Pipeline
