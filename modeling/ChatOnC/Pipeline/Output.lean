import ChatOnC.ActiveObject.Progress
import ChatOnC.Pipeline.Primality
import ChatOnC.Pipeline.Values

/-!
# The output of the number pipeline

What `st_pipeline.c` prints, in the terms of its numbers: `partD_b` prints `n + 11` and
whether it is a prime, `partD_c` and `partD_d` print `n - 2` and whether it is, and
`partD_d` prints `n`.

* `expected_eq`: the output of the stages is that.
* `pauseSuffices_of_quiet`: the generator is not kept from going on by stages that wait.
* `pipeline_prints`: every run of the program with long enough pauses ends, and it has
  printed that for every number that was drawn.
-/

namespace ChatOnC.Pipeline

open ChatOnC.Common ChatOnC.ActiveObject

/-- A number and whether it is a prime. -/
def judged (n : ℤ) : Output := .verdict n (if n.toNat.Prime then "true" else "false")

/-- What the program is to print for the number `n`, stage by stage. -/
def printout (n : ℤ) : ℕ → List Output
  | 1 => [judged (n + 11)]
  | 2 => [judged (n - 2)]
  | 3 => [judged (n - 2), .number n]
  | _ => []

/-- What it is to print for the numbers that are drawn. -/
def printouts (size : ℤ) (rand : ℕ → ℕ) (stage : ℕ) : List Output :=
  (List.range size.toNat).flatMap fun j => printout (drawn rand j) stage

variable {size : ℤ} {rand : ℕ → ℕ} {flag : ℕ → ℤ} {s : State Ptr Access Memory}

/-! ## The text -/

theorem toNat_ofInt {n : ℤ} (h0 : 0 ≤ n) (hlt : n < 2 ^ 32) :
    (UInt32.ofInt n).toNat = n.toNat := by
  rw [UInt32.ofInt, UInt32.toNat_ofNat', Int.emod_eq_of_lt h0 hlt, Nat.mod_eq_of_lt]
  omega

theorem verdictOf_eq_judged {n : ℤ} (h0 : 0 ≤ n) (hlt : n < 2 ^ 32) : verdictOf n = judged n := by
  rw [verdictOf_eq, toNat_ofInt h0 hlt, judged]

theorem drawn_bounds (rand : ℕ → ℕ) (j : ℕ) : 100000 ≤ drawn rand j ∧ drawn rand j < 1000000 := by
  unfold drawn
  omega

theorem expected_eq (rand : ℕ → ℕ) (stage j : ℕ) :
    expected rand stage j = (printout (drawn rand j) stage).map some := by
  obtain ⟨hge, hlt⟩ := drawn_bounds rand j
  rcases stage with _ | _ | _ | _ | stage
  · rfl
  · show [some (verdictOf _)] = _
    rw [verdictOf_eq_judged (by omega) (by omega)]
    rfl
  · show [some (verdictOf _)] = _
    rw [verdictOf_eq_judged (by omega) (by omega)]
    rfl
  · show [some (verdictOf _), _] = _
    rw [verdictOf_eq_judged (by omega) (by omega)]
    rfl
  · rfl

theorem expectedUpTo_eq (size : ℤ) (rand : ℕ → ℕ) (stage : ℕ) :
    expectedUpTo rand size.toNat stage = (printouts size rand stage).map some := by
  rw [expectedUpTo, printouts, List.map_flatMap]
  exact List.flatMap_congr fun j _ => expected_eq rand stage j

/-! ## The end of a run -/

theorem chain_upstreamOnly (size : ℤ) (rand : ℕ → ℕ) (flag : ℕ → ℤ) :
    UpstreamOnly (chain size rand flag) where
  own i t p h := by
    rcases i with _ | _ | _ | i
    · rfl
    · simp [chain, partDB] at h
    · simp [chain, partDC] at h
    · simp [chain, partDD] at h
  next i t p h := by
    rcases i with _ | _ | _ | i
    · have hmem : .enqueueNext p ∈ queueEffects (chain size rand flag |>.func 0 t) :=
        List.mem_filter.mpr ⟨h, rfl⟩
      have hfunc : queueEffects (chain size rand flag |>.func 0 t) =
          (List.replicate size.toNat Ptr.num).map (fun p => .enqueueNext (some p)) ++
            [.enqueueOwn none] := by
        show queueEffects (partDA size rand) = _
        rw [partDA, queueEffects_append, queueEffects_partDALoop]
        rfl
      rw [hfunc] at hmem
      simp only [List.mem_append, List.mem_map, List.mem_singleton, reduceCtorEq, or_false,
        Effect.enqueueNext.injEq] at hmem
      obtain ⟨q, -, rfl⟩ := hmem
      exact ⟨show 0 < 3 by omega, Option.some_ne_none q⟩
    · simp [chain, partDB] at h
    · simp [chain, partDC] at h
    · simp [chain, partDD] at h

/-- Where the stages have nothing to do, `partD_d` has returned from its call for every
    number handed out. -/
theorem partDDReturned_of_quiet
    (hinv : Inv (chain size rand flag) .arr (List.replicate size.toNat .num) s)
    (hflag : ∀ i, 1 ≤ i → i ≤ 3 → flag i ≠ 1)
    (hpc : ∀ i, 1 ≤ i → i ≤ 3 → s.pc i = .returned ∨ s.pc i = .dequeue)
    (hitems : ∀ i, 1 ≤ i → i ≤ 3 → (s.queue i).items = []) : PartDDReturned s := by
  obtain ⟨hf1, hf2, hf3⟩ := flow hinv hflag
  have hidle : ∀ i, 1 ≤ i → i ≤ 3 → nonNull (unapplied (s.pc i)) = 0 ∧
      nonNull (held (s.pc i)) = 0 ∧ calling (s.pc i) = false := by
    intro i h1 hi
    rcases hpc i h1 hi with hpc | hpc
    · rw [hpc]
      exact ⟨rfl, rfl, rfl⟩
    · rw [hpc]
      exact ⟨rfl, rfl, rfl⟩
  obtain ⟨hu1, hh1, -⟩ := hidle 1 (by omega) (by omega)
  obtain ⟨hu2, hh2, -⟩ := hidle 2 (by omega) (by omega)
  obtain ⟨hu3, -, hcalling⟩ := hidle 3 (by omega) (by omega)
  rw [hitems 1 (by omega) (by omega), nonNull_nil] at hf1
  rw [hitems 2 (by omega) (by omega), nonNull_nil] at hf2
  rw [hitems 3 (by omega) (by omega), nonNull_nil] at hf3
  have hcalls : (s.applied 3).length = handedOut s := by omega
  exact ⟨hcalls, hcalling⟩

/-- The program is over, and has printed what it is to print. -/
structure Printed (size : ℤ) (rand : ℕ → ℕ) (flag : ℕ → ℤ) (s : State Ptr Access Memory) :
    Prop where
  ended : Ended (chain size rand flag) (List.replicate size.toNat .num) s
  output : ∀ stage, s.mem.printed stage = (printouts size rand stage).map some

theorem printed_of_ended (hflag : ∀ i, 1 ≤ i → i ≤ 3 → flag i ≠ 1)
    (h : (pipeline size rand flag).Reach PauseSuffices s)
    (hended : Ended (chain size rand flag) (List.replicate size.toNat .num) s) :
    Printed size rand flag s := by
  obtain ⟨hinv, hv⟩ := valuesInv_reach hflag h
  have hdone : PartDDReturned s := by
    apply partDDReturned_of_quiet hinv hflag
    · exact fun i _ hi => .inl (hended.returned i hi)
    · exact fun i _ hi => hended.empty i hi
  have hout : handedOut s = size.toNat := by
    have hcalls : (s.applied 3).length = handedOut s := hdone.1
    rw [← hcalls, hended.applied 3 (by omega) (Nat.le_refl 3), List.length_replicate]
  have houtput := hv.output
  rw [hdone.pending_nil hinv hflag, hout] at houtput
  refine ⟨hended, fun stage => ?_⟩
  rw [← expectedUpTo_eq, ← houtput]
  rfl

/-- At the end of its pause the generator can go on, if nobody else can. -/
theorem pauseSuffices_of_quiet (hflag : ∀ i, 1 ≤ i → i ≤ 3 → flag i ≠ 1)
    (hinv : EndInv (chain size rand flag) .arr (List.replicate size.toNat .num) s)
    (hthread : ∀ i, 1 ≤ i → i ≤ 3 → threadStep (chain size rand flag) i s = none) (a : Actor) :
    PauseSuffices a s := by
  rintro - -
  have hwaits : ∀ i, 1 ≤ i → i ≤ 3 →
      (s.pc i = .returned ∨ s.pc i = .dequeue) ∧ (s.queue i).items = [] := by
    intro i h1 hi
    rcases waits_of_stuck (hthread i h1 hi) with hpc | ⟨hpc, hitems⟩
    · exact ⟨.inl hpc, hinv.shutdown.items_of_returned hi hpc⟩
    · exact ⟨.inr hpc, hitems⟩
  apply partDDReturned_of_quiet hinv.delivery hflag
  · exact fun i h1 hi => (hwaits i h1 hi).1
  · exact fun i h1 hi => (hwaits i h1 hi).2

/-- **The program.** With pauses that are long enough every run ends, and for every number
    `n` that was drawn the stages have printed `n + 11`, `n - 2` twice and `n`, the first three
    with their primality. -/
theorem pipeline_prints (size : ℤ) (rand : ℕ → ℕ) (flag : ℕ → ℤ)
    (hflag : ∀ i, 1 ≤ i → i ≤ 3 → flag i ≠ 1) :
    (pipeline size rand flag).AlwaysEnds PauseSuffices (Printed size rand flag) := by
  have hc : PartDAChain (chain size rand flag) .arr (List.replicate size.toNat .num) :=
    chain_partDA hflag
  have hu := chain_upstreamOnly size rand flag
  suffices hends : (pipeline size rand flag).AlwaysEnds PauseSuffices
      (Ended (chain size rand flag) (List.replicate size.toNat .num)) from
    hends.mono fun s hs hended => printed_of_ended hflag hs hended
  apply System.alwaysEnds_of_measure (work (chain size rand flag) _ _)
    fun s hs => endInv_reach hc hu hs
  · exact fun a s s' _ hinv hstep => work_lt hc hinv.delivery hstep
  · intro s hinv hstuck
    have hstages : ∀ i, 1 ≤ i → i ≤ 3 → threadStep (chain size rand flag) i s = none := by
      intro i h1 hi
      have hnone := hstuck (.thread i) (by rintro ⟨⟩; omega)
      exact (if_pos (show i ≤ (chain size rand flag).last from hi)).symm.trans hnone
    have hgenerator := hstuck (.thread 0) (pauseSuffices_of_quiet hflag hinv hstages _)
    apply hinv.ended hc (hstuck .outside nofun)
    · intro i hi
      rcases Nat.eq_zero_or_pos i with rfl | h1
      · exact hgenerator
      · exact hstages i h1 hi
    · intro i hi
      have hnone := hstuck (.stop i) nofun
      exact (if_pos hi).symm.trans hnone

theorem pipeline_prints_two : (∀ i, 1 ≤ i → i ≤ 3 → (fun _ => 0 : ℕ → ℤ) i ≠ 1) ∧
    (pipeline 2 id fun _ => 0).AlwaysEnds PauseSuffices (Printed 2 id fun _ => 0) :=
  ⟨by decide, pipeline_prints 2 id (fun _ => 0) (by decide)⟩

end ChatOnC.Pipeline
