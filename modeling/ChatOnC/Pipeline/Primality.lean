import ChatOnC.Common.Loop
import ChatOnC.Common.TrialDivision
import ChatOnC.Pipeline.Model

/-!
# What `isPrime` decides

The loop of `isPrime` divides by the odd numbers from 3 on whose square is at most
`num`. While it runs, no number smaller than the next divisor divides `num`.

* `isPrime_spec`: for every `unsigned int` the loop ends, its counter does not wrap, and
  `isPrime` returns 1 exactly for the primes.
* `verdictOf_eq`: what the stages of the pipeline print.
-/

namespace ChatOnC.Pipeline

open ChatOnC.Common

/-- One round of the loop of `isPrime` (lines 16–22). -/
def isPrimeRound (num i : UInt32) : UInt32 ⊕ ℤ :=
  if i.toNat * i.toNat ≤ num.toNat then
    if num % i = 0 then .inr 0 else .inl (i + 2)
  else .inr 1

variable {num i i' : UInt32}

/-! ## One round -/

/-- What a round that goes on has tested, and where it goes. -/
theorem isPrimeRound_eq_inl_iff : isPrimeRound num i = .inl i' ↔
    i.toNat * i.toNat ≤ num.toNat ∧ num % i ≠ 0 ∧ i' = i + 2 := by
  unfold isPrimeRound
  split_ifs with hle hmod
  · simp [hmod]
  · simp [hle, hmod, eq_comm]
  · simp [hle]

/-- The counter does not wrap. -/
theorem toNat_of_isPrimeRound (h : isPrimeRound num i = .inl i') :
    i'.toNat = i.toNat + 2 := by
  obtain ⟨hle, -, rfl⟩ := isPrimeRound_eq_inl_iff.mp h
  exact toNat_add_two hle

/-- The loop of rounds is the loop of the model. -/
theorem loopEnds_isPrimeLoop (num i : UInt32) :
    LoopEnds (isPrimeRound num) i (isPrimeLoop num i) := by
  fun_induction isPrimeLoop num i with
  | case1 i hle hmod => exact .stop (by rw [isPrimeRound, if_pos hle, if_pos hmod])
  | case2 i hle hmod ih => exact ih.again (isPrimeRound_eq_inl_iff.mpr ⟨hle, hmod, rfl⟩)
  | case3 i hle => exact .stop (by rw [isPrimeRound, if_neg hle])

/-! ## Trial division -/

theorem mod_eq_zero_iff : num % i = 0 ↔ i.toNat ∣ num.toNat := by
  rw [← UInt32.toNat_inj, UInt32.toNat_mod, UInt32.toNat_zero, Nat.dvd_iff_mod_eq_zero]

theorem isPrimeLoop_eq_one_iff (hnum : 2 ≤ num.toNat) (hodd : num.toNat % 2 = 1) :
    isPrimeLoop num 3 = 1 ↔ num.toNat.Prime := by
  have hends : ∃ b, LoopEnds (isPrimeRound num) 3 b ∧ (b = 1 ↔ num.toNat.Prime) := by
    apply loopEnds_of_variant (fun i => TriedBelow num.toNat i.toNat)
      (fun i => num.toNat + 1 - i.toNat) _ (.three hodd)
    intro i htried
    cases hround : isPrimeRound num i with
    | inl i' =>
      have hi' := toNat_of_isPrimeRound hround
      obtain ⟨hle, hmod, -⟩ := isPrimeRound_eq_inl_iff.mp hround
      have hself : i.toNat ≤ i.toNat * i.toNat := Nat.le_mul_self _
      have hnext : TriedBelow num.toNat i'.toNat :=
        hi' ▸ htried.next (mt mod_eq_zero_iff.mpr hmod)
      exact .inl ⟨i', rfl, hnext, by omega⟩
    | inr b =>
      refine .inr ⟨b, rfl, ?_⟩
      unfold isPrimeRound at hround
      split_ifs at hround with hle hmod
      · cases hround
        simp [htried.not_prime hle (mod_eq_zero_iff.mp hmod)]
      · cases hround
        simp [htried.prime hnum (Nat.not_le.mp hle)]
  obtain ⟨b, hb, hiff⟩ := hends
  rw [(loopEnds_isPrimeLoop num 3).unique hb, hiff]

/-! ## The function -/

theorem isPrime_eq_one_iff (num : UInt32) : isPrime num = 1 ↔ num.toNat.Prime := by
  have hlt : num < 2 ↔ num.toNat < 2 := UInt32.lt_iff_toNat_lt
  have hmod : num % 2 = 0 ↔ 2 ∣ num.toNat := mod_eq_zero_iff
  unfold isPrime
  split_ifs with htwo hsmall
  · rw [htwo]
    simp [Nat.prime_two]
  · have hne : num.toNat ≠ 2 := fun h => htwo (UInt32.toNat_inj.mp h)
    have hnot : ¬num.toNat.Prime := by
      intro hprime
      rcases hsmall with hsmall | heven
      · exact absurd hprime.two_le (Nat.not_le.mpr (hlt.mp hsmall))
      · exact hne ((Nat.prime_dvd_prime_iff_eq Nat.prime_two hprime).mp (hmod.mp heven)).symm
    simp [hnot]
  · rw [not_or, hlt, hmod] at hsmall
    exact isPrimeLoop_eq_one_iff (by omega) (by omega)

theorem isPrimeLoop_eq_zero_or_one (num i : UInt32) :
    isPrimeLoop num i = 0 ∨ isPrimeLoop num i = 1 := by
  fun_induction isPrimeLoop num i with
  | case1 => exact .inl rfl
  | case2 _ _ _ ih => exact ih
  | case3 => exact .inr rfl

theorem isPrime_eq_zero_or_one (num : UInt32) : isPrime num = 0 ∨ isPrime num = 1 := by
  unfold isPrime
  split_ifs
  · exact .inr rfl
  · exact .inl rfl
  · exact isPrimeLoop_eq_zero_or_one num 3

/-- What a stage prints for a number. -/
theorem verdictOf_eq (num : ℤ) : verdictOf num =
    .verdict num (if (UInt32.ofInt num).toNat.Prime then "true" else "false") := by
  unfold verdictOf
  simp only [← isPrime_eq_one_iff]
  rcases isPrime_eq_zero_or_one (UInt32.ofInt num) with hzero | hone
  · simp [hzero]
  · simp [hone]

/-- The counter is 3 at first and only grows, so nothing is divided by zero. -/
theorem three_le_of_heads (h : Heads (isPrimeRound num) 3 i) : 3 ≤ i.toNat := by
  apply h.invariant (fun i => 3 ≤ i.toNat) _ (by rfl)
  intro i i' hle hround
  rw [toNat_of_isPrimeRound hround]
  exact Nat.le_add_right_of_le hle

/-- **Primality.** The counter starts at 3 and never wraps, the loop ends, and 1 is
    returned for the primes. -/
theorem isPrime_spec (num : UInt32) :
    (∀ i, Heads (isPrimeRound num) 3 i → 3 ≤ i.toNat ∧
      ∀ i', isPrimeRound num i = .inl i' → i'.toNat = i.toNat + 2) ∧
    LoopEnds (isPrimeRound num) 3 (isPrimeLoop num 3) ∧
    (isPrime num = 1 ↔ num.toNat.Prime) := by
  refine ⟨fun i h => ⟨three_le_of_heads h, fun i' hround => ?_⟩, loopEnds_isPrimeLoop num 3,
    isPrime_eq_one_iff num⟩
  exact toNat_of_isPrimeRound hround

end ChatOnC.Pipeline
