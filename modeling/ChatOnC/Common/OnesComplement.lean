import Mathlib.Data.Nat.ModEq
import Mathlib.Tactic.Common

/-!
# Ones'-complement sums

A sum of digits in base `B` is brought back to one digit by adding what exceeds
the lowest digit to it, as often as needed (the end-around carry).

* `carry_lt`: a carry makes a number of two or more digits smaller.
* `onesDigit_carry`, `onesDigit_of_lt`: the digit the carries lead to. It is the
  residue modulo `B - 1`, with `B - 1` in place of `0` except for the sum `0`.
* `onesDigit_eq_iff`, `onesDigit_eq_last_iff`: which sums are carried to the same
  digit, and which to the largest one.
* `onesDigit_add_eq_iff`: which digits can be added without a trace.
-/

namespace ChatOnC.Common

/-- Add what exceeds the lowest digit in base `B` to that digit. -/
def carry (B n : ℕ) : ℕ := n % B + n / B

/-- The digit in base `B` that a sum is carried to. -/
def onesDigit (B n : ℕ) : ℕ := if n = 0 then 0 else (n - 1) % (B - 1) + 1

variable {B m n : ℕ}

theorem carry_add (hB : 0 < B) (n : ℕ) : carry B n + (B - 1) * (n / B) = n := by
  obtain ⟨b, rfl⟩ : ∃ b, B = b + 1 := ⟨B - 1, by omega⟩
  have hdiv := Nat.div_add_mod n (b + 1)
  rw [Nat.add_mul, Nat.one_mul] at hdiv
  rw [carry, Nat.add_sub_cancel]
  omega

theorem carry_lt (hB : 1 < B) (h : B ≤ n) : carry B n < n := by
  have hadd := carry_add (B := B) (by omega) n
  have hdiv : 0 < n / B := Nat.div_pos h (by omega)
  have hmul : 0 < (B - 1) * (n / B) := Nat.mul_pos (by omega) hdiv
  omega

theorem carry_eq_zero_iff : carry B n = 0 ↔ n = 0 := by
  constructor
  · intro h
    rw [carry, Nat.add_eq_zero_iff] at h
    have hdiv := Nat.div_add_mod n B
    rw [h.1, h.2] at hdiv
    exact hdiv.symm
  · rintro rfl
    rw [carry, Nat.zero_mod, Nat.zero_div]

theorem carry_modEq (hB : 0 < B) (n : ℕ) : carry B n ≡ n [MOD B - 1] := by
  have hadd := carry_add hB n
  have h : carry B n ≡ carry B n + (B - 1) * (n / B) [MOD B - 1] :=
    (Nat.modEq_iff_dvd' (by omega)).mpr ⟨n / B, by omega⟩
  rwa [hadd] at h

theorem onesDigit_congr (h : m ≡ n [MOD B - 1]) (h0 : m = 0 ↔ n = 0) :
    onesDigit B m = onesDigit B n := by
  by_cases hn : n = 0
  · rw [onesDigit, onesDigit, if_pos hn, if_pos (h0.mpr hn)]
  · have hm : m ≠ 0 := fun hm => hn (h0.mp hm)
    rw [onesDigit, onesDigit, if_neg hn, if_neg hm]
    have hpred : m - 1 ≡ n - 1 [MOD B - 1] := by
      apply Nat.ModEq.add_right_cancel' 1
      rwa [Nat.sub_add_cancel (by omega), Nat.sub_add_cancel (by omega)]
    rw [hpred]

theorem onesDigit_of_lt (h : n < B) : onesDigit B n = n := by
  rw [onesDigit]
  split_ifs with h0
  · exact h0.symm
  · rw [Nat.mod_eq_of_lt (by omega)]
    omega

/-- A carry does not change the digit the sum is carried to. -/
theorem onesDigit_carry (hB : 0 < B) (n : ℕ) : onesDigit B (carry B n) = onesDigit B n :=
  onesDigit_congr (carry_modEq hB n) carry_eq_zero_iff

theorem onesDigit_modEq (B n : ℕ) : onesDigit B n ≡ n [MOD B - 1] := by
  unfold onesDigit
  split_ifs with h0
  · rw [h0]
  · have h : (n - 1) % (B - 1) + 1 ≡ n - 1 + 1 [MOD B - 1] :=
      (Nat.mod_modEq (n - 1) (B - 1)).add_right 1
    rwa [Nat.sub_add_cancel (by omega)] at h

theorem onesDigit_eq_zero_iff : onesDigit B n = 0 ↔ n = 0 := by
  unfold onesDigit
  split_ifs with h0
  · exact iff_of_true rfl h0
  · exact iff_of_false not_false h0

theorem onesDigit_lt (hB : 1 < B) (n : ℕ) : onesDigit B n < B := by
  have hmod := Nat.mod_lt (n - 1) (show B - 1 > 0 by omega)
  unfold onesDigit
  split_ifs with h0
  · omega
  · exact Nat.lt_sub_iff_add_lt.mp hmod

/-- Two sums are carried to one digit if they have the same residue, and the sum `0`
    only with itself. -/
theorem onesDigit_eq_iff :
    onesDigit B m = onesDigit B n ↔ m ≡ n [MOD B - 1] ∧ (m = 0 ↔ n = 0) := by
  constructor
  · intro h
    refine ⟨(onesDigit_modEq B m).symm.trans ?_, ?_⟩
    · rw [h]
      exact onesDigit_modEq B n
    · rw [← onesDigit_eq_zero_iff (B := B), h, onesDigit_eq_zero_iff]
  · rintro ⟨hmod, h0⟩
    exact onesDigit_congr hmod h0

/-- The sums carried to the largest digit: the multiples of `B - 1` but `0`. -/
theorem onesDigit_eq_last_iff (hB : 1 < B) :
    onesDigit B n = B - 1 ↔ 0 < n ∧ n % (B - 1) = 0 := by
  have hlast : onesDigit B (B - 1) = B - 1 := onesDigit_of_lt (by omega)
  rw [← hlast, onesDigit_eq_iff, hlast, Nat.ModEq, Nat.mod_self]
  have hiff : (n = 0 ↔ B - 1 = 0) ↔ 0 < n := by omega
  rw [hiff, and_comm]

/-- What another digit does to the digit of a sum: nothing if it is `0`, or the largest
    one added to something. -/
theorem onesDigit_add_eq_iff {d : ℕ} (hB : 1 < B) (hd : d < B) :
    onesDigit B (m + d) = onesDigit B m ↔ d = 0 ∨ d = B - 1 ∧ m ≠ 0 := by
  have hmod : m + d ≡ m [MOD B - 1] ↔ d = 0 ∨ d = B - 1 := by
    rw [Nat.add_modEq_left_iff]
    constructor
    · rintro ⟨k, rfl⟩
      match k with
      | 0 => exact .inl (Nat.mul_zero _)
      | 1 => exact .inr (Nat.mul_one _)
      | k + 2 =>
        rw [Nat.mul_add] at hd
        omega
    · rintro (rfl | rfl)
      · exact Nat.dvd_zero _
      · exact Nat.dvd_refl _
  rw [onesDigit_eq_iff, hmod]
  omega

end ChatOnC.Common
