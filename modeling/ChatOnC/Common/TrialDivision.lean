import Mathlib.Data.Nat.Prime.Basic

/-!
# Trial division by odd numbers

An odd number is divided by 3, 5, 7, ... up to its square root.

* `TriedBelow.next`: a division with a remainder rules out two numbers.
* `TriedBelow.prime`, `TriedBelow.not_prime`: what is known at the end.
-/

namespace ChatOnC.Common

/-- The odd number `n` has been divided by the odd numbers below `d`, and has no divisor
    there. -/
structure TriedBelow (n d : ℕ) : Prop where
  odd_n : n % 2 = 1
  odd : d % 2 = 1
  three_le : 3 ≤ d
  not_dvd : ∀ m, 2 ≤ m → m < d → ¬m ∣ n

variable {n d : ℕ}

theorem not_two_dvd (h : n % 2 = 1) : ¬2 ∣ n := by
  rw [Nat.dvd_iff_mod_eq_zero, h]
  exact one_ne_zero

/-- An odd number has no divisor below 3. -/
theorem TriedBelow.three (h : n % 2 = 1) : TriedBelow n 3 where
  odd_n := h
  odd := by rfl
  three_le := by rfl
  not_dvd m hm hlt := by
    have htwo : m = 2 := Nat.le_antisymm (Nat.le_of_lt_succ hlt) hm
    rw [htwo]
    exact not_two_dvd h

/-- If `d` does not divide `n`, then neither does `d + 1`, which is even. -/
theorem TriedBelow.next (h : TriedBelow n d) (hd : ¬d ∣ n) : TriedBelow n (d + 2) := by
  have hodd := h.odd
  have hle := h.three_le
  refine ⟨h.odd_n, by omega, by omega, fun m hm hlt hdvd => ?_⟩
  rcases (show m < d ∨ m = d ∨ m = d + 1 by omega) with hlt | heq | heq
  · exact h.not_dvd m hm hlt hdvd
  · exact hd (heq ▸ hdvd)
  · have heven : 2 ∣ m := ⟨(d + 1) / 2, by omega⟩
    exact not_two_dvd h.odd_n (heven.trans hdvd)

/-- A divisor whose square is at most `n` is not `n` itself. -/
theorem TriedBelow.not_prime (h : TriedBelow n d) (hle : d * d ≤ n) (hd : d ∣ n) :
    ¬n.Prime := by
  have hthree := h.three_le
  have hlt : d < n :=
    calc d < 2 * d := by omega
      _ ≤ d * d := Nat.mul_le_mul_right _ (by omega)
      _ ≤ n := hle
  exact Nat.not_prime_of_dvd_of_lt hd (by omega) hlt

/-- A number without a divisor up to its square root is prime. -/
theorem TriedBelow.prime (h : TriedBelow n d) (hn : 2 ≤ n) (hgt : n < d * d) : n.Prime := by
  rw [Nat.prime_def_le_sqrt]
  refine ⟨hn, fun m hm hle => h.not_dvd m hm ?_⟩
  rw [Nat.le_sqrt] at hle
  exact Nat.mul_self_lt_mul_self_iff.mp (hle.trans_lt hgt)

end ChatOnC.Common
