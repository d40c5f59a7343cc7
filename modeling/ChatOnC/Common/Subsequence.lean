import Mathlib.Data.List.Nodup
import Mathlib.Tactic.Common

/-!
# Subsequences of one log

Observers that each see a subsequence of one duplicate-free log agree on the
order of what they both see.

* `filter_common`: what two observers have in common is one list.
-/

namespace ChatOnC.Common

variable {α : Type*} [BEq α] [LawfulBEq α] {log a b : List α}

/-- A subsequence of a duplicate-free list is determined by its elements. -/
theorem eq_filter_of_sublist (hlog : log.Nodup) (h : a.Sublist log) :
    a = log.filter (· ∈ a) := by
  induction h with
  | slnil => rfl
  | cons x h ih =>
    obtain ⟨hx, hlog⟩ := List.nodup_cons.mp hlog
    rw [List.filter_cons_of_neg (by simpa using fun hmem => hx (h.subset hmem))]
    exact ih hlog
  | @cons_cons a log x h ih =>
    obtain ⟨hx, hlog⟩ := List.nodup_cons.mp hlog
    rw [List.filter_cons_of_pos (by simp), List.cons_inj_right]
    calc a = log.filter (· ∈ a) := ih hlog
      _ = log.filter (· ∈ x :: a) := by
        apply List.filter_congr
        intro y hy
        have hne : y ≠ x := by
          rintro rfl
          exact hx hy
        simp [hne]

/-- **Total order.** Two subsequences of a duplicate-free log order what they have
    in common in the same way. -/
theorem filter_common (hlog : log.Nodup) (ha : a.Sublist log) (hb : b.Sublist log) :
    a.filter (· ∈ b) = b.filter (· ∈ a) := by
  calc a.filter (· ∈ b) = (log.filter (· ∈ a)).filter (· ∈ b) := by
        rw [← eq_filter_of_sublist hlog ha]
    _ = (log.filter (· ∈ b)).filter (· ∈ a) := List.filter_comm _ _ _
    _ = b.filter (· ∈ a) := by rw [← eq_filter_of_sublist hlog hb]

end ChatOnC.Common
