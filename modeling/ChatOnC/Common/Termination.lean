import ChatOnC.Common.System
import Mathlib.Algebra.Order.BigOperators.Group.Finset

/-!
# Runs that end

A run of a `System` ends when no label that meets `ok` has a step any more. `AlwaysEnds`
says of all runs at once that they are bounded and where they end, so that no scheduler
can avoid it.

* `alwaysEnds_of_measure`: steps that decrease a measure, and what a state without steps
  looks like.
* `AlwaysEnds.exists_final`: some run does end.
* `sum_add_of_one`, `sum_lt_of_one`, `sum_lt_of_raise`: a measure summed over components,
  of which a step changes one, or raises the others by a bounded amount.
-/

namespace ChatOnC.Common.System

variable {σ ι : Type*}

/-- No label that meets `ok` has a step. -/
def Stuck (S : System σ ι) (ok : ι → σ → Prop) (s : σ) : Prop :=
  ∀ a, ok a s → S.step a s = none

/-- The runs that meet `ok` are bounded, and those that cannot go on have led to a final
    state. -/
structure AlwaysEnds (S : System σ ι) (ok : ι → σ → Prop) (final : σ → Prop) : Prop where
  bounded : ∃ n, ∀ as t, S.Meets ok as S.init → S.exec as S.init = some t → as.length ≤ n
  stuck : ∀ s, S.Reach ok s → S.Stuck ok s → final s

variable {S : System σ ι} {ok : ι → σ → Prop} {final : σ → Prop}

theorem not_stuck_of_step {a : ι} {s s' : σ} (ha : ok a s) (h : S.step a s = some s') :
    ¬S.Stuck ok s := by
  intro hstuck
  rw [hstuck a ha] at h
  cases h

theorem exists_step_of_not_stuck {s : σ} (h : ¬S.Stuck ok s) :
    ∃ a s', ok a s ∧ S.step a s = some s' := by
  simp only [Stuck, not_forall] at h
  obtain ⟨a, ha, hstep⟩ := h
  obtain ⟨s', hs'⟩ := Option.ne_none_iff_exists'.mp hstep
  exact ⟨a, s', ha, hs'⟩

theorem exec_append (as bs : List ι) (s : σ) :
    S.exec (as ++ bs) s = (S.exec as s).bind (S.exec bs) := by
  induction as generalizing s with
  | nil => rfl
  | cons a as ih =>
    rw [List.cons_append, exec_cons, exec_cons, Option.bind_assoc]
    exact Option.bind_congr fun s' _ => ih s'

theorem Meets.append {as bs : List ι} {s t : σ} (hm : S.Meets ok as s) (h : S.exec as s = some t)
    (hm' : S.Meets ok bs t) : S.Meets ok (as ++ bs) s := by
  induction as generalizing s with
  | nil =>
    cases h
    exact hm'
  | cons a as ih =>
    obtain ⟨s₁, hs₁, h₁⟩ := Option.bind_eq_some_iff.mp h
    refine ⟨hm.1, fun s₂ hs₂ => ?_⟩
    rw [hs₁] at hs₂
    cases hs₂
    exact ih (hm.2 s₁ hs₁) h₁

/-- A run that meets `ok` reaches its last state by steps that meet it, so what is known
    of these states is known at every step. -/
theorem Meets.length_le_of_reach {I : σ → Prop} (measure : σ → ℕ)
    (hI : ∀ s, S.Reach ok s → I s)
    (hless : ∀ a s s', ok a s → I s → S.step a s = some s' → measure s' < measure s)
    {as : List ι} {s t : σ} (hs : S.Reach ok s) (hm : S.Meets ok as s)
    (h : S.exec as s = some t) : as.length ≤ measure s := by
  refine Meets.length_le (I := S.Reach ok) measure ?_ ?_ hs hm h
  · exact fun a s s' ha hr hstep => hr.step ha hstep
  · exact fun a s s' ha hr hstep => hless a s s' ha (hI s hr) hstep

/-- **Termination rule.** If every step from a state with the invariant `I` decreases the
    measure, then all runs end, and they end in the states that are stuck. -/
theorem alwaysEnds_of_measure {I : σ → Prop} (measure : σ → ℕ) (hI : ∀ s, S.Reach ok s → I s)
    (hless : ∀ a s s', ok a s → I s → S.step a s = some s' → measure s' < measure s)
    (hstuck : ∀ s, I s → S.Stuck ok s → final s) : S.AlwaysEnds ok final where
  bounded := ⟨measure S.init, fun _ _ hm h => Meets.length_le_of_reach measure hI hless .init hm h⟩
  stuck s hs := hstuck s (hI s hs)

/-- Without a stuck state runs get as long as one likes. -/
theorem exists_run {n : ℕ} (hnot : ∀ s, S.Reach ok s → ¬S.Stuck ok s) :
    ∃ as t, S.Meets ok as S.init ∧ S.exec as S.init = some t ∧ as.length = n := by
  induction n with
  | zero => exact ⟨[], S.init, trivial, rfl, rfl⟩
  | succ n ih =>
    obtain ⟨as, t, hm, he, hlen⟩ := ih
    have ht : S.Reach ok t := .exec_of_meets .init hm he
    obtain ⟨a, t', ha, hstep⟩ := exists_step_of_not_stuck (hnot t ht)
    refine ⟨as ++ [a], t', hm.append he ⟨ha, fun _ _ => trivial⟩, ?_, ?_⟩
    · rw [exec_append, he, Option.bind_some, exec_cons, hstep]
      rfl
    · rw [List.length_append, hlen]
      rfl

/-- Some run does end. -/
theorem AlwaysEnds.exists_final (h : S.AlwaysEnds ok final) : ∃ s, S.Reach ok s ∧ final s := by
  by_contra hnone
  have hnot : ∀ s, S.Reach ok s → ¬S.Stuck ok s :=
    fun s hs hstuck => hnone ⟨s, hs, h.stuck s hs hstuck⟩
  obtain ⟨n, hn⟩ := h.bounded
  obtain ⟨as, t, hm, he, hlen⟩ := exists_run (n := n + 1) hnot
  have hle := hn as t hm he
  omega

theorem AlwaysEnds.mono {final' : σ → Prop} (h : S.AlwaysEnds ok final)
    (himp : ∀ s, S.Reach ok s → final s → final' s) : S.AlwaysEnds ok final' where
  bounded := h.bounded
  stuck s hs hstuck := himp s hs (h.stuck s hs hstuck)

/-! ## Sums over components -/

section Sums

variable {κ : Type*} {s : Finset κ} {i : κ}

/-- Of two sums that differ in one component. -/
theorem sum_add_of_one {M : Type*} [AddCommMonoid M] {f g : κ → M} (hi : i ∈ s)
    (h : ∀ j ∈ s, j ≠ i → f j = g j) : ∑ j ∈ s, f j + g i = ∑ j ∈ s, g j + f i := by
  classical
  have hrest : ∑ j ∈ s.erase i, f j = ∑ j ∈ s.erase i, g j :=
    Finset.sum_congr rfl fun j hj => h j (Finset.mem_of_mem_erase hj) (Finset.ne_of_mem_erase hj)
  rw [← Finset.add_sum_erase s f hi, ← Finset.add_sum_erase s g hi, hrest, add_right_comm,
    add_comm (f i), add_right_comm]

/-- The component that steps may raise each of the others by `c`. -/
theorem sum_lt_of_raise {f g : κ → ℕ} {c : ℕ} (hi : i ∈ s) (h : ∀ j ∈ s, j ≠ i → f j ≤ g j + c)
    (hlt : f i + s.card * c < g i) : ∑ j ∈ s, f j < ∑ j ∈ s, g j := by
  classical
  have hrest : ∑ j ∈ s.erase i, f j ≤ ∑ j ∈ s.erase i, (g j + c) :=
    Finset.sum_le_sum fun j hj => h j (Finset.mem_of_mem_erase hj) (Finset.ne_of_mem_erase hj)
  have hcard : (s.erase i).card * c ≤ s.card * c :=
    Nat.mul_le_mul_right c (Finset.card_le_card (Finset.erase_subset i s))
  rw [Finset.sum_add_distrib, Finset.sum_const_nat fun _ _ => rfl] at hrest
  rw [← Finset.add_sum_erase s f hi, ← Finset.add_sum_erase s g hi]
  omega

theorem sum_lt_of_one {f g : κ → ℕ} (hi : i ∈ s) (h : ∀ j ∈ s, j ≠ i → f j = g j)
    (hlt : f i < g i) : ∑ j ∈ s, f j < ∑ j ∈ s, g j := by
  have hsum := sum_add_of_one hi h
  omega

end Sums

end ChatOnC.Common.System
