import Mathlib.Data.List.Basic
import Mathlib.Tactic.Common

/-!
# Transition systems with labelled partial steps

A `System` has one initial state and, for every label, a partial step. A label
says who moves and what the outside world answers, so a step is a function and
a run is a list of labels. Nothing here refers to a particular program.

* `Reach ok s`: `s` is reached by a run all of whose steps meet `ok`, a
  condition on the label and on the state before the step.
* `Reach.invariant`, `Reach.invariant_of`: the two induction rules.
* `Reach.exec_of_meets`, `Reach.of_execIf`, `Reach.of_exec`: a computed run reaches
  its last state.
* `Reach.exists_final`: steps that decrease a measure lead to a final state.
* `Meets.invariant`, `Meets.length_le`: what steps keep, a run keeps; steps that decrease
  a measure bound the length of a run.
* `Leads.of_measure`: enabled steps that decrease a measure lead to a final state.
* `meets_iff`: a condition on steps that is exact for each step is exact for runs.
* `Simulation.reach`: a forward simulation carries reachability from one
  system to another.
-/

namespace ChatOnC.Common

/-- A transition system: an initial state and a partial step for every label. -/
structure System (σ ι : Type*) where
  init : σ
  step : ι → σ → Option σ

namespace System

variable {σ ι : Type*} (S : System σ ι)

/-- The states reached by runs whose steps all meet `ok`. -/
inductive Reach (ok : ι → σ → Prop) : σ → Prop
  | init : Reach ok S.init
  | step {s s' : σ} {a : ι} (hs : Reach ok s) (ha : ok a s) (h : S.step a s = some s') :
      Reach ok s'

/-- The states reached by any run. -/
abbrev Reachable : σ → Prop := S.Reach fun _ _ => True

/-- The state after the steps labelled by a list, if all of them are enabled. -/
def exec : List ι → σ → Option σ
  | [], s => some s
  | a :: as, s => (S.step a s).bind (exec as)

/-- `exec`, as long as every step meets `ok`. -/
def execIf (ok : ι → σ → Prop) [∀ a s, Decidable (ok a s)] : List ι → σ → Option σ
  | [], s => some s
  | a :: as, s => if ok a s then (S.step a s).bind (execIf ok as) else none

/-- Every step of the run labelled by the list meets `ok`. -/
def Meets (ok : ι → σ → Prop) : List ι → σ → Prop
  | [], _ => True
  | a :: as, s => ok a s ∧ ∀ s', S.step a s = some s' → Meets ok as s'

@[simp] theorem exec_nil (s : σ) : S.exec [] s = some s := rfl

@[simp] theorem exec_cons (a : ι) (as : List ι) (s : σ) :
    S.exec (a :: as) s = (S.step a s).bind (S.exec as) := rfl

theorem meets_true (as : List ι) (s : σ) : S.Meets (fun _ _ => True) as s := by
  induction as generalizing s with
  | nil => trivial
  | cons a as ih => exact ⟨trivial, fun s' _ => ih s'⟩

variable {S} {ok : ι → σ → Prop}

theorem Meets.mono {ok' : ι → σ → Prop} (himp : ∀ a s, ok a s → ok' a s) {as : List ι} {s : σ}
    (h : S.Meets ok as s) : S.Meets ok' as s := by
  induction as generalizing s with
  | nil => trivial
  | cons a as ih => exact ⟨himp a s h.1, fun t ht => ih (h.2 t ht)⟩

/-- A run that `execIf` carries out meets the condition, and `exec` carries it
    out too. -/
theorem meets_of_execIf [∀ a s, Decidable (ok a s)] {as : List ι} {s s' : σ}
    (h : S.execIf ok as s = some s') : S.Meets ok as s ∧ S.exec as s = some s' := by
  induction as generalizing s with
  | nil => exact ⟨trivial, h⟩
  | cons a as ih =>
    obtain ⟨ha, h⟩ := Option.ite_none_right_eq_some.mp h
    obtain ⟨t, ht, h'⟩ := Option.bind_eq_some_iff.mp h
    obtain ⟨hm, he⟩ := ih h'
    refine ⟨⟨ha, fun t' ht' => ?_⟩, ?_⟩
    · rw [ht] at ht'
      cases ht'
      exact hm
    · rw [exec_cons, ht]
      exact he

/-- **Exact condition.** If a step keeps the property `P` exactly when it meets
    `ok`, then a run keeps `P` exactly when all its steps meet `ok`. `I` is an
    invariant of the steps that meet `hyp`. -/
theorem meets_iff {hyp : ι → σ → Prop} {I P : σ → Prop}
    (hstep : ∀ a s s', hyp a s → I s → S.step a s = some s' → I s' ∧ (P s' ↔ P s ∧ ok a s))
    {as : List ι} {s s' : σ} (hI : I s) (hhyp : S.Meets hyp as s)
    (h : S.exec as s = some s') : P s' ↔ P s ∧ S.Meets ok as s := by
  induction as generalizing s with
  | nil =>
    cases h
    simp [Meets]
  | cons a as ih =>
    obtain ⟨t, ht, h'⟩ := Option.bind_eq_some_iff.mp h
    obtain ⟨hI', hP⟩ := hstep a s t hhyp.1 hI ht
    rw [ih hI' (hhyp.2 t ht) h', hP, and_assoc]
    refine and_congr_right fun _ => and_congr_right fun _ =>
      ⟨fun hm t' ht' => ?_, fun hm => hm t ht⟩
    rw [ht] at ht'
    cases ht'
    exact hm

/-- What the steps of a run keep holds at its end if it holds at its start. -/
theorem Meets.invariant {I : σ → Prop}
    (hstep : ∀ a s s', ok a s → I s → S.step a s = some s' → I s') {as : List ι} {s t : σ}
    (hI : I s) (hm : S.Meets ok as s) (h : S.exec as s = some t) : I t := by
  induction as generalizing s with
  | nil =>
    cases h
    exact hI
  | cons a as ih =>
    obtain ⟨s', hs', h'⟩ := Option.bind_eq_some_iff.mp h
    exact ih (hstep a s s' hm.1 hI hs') (hm.2 s' hs') h'

/-- **Bound rule.** A run whose steps all decrease a measure is no longer than the measure
    at its start. `I` is an invariant of these steps. -/
theorem Meets.length_le {I : σ → Prop} (measure : σ → ℕ)
    (hkeep : ∀ a s s', ok a s → I s → S.step a s = some s' → I s')
    (hless : ∀ a s s', ok a s → I s → S.step a s = some s' → measure s' < measure s)
    {as : List ι} {s t : σ} (hI : I s) (hm : S.Meets ok as s) (h : S.exec as s = some t) :
    as.length ≤ measure s := by
  induction as generalizing s with
  | nil => exact Nat.zero_le _
  | cons a as ih =>
    obtain ⟨s', hs', h'⟩ := Option.bind_eq_some_iff.mp h
    have hlt := hless a s s' hm.1 hI hs'
    have hrest := ih (hkeep a s s' hm.1 hI hs') (hm.2 s' hs') h'
    rw [List.length_cons]
    omega

/-- **Inevitability.** Whatever steps that meet `ok` are taken, they are enabled until the run
    comes to a final state, and it does. -/
inductive Leads (S : System σ ι) (ok : ι → σ → Prop) (final : σ → Prop) : σ → Prop
  | here {s : σ} (h : final s) : Leads S ok final s
  | later {s : σ} (henabled : ∀ a, ok a s → ∃ s', S.step a s = some s')
      (h : ∀ a s', ok a s → S.step a s = some s' → Leads S ok final s') : Leads S ok final s

theorem Leads.mono {final final' : σ → Prop} (himp : ∀ s, final s → final' s) {s : σ}
    (h : S.Leads ok final s) : S.Leads ok final' s := by
  induction h with
  | here h => exact .here (himp _ h)
  | later henabled _ ih => exact .later henabled ih

/-- **Inevitability rule.** If the steps from the states with the invariant `I` that are not
    final are enabled, keep it and decrease a measure, then they lead to a final state. -/
theorem Leads.of_measure {I final : σ → Prop} (measure : σ → ℕ)
    (hstep : ∀ a s, ok a s → I s → ¬final s →
      ∃ s', S.step a s = some s' ∧ I s' ∧ measure s' < measure s) {s : σ} (hI : I s) :
    S.Leads ok final s := by
  induction h : measure s using Nat.strongRecOn generalizing s with
  | _ n ih =>
    by_cases hfinal : final s
    · exact .here hfinal
    · refine .later (fun a ha => ?_) fun a s' ha hs' => ?_
      · obtain ⟨s', hs', -⟩ := hstep a s ha hI hfinal
        exact ⟨s', hs'⟩
      · obtain ⟨t, ht, hI', hlt⟩ := hstep a s ha hI hfinal
        rw [hs'] at ht
        cases ht
        exact ih (measure s') (h ▸ hlt) hI' rfl

namespace Reach

theorem mono {ok' : ι → σ → Prop} (himp : ∀ a s, ok a s → ok' a s) {s : σ}
    (h : S.Reach ok s) : S.Reach ok' s := by
  induction h with
  | init => exact .init
  | step _ ha hstep ih => exact .step ih (himp _ _ ha) hstep

/-- **Invariant rule.** What holds initially and is kept by every step of a
    run holds in every state the run reaches. -/
theorem invariant {I : σ → Prop} (h0 : I S.init)
    (hstep : ∀ a s s', ok a s → I s → S.step a s = some s' → I s') {s : σ}
    (h : S.Reach ok s) : I s := by
  induction h with
  | init => exact h0
  | step _ ha hs ih => exact hstep _ _ _ ha ih hs

/-- The invariant rule with an invariant `J` already known of the run. -/
theorem invariant_of {I J : σ → Prop} (hJ : ∀ s, S.Reach ok s → J s) (h0 : I S.init)
    (hstep : ∀ a s s', ok a s → J s → I s → S.step a s = some s' → I s') {s : σ}
    (h : S.Reach ok s) : I s := by
  induction h with
  | init => exact h0
  | step hr ha hs ih => exact hstep _ _ _ ha (hJ _ hr) ih hs

/-- **Progress rule.** If from every state that a run reaches and that is not final
    some step decreases the measure, then a final state is reached. -/
theorem exists_final {final : σ → Prop} (measure : σ → ℕ)
    (hstep : ∀ s, S.Reach ok s → ¬final s →
      ∃ a s', ok a s ∧ S.step a s = some s' ∧ measure s' < measure s) {s : σ}
    (hs : S.Reach ok s) : ∃ s', S.Reach ok s' ∧ final s' := by
  induction h : measure s using Nat.strongRecOn generalizing s with
  | _ n ih =>
    by_cases hfinal : final s
    · exact ⟨s, hs, hfinal⟩
    · obtain ⟨a, s', ha, hs', hlt⟩ := hstep s hs hfinal
      exact ih (measure s') (h ▸ hlt) (.step hs ha hs') rfl

theorem exec_of_meets {as : List ι} {s s' : σ} (hs : S.Reach ok s) (hm : S.Meets ok as s)
    (h : S.exec as s = some s') : S.Reach ok s' := by
  induction as generalizing s with
  | nil => cases h; exact hs
  | cons a as ih =>
    obtain ⟨t, ht, h'⟩ := Option.bind_eq_some_iff.mp h
    exact ih (.step hs hm.1 ht) (hm.2 t ht) h'

theorem of_execIf [∀ a s, Decidable (ok a s)] {as : List ι} {s s' : σ} (hs : S.Reach ok s)
    (h : S.execIf ok as s = some s') : S.Reach ok s' := by
  induction as generalizing s with
  | nil => cases h; exact hs
  | cons a as ih =>
    obtain ⟨ha, h⟩ := Option.ite_none_right_eq_some.mp h
    obtain ⟨t, ht, h'⟩ := Option.bind_eq_some_iff.mp h
    exact ih (.step hs ha ht) h'

/-- A computed run from the initial state reaches its last state. -/
theorem of_exec {l : List ι} {s : σ} (h : S.exec l S.init = some s) : S.Reachable s :=
  exec_of_meets .init (S.meets_true l S.init) h

end Reach

/-! ## Forward simulation -/

/-- `R` is a forward simulation of the runs of `S` that meet `ok` by `T`: every
    step of `S` is answered by zero or more steps of `T`. -/
structure Simulation {τ κ : Type*} (S : System σ ι) (ok : ι → σ → Prop) (T : System τ κ)
    (R : σ → τ → Prop) : Prop where
  init : R S.init T.init
  step : ∀ a s s' t, ok a s → R s t → S.step a s = some s' →
    ∃ bs t', T.exec bs t = some t' ∧ R s' t'

theorem Simulation.reach {τ κ : Type*} {T : System τ κ} {R : σ → τ → Prop}
    (hR : Simulation S ok T R) {s : σ} (h : S.Reach ok s) : ∃ t, T.Reachable t ∧ R s t := by
  induction h with
  | init => exact ⟨T.init, .init, hR.init⟩
  | step _ ha hs ih =>
    obtain ⟨t, ht, hst⟩ := ih
    obtain ⟨bs, t', hbs, hst'⟩ := hR.step _ _ _ t ha hst hs
    exact ⟨t', Reach.exec_of_meets ht (T.meets_true bs t) hbs, hst'⟩

end System

end ChatOnC.Common
