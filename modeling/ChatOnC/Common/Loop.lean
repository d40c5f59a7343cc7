import Mathlib.Tactic.Common

/-!
# Loops that may not end

One round of a loop takes its state to the next state, or leaves the loop with a
result: the test is false, a `break`, a `return`, an undefined access. `loop`
runs a bounded number of rounds, and `LoopEnds` says that some bound is enough.

* `LoopEnds.unique`: a loop ends in at most one way.
* `loopEnds_of_variant`: a loop with an invariant and a decreasing measure ends,
  and its result meets what the last round is shown to leave.
* `not_loopEnds_of_invariant`: a loop with an invariant that no round leaves does
  not end.
* `Heads.invariant`: what holds whenever a loop comes to its test.
* `loopEnds_iff_heads`: a loop ends with what the round from one of these states leaves.
-/

namespace ChatOnC.Common

variable {σ β : Type*}

/-- At most `fuel` rounds of a loop; `none` if it has not ended by then. -/
def loop (round : σ → σ ⊕ β) : ℕ → σ → Option β
  | 0, _ => none
  | fuel + 1, s =>
    match round s with
    | .inl s' => loop round fuel s'
    | .inr b => some b

/-- The loop started in `s` ends with `b`. -/
def LoopEnds (round : σ → σ ⊕ β) (s : σ) (b : β) : Prop :=
  ∃ fuel, loop round fuel s = some b

variable {round : σ → σ ⊕ β} {s s' : σ} {b b' : β}

theorem loop_again (h : round s = .inl s') (fuel : ℕ) :
    loop round (fuel + 1) s = loop round fuel s' := by
  rw [loop, h]

theorem loop_stop (h : round s = .inr b) (fuel : ℕ) : loop round (fuel + 1) s = some b := by
  rw [loop, h]

theorem loop_succ {fuel : ℕ} (h : loop round fuel s = some b) :
    loop round (fuel + 1) s = some b := by
  induction fuel generalizing s with
  | zero => cases h
  | succ fuel ih =>
    cases hr : round s with
    | inl t =>
      rw [loop_again hr] at h ⊢
      exact ih h
    | inr c =>
      rw [loop_stop hr] at h ⊢
      exact h

theorem loop_mono {fuel fuel' : ℕ} (hle : fuel ≤ fuel') (h : loop round fuel s = some b) :
    loop round fuel' s = some b := by
  induction hle with
  | refl => exact h
  | step _ ih => exact loop_succ ih

theorem LoopEnds.stop (h : round s = .inr b) : LoopEnds round s b :=
  ⟨1, loop_stop h 0⟩

theorem LoopEnds.again (h : round s = .inl s') (h' : LoopEnds round s' b) :
    LoopEnds round s b := by
  obtain ⟨fuel, hfuel⟩ := h'
  exact ⟨fuel + 1, by rw [loop_again h, hfuel]⟩

/-- A round that goes on changes nothing about how the loop ends. -/
theorem loopEnds_iff_of_again (h : round s = .inl s') :
    LoopEnds round s b ↔ LoopEnds round s' b := by
  constructor
  · rintro ⟨fuel, hfuel⟩
    cases fuel with
    | zero => cases hfuel
    | succ fuel => exact ⟨fuel, by rw [← loop_again h, hfuel]⟩
  · exact LoopEnds.again h

theorem LoopEnds.unique (h : LoopEnds round s b) (h' : LoopEnds round s b') : b = b' := by
  obtain ⟨f, hf⟩ := h
  obtain ⟨f', hf'⟩ := h'
  have hb := loop_mono (Nat.le_max_left f f') hf
  rw [loop_mono (Nat.le_max_right f f') hf'] at hb
  exact (Option.some.inj hb).symm

/-- **Loop rule.** Every round from a state with the invariant either leads to
    such a state with a smaller measure, or leaves the loop with a result that
    meets `post`. -/
theorem loopEnds_of_variant (inv : σ → Prop) {post : β → Prop} (measure : σ → ℕ)
    (hround : ∀ s, inv s → (∃ s', round s = .inl s' ∧ inv s' ∧ measure s' < measure s) ∨
      ∃ b, round s = .inr b ∧ post b) (hs : inv s) : ∃ b, LoopEnds round s b ∧ post b := by
  induction h : measure s using Nat.strongRecOn generalizing s with
  | _ n ih =>
    rcases hround s hs with ⟨s', hr, hs', hlt⟩ | ⟨b, hr, hb⟩
    · obtain ⟨b, hend, hb⟩ := ih (measure s') (h ▸ hlt) hs' rfl
      exact ⟨b, hend.again hr, hb⟩
    · exact ⟨b, .stop hr, hb⟩

/-- **Divergence rule.** Every round from a state with the invariant leads to such a
    state. -/
theorem not_loopEnds_of_invariant (inv : σ → Prop)
    (hround : ∀ s, inv s → ∃ s', round s = .inl s' ∧ inv s') (hs : inv s) :
    ¬LoopEnds round s b := by
  rintro ⟨fuel, hfuel⟩
  induction fuel generalizing s with
  | zero => cases hfuel
  | succ fuel ih =>
    obtain ⟨s', hr, hs'⟩ := hround s hs
    rw [loop_again hr] at hfuel
    exact ih hs' hfuel

/-- The states in which a loop started in `s` comes to its test. -/
inductive Heads (round : σ → σ ⊕ β) (s : σ) : σ → Prop
  | start : Heads round s s
  | again {t t' : σ} (h : Heads round s t) (hround : round t = .inl t') : Heads round s t'

/-- What a round keeps holds at every test. -/
theorem Heads.invariant (inv : σ → Prop) (hround : ∀ t t', inv t → round t = .inl t' → inv t')
    (hs : inv s) {t : σ} (h : Heads round s t) : inv t := by
  induction h with
  | start => exact hs
  | again _ hr ih => exact hround _ _ ih hr

theorem Heads.loopEnds_iff {t : σ} (h : Heads round s t) :
    LoopEnds round s b ↔ LoopEnds round t b := by
  induction h with
  | start => rfl
  | again _ hr ih => rw [ih, loopEnds_iff_of_again hr]

/-- How a loop ends is seen at its last test. -/
theorem loopEnds_iff_heads : LoopEnds round s b ↔ ∃ t, Heads round s t ∧ round t = .inr b := by
  constructor
  · rintro ⟨fuel, hfuel⟩
    suffices hlast : ∀ t, Heads round s t → loop round fuel t = some b →
        ∃ t', Heads round s t' ∧ round t' = .inr b from hlast s .start hfuel
    clear hfuel
    induction fuel with
    | zero => simp [loop]
    | succ fuel ih =>
      intro t ht hfuel
      cases hr : round t with
      | inl t' => exact ih t' (ht.again hr) (loop_again hr fuel ▸ hfuel)
      | inr c =>
        rw [loop_stop hr, Option.some.injEq] at hfuel
        exact ⟨t, ht, hfuel ▸ hr⟩
  · rintro ⟨t, ht, hr⟩
    exact ht.loopEnds_iff.mpr (.stop hr)

end ChatOnC.Common
