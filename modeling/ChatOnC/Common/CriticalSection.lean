import ChatOnC.Common.Monitor

/-!
# Critical sections

Threads that run the same code under a mutex. Whatever their order, the shared data is what
the code makes of it when it runs alone, once for each thread that is through, and a part of
one more run if a thread is inside.

* `Section`: the code between `lock` and `unlock`.
* `Guarded`: the threads inside are those that hold the mutex, and the data is as above.
* `Guarded.lock`, `Guarded.step`, `Guarded.unlock`: the rules.
* `Guarded.eq_of_inside`: two threads are never inside.
-/

namespace ChatOnC.Common

/-- Code that a thread runs with something of its own (`ρ`) and something shared (`σ`). It is
    through where `next` is `none`. -/
structure Section (ρ σ : Type*) where
  start : ρ
  next : ρ → σ → Option (ρ × σ)

namespace Section

variable {ρ σ Tid : Type*} (c : Section ρ σ)

/-- Alone and from `x` on, the code has got to a place and made something of the data. -/
inductive Runs (x : σ) : ρ → σ → Prop
  | start : Runs x c.start x
  | step {r r' : ρ} {y z : σ} (h : Runs x r y) (hnext : c.next r y = some (r', z)) : Runs x r' z

/-- Alone, the code makes `y` of `x`. -/
def Completes (x y : σ) : Prop := ∃ r, c.Runs x r y ∧ c.next r y = none

/-- What this many runs make of `x₀`, one after the other. -/
inductive Serial (x₀ : σ) : ℕ → σ → Prop
  | zero : Serial x₀ 0 x₀
  | succ {n : ℕ} {x y : σ} (h : Serial x₀ n x) (hrun : c.Completes x y) : Serial x₀ (n + 1) y

/-- `inside` says where the threads inside stand; `n` of them are through. -/
structure Guarded (x₀ : σ) (m : Monitor Tid) (inside : Tid → Option ρ) (n : ℕ) (x : σ) :
    Prop where
  holds : ∀ t, inside t ≠ none ↔ m.holder = some t
  idle : m.holder = none → c.Serial x₀ n x
  busy : ∀ t r, inside t = some r → ∃ y, c.Serial x₀ n y ∧ c.Runs y r x

variable {c} {x₀ x y : σ} {m m' : Monitor Tid} {inside : Tid → Option ρ} {n : ℕ} {t u : Tid}
  {r r' : ρ}

theorem Guarded.init (c : Section ρ σ) (x₀ : σ) :
    c.Guarded x₀ (Monitor.free : Monitor Tid) (fun _ => none) 0 x₀ where
  holds _ := ⟨fun h => absurd rfl h, nofun⟩
  idle _ := .zero
  busy := nofun

theorem Guarded.holder (h : c.Guarded x₀ m inside n x) (hin : inside t = some r) :
    m.holder = some t := by
  apply (h.holds t).mp
  rw [hin]
  exact Option.some_ne_none r

/-- **Mutual exclusion.** -/
theorem Guarded.eq_of_inside (h : c.Guarded x₀ m inside n x) (ht : inside t = some r)
    (hu : inside u = some r') : t = u :=
  Option.some.inj ((h.holder ht).symm.trans (h.holder hu))

/-- Someone holds the mutex, and is inside. -/
theorem Guarded.exists_inside (h : c.Guarded x₀ m inside n x) (hm : m.holder = some t) :
    ∃ r, inside t = some r :=
  Option.ne_none_iff_exists'.mp ((h.holds t).mpr hm)

variable [DecidableEq Tid]

theorem Guarded.lock (h : c.Guarded x₀ m inside n x) (hlock : m.lock t = some m') :
    c.Guarded x₀ m' (Function.update inside t (some c.start)) n x := by
  obtain ⟨hnone, hsome, -, -⟩ := Monitor.lock_eq_some hlock
  have hout : ∀ u, inside u = none := fun u => by
    by_contra hu
    rw [(h.holds u).mp hu] at hnone
    cases hnone
  refine ⟨fun u => ?_, fun hm => ?_, fun u r hu => ?_⟩
  · rw [hsome]
    by_cases hut : u = t
    · rw [hut, Function.update_self]
      exact iff_of_true (Option.some_ne_none _) rfl
    · rw [Function.update_of_ne hut, hout u]
      exact iff_of_false (fun hne => hne rfl) fun heq => hut (Option.some.inj heq).symm
  · rw [hsome] at hm
    cases hm
  · by_cases hut : u = t
    · rw [hut, Function.update_self] at hu
      cases hu
      exact ⟨x, h.idle hnone, .start⟩
    · rw [Function.update_of_ne hut, hout u] at hu
      cases hu

theorem Guarded.step (h : c.Guarded x₀ m inside n x) (hin : inside t = some r)
    (hnext : c.next r x = some (r', y)) :
    c.Guarded x₀ m (Function.update inside t (some r')) n y := by
  have hholder := h.holder hin
  obtain ⟨z, hserial, hruns⟩ := h.busy t r hin
  refine ⟨fun u => ?_, fun hm => ?_, fun u r'' hu => ?_⟩
  · by_cases hut : u = t
    · rw [hut, Function.update_self]
      exact iff_of_true (Option.some_ne_none _) hholder
    · rw [Function.update_of_ne hut]
      exact h.holds u
  · rw [hholder] at hm
    cases hm
  · by_cases hut : u = t
    · rw [hut, Function.update_self] at hu
      cases hu
      exact ⟨z, hserial, hruns.step hnext⟩
    · rw [Function.update_of_ne hut] at hu
      exact absurd (h.eq_of_inside hu hin) hut

theorem Guarded.unlock (h : c.Guarded x₀ m inside n x) (hin : inside t = some r)
    (hend : c.next r x = none) (hunlock : m.unlock t = some m') :
    c.Guarded x₀ m' (Function.update inside t none) (n + 1) x := by
  obtain ⟨z, hserial, hruns⟩ := h.busy t r hin
  obtain ⟨-, hnone, -, -⟩ := Monitor.unlock_eq_some hunlock
  have hout : ∀ u, Function.update inside t none u = none := fun u => by
    by_cases hut : u = t
    · rw [hut, Function.update_self]
    · rw [Function.update_of_ne hut]
      cases hu : inside u with
      | none => rfl
      | some r'' => exact absurd (h.eq_of_inside hu hin) hut
  refine ⟨fun u => ?_, fun _ => hserial.succ ⟨r, hruns, hend⟩, fun u r'' hu => ?_⟩
  · rw [hout u, hnone]
    exact iff_of_false (fun hne => hne rfl) nofun
  · rw [hout u] at hu
    cases hu

end Section

end ChatOnC.Common
