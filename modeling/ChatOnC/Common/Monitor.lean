import Mathlib.Data.Finset.Card
import Mathlib.Tactic.Common

/-!
# Monitors

A mutex with one condition variable. A waiting thread is `blocked` until a
signal or a spurious wake-up makes it `woken`, and leaves its wait when it gets
the mutex again. A thread never waits twice, nor holds the mutex while it
waits: the fields `disjoint` and `running`.

`Covered k n` compares a number of items with the threads on their way to them:
while a thread is blocked, all but `k` of the `n` items have a woken thread of
their own.

* `Covered.signal`: a signal covers one more item.
* `Covered.reacquire`: a woken thread that gets the mutex leaves one uncovered.
-/

namespace ChatOnC.Common

/-- A mutex and a condition variable. -/
structure Monitor (Tid : Type*) where
  holder : Option Tid
  blocked : Finset Tid
  woken : Finset Tid
  disjoint : Disjoint blocked woken
  running : ∀ t, holder = some t → t ∉ blocked ∧ t ∉ woken

namespace Monitor

variable {Tid : Type*}

/-- Nobody holds the mutex or waits. -/
def free : Monitor Tid where
  holder := none
  blocked := ∅
  woken := ∅
  disjoint := Finset.disjoint_empty_left ∅
  running := nofun

variable {m m' : Monitor Tid} {t : Tid} {k n : ℕ}

/-- A thread waits for a signal, or for the mutex after one. -/
def Waits (m : Monitor Tid) (t : Tid) : Prop := t ∈ m.blocked ∨ t ∈ m.woken

/-- While a thread is blocked, all but `k` of the `n` items have a woken thread. -/
def Covered (m : Monitor Tid) (k n : ℕ) : Prop := m.blocked ≠ ∅ → n ≤ m.woken.card + k

theorem covered_zero (m : Monitor Tid) (k : ℕ) : m.Covered k 0 := fun _ => Nat.zero_le _

theorem Covered.congr (h : m.Covered k n) (hb : m'.blocked = m.blocked)
    (hw : m'.woken = m.woken) : m'.Covered k n := by
  rw [Covered, hb, hw]
  exact h

theorem Covered.weaken {k' : ℕ} (h : m.Covered k n) (hk : k ≤ k') : m.Covered k' n := by
  intro hb
  have hn := h hb
  omega

/-- One more item is one more without a woken thread. -/
theorem Covered.put (h : m.Covered k n) : m.Covered (k + 1) (n + 1) := by
  intro hb
  have hn := h hb
  omega

theorem Covered.take (h : m.Covered (k + 1) (n + 1)) : m.Covered k n := by
  intro hb
  have hn := h hb
  omega

/-! ## The operations -/

variable [DecidableEq Tid]

/-- The thread gets the mutex. -/
def lock (m : Monitor Tid) (t : Tid) : Option (Monitor Tid) :=
  if h : m.holder = none ∧ t ∉ m.blocked ∧ t ∉ m.woken then
    some { m with
      holder := some t
      running := by
        rintro u ⟨⟩
        exact h.2 }
  else none

/-- The thread gives the mutex up. -/
def unlock (m : Monitor Tid) (t : Tid) : Option (Monitor Tid) :=
  if m.holder = some t then some { m with holder := none, running := nofun } else none

/-- The thread gives the mutex up and blocks, at once. -/
def wait (m : Monitor Tid) (t : Tid) : Option (Monitor Tid) :=
  if h : m.holder = some t then
    some
      { holder := none
        blocked := insert t m.blocked
        woken := m.woken
        disjoint := Finset.disjoint_insert_left.mpr ⟨(m.running t h).2, m.disjoint⟩
        running := nofun }
  else none

/-- The blocked threads `awake` are woken. -/
def wake (m : Monitor Tid) (awake : Finset Tid) (h : awake ⊆ m.blocked) : Monitor Tid where
  holder := m.holder
  blocked := m.blocked \ awake
  woken := m.woken ∪ awake
  disjoint := by
    rw [Finset.disjoint_union_right]
    exact ⟨m.disjoint.mono_left Finset.sdiff_subset, Finset.sdiff_disjoint⟩
  running := by
    intro t ht
    obtain ⟨hb, hw⟩ := m.running t ht
    refine ⟨fun hmem => hb (Finset.sdiff_subset hmem), fun hmem => ?_⟩
    rcases Finset.mem_union.mp hmem with hmem | hmem
    · exact hw hmem
    · exact hb (h hmem)

/-- A signal wakes blocked threads, at least one if there is one. -/
def signal (m : Monitor Tid) (awake : Finset Tid) : Option (Monitor Tid) :=
  if h : awake ⊆ m.blocked ∧ (m.blocked = ∅ ∨ awake ≠ ∅) then some (m.wake awake h.1) else none

/-- A blocked thread is woken by no signal. -/
def spurious (m : Monitor Tid) (t : Tid) : Option (Monitor Tid) :=
  if h : t ∈ m.blocked then some (m.wake {t} (Finset.singleton_subset_iff.mpr h)) else none

/-- A woken thread gets the mutex again. -/
def reacquire (m : Monitor Tid) (t : Tid) : Option (Monitor Tid) :=
  if h : m.holder = none ∧ t ∈ m.woken then
    some
      { holder := some t
        blocked := m.blocked
        woken := m.woken.erase t
        disjoint := m.disjoint.mono_right (Finset.erase_subset t m.woken)
        running := by
          rintro u ⟨⟩
          exact ⟨Finset.disjoint_right.mp m.disjoint h.2, Finset.notMem_erase t m.woken⟩ }
  else none

variable {awake : Finset Tid}

/-! ## What the operations do -/

theorem lock_eq_some (h : m.lock t = some m') :
    m.holder = none ∧ m'.holder = some t ∧ m'.blocked = m.blocked ∧ m'.woken = m.woken := by
  unfold lock at h
  split_ifs at h with hguard
  cases h
  exact ⟨hguard.1, rfl, rfl, rfl⟩

theorem unlock_eq_some (h : m.unlock t = some m') :
    m.holder = some t ∧ m'.holder = none ∧ m'.blocked = m.blocked ∧ m'.woken = m.woken := by
  unfold unlock at h
  split_ifs at h with hguard
  cases h
  exact ⟨hguard, rfl, rfl, rfl⟩

theorem wait_eq_some (h : m.wait t = some m') :
    m.holder = some t ∧ m'.holder = none ∧ m'.blocked = insert t m.blocked ∧
      m'.woken = m.woken := by
  unfold wait at h
  split_ifs at h with hguard
  cases h
  exact ⟨hguard, rfl, rfl, rfl⟩

theorem signal_eq_some (h : m.signal awake = some m') :
    ∃ hsub, (m.blocked = ∅ ∨ awake ≠ ∅) ∧ m' = m.wake awake hsub := by
  unfold signal at h
  split_ifs at h with hguard
  cases h
  exact ⟨hguard.1, hguard.2, rfl⟩

theorem spurious_eq_some (h : m.spurious t = some m') : ∃ hsub, m' = m.wake {t} hsub := by
  unfold spurious at h
  split_ifs at h with hguard
  cases h
  exact ⟨_, rfl⟩

theorem reacquire_eq_some (h : m.reacquire t = some m') :
    m.holder = none ∧ t ∈ m.woken ∧ m'.holder = some t ∧ m'.blocked = m.blocked ∧
      m'.woken = m.woken.erase t := by
  unfold reacquire at h
  split_ifs at h with hguard
  cases h
  exact ⟨hguard.1, hguard.2, rfl, rfl, rfl⟩

theorem waits_wake {hsub : awake ⊆ m.blocked} {u : Tid} :
    (m.wake awake hsub).Waits u ↔ m.Waits u := by
  simp only [Waits, wake, Finset.mem_sdiff, Finset.mem_union]
  constructor
  · rintro (⟨hb, -⟩ | hw | ha)
    · exact .inl hb
    · exact .inr hw
    · exact .inl (hsub ha)
  · rintro (hb | hw)
    · by_cases ha : u ∈ awake
      · exact .inr (.inr ha)
      · exact .inl ⟨hb, ha⟩
    · exact .inr (.inl hw)

/-! ## Items and woken threads -/

theorem blocked_of_wake {hsub : awake ⊆ m.blocked} (h : (m.wake awake hsub).blocked ≠ ∅) :
    m.blocked ≠ ∅ := by
  intro he
  apply h
  exact Finset.subset_empty.mp (he ▸ Finset.sdiff_subset)

theorem card_wake (hsub : awake ⊆ m.blocked) :
    (m.wake awake hsub).woken.card = m.woken.card + awake.card :=
  Finset.card_union_of_disjoint (m.disjoint.symm.mono_right hsub)

/-- Waking threads uncovers nothing. -/
theorem Covered.wake (h : m.Covered k n) (hsub : awake ⊆ m.blocked) :
    (m.wake awake hsub).Covered k n := by
  intro hb
  have hn := h (blocked_of_wake hb)
  rw [card_wake]
  omega

/-- A signal covers one more item. -/
theorem Covered.signal (h : m.Covered (k + 1) n) (hs : m.signal awake = some m') :
    m'.Covered k n := by
  obtain ⟨hsub, hsome, rfl⟩ := signal_eq_some hs
  intro hb
  have hne := blocked_of_wake hb
  have hn := h hne
  have hcard : 0 < awake.card :=
    Finset.card_pos.mpr (Finset.nonempty_iff_ne_empty.mpr (hsome.resolve_left hne))
  rw [card_wake]
  omega

/-- A woken thread that gets the mutex leaves its item without one. -/
theorem Covered.reacquire (h : m.Covered k n) (hr : m.reacquire t = some m') :
    m'.Covered (k + 1) n := by
  obtain ⟨-, ht, -, hb', hw⟩ := reacquire_eq_some hr
  intro hb
  rw [hb'] at hb
  have hn := h hb
  have hpos : 0 < m.woken.card := Finset.card_pos.mpr ⟨t, ht⟩
  rw [hw, Finset.card_erase_of_mem ht]
  omega

end Monitor

end ChatOnC.Common
