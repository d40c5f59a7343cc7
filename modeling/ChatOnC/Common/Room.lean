import ChatOnC.Common.System
import Mathlib.Data.Finset.SDiff

/-!
# A room in which everybody hears what the others say

The members of a room join and part one by one; who has parted is still there until the next
sweep. What a member says is heard by all others that are there, also by those that have
parted.

* `step_join`, `step_say`, `step_part`, `step_sweep`: when these are possible, and what they do.
-/

namespace ChatOnC.Common

/-- Who is in the room, who of these has parted, and what everyone has heard so far. -/
structure Room (α β : Type*) where
  members : Finset α
  parted : Finset α
  heard : α → List β
  parted_subset : parted ⊆ members

inductive RoomAct (α β : Type*)
  | join (a : α)
  | say (a : α) (m : β)
  | part (a : α)
  | sweep

namespace Room

variable {α β : Type*} [DecidableEq α]

/-- Nobody is there yet. -/
def empty : Room α β := ⟨∅, ∅, fun _ => [], Finset.Subset.refl ∅⟩

/-- What `b` has heard when `a` has said `m`. -/
def hears (r : Room α β) (a : α) (m : β) (b : α) : List β :=
  if b ∈ r.members ∧ b ≠ a then r.heard b ++ [m] else r.heard b

/-- One step. -/
def step : RoomAct α β → Room α β → Option (Room α β)
  | .join a, r =>
    if a ∈ r.members then none
    else some
      { r with
        members := insert a r.members
        parted_subset := r.parted_subset.trans (Finset.subset_insert a r.members) }
  | .say a m, r =>
    if a ∈ r.members ∧ a ∉ r.parted then some { r with heard := r.hears a m } else none
  | .part a, r =>
    if h : a ∈ r.members ∧ a ∉ r.parted then
      some
        { r with
          parted := insert a r.parted
          parted_subset := Finset.insert_subset h.1 r.parted_subset }
    else none
  | .sweep, r =>
    some
      { r with
        members := r.members \ r.parted
        parted := ∅
        parted_subset := Finset.empty_subset _ }

/-- Any number of members. -/
def system (α β : Type*) [DecidableEq α] : System (Room α β) (RoomAct α β) where
  init := empty
  step := step

variable {r : Room α β} {a : α}

theorem step_join (h : a ∉ r.members) :
    ∃ r', r.step (.join a) = some r' ∧ r'.members = insert a r.members ∧
      r'.parted = r.parted ∧ r'.heard = r.heard :=
  ⟨_, if_neg h, rfl, rfl, rfl⟩

theorem step_say (hmem : a ∈ r.members) (hnot : a ∉ r.parted) (m : β) :
    r.step (.say a m) = some { r with heard := r.hears a m } :=
  if_pos ⟨hmem, hnot⟩

theorem step_part (hmem : a ∈ r.members) (hnot : a ∉ r.parted) :
    ∃ r', r.step (.part a) = some r' ∧ r'.members = r.members ∧
      r'.parted = insert a r.parted ∧ r'.heard = r.heard :=
  ⟨_, dif_pos ⟨hmem, hnot⟩, rfl, rfl, rfl⟩

theorem step_sweep (r : Room α β) :
    ∃ r', r.step .sweep = some r' ∧ r'.members = r.members \ r.parted ∧
      r'.parted = ∅ ∧ r'.heard = r.heard :=
  ⟨_, rfl, rfl, rfl, rfl⟩

end Room

end ChatOnC.Common
