import Mathlib.Data.List.Basic
import Mathlib.Data.List.Induction
import Mathlib.Data.List.Nodup
import Mathlib.Data.Nat.Find
import Mathlib.Data.Nat.Init
import Mathlib.Tactic.Common

/-!
# Removal by moving the last element

`swapRemove` writes the last element over the one removed. A list of indices
found by an earlier scan is then removed one by one, in increasing order, from
the list that shrinks.

* `getElem?_foldl_swapRemove`: what is left at each index.
* `mem_of_survives`, `survives_of_mem`: which of the elements not listed are left.
* `mem_foldl_swapRemove`: if no listed index is moved into a listed place
  (`SwapSafe`), exactly the elements at the listed indices are gone.
* `removes_exactly_iff`: otherwise one of them is left.
-/

namespace ChatOnC.Common

variable {α : Type*}

/-- Write the last element over the one at index `i`, and drop the last one. -/
def swapRemove (l : List α) (i : ℕ) : List α :=
  match l.getLast? with
  | none => []
  | some x => (l.set i x).dropLast

theorem length_swapRemove (l : List α) (i : ℕ) : (swapRemove l i).length = l.length - 1 := by
  unfold swapRemove
  split
  · rename_i h
    rw [List.getLast?_eq_none_iff.mp h]
    rfl
  · rw [List.length_dropLast, List.length_set]

theorem getElem?_swapRemove {l : List α} {i p : ℕ} (hp : p + 1 < l.length) :
    (swapRemove l i)[p]? = if p = i then l[l.length - 1]? else l[p]? := by
  unfold swapRemove
  split
  · rename_i h
    rw [List.getLast?_eq_none_iff.mp h] at hp
    exact absurd hp (by simp)
  · rename_i x h
    rw [List.getLast?_eq_getElem?] at h
    rw [List.getElem?_dropLast, List.length_set, if_pos (by omega), h]
    split_ifs with hpi
    · subst hpi
      exact List.getElem?_set_self (by omega)
    · exact List.getElem?_set_ne (Ne.symm hpi)

/-- The elements are those of the list, at these indices. -/
theorem exists_index_swapRemove {l : List α} {i p : ℕ} (hp : p < (swapRemove l i).length) :
    (swapRemove l i)[p]? = l[if p = i then l.length - 1 else p]? := by
  rw [length_swapRemove] at hp
  rw [getElem?_swapRemove (by omega)]
  split_ifs <;> rfl

/-- Distinct elements stay distinct. -/
theorem nodup_swapRemove {l : List α} (h : l.Nodup) (i : ℕ) : (swapRemove l i).Nodup := by
  rw [List.nodup_iff_getElem?_ne_getElem?] at h ⊢
  intro p q hpq hq
  have hlen := length_swapRemove l i
  rw [exists_index_swapRemove (by omega), exists_index_swapRemove hq]
  split_ifs with hp hq'
  · omega
  · exact (h q (l.length - 1) (by omega) (by omega)).symm
  · exact h p (l.length - 1) (by omega) (by omega)
  · exact h p q hpq (by omega)

/-! ## Removing a list of indices -/

/-- The entries of an increasing list are at least as far apart as their
    indices. -/
theorem increasing_gap {L : List ℕ} (hinc : L.Pairwise (· < ·)) {a b x y : ℕ} (hab : a ≤ b)
    (ha : L[a]? = some x) (hb : L[b]? = some y) : x + (b - a) ≤ y := by
  induction b, hab using Nat.le_induction generalizing y with
  | base =>
    rw [ha] at hb
    cases hb
    omega
  | succ b hab ih =>
    have hlt : b + 1 < L.length := (List.getElem?_eq_some_iff.mp hb).1
    have hstep := ih (List.getElem?_eq_getElem (show b < L.length by omega))
    have hnext : L[b] < y := by
      have hpair := List.pairwise_iff_getElem.mp hinc b (b + 1) (by omega) hlt (by omega)
      rw [(List.getElem?_eq_some_iff.mp hb).2] at hpair
      exact hpair
    omega

theorem length_foldl_swapRemove (L : List ℕ) (l : List α) :
    (L.foldl swapRemove l).length = l.length - L.length := by
  induction L generalizing l with
  | nil => rfl
  | cons i L ih =>
    rw [List.foldl_cons, ih, length_swapRemove, List.length_cons]
    omega

/-- What is left at an index below the new length: the `t`-th listed index holds
    the element that stood `t` places before the end, and any other index its
    own. -/
theorem getElem?_foldl_swapRemove {L : List ℕ} (hinc : L.Pairwise (· < ·)) (l : List α) {p : ℕ}
    (hp : p + L.length < l.length) :
    (p ∉ L → (L.foldl swapRemove l)[p]? = l[p]?) ∧
      ∀ t, L[t]? = some p → (L.foldl swapRemove l)[p]? = l[l.length - 1 - t]? := by
  induction L using List.reverseRecOn generalizing p with
  | nil =>
    refine ⟨fun _ => rfl, fun t ht => ?_⟩
    cases ht
  | append_singleton L i ih =>
    rw [List.length_append, List.length_singleton] at hp
    rw [List.pairwise_append] at hinc
    obtain ⟨hincL, -, hlast⟩ := hinc
    have hlast : ∀ x ∈ L, x < i := fun x hx => hlast x hx i (List.mem_singleton_self i)
    have hlen := length_foldl_swapRemove L l
    obtain ⟨ihne, iheq⟩ := ih hincL (show p + L.length < l.length by omega)
    rw [List.foldl_append, List.foldl_cons, List.foldl_nil,
      getElem?_swapRemove (show p + 1 < (L.foldl swapRemove l).length by omega)]
    refine ⟨fun hmem => ?_, fun t ht => ?_⟩
    · rw [if_neg (by rintro rfl; exact hmem (by simp))]
      exact ihne fun h => hmem (List.mem_append_left _ h)
    · rcases Nat.lt_trichotomy t L.length with hlt | rfl | hgt
      · -- listed before: the place of `p` is not written again
        rw [List.getElem?_append_left hlt] at ht
        have hpi := hlast p (List.mem_of_getElem? ht)
        rw [if_neg (by omega)]
        exact iheq t ht
      · -- the last index: its place takes the last element, which is in place
        rw [List.getElem?_concat_length] at ht
        cases ht
        rw [if_pos rfl, hlen]
        have hnot : l.length - L.length - 1 ∉ L := fun h => by
          have := hlast _ h
          omega
        rw [(ih hincL (show l.length - L.length - 1 + L.length < l.length by omega)).1 hnot]
        congr 1
        omega
      · rw [List.getElem?_eq_none (by rw [List.length_append, List.length_singleton]; omega)] at ht
        cases ht

/-- Of `n` elements, the one at index `p` is before the new end, or it is the one moved
    into the place of a listed index that is. -/
def Survives (n : ℕ) (L : List ℕ) (p : ℕ) : Prop :=
  p + L.length < n ∨ L.getD (n - 1 - p) n + L.length < n

instance (n : ℕ) (L : List ℕ) (p : ℕ) : Decidable (Survives n L p) :=
  inferInstanceAs (Decidable (_ ∨ _))

theorem mem_of_survives {L : List ℕ} {l : List α} {p : ℕ} {x : α} (hinc : L.Pairwise (· < ·))
    (hp : l[p]? = some x) (hnot : p ∉ L) (h : Survives l.length L p) :
    x ∈ L.foldl swapRemove l := by
  have hplt : p < l.length := (List.getElem?_eq_some_iff.mp hp).1
  rcases h with hlow | hmoved
  · have hown := (getElem?_foldl_swapRemove hinc l hlow).1 hnot
    rw [← hown] at hp
    exact List.mem_of_getElem? hp
  · cases hget : L[l.length - 1 - p]? with
    | none =>
      rw [List.getD_eq_getElem?_getD, hget, Option.getD_none] at hmoved
      omega
    | some i =>
      rw [List.getD_eq_getElem?_getD, hget, Option.getD_some] at hmoved
      have hhere := (getElem?_foldl_swapRemove hinc l hmoved).2 _ hget
      rw [show l.length - 1 - (l.length - 1 - p) = p by omega, hp] at hhere
      exact List.mem_of_getElem? hhere

/-- Of distinct elements, one that is left and not listed survives in this sense. -/
theorem survives_of_mem {L : List ℕ} {l : List α} {p : ℕ} {x : α} (hl : l.Nodup)
    (hinc : L.Pairwise (· < ·)) (hp : l[p]? = some x) (hmem : x ∈ L.foldl swapRemove l) :
    Survives l.length L p := by
  have hplt : p < l.length := (List.getElem?_eq_some_iff.mp hp).1
  have hlen := length_foldl_swapRemove L l
  obtain ⟨q, hq⟩ := List.mem_iff_getElem?.mp hmem
  have hqlt := (List.getElem?_eq_some_iff.mp hq).1
  have hqlow : q + L.length < l.length := by omega
  obtain ⟨hown, hmoved⟩ := getElem?_foldl_swapRemove hinc l hqlow
  by_cases hlisted : q ∈ L
  · obtain ⟨t, ht⟩ := List.mem_iff_getElem?.mp hlisted
    rw [hmoved t ht, ← hp] at hq
    have htp : p = l.length - 1 - t := (List.getElem?_inj hplt hl).mp hq.symm
    have htlt := (List.getElem?_eq_some_iff.mp ht).1
    right
    rw [show l.length - 1 - p = t by omega, List.getD_eq_getElem?_getD, ht]
    exact hqlow
  · rw [hown hlisted, ← hp] at hq
    have hqp : p = q := (List.getElem?_inj hplt hl).mp hq.symm
    left
    omega

/-- No listed index stands where an element moved into a listed place comes
    from. -/
def SwapSafe (n : ℕ) (L : List ℕ) : Prop :=
  ∀ t < L.length, L.getD t 0 + L.length < n → n - 1 - t ∉ L

instance (n : ℕ) (L : List ℕ) : Decidable (SwapSafe n L) :=
  inferInstanceAs (Decidable (∀ t < L.length, L.getD t 0 + L.length < n → n - 1 - t ∉ L))

theorem getD_of_getElem? {L : List ℕ} {t x : ℕ} (ht : L[t]? = some x) : L.getD t 0 = x := by
  rw [List.getD_eq_getElem?_getD, ht]
  rfl

/-- Under `SwapSafe`, an index near the end that is not moved into a listed
    place is listed: the listed indices from the first high one on fill the high
    places below the moved ones. -/
theorem mem_of_not_moved {L : List ℕ} {n p t : ℕ} (hinc : L.Pairwise (· < ·))
    (hbound : ∀ i ∈ L, i < n) (hsafe : SwapSafe n L) (hp : n ≤ p + L.length) (ht : p + t + 1 = n)
    (hstay : n ≤ L.getD t 0 + L.length) : p ∈ L := by
  have htlt : t < L.length := by omega
  have hhigh : ∃ m, m < L.length ∧ n ≤ L.getD m 0 + L.length := ⟨t, htlt, hstay⟩
  obtain ⟨hm, hmhigh⟩ := Nat.find_spec hhigh
  have hmin : ∀ m' < Nat.find hhigh, L.getD m' 0 + L.length < n := by
    intro m' hm'
    have hnot := Nat.find_min hhigh hm'
    omega
  have hmt : Nat.find hhigh ≤ t := Nat.find_min' hhigh ⟨htlt, hstay⟩
  generalize Nat.find hhigh = m at hm hmhigh hmin hmt
  have hgetm : L[m]? = some L[m] := List.getElem?_eq_getElem hm
  rw [getD_of_getElem? hgetm] at hmhigh
  have hlastlt : L.length - 1 < L.length := by omega
  have hgetlast : L[L.length - 1]? = some L[L.length - 1] := List.getElem?_eq_getElem hlastlt
  have hlast : L[L.length - 1] + m < n := by
    by_contra hge
    have hb := hbound _ (List.getElem_mem hlastlt)
    have htop := hsafe (n - 1 - L[L.length - 1]) (by omega) (hmin _ (by omega))
    rw [show n - 1 - (n - 1 - L[L.length - 1]) = L[L.length - 1] by omega] at htop
    exact htop (List.getElem_mem hlastlt)
  obtain ⟨q, hq⟩ : ∃ q, q = m + (p + L.length - n) := ⟨_, rfl⟩
  have hqlt : q < L.length := by omega
  have hgetq : L[q]? = some L[q] := List.getElem?_eq_getElem hqlt
  have hlo := increasing_gap hinc (show m ≤ q by omega) hgetm hgetq
  have hhi := increasing_gap hinc (show q ≤ L.length - 1 by omega) hgetq hgetlast
  have hpq : L[q] = p := by omega
  exact hpq ▸ List.getElem_mem hqlt

/-- Under `SwapSafe` every element that is not listed survives. -/
theorem survives_of_swapSafe {L : List ℕ} {n p : ℕ} (hinc : L.Pairwise (· < ·))
    (hbound : ∀ i ∈ L, i < n) (hsafe : SwapSafe n L) (hp : p < n) (hnot : p ∉ L) :
    Survives n L p := by
  by_cases hlow : p + L.length < n
  · exact .inl hlow
  · obtain ⟨t, ht⟩ : ∃ t, p + t + 1 = n := ⟨n - 1 - p, by omega⟩
    have hget : L[t]? = some L[t] := List.getElem?_eq_getElem (show t < L.length by omega)
    right
    rw [show n - 1 - p = t by omega, List.getD_eq_getElem?_getD, hget, Option.getD_some]
    -- `p` is moved into the place of the listed index number `t`
    by_contra hstay
    rw [← getD_of_getElem? hget] at hstay
    exact hnot (mem_of_not_moved hinc hbound hsafe (by omega) ht (by omega))

/-- **Deferred removal.** Under `SwapSafe`, removing a list of increasing indices
    leaves exactly the elements at the other indices. -/
theorem mem_foldl_swapRemove {L : List ℕ} {l : List α} (hinc : L.Pairwise (· < ·))
    (hbound : ∀ i ∈ L, i < l.length) (hsafe : SwapSafe l.length L) (x : α) :
    x ∈ L.foldl swapRemove l ↔ ∃ p, l[p]? = some x ∧ p ∉ L := by
  have hlen := length_foldl_swapRemove L l
  constructor
  · intro hx
    obtain ⟨p, hp⟩ := List.mem_iff_getElem?.mp hx
    have hplt : p < (L.foldl swapRemove l).length := (List.getElem?_eq_some_iff.mp hp).1
    obtain ⟨hown, hmoved⟩ :=
      getElem?_foldl_swapRemove hinc l (show p + L.length < l.length by omega)
    by_cases hmem : p ∈ L
    · obtain ⟨t, ht⟩ := List.mem_iff_getElem?.mp hmem
      rw [hmoved t ht] at hp
      have htlt : t < L.length := (List.getElem?_eq_some_iff.mp ht).1
      exact ⟨_, hp, hsafe t htlt (by rw [getD_of_getElem? ht]; omega)⟩
    · rw [hown hmem] at hp
      exact ⟨p, hp, hmem⟩
  · rintro ⟨p, hp, hmem⟩
    exact mem_of_survives hinc hp hmem
      (survives_of_swapSafe hinc hbound hsafe (List.getElem?_eq_some_iff.mp hp).1 hmem)

/-- From a list of distinct elements, the removal of increasing indices takes
    exactly the elements at these indices if and only if it is `SwapSafe`. -/
theorem removes_exactly_iff {L : List ℕ} {l : List α} (hl : l.Nodup) (hinc : L.Pairwise (· < ·))
    (hbound : ∀ i ∈ L, i < l.length) :
    (∀ x, x ∈ L.foldl swapRemove l ↔ x ∈ l ∧ ∀ i ∈ L, l[i]? ≠ some x) ↔
      SwapSafe l.length L := by
  constructor
  · intro h t ht hmoved hlisted
    have hget : L[t]? = some L[t] := List.getElem?_eq_getElem ht
    rw [getD_of_getElem? hget] at hmoved
    have hsource : l[l.length - 1 - t]? = some l[l.length - 1 - t] :=
      List.getElem?_eq_getElem (by omega)
    have hleft := (getElem?_foldl_swapRemove hinc l hmoved).2 t hget
    rw [hsource] at hleft
    exact ((h _).mp (List.mem_of_getElem? hleft)).2 _ hlisted hsource
  · intro hsafe x
    rw [mem_foldl_swapRemove hinc hbound hsafe]
    constructor
    · rintro ⟨p, hp, hnot⟩
      refine ⟨List.mem_of_getElem? hp, fun i hi hix => ?_⟩
      have hip : i = p := (List.getElem?_inj (hbound i hi) hl).mp (hix.trans hp.symm)
      exact hnot (hip ▸ hi)
    · rintro ⟨hx, hnone⟩
      obtain ⟨p, hp⟩ := List.mem_iff_getElem?.mp hx
      exact ⟨p, hp, fun hmem => hnone p hmem hp⟩

end ChatOnC.Common
