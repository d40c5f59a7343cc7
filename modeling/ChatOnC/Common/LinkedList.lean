import Mathlib.Data.List.Nodup
import Mathlib.Logic.Function.Basic
import Mathlib.Logic.Relation
import Mathlib.Tactic.Common

/-!
# Singly linked lists in a heap

A heap maps addresses to cells (`none`: not allocated), and `next` reads the
link of a cell. `IsList next heap p as` says that following links from `p`
visits exactly the addresses `as`, every one of them live, and then reaches the
null pointer.

* `IsList.unique`, `IsList.nodup`: the addresses are determined by the pointer,
  and none is visited twice, so a list is acyclic.
* `IsList.mem_iff_reaches`: the addresses are those reachable through links.
* `IsList.congr`, `IsList.push`, `IsList.pop`: what writing elsewhere, linking a
  new last cell and freeing the first cell do to a list.
-/

namespace ChatOnC.Common

variable {Addr Cell : Type*} (next : Cell → Option Addr)

/-- Following links from the pointer visits the addresses, all live, and ends
    at null. -/
def IsList (heap : Addr → Option Cell) : Option Addr → List Addr → Prop
  | p, [] => p = none
  | p, a :: as => p = some a ∧ ∃ c, heap a = some c ∧ IsList heap (next c) as

/-- The cell at `a` is live and links to `b`. -/
def LinksTo (heap : Addr → Option Cell) (a b : Addr) : Prop :=
  ∃ c, heap a = some c ∧ next c = some b

/-- `a` is reached from the pointer `p` through links. -/
def Reaches (heap : Addr → Option Cell) (p : Option Addr) (a : Addr) : Prop :=
  ∃ b, p = some b ∧ Relation.ReflTransGen (LinksTo next heap) b a

namespace IsList

variable {next} {heap heap' : Addr → Option Cell} {p : Option Addr} {as bs : List Addr} {a b : Addr}

theorem ptr_eq_none_iff (h : IsList next heap p as) : p = none ↔ as = [] := by
  cases as with
  | nil => simpa [IsList] using h
  | cons a as => simp [h.1]

theorem live (h : IsList next heap p as) (ha : a ∈ as) : ∃ c, heap a = some c := by
  induction as generalizing p with
  | nil => cases ha
  | cons b as ih =>
    obtain ⟨-, c, hc, htl⟩ := h
    rcases List.mem_cons.mp ha with rfl | ha
    · exact ⟨c, hc⟩
    · exact ih htl ha

theorem unique (h : IsList next heap p as) (h' : IsList next heap p bs) : as = bs := by
  induction as generalizing p bs with
  | nil => exact ((h'.ptr_eq_none_iff).mp h).symm
  | cons a as ih =>
    obtain ⟨rfl, c, hc, htl⟩ := h
    cases bs with
    | nil => cases h'
    | cons b bs =>
      obtain ⟨hab, c', hc', htl'⟩ := h'
      cases hab
      rw [hc] at hc'
      cases hc'
      rw [ih htl htl']

theorem suffix (h : IsList next heap p (as ++ bs)) : ∃ q, IsList next heap q bs := by
  induction as generalizing p with
  | nil => exact ⟨p, h⟩
  | cons a as ih =>
    obtain ⟨-, c, -, htl⟩ := h
    exact ih htl

/-- No address occurs twice: the rest of the list from its second occurrence
    would be the rest from the first. -/
theorem nodup (h : IsList next heap p as) : as.Nodup := by
  induction as generalizing p with
  | nil => exact List.nodup_nil
  | cons a as ih =>
    obtain ⟨rfl, c, hc, htl⟩ := h
    refine List.nodup_cons.mpr ⟨fun hmem => ?_, ih htl⟩
    obtain ⟨s, t, rfl⟩ := List.append_of_mem hmem
    obtain ⟨q, hq⟩ := suffix htl
    obtain ⟨rfl, c', hc', htl'⟩ := hq
    rw [hc] at hc'
    cases hc'
    have hlen := congrArg List.length (unique htl htl')
    simp at hlen
    omega

/-- Only the links of the visited cells matter. -/
theorem congr_next (h : IsList next heap p as)
    (hc : ∀ a ∈ as, (heap' a).map next = (heap a).map next) : IsList next heap' p as := by
  induction as generalizing p with
  | nil => exact h
  | cons a as ih =>
    obtain ⟨rfl, c, hca, htl⟩ := h
    have ha := hc a (by simp)
    rw [hca, Option.map_some, Option.map_eq_some_iff] at ha
    obtain ⟨c', hc', hn⟩ := ha
    exact ⟨rfl, c', hc', by rw [hn]; exact ih htl fun b hb => hc b (by simp [hb])⟩

theorem congr (h : IsList next heap p as) (hc : ∀ a ∈ as, heap' a = heap a) :
    IsList next heap' p as :=
  h.congr_next fun a ha => by rw [hc a ha]

/-- The last cell of a list has a null link. -/
theorem last_next (h : IsList next heap p (as ++ [a])) : ∃ c, heap a = some c ∧ next c = none := by
  induction as generalizing p with
  | nil =>
    obtain ⟨-, c, hc, htl⟩ := h
    exact ⟨c, hc, htl⟩
  | cons b as ih =>
    obtain ⟨-, c, -, htl⟩ := h
    exact ih htl

/-- Linking a new cell behind the last one appends its address. -/
theorem push [DecidableEq Addr] {c' d : Cell} (h : IsList next heap p (as ++ [a]))
    (hb : b ∉ as ++ [a]) (hc : next c' = some b) (hd : next d = none) (hbd : heap b = some d) :
    IsList next (Function.update heap a (some c')) p (as ++ [a, b]) := by
  induction as generalizing p with
  | nil =>
    obtain ⟨rfl, -⟩ := h
    have hne : b ≠ a := by simpa using hb
    refine ⟨rfl, c', Function.update_self .., hc, d, ?_, hd⟩
    rw [Function.update_of_ne hne, hbd]
  | cons e as ih =>
    have hnd := h.nodup
    obtain ⟨rfl, c, hce, htl⟩ := h
    have hne : e ≠ a := by
      rintro rfl
      simp at hnd
    refine ⟨rfl, c, by rw [Function.update_of_ne hne, hce], ih htl ?_⟩
    exact fun hmem => hb (by simp only [List.cons_append, List.mem_cons]; exact .inr hmem)

/-- Freeing the first cell leaves the list from its link. -/
theorem pop [DecidableEq Addr] {c : Cell} (h : IsList next heap p (a :: as))
    (hc : heap a = some c) : IsList next (Function.update heap a none) (next c) as := by
  have hnd := (List.nodup_cons.mp h.nodup).1
  obtain ⟨-, c', hc', htl⟩ := h
  rw [hc] at hc'
  cases hc'
  refine htl.congr fun b hb => Function.update_of_ne ?_ _ _
  rintro rfl
  exact hnd hb

/-- The addresses of a list are those reachable from its pointer. -/
theorem mem_iff_reaches (h : IsList next heap p as) : a ∈ as ↔ Reaches next heap p a := by
  induction as generalizing p with
  | nil =>
    cases h
    simp [Reaches]
  | cons b as ih =>
    obtain ⟨rfl, c, hc, htl⟩ := h
    constructor
    · intro hmem
      rcases List.mem_cons.mp hmem with rfl | hmem
      · exact ⟨a, rfl, .refl⟩
      · obtain ⟨d, hd, hr⟩ := (ih htl).mp hmem
        exact ⟨b, rfl, .head ⟨c, hc, hd⟩ hr⟩
    · rintro ⟨b', hb', hr⟩
      cases hb'
      rcases Relation.ReflTransGen.cases_head hr with rfl | ⟨d, ⟨c', hc', hd⟩, hr'⟩
      · simp
      · rw [hc] at hc'
        cases hc'
        exact List.mem_cons_of_mem _ ((ih htl).mpr ⟨d, hd, hr'⟩)

end IsList

end ChatOnC.Common
