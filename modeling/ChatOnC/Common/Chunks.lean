import Mathlib.Data.List.Basic
import Mathlib.Tactic.Common

/-!
# Cutting a text into chunks

`fread` and `read` fill a buffer again and again until nothing is left.

* `flatten_chunks`: nothing is lost.
* `chunks_of_ne_nil`: the first chunk and the others.
* `flatten_map_eq_iff`: if of each piece only a front part is kept, then nothing is
  lost exactly if each piece is kept as a whole.
-/

namespace ChatOnC.Common

variable {α ι : Type*}

/-- What the first calls that fill a buffer of `size` elements read. -/
def chunksUpTo (size : ℕ) : ℕ → List α → List (List α)
  | 0, _ => []
  | calls + 1, rest =>
    let chunk := rest.take size
    if chunk.length > 0 then chunk :: chunksUpTo size calls (rest.drop size) else []

/-- What `while ((n = fread(buffer, 1, size, file)) > 0)` reads. A call reads at least one
    element. -/
def chunks (size : ℕ) (text : List α) : List (List α) := chunksUpTo size text.length text

variable {size : ℕ}

theorem flatten_chunksUpTo (hsize : 0 < size) {calls : ℕ} {l : List α} (h : l.length ≤ calls) :
    (chunksUpTo size calls l).flatten = l := by
  induction calls generalizing l with
  | zero =>
    rw [List.eq_nil_of_length_eq_zero (Nat.le_zero.mp h)]
    rfl
  | succ calls ih =>
    unfold chunksUpTo
    dsimp only
    split_ifs with hpos
    · have hdrop : (l.drop size).length ≤ calls := by
        rw [List.length_drop]
        omega
      rw [List.flatten_cons, ih hdrop, List.take_append_drop]
    · rw [List.length_take] at hpos
      rw [List.eq_nil_of_length_eq_zero (show l.length = 0 by omega)]
      rfl

/-- Nothing is lost. -/
theorem flatten_chunks (hsize : 0 < size) (l : List α) : (chunks size l).flatten = l :=
  flatten_chunksUpTo hsize (Nat.le_refl _)

/-- A call reads something. -/
theorem nil_notMem_chunksUpTo (calls : ℕ) (l : List α) : [] ∉ chunksUpTo size calls l := by
  induction calls generalizing l with
  | zero => exact List.not_mem_nil
  | succ calls ih =>
    unfold chunksUpTo
    dsimp only
    split_ifs with hpos
    · rw [List.mem_cons]
      rintro (hnil | hmem)
      · rw [← hnil, List.length_nil] at hpos
        omega
      · exact ih _ hmem
    · exact List.not_mem_nil

@[simp] theorem chunksUpTo_nil (size calls : ℕ) : chunksUpTo size calls ([] : List α) = [] := by
  cases calls with
  | zero => rfl
  | succ calls => simp [chunksUpTo]

theorem chunksUpTo_succ (hsize : 0 < size) {calls : ℕ} {l : List α} (h : l ≠ []) :
    chunksUpTo size (calls + 1) l = l.take size :: chunksUpTo size calls (l.drop size) := by
  have hlen := List.length_pos_iff.mpr h
  have hpos : (l.take size).length > 0 := by
    rw [List.length_take]
    omega
  rw [chunksUpTo, if_pos hpos]

/-- Behind the end of the text further calls read nothing. -/
theorem chunksUpTo_stable (hsize : 0 < size) {calls calls' : ℕ} {l : List α}
    (h : l.length ≤ calls) (h' : l.length ≤ calls') :
    chunksUpTo size calls l = chunksUpTo size calls' l := by
  induction calls generalizing calls' l with
  | zero =>
    rw [List.eq_nil_of_length_eq_zero (Nat.le_zero.mp h), chunksUpTo_nil, chunksUpTo_nil]
  | succ calls ih =>
    by_cases hl : l = []
    · rw [hl, chunksUpTo_nil, chunksUpTo_nil]
    · have hlen := List.length_pos_iff.mpr hl
      obtain ⟨more, rfl⟩ := Nat.exists_eq_succ_of_ne_zero
        (Nat.ne_of_gt (Nat.lt_of_lt_of_le hlen h'))
      have hdrop : (l.drop size).length < l.length := by
        rw [List.length_drop]
        omega
      have hrest : chunksUpTo size calls (l.drop size) = chunksUpTo size more (l.drop size) :=
        ih (by omega) (by omega)
      rw [chunksUpTo_succ hsize hl, chunksUpTo_succ hsize hl, hrest]

/-- One call, and the chunks of the rest. -/
theorem chunks_of_ne_nil (hsize : 0 < size) {l : List α} (h : l ≠ []) :
    chunks size l = l.take size :: chunks size (l.drop size) := by
  have hlen := List.length_pos_iff.mpr h
  have hdrop : (l.drop size).length < l.length := by
    rw [List.length_drop]
    omega
  obtain ⟨calls, hcalls⟩ := Nat.exists_eq_succ_of_ne_zero (Nat.ne_of_gt hlen)
  unfold chunks
  rw [hcalls, chunksUpTo_succ hsize h, chunksUpTo_stable hsize (by omega) (Nat.le_refl _)]

/-- A piece is in one part in what it is a piece of. -/
theorem isInfix_flatten_of_mem {piece : List α} {pieces : List (List α)} (h : piece ∈ pieces) :
    piece <:+: pieces.flatten := by
  obtain ⟨before, behind, rfl⟩ := List.append_of_mem h
  exact ⟨before.flatten, behind.flatten, by simp⟩

theorem length_flatten_map_le {f g : ι → List α} {is : List ι} (h : ∀ i ∈ is, f i <+: g i) :
    (is.map f).flatten.length ≤ (is.map g).flatten.length := by
  induction is with
  | nil => exact Nat.le_refl _
  | cons i is ih =>
    have hi := (h i List.mem_cons_self).length_le
    have his := ih fun j hj => h j (List.mem_cons_of_mem i hj)
    rw [List.map_cons, List.map_cons, List.flatten_cons, List.flatten_cons, List.length_append,
      List.length_append]
    omega

/-- Pieces of which a front part is kept. -/
theorem flatten_map_eq_iff {f g : ι → List α} {is : List ι} (h : ∀ i ∈ is, f i <+: g i) :
    (is.map f).flatten = (is.map g).flatten ↔ ∀ i ∈ is, f i = g i := by
  induction is with
  | nil => simp
  | cons i is ih =>
    have hi := h i List.mem_cons_self
    have his := fun j hj => h j (List.mem_cons_of_mem i hj)
    have ih : (is.map f).flatten = (is.map g).flatten ↔ ∀ j ∈ is, f j = g j := ih his
    rw [List.map_cons, List.map_cons, List.flatten_cons, List.flatten_cons, List.forall_mem_cons,
      ← ih]
    constructor
    · intro heq
      -- a shorter front part could not be made up for by the other pieces
      have htotal := congrArg List.length heq
      rw [List.length_append, List.length_append] at htotal
      have hrest := length_flatten_map_le his
      have hfirst := hi.length_le
      exact List.append_inj heq (by omega)
    · rintro ⟨hfirst, hrest⟩
      rw [hfirst, hrest]

end ChatOnC.Common
