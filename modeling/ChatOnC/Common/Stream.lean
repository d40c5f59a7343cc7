import ChatOnC.Common.Fifo

/-!
# Streams

A `Fifo` that is written and read in pieces, as a connection or a pipe is: `write`
appends a piece, and `read` takes as many items as the outside world lets it, at least
one. How the pieces are cut is not kept.

* `read_eq_some`: what a read gives.
* `exists_read`: a stream that holds something can be read.
-/

namespace ChatOnC.Common.Fifo

variable {α : Type*} {q q' : Fifo α} {n : ℕ} {piece : List α}

/-- Append a piece. -/
def write (q : Fifo α) (piece : List α) : Fifo α where
  put := q.put ++ piece
  taken := q.taken
  items := q.items ++ piece
  balanced := by rw [← List.append_assoc, q.balanced]

/-- Take the first `n` items; `none` if `n` is zero or there are not so many. -/
def read (q : Fifo α) (n : ℕ) : Option (List α × Fifo α) :=
  if 0 < n ∧ n ≤ q.items.length then
    some (q.items.take n,
      { put := q.put
        taken := q.taken ++ q.items.take n
        items := q.items.drop n
        balanced := by rw [List.append_assoc, List.take_append_drop, q.balanced] })
  else none

@[simp] theorem write_put : (q.write piece).put = q.put ++ piece := rfl
@[simp] theorem write_taken : (q.write piece).taken = q.taken := rfl
@[simp] theorem write_items : (q.write piece).items = q.items ++ piece := rfl

/-- What a successful `read` does. -/
theorem read_eq_some (h : q.read n = some (piece, q')) :
    0 < n ∧ piece.length = n ∧ q.items = piece ++ q'.items ∧ q'.put = q.put ∧
      q'.taken = q.taken ++ piece := by
  obtain ⟨⟨hpos, hle⟩, h⟩ := Option.ite_none_right_eq_some.mp h
  cases h
  refine ⟨hpos, ?_, (List.take_append_drop n q.items).symm, rfl, rfl⟩
  rw [List.length_take, Nat.min_eq_left hle]

theorem exists_read (hpos : 0 < n) (hle : n ≤ q.items.length) :
    ∃ piece q', q.read n = some (piece, q') :=
  ⟨_, _, if_pos ⟨hpos, hle⟩⟩

end ChatOnC.Common.Fifo
