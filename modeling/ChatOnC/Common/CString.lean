import Mathlib.Data.List.Basic
import Mathlib.Data.List.TakeWhile
import Mathlib.Tactic.Common

/-!
# Strings in arrays of bytes

An array is the list of its elements. A C string is what an array of `char`
holds before its first zero byte.

* `cString_append_zero`: the string written by a store of its bytes and a zero.
* `cString_eq_iff`: what `strcmp` looks at.
* `strcat_of_le`: what `strcat` writes into an array with room for it.
-/

namespace ChatOnC.Common

/-- The bytes of a literal. -/
def ascii (s : String) : List UInt8 := s.toList.map fun c => c.toNat.toUInt8

/-- The string an array of `char` holds. -/
def cString (a : List UInt8) : List UInt8 := a.takeWhile (· ≠ 0)

/-- Store `xs` in the array from index `i` on. -/
def overwrite {α : Type*} (a : List α) (i : ℕ) (xs : List α) : List α :=
  a.take i ++ xs ++ a.drop (i + xs.length)

/-- `strcat(dst, src)` for the string `src`; `none` if it does not fit. -/
def strcat (dst src : List UInt8) : Option (List UInt8) :=
  if (cString dst).length + src.length + 1 ≤ dst.length then
    some (overwrite dst (cString dst).length (src ++ [0]))
  else none

theorem overwrite_zero {α : Type*} (a xs : List α) :
    overwrite a 0 xs = xs ++ a.drop xs.length := by
  simp [overwrite]

/-- A store right behind an earlier one. -/
theorem overwrite_overwrite {α : Type*} (a xs ys : List α) :
    overwrite (overwrite a 0 xs) xs.length ys = overwrite a 0 (xs ++ ys) := by
  have htake : List.take xs.length (xs ++ a.drop xs.length) = xs := List.take_left
  have hdrop : List.drop (xs.length + ys.length) (xs ++ a.drop xs.length) =
      a.drop (xs.length + ys.length) := by
    rw [List.drop_append, List.drop_of_length_le (by omega), List.drop_drop, List.nil_append]
    congr 1
    omega
  rw [overwrite_zero, overwrite_zero, overwrite, htake, hdrop, List.length_append]

/-- The front of an array behind a store. -/
theorem take_overwrite {α : Type*} {a : List α} {i : ℕ} (h : i ≤ a.length) (xs : List α) :
    (overwrite a i xs).take (i + xs.length) = a.take i ++ xs := by
  have hlen : (a.take i ++ xs).length = i + xs.length := by
    rw [List.length_append, List.length_take, Nat.min_eq_left h]
  rw [overwrite, ← hlen, List.take_left]

/-- A zero ends the string, whatever is behind it. -/
theorem cString_zero_cons (s rest : List UInt8) : cString (s ++ 0 :: rest) = cString s := by
  induction s with
  | nil => simp [cString]
  | cons c s ih =>
    simp only [cString, List.cons_append, List.takeWhile_cons] at ih ⊢
    rw [ih]

theorem cString_of_zero_notMem {s : List UInt8} (h : 0 ∉ s) : cString s = s := by
  rw [cString, List.takeWhile_eq_self_iff]
  intro x hx
  simp only [ne_eq, decide_eq_true_eq]
  rintro rfl
  exact h hx

theorem cString_append_zero {s : List UInt8} (h : 0 ∉ s) (rest : List UInt8) :
    cString (s ++ 0 :: rest) = s := by
  rw [cString_zero_cons, cString_of_zero_notMem h]

theorem zero_notMem_cString (a : List UInt8) : 0 ∉ cString a := by
  intro hzero
  simpa using List.mem_takeWhile_imp hzero

/-- A store inside the array keeps its length. -/
theorem length_overwrite {α : Type*} {a xs : List α} {i : ℕ} (h : i + xs.length ≤ a.length) :
    (overwrite a i xs).length = a.length := by
  rw [overwrite, List.length_append, List.length_append, List.length_take, List.length_drop]
  omega

theorem take_length_cString (a : List UInt8) : a.take (cString a).length = cString a :=
  List.prefix_iff_eq_take.mp (List.takeWhile_prefix _) |>.symm

/-- `strcat` puts the string behind that of the array. -/
theorem strcat_of_le {dst src : List UInt8} (h0 : 0 ∉ src)
    (hle : (cString dst).length + src.length + 1 ≤ dst.length) :
    ∃ dst', strcat dst src = some dst' ∧ dst'.length = dst.length ∧
      cString dst' = cString dst ++ src := by
  refine ⟨_, if_pos hle, ?_, ?_⟩
  · apply length_overwrite
    rw [List.length_append, List.length_singleton]
    omega
  · have hzero : 0 ∉ cString dst ++ src := by
      rw [List.mem_append, not_or]
      exact ⟨zero_notMem_cString dst, h0⟩
    rw [overwrite, take_length_cString, ← List.append_assoc, List.append_assoc _ [0],
      List.singleton_append, cString_append_zero hzero]

/-- The string of an array is an `s` shorter than the array if and only if the array
    starts with `s` and a zero. -/
theorem cString_eq_iff {a s : List UInt8} (hs : 0 ∉ s) (hlen : s.length < a.length) :
    cString a = s ↔ s ++ [0] <+: a := by
  constructor
  · rintro rfl
    have hsplit : cString a ++ a.dropWhile (· ≠ 0) = a := List.takeWhile_append_dropWhile
    cases hrest : a.dropWhile (· ≠ 0) with
    | nil =>
      rw [hrest, List.append_nil] at hsplit
      rw [hsplit] at hlen
      exact absurd hlen (Nat.lt_irrefl _)
    | cons c rest =>
      have hne : a.dropWhile (· ≠ 0) ≠ [] := hrest ▸ List.cons_ne_nil c rest
      have hhead := List.head_dropWhile_not _ hne
      simp only [hrest, List.head_cons] at hhead
      have hzero : c = 0 := by simpa using hhead
      rw [hrest, hzero] at hsplit
      exact ⟨rest, by rw [List.append_assoc, List.singleton_append, hsplit]⟩
  · rintro ⟨rest, rfl⟩
    rw [List.append_assoc, List.singleton_append, cString_append_zero hs]

end ChatOnC.Common
