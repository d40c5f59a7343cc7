import Mathlib.Algebra.Group.Nat.Defs
import Mathlib.Data.List.Basic
import Mathlib.Tactic.Common

/-!
# Reading a text line by line into a small buffer

`fgets` reads up to the end of the line, or until its buffer is full. Reading a
text with it to the end cuts the text into pieces: lines, and of a long line
pieces of the size of the buffer and what is left of it.

* `flatten_lines`: nothing is lost.
* `mem_lines_iff`: where a text has a given line among its pieces.
-/

namespace ChatOnC.Common

variable {α : Type*}

/-- The text ends with the end of a line, or is empty. -/
def EndsLine (nl : α) (a : List α) : Prop := a = [] ∨ a.getLast? = some nl

theorem EndsLine.drop {nl : α} {a : List α} (h : EndsLine nl a) (n : ℕ) :
    EndsLine nl (a.drop n) := by
  rcases h with rfl | h
  · exact .inl List.drop_nil
  · by_cases hn : a.length ≤ n
    · exact .inl (List.drop_eq_nil_of_le hn)
    · right
      rw [List.getLast?_drop, if_neg hn, h]

theorem EndsLine.mem {nl : α} {a : List α} (h : EndsLine nl a) (hne : a ≠ []) : nl ∈ a :=
  List.mem_of_getLast? (h.resolve_left hne)

variable [DecidableEq α]

/-- Up to the first `nl`, and at most this many elements. -/
def takeLine (nl : α) : ℕ → List α → List α
  | 0, _ => []
  | _, [] => []
  | room + 1, c :: cs => if c = nl then [c] else c :: takeLine nl room cs

/-- `fgets(buffer, size, file)`, for what is left of the file: what is stored in front
    of the closing zero, and what is left then. `none` at the end of the file. -/
def fgets (nl : α) (size : ℕ) (rest : List α) : Option (List α × List α) :=
  if rest.isEmpty then none
  else
    some (takeLine nl (size - 1) rest, rest.drop (takeLine nl (size - 1) rest).length)

/-- What the first calls of `fgets` read. -/
def linesUpTo (nl : α) (size : ℕ) : ℕ → List α → List (List α)
  | 0, _ => []
  | calls + 1, rest =>
    match fgets nl size rest with
    | none => []
    | some (line, rest) => line :: linesUpTo nl size calls rest

/-- What `while (fgets(buffer, size, file) != NULL)` reads. A call reads at least one
    element. -/
def lines (nl : α) (size : ℕ) (text : List α) : List (List α) :=
  linesUpTo nl size text.length text

variable {nl : α} {size n : ℕ} {l a b w d : List α}

/-! ## One piece -/

theorem takeLine_isPrefix (nl : α) (n : ℕ) (l : List α) : takeLine nl n l <+: l := by
  fun_induction takeLine nl n l with
  | case1 l => exact List.nil_prefix
  | case2 n => exact List.nil_prefix
  | case3 n cs => exact List.prefix_append [nl] cs
  | case4 n c cs hc ih => exact List.cons_prefix_cons.mpr ⟨rfl, ih⟩

theorem takeLine_append_drop (nl : α) (n : ℕ) (l : List α) :
    takeLine nl n l ++ l.drop (takeLine nl n l).length = l := by
  exact List.prefix_iff_eq_append.mp (takeLine_isPrefix nl n l)

theorem length_takeLine_le (nl : α) (n : ℕ) (l : List α) : (takeLine nl n l).length ≤ n := by
  fun_induction takeLine nl n l with
  | case1 l => exact Nat.zero_le _
  | case2 n => exact Nat.zero_le _
  | case3 n cs => exact Nat.succ_le_succ (Nat.zero_le n)
  | case4 n c cs hc ih => exact Nat.succ_le_succ ih

theorem takeLine_length_pos (nl : α) (hn : 0 < n) (hl : l ≠ []) : 0 < (takeLine nl n l).length := by
  cases l with
  | nil => exact absurd rfl hl
  | cons c cs =>
    obtain ⟨n, rfl⟩ : ∃ m, n = m + 1 := ⟨n - 1, by omega⟩
    unfold takeLine
    split_ifs
    · exact Nat.one_pos
    · exact Nat.succ_pos _

/-- A line that fits is read as a whole. -/
theorem takeLine_line (hw : nl ∉ w) (hlen : w.length < n) (b : List α) :
    takeLine nl n (w ++ nl :: b) = w ++ [nl] := by
  induction w generalizing n with
  | nil =>
    obtain ⟨n, rfl⟩ : ∃ m, n = m + 1 := ⟨n - 1, by omega⟩
    rw [List.nil_append, takeLine, if_pos rfl]
    rfl
  | cons c w ih =>
    obtain ⟨n, rfl⟩ : ∃ m, n = m + 1 := ⟨n - 1, by omega⟩
    rw [List.mem_cons, not_or] at hw
    rw [List.length_cons] at hlen
    rw [List.cons_append, takeLine, if_neg (Ne.symm hw.1), ih hw.2 (by omega)]
    rfl

/-- Of a longer one the buffer is filled. -/
theorem takeLine_long (hw : nl ∉ w) (hlen : n ≤ w.length) (b : List α) :
    takeLine nl n (w ++ b) = w.take n := by
  induction w generalizing n with
  | nil =>
    obtain rfl : n = 0 := Nat.le_zero.mp hlen
    rfl
  | cons c w ih =>
    cases n with
    | zero => rfl
    | succ n =>
      rw [List.mem_cons, not_or] at hw
      rw [List.length_cons] at hlen
      rw [List.cons_append, takeLine, if_neg (Ne.symm hw.1), ih hw.2 (by omega),
        List.take_succ_cons]

/-- What comes behind the end of a line does not matter. -/
theorem takeLine_append_of_mem (ha : nl ∈ a) (b : List α) :
    takeLine nl n (a ++ b) = takeLine nl n a := by
  induction a generalizing n with
  | nil => cases ha
  | cons c a ih =>
    cases n with
    | zero => rfl
    | succ n =>
      rw [List.cons_append, takeLine, takeLine]
      split_ifs with hc
      · rfl
      · rw [ih ((List.mem_cons.mp ha).resolve_left (Ne.symm hc))]

/-- A piece without the end of a line fills the buffer or ends the text. -/
theorem takeLine_cases (nl : α) (n : ℕ) (l : List α) :
    (takeLine nl n l).getLast? = some nl ∨
      nl ∉ takeLine nl n l ∧ ((takeLine nl n l).length = n ∨ takeLine nl n l = l) := by
  fun_induction takeLine nl n l with
  | case1 l => exact .inr ⟨List.not_mem_nil, .inl rfl⟩
  | case2 n => exact .inr ⟨List.not_mem_nil, .inr rfl⟩
  | case3 n cs => exact .inl rfl
  | case4 n c cs hc ih =>
    rcases ih with hlast | ⟨hnot, hlen | hall⟩
    · left
      rw [List.getLast?_cons, hlast]
      rfl
    · right
      exact ⟨by simp [Ne.symm hc, hnot], .inl (by rw [List.length_cons, hlen])⟩
    · right
      exact ⟨by simp [Ne.symm hc, hnot], .inr (by rw [hall])⟩

/-! ## All pieces -/

/-- What is left behind the first piece. -/
def behindLine (nl : α) (size : ℕ) (l : List α) : List α :=
  l.drop (takeLine nl (size - 1) l).length

theorem takeLine_behindLine (nl : α) (size : ℕ) (l : List α) :
    takeLine nl (size - 1) l ++ behindLine nl size l = l :=
  takeLine_append_drop nl (size - 1) l

theorem length_behindLine_lt (nl : α) (hsize : 2 ≤ size) (hl : l ≠ []) :
    (behindLine nl size l).length < l.length := by
  have hpos := takeLine_length_pos nl (show 0 < size - 1 by omega) hl
  have hlen := congrArg List.length (takeLine_behindLine nl size l)
  rw [List.length_append] at hlen
  omega

theorem linesUpTo_succ (hl : l ≠ []) (calls : ℕ) :
    linesUpTo nl size (calls + 1) l =
      takeLine nl (size - 1) l :: linesUpTo nl size calls (behindLine nl size l) := by
  rw [linesUpTo, fgets, if_neg (by simpa using hl)]
  rfl

theorem linesUpTo_nil (calls : ℕ) : linesUpTo nl size calls [] = [] := by
  cases calls with
  | zero => rfl
  | succ calls => rfl

/-- More calls than elements read nothing more. -/
theorem linesUpTo_stable (hsize : 2 ≤ size) {calls : ℕ} (h : l.length ≤ calls) :
    linesUpTo nl size (calls + 1) l = linesUpTo nl size calls l := by
  induction calls generalizing l with
  | zero =>
    rw [List.eq_nil_of_length_eq_zero (Nat.le_zero.mp h)]
    rfl
  | succ calls ih =>
    by_cases hl : l = []
    · rw [hl, linesUpTo_nil, linesUpTo_nil]
    · have hlt := length_behindLine_lt nl hsize hl
      rw [linesUpTo_succ hl, linesUpTo_succ hl, ih (by omega)]

theorem linesUpTo_eq (hsize : 2 ≤ size) {calls : ℕ} (h : l.length ≤ calls) :
    linesUpTo nl size calls l = lines nl size l := by
  induction h with
  | refl => rfl
  | step h ih => rw [linesUpTo_stable hsize h, ih]

theorem lines_cons (hsize : 2 ≤ size) (hl : l ≠ []) :
    lines nl size l = takeLine nl (size - 1) l :: lines nl size (behindLine nl size l) := by
  have hlt := length_behindLine_lt nl hsize hl
  obtain ⟨calls, hcalls⟩ : ∃ calls, l.length = calls + 1 := ⟨l.length - 1, by omega⟩
  rw [lines, hcalls, linesUpTo_succ hl, linesUpTo_eq hsize (by omega)]

/-- Induction along the calls of `fgets`. -/
theorem lines_induction {P : List α → Prop} (nl : α) (hsize : 2 ≤ size) (nil : P [])
    (cons : ∀ l, l ≠ [] → P (behindLine nl size l) → P l) (l : List α) : P l := by
  induction h : l.length using Nat.strongRecOn generalizing l with
  | _ n ih =>
    by_cases hl : l = []
    · rw [hl]
      exact nil
    · exact cons l hl (ih _ (h ▸ length_behindLine_lt nl hsize hl) _ rfl)

/-- Nothing is lost. -/
theorem flatten_lines (nl : α) (hsize : 2 ≤ size) (l : List α) : (lines nl size l).flatten = l := by
  induction l using lines_induction nl hsize with
  | nil => rfl
  | cons l hl ih => rw [lines_cons hsize hl, List.flatten_cons, ih, takeLine_behindLine]

/-- A call reads something. -/
theorem nil_notMem_lines (nl : α) (hsize : 2 ≤ size) (l : List α) : [] ∉ lines nl size l := by
  induction l using lines_induction nl hsize with
  | nil => exact List.not_mem_nil
  | cons l hl ih =>
    have hpos := takeLine_length_pos nl (show 0 < size - 1 by omega) hl
    rw [lines_cons hsize hl, List.mem_cons]
    rintro (hnil | hmem)
    · rw [← hnil, List.length_nil] at hpos
      omega
    · exact ih hmem

theorem length_le_of_mem_lines (hsize : 2 ≤ size) (hd : d ∈ lines nl size l) :
    d.length ≤ size - 1 := by
  induction l using lines_induction nl hsize with
  | nil => cases hd
  | cons l hl ih =>
    rw [lines_cons hsize hl] at hd
    rcases List.mem_cons.mp hd with rfl | hd
    · exact length_takeLine_le nl _ l
    · exact ih hd

/-- A given line is read as a piece of its own if it stands at the start of a line, or
    behind full buffers of one. -/
theorem mem_lines_of_eq (hsize : 2 ≤ size) (hd : nl ∉ d) (hlen : d.length + 1 < size)
    (ha : EndsLine nl a) (hw : nl ∉ w) (hdvd : size - 1 ∣ w.length)
    (hl : l = a ++ (w ++ (d ++ nl :: b))) : d ++ [nl] ∈ lines nl size l := by
  induction l using lines_induction nl hsize generalizing a w with
  | nil => simp at hl
  | cons l hne ih =>
    rw [lines_cons hsize hne]
    by_cases hanil : a = []
    · by_cases hwnil : w = []
      · subst hanil hwnil
        rw [List.nil_append, List.nil_append] at hl
        rw [hl, takeLine_line hd (by omega)]
        exact List.mem_cons_self
      · have hfull : size - 1 ≤ w.length :=
          Nat.le_of_dvd (List.length_pos_iff.mpr hwnil) hdvd
        have hline : takeLine nl (size - 1) l = w.take (size - 1) := by
          rw [hl, hanil, List.nil_append, takeLine_long hw hfull]
        have hrest : behindLine nl size l = w.drop (size - 1) ++ (d ++ nl :: b) := by
          rw [behindLine, hline, hl, hanil, List.nil_append, List.length_take_of_le hfull,
            List.drop_append_of_le_length hfull]
        apply List.mem_cons_of_mem
        apply ih (a := []) (w := w.drop (size - 1)) (.inl rfl)
        · exact fun hmem => hw (List.mem_of_mem_drop hmem)
        · rw [List.length_drop]
          exact Nat.dvd_sub hdvd (Nat.dvd_refl _)
        · exact hrest
    · have hline : takeLine nl (size - 1) l = takeLine nl (size - 1) a := by
        rw [hl, takeLine_append_of_mem (ha.mem hanil)]
      have hle : (takeLine nl (size - 1) a).length ≤ a.length :=
        (takeLine_isPrefix nl (size - 1) a).length_le
      apply List.mem_cons_of_mem
      apply ih (a := a.drop (takeLine nl (size - 1) a).length) (w := w) (ha.drop _) hw hdvd
      rw [behindLine, hline, hl, List.drop_append_of_le_length hle]

/-- **Where a line is read as a piece.** -/
theorem mem_lines_iff (hsize : 2 ≤ size) (hd : nl ∉ d) (hlen : d.length + 1 < size) :
    d ++ [nl] ∈ lines nl size l ↔ ∃ a w b, l = a ++ (w ++ (d ++ nl :: b)) ∧ EndsLine nl a ∧
      nl ∉ w ∧ size - 1 ∣ w.length := by
  constructor
  · intro hmem
    induction l using lines_induction nl hsize with
    | nil => cases hmem
    | cons l hl ih =>
      have hsplit := takeLine_behindLine nl size l
      rw [lines_cons hsize hl] at hmem
      rcases List.mem_cons.mp hmem with heq | hmem
      · refine ⟨[], [], behindLine nl size l, ?_, .inl rfl, List.not_mem_nil, Nat.dvd_zero _⟩
        calc l = takeLine nl (size - 1) l ++ behindLine nl size l := hsplit.symm
          _ = [] ++ ([] ++ (d ++ nl :: behindLine nl size l)) := by rw [← heq]; simp
      · obtain ⟨a, w, b, hrest, ha, hw, hdvd⟩ := ih hmem
        rw [hrest] at hsplit
        rcases takeLine_cases nl (size - 1) l with hlast | ⟨hnot, hfull | hall⟩
        · -- the piece ends a line, so it goes in front of the lines before
          refine ⟨takeLine nl (size - 1) l ++ a, w, b, ?_, ?_, hw, hdvd⟩
          · rw [List.append_assoc, hsplit]
          · right
            rw [List.getLast?_append, hlast]
            rcases ha with rfl | ha
            · rfl
            · rw [ha]
              rfl
        · by_cases hanil : a = []
          · -- a full buffer in front of the line itself
            refine ⟨[], takeLine nl (size - 1) l ++ w, b, ?_, .inl rfl, ?_, ?_⟩
            · calc l = takeLine nl (size - 1) l ++ (a ++ (w ++ (d ++ nl :: b))) := hsplit.symm
                _ = [] ++ (takeLine nl (size - 1) l ++ w ++ (d ++ nl :: b)) := by rw [hanil]; simp
            · simp [hnot, hw]
            · rw [List.length_append, hfull]
              exact Nat.dvd_add (Nat.dvd_refl _) hdvd
          · refine ⟨takeLine nl (size - 1) l ++ a, w, b, ?_, ?_, hw, hdvd⟩
            · rw [List.append_assoc, hsplit]
            · right
              rw [List.getLast?_append, ha.resolve_left hanil]
              rfl
        · -- the text ends here
          rw [hall] at hsplit
          have hnil := List.append_right_eq_self.mp hsplit
          simp at hnil
  · rintro ⟨a, w, b, hl, ha, hw, hdvd⟩
    exact mem_lines_of_eq hsize hd hlen ha hw hdvd hl

end ChatOnC.Common
