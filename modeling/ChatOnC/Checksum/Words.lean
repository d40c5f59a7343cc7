import ChatOnC.Checksum.Model
import Mathlib.Data.Nat.ModEq

/-!
# The sum over a buffer

Both functions add the same numbers in the same order, each into a sum of its
own type.

* `sumWords_bind`: the loop and the addition of the odd byte are one fold over
  the words of the buffer.
* `foldlM_ok`, `foldlM_error`: what the fold gives if an addition is exact below a
  bound, and fails from that bound on.
* `wordSum_le`: how large the sum of a buffer can be.
* `wordSum_append`, `wordSum_replace`: the sum of a buffer put behind another one,
  and what a change of one byte does to it.
-/

namespace ChatOnC.Checksum

theorem toNat_word (lo hi : UInt8) : (word lo hi).toNat = lo.toNat + 256 * hi.toNat := by
  have hlo : lo.toBitVec.toNat < 2 ^ 8 := lo.toBitVec.isLt
  rw [word, BitVec.toNat_append, ← Nat.shiftLeft_add_eq_or_of_lt hlo, Nat.shiftLeft_eq,
    UInt8.toNat_toBitVec, UInt8.toNat_toBitVec]
  omega

theorem toNat_setWidth_byte (c : UInt8) : (c.toBitVec.setWidth 16).toNat = c.toNat := by
  rw [BitVec.toNat_setWidth, UInt8.toNat_toBitVec]
  have hc := c.toNat_lt
  omega

theorem sum_words (buf : List UInt8) : ((words buf).map BitVec.toNat).sum = wordSum buf := by
  fun_induction words buf with
  | case1 lo hi buf ih => rw [List.map_cons, List.sum_cons, ih, toNat_word, wordSum]
  | case2 c => rw [List.map_singleton, List.sum_singleton, toNat_setWidth_byte, wordSum]
  | case3 => rfl

theorem wordSum_le (buf : List UInt8) : wordSum buf ≤ 65535 * ((buf.length + 1) / 2) := by
  fun_induction wordSum buf with
  | case1 lo hi buf ih =>
    have hlo := lo.toNat_lt
    have hhi := hi.toNat_lt
    rw [List.length_cons, List.length_cons]
    omega
  | case2 c =>
    have hc := c.toNat_lt
    rw [List.length_singleton]
    omega
  | case3 => exact Nat.zero_le _

/-- A buffer of one byte repeated. -/
theorem wordSum_replicate (n : ℕ) (c : UInt8) :
    wordSum (List.replicate (2 * n) c) = n * (257 * c.toNat) := by
  induction n with
  | zero => simp [wordSum]
  | succ n ih =>
    rw [Nat.mul_add, List.replicate_succ, List.replicate_succ, wordSum, ih,
      Nat.add_mul n, Nat.one_mul]
    omega

/-- A buffer behind whole words. -/
theorem wordSum_append {p : List UInt8} (q : List UInt8) (heven : p.length % 2 = 0) :
    wordSum (p ++ q) = wordSum p + wordSum q := by
  fun_induction wordSum p with
  | case1 lo hi p ih =>
    rw [List.length_cons, List.length_cons] at heven
    rw [List.cons_append, List.cons_append, wordSum, ih (by omega)]
    omega
  | case2 c => simp at heven
  | case3 => rw [List.nil_append, Nat.zero_add]

theorem toNat_extractByte (x : BitVec 16) (i : ℕ) :
    (UInt8.ofBitVec (x.extractLsb' i 8)).toNat = x.toNat / 2 ^ i % 256 := by
  rw [UInt8.toNat_ofBitVec, BitVec.extractLsb'_toNat, Nat.shiftRight_eq_div_pow]

theorem wordSum_shortBytes (x : BitVec 16) : wordSum (shortBytes x) = x.toNat := by
  have hx := x.isLt
  unfold shortBytes
  rw [wordSum, wordSum, toNat_extractByte, toNat_extractByte]
  omega

theorem wordSum_take_le (k : ℕ) (buf : List UInt8) : wordSum (buf.take k) ≤ wordSum buf := by
  fun_induction wordSum buf generalizing k with
  | case1 lo hi buf ih =>
    match k with
    | 0 => exact Nat.zero_le _
    | 1 =>
      rw [List.take_succ_cons, List.take_zero, wordSum]
      omega
    | k + 2 =>
      have hk := ih k
      rw [List.take_succ_cons, List.take_succ_cons, wordSum]
      omega
  | case2 c =>
    match k with
    | 0 => exact Nat.zero_le _
    | k + 1 => rw [List.take_succ_cons, List.take_nil, wordSum]
  | case3 => rw [List.take_nil, wordSum]

theorem toNat_eq_zero_iff (c : UInt8) : c.toNat = 0 ↔ c = 0 := by
  rw [← UInt8.toNat_inj]
  rfl

theorem wordSum_eq_zero_iff (buf : List UInt8) : wordSum buf = 0 ↔ ∀ c ∈ buf, c = 0 := by
  fun_induction wordSum buf with
  | case1 lo hi buf ih =>
    rw [List.forall_mem_cons, List.forall_mem_cons, ← ih, ← toNat_eq_zero_iff lo,
      ← toNat_eq_zero_iff hi]
    omega
  | case2 c => rw [List.forall_mem_singleton, toNat_eq_zero_iff]
  | case3 => simp

theorem wordSum_pair (lo hi : UInt8) : wordSum [lo, hi] = lo.toNat + 256 * hi.toNat := by
  rw [wordSum, wordSum, Nat.add_zero]

theorem pair_zeros_iff {lo hi : UInt8} : wordSum [lo, hi] = 0 ↔ [lo, hi] = [0, 0] := by
  rw [wordSum_eq_zero_iff]
  simp

theorem pair_ones_iff {lo hi : UInt8} : wordSum [lo, hi] = 65535 ↔ [lo, hi] = [0xFF, 0xFF] := by
  have hlo : lo.toNat = 255 ↔ lo = 0xFF := UInt8.toNat_inj (b := 0xFF)
  have hhi : hi.toNat = 255 ↔ hi = 0xFF := UInt8.toNat_inj (b := 0xFF)
  have hlo' := lo.toNat_lt
  have hhi' := hi.toNat_lt
  simp only [List.cons.injEq, and_true, ← hlo, ← hhi, wordSum_pair]
  omega

/-! ## One changed byte -/

/-- What a byte counts in the sum: it is the low or the high half of its word. -/
def weight (i : ℕ) : ℕ := if i % 2 = 0 then 1 else 256

theorem weight_add_two (i : ℕ) : weight (i + 2) = weight i := by
  unfold weight
  rw [Nat.add_mod_right]

theorem wordSum_replace (a b : List UInt8) (c c' : UInt8) :
    wordSum (a ++ c :: b) + weight a.length * c'.toNat =
      wordSum (a ++ c' :: b) + weight a.length * c.toNat := by
  fun_induction wordSum a with
  | case1 lo hi a ih =>
    rw [List.cons_append, List.cons_append, List.cons_append, List.cons_append, wordSum, wordSum,
      List.length_cons, List.length_cons, weight_add_two]
    omega
  | case2 lo =>
    have hweight : weight 1 = 256 := rfl
    rw [List.singleton_append, List.singleton_append, wordSum, wordSum, List.length_singleton,
      hweight]
    omega
  | case3 =>
    have hweight : weight 0 = 1 := rfl
    rw [List.nil_append, List.nil_append, List.length_nil, hweight]
    match b with
    | [] =>
      rw [wordSum, wordSum]
      omega
    | hi :: b =>
      rw [wordSum, wordSum]
      omega

/-- The buffers have the same length, and the byte at `i` is where they differ. -/
def DiffersAt (i : ℕ) (Q Q' : List UInt8) : Prop :=
  Q'.length = Q.length ∧ Q'[i]? ≠ Q[i]? ∧ ∀ j, j ≠ i → Q'[j]? = Q[j]?

/-- The buffers have the same length and differ in exactly one byte. -/
def DiffersInOneByte (Q Q' : List UInt8) : Prop := ∃ i, DiffersAt i Q Q'

theorem DiffersAt.split {i : ℕ} {Q Q' : List UInt8} (h : DiffersAt i Q Q') :
    ∃ a c c' b, Q = a ++ c :: b ∧ Q' = a ++ c' :: b ∧ c ≠ c' := by
  obtain ⟨hlen, hi, hother⟩ := h
  have hlt : i < Q.length := by
    by_contra hge
    apply hi
    rw [List.getElem?_eq_none (by omega), List.getElem?_eq_none (by omega)]
  have hlt' : i < Q'.length := by omega
  have htake : Q'.take i = Q.take i := by
    apply List.ext_getElem?
    intro j
    rw [List.getElem?_take, List.getElem?_take]
    split_ifs with hj
    · exact hother j (by omega)
    · rfl
  have hdrop : Q'.drop (i + 1) = Q.drop (i + 1) := by
    apply List.ext_getElem?
    intro j
    rw [List.getElem?_drop, List.getElem?_drop]
    exact hother _ (by omega)
  refine ⟨Q.take i, Q[i], Q'[i], Q.drop (i + 1), ?_, ?_, ?_⟩
  · rw [← List.drop_eq_getElem_cons hlt, List.take_append_drop]
  · rw [← htake, ← hdrop, ← List.drop_eq_getElem_cons hlt', List.take_append_drop]
  · intro heq
    apply hi
    rw [List.getElem?_eq_getElem hlt, List.getElem?_eq_getElem hlt', heq]

/-- A change of one byte changes the sum, and its residue modulo 65535. -/
theorem DiffersAt.sum_mod_ne {i : ℕ} {Q Q' : List UInt8} (h : DiffersAt i Q Q') :
    wordSum Q % 65535 ≠ wordSum Q' % 65535 := by
  obtain ⟨a, c, c', b, rfl, rfl, hne⟩ := h.split
  have hreplace := wordSum_replace a b c c'
  have hbytes : c.toNat ≠ c'.toNat := fun heq => hne (UInt8.toNat_inj.mp heq)
  have hc := c.toNat_lt
  have hc' := c'.toNat_lt
  -- the sums differ by at least 1 and by at most 256 * 255
  unfold weight at hreplace
  split_ifs at hreplace <;> omega

section Fold

variable {σ : Type*} {add : σ → BitVec 16 → Except Fault σ}

/-- The loop over the words, and then the odd byte: a fold over the words of the
    bytes that are summed. -/
theorem sumWords_bind {finish : σ × List UInt8 × ℕ → Except Fault σ}
    (heven : ∀ sum w, finish (sum, w, 0) = .ok sum)
    (hodd : ∀ sum c w, finish (sum, c :: w, 1) = add sum (c.toBitVec.setWidth 16))
    {sum : σ} {w : List UInt8} {left : ℕ} (h : left ≤ w.length) :
    (sumWords add sum w left >>= finish) = (words (w.take left)).foldlM add sum := by
  fun_induction sumWords add sum w left with
  | case1 sum lo hi w left ih =>
    have hlen : left ≤ w.length := by
      rw [List.length_cons, List.length_cons] at h
      omega
    rw [List.take_succ_cons, List.take_succ_cons, words, List.foldlM_cons, bind_assoc]
    congr 1
    funext sum'
    exact ih sum' hlen
  | case2 w sum left hw =>
    match w with
    | [] => simp at h
    | [c] => simp at h
    | lo :: hi :: w => exact (hw lo hi w rfl).elim
  | case3 sum w left h1 h2 =>
    match left, w with
    | 0, w =>
      rw [List.take_zero, words, List.foldlM_nil]
      exact heven sum w
    | 1, [] => simp at h
    | 1, c :: w =>
      rw [List.take_succ_cons, List.take_zero, words, List.foldlM_cons]
      simp only [List.foldlM_nil, bind_pure]
      exact hodd sum c w
    | left + 2, w => exact (h2 left rfl).elim

variable {R : σ → ℕ → Prop} {M : ℕ}

/-- Additions that are exact below `M` add up a list whose sum is below `M`. -/
theorem foldlM_ok
    (hadd : ∀ s n x, R s n → n + x.toNat < M → ∃ s', add s x = .ok s' ∧ R s' (n + x.toNat))
    {ws : List (BitVec 16)} {s : σ} {n : ℕ} (hs : R s n)
    (hsum : n + (ws.map BitVec.toNat).sum < M) :
    ∃ s', ws.foldlM add s = .ok s' ∧ R s' (n + (ws.map BitVec.toNat).sum) := by
  induction ws generalizing s n with
  | nil => exact ⟨s, rfl, hs⟩
  | cons x ws ih =>
    rw [List.map_cons, List.sum_cons, ← Nat.add_assoc] at hsum ⊢
    obtain ⟨t, ht, hR⟩ := hadd s n x hs (by omega)
    obtain ⟨s', hs', hR'⟩ := ih hR hsum
    refine ⟨s', ?_, hR'⟩
    rw [List.foldlM_cons, ht]
    exact hs'

/-- Additions that fail from `M` on fail on a list whose sum reaches `M`. -/
theorem foldlM_error {e : Fault}
    (hadd : ∀ s n x, R s n → n + x.toNat < M → ∃ s', add s x = .ok s' ∧ R s' (n + x.toNat))
    (hover : ∀ s n x, R s n → M ≤ n + x.toNat → add s x = .error e)
    {ws : List (BitVec 16)} {s : σ} {n : ℕ} (hs : R s n) (hn : n < M)
    (hsum : M ≤ n + (ws.map BitVec.toNat).sum) : ws.foldlM add s = .error e := by
  induction ws generalizing s n with
  | nil =>
    rw [List.map_nil, List.sum_nil] at hsum
    omega
  | cons x ws ih =>
    rw [List.map_cons, List.sum_cons, ← Nat.add_assoc] at hsum
    rw [List.foldlM_cons]
    by_cases hx : n + x.toNat < M
    · obtain ⟨t, ht, hR⟩ := hadd s n x hs hx
      rw [ht]
      exact ih hR hx hsum
    · rw [hover s n x hs (by omega)]
      rfl

end Fold

end ChatOnC.Checksum
