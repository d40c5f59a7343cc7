import ChatOnC.Checksum.Words
import ChatOnC.Common.OnesComplement

/-!
# `compute_checksum` is the Internet checksum

The sum of a buffer below 2⁴⁸ bytes fits into an `unsigned long`. Each round of
the second loop is one end-around carry, so the loop ends with the digit that
ones'-complement arithmetic assigns to the sum.

* `computeSum_ok`: the sum over the buffer is exact.
* `foldLoop_ends`: the second loop ends, and with which digit.
* `computeChecksum_internet`: the answer of the function.
-/

namespace ChatOnC.Checksum

open ChatOnC.Common

/-- The sum is `n`, and no addition has wrapped. -/
def ULong.Holds (sum : ULong) (n : ℕ) : Prop := sum.val.toNat = n ∧ sum.wrapped = false

theorem ULong.holds_add {sum : ULong} {n : ℕ} {x : BitVec 64} (h : sum.Holds n)
    (hlt : n + x.toNat < 2 ^ 64) : (sum.add x).Holds (n + x.toNat) := by
  obtain ⟨rfl, hw⟩ := h
  have hover : sum.val.uaddOverflow x = false := by
    rw [BitVec.uaddOverflow, decide_eq_false_iff_not]
    omega
  constructor
  · rw [ULong.add, BitVec.toNat_add, Nat.mod_eq_of_lt hlt]
  · rw [ULong.add, hw, hover, Bool.or_false]

theorem setWidth_byte (c : UInt8) :
    c.toBitVec.setWidth 64 = (c.toBitVec.setWidth 16).setWidth 64 := by
  apply BitVec.eq_of_toNat_eq
  have hc := c.toBitVec.isLt
  rw [BitVec.toNat_setWidth, BitVec.toNat_setWidth, BitVec.toNat_setWidth]
  omega

theorem toNat_setWidth_word (x : BitVec 16) : (x.setWidth 64).toNat = x.toNat := by
  rw [BitVec.toNat_setWidth]
  have hx := x.isLt
  omega

/-- The sum over the buffer is the sum of its words, if that fits. -/
theorem computeSum_ok {buffer : List UInt8} {length : ℕ} (hbuf : length ≤ buffer.length)
    (hsum : wordSum (buffer.take length) < 2 ^ 64) :
    ∃ sum, computeSum buffer length = .ok sum ∧ sum.Holds (wordSum (buffer.take length)) := by
  have hadd : ∀ (s : ULong) (n : ℕ) (x : BitVec 16), s.Holds n → n + x.toNat < 2 ^ 64 →
      ∃ s', (pure (s.add (x.setWidth 64)) : Except Fault ULong) = .ok s' ∧
        s'.Holds (n + x.toNat) := by
    intro s n x hs hlt
    rw [← toNat_setWidth_word x] at hlt ⊢
    exact ⟨_, rfl, ULong.holds_add hs hlt⟩
  have hstart : ULong.Holds ⟨0, false⟩ 0 := ⟨rfl, rfl⟩
  rw [← sum_words, ← Nat.zero_add (List.sum _)] at hsum
  obtain ⟨sum, hfold, hholds⟩ := foldlM_ok hadd hstart hsum
  rw [sum_words, Nat.zero_add] at hholds
  refine ⟨sum, ?_, hholds⟩
  rw [computeSum, sumWords_bind _ _ hbuf, hfold]
  · intro sum w
    rfl
  · intro sum c w
    rw [← setWidth_byte c]
    rfl

/-! ## The fold -/

theorem foldRound_stop {sum : ULong} (h : sum.val.toNat < 65536) : foldRound sum = .inr sum := by
  have hshift : sum.val >>> 16 = 0 := by
    apply BitVec.eq_of_toNat_eq
    rw [BitVec.toNat_ushiftRight, Nat.shiftRight_eq_div_pow, Nat.div_eq_of_lt h]
    rfl
  rw [foldRound, if_neg (not_not_intro hshift)]

/-- A round is an end-around carry. -/
theorem foldRound_again {sum : ULong} {n : ℕ} (h : sum.Holds n) (hge : 65536 ≤ n) :
    ∃ sum', foldRound sum = .inl sum' ∧ sum'.Holds (carry 65536 n) := by
  obtain ⟨rfl, hw⟩ := h
  have hhigh : (sum.val >>> 16).toNat = sum.val.toNat / 65536 := by
    rw [BitVec.toNat_ushiftRight, Nat.shiftRight_eq_div_pow]
  have hlow : (sum.val &&& 0xFFFF).toNat = sum.val.toNat % 65536 := by
    rw [BitVec.toNat_and]
    exact Nat.and_two_pow_sub_one_eq_mod _ 16
  have hne : sum.val >>> 16 ≠ 0 := by
    intro h0
    rw [h0] at hhigh
    simp at hhigh
    omega
  refine ⟨_, by rw [foldRound, if_pos hne], ?_⟩
  have hlt := sum.val.isLt
  have hmasked : ULong.Holds ⟨sum.val &&& 0xFFFF, sum.wrapped⟩ (sum.val.toNat % 65536) :=
    ⟨hlow, hw⟩
  have hadd := ULong.holds_add hmasked (x := sum.val >>> 16) (by rw [hhigh]; omega)
  rwa [hhigh] at hadd

/-- The second loop ends with the digit the sum is carried to. -/
theorem foldLoop_ends {sum : ULong} {n : ℕ} (h : sum.Holds n) :
    ∃ sum', LoopEnds foldRound sum sum' ∧ sum'.val.toNat < 65536 ∧
      sum'.Holds (onesDigit 65536 n) := by
  apply loopEnds_of_variant (fun s => ∃ m, s.Holds m ∧ onesDigit 65536 m = onesDigit 65536 n)
    (fun s => s.val.toNat) _ ⟨n, h, rfl⟩
  rintro s ⟨m, hs, hm⟩
  by_cases hlt : m < 65536
  · rw [onesDigit_of_lt hlt] at hm
    rw [← hm]
    exact .inr ⟨s, foldRound_stop (by rw [hs.1]; exact hlt), by rw [hs.1]; exact hlt, hs⟩
  · obtain ⟨s', hr, hs'⟩ := foldRound_again hs (by omega)
    refine .inl ⟨s', hr, ⟨_, hs', ?_⟩, ?_⟩
    · rw [onesDigit_carry (by omega), hm]
    · rw [hs'.1, hs.1]
      exact carry_lt (by omega) (by omega)

theorem toNat_answer {v : BitVec 64} (h : v.toNat < 65536) :
    ((~~~v).setWidth 16).toNat = 65535 - v.toNat := by
  rw [BitVec.toNat_setWidth, BitVec.toNat_not]
  omega

/-- What the function returns while the sum fits into an `unsigned long`. -/
theorem computeChecksum_ok {buffer : List UInt8} {length : ℕ} (hbuf : length ≤ buffer.length)
    (hlen : length < 2 ^ 48) :
    ∃ answer, ComputeChecksumReturns buffer length (.ok (answer, false)) ∧
      answer.toNat = 65535 - onesDigit 65536 (wordSum (buffer.take length)) := by
  have hfits : wordSum (buffer.take length) < 2 ^ 64 := by
    have hle := wordSum_le (buffer.take length)
    rw [List.length_take_of_le hbuf] at hle
    omega
  obtain ⟨sum, hsum, hholds⟩ := computeSum_ok hbuf hfits
  obtain ⟨sum', ⟨fuel, hloop⟩, hlt, hdigit⟩ := foldLoop_ends hholds
  refine ⟨(~~~sum'.val).setWidth 16, ⟨fuel, ?_⟩, ?_⟩
  · simp only [computeChecksum, hsum, hloop, Option.map_some, hdigit.2]
  · rw [toNat_answer hlt, hdigit.1]

/-- More rounds than the second loop needs change nothing. -/
theorem computeChecksum_mono {buffer : List UInt8} {length fuel fuel' : ℕ}
    {result : Except Fault (BitVec 16 × Bool)} (hle : fuel ≤ fuel')
    (h : computeChecksum fuel buffer length = some result) :
    computeChecksum fuel' buffer length = some result := by
  cases hsum : computeSum buffer length with
  | error e =>
    simp only [computeChecksum, hsum] at h ⊢
    exact h
  | ok sum =>
    simp only [computeChecksum, hsum, Option.map_eq_some_iff] at h ⊢
    obtain ⟨sum', hloop, hresult⟩ := h
    exact ⟨sum', loop_mono hle hloop, hresult⟩

/-- **The Internet checksum.** For a buffer below 2⁴⁸ bytes no addition wraps, the
    loops end, and the answer is the complement of the digit the sum of the words
    is carried to. -/
theorem computeChecksum_internet {buffer : List UInt8} {length S : ℕ}
    (hbuf : length ≤ buffer.length) (hlen : length < 2 ^ 48)
    (hS : S = wordSum (buffer.take length)) :
    ∃ rounds answer,
      (∀ fuel ≥ rounds, computeChecksum fuel buffer length = some (.ok (answer, false))) ∧
      answer.toNat = 65535 - (if S = 0 then 0 else (S - 1) % 65535 + 1) := by
  obtain ⟨answer, ⟨rounds, hreturns⟩, hanswer⟩ := computeChecksum_ok hbuf hlen
  refine ⟨rounds, answer, fun fuel hfuel => computeChecksum_mono hfuel hreturns, ?_⟩
  rw [hanswer, hS, onesDigit]

/-- A buffer of three bytes: the words are `0x3412` and `0x56`. -/
theorem computeChecksum_internet_threeBytes :
    ∃ rounds answer,
      (∀ fuel ≥ rounds,
        computeChecksum fuel [0x12, 0x34, 0x56] 3 = some (.ok (answer, false))) ∧
      answer.toNat = 65535 - 13416 := by
  obtain ⟨rounds, answer, hreturns, hanswer⟩ :=
    @computeChecksum_internet [0x12, 0x34, 0x56] 3 13416 (by decide) (by decide) (by decide)
  exact ⟨rounds, answer, hreturns, hanswer⟩

end ChatOnC.Checksum
