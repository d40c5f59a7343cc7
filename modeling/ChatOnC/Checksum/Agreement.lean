import ChatOnC.Checksum.Internet

/-!
# Where `calculate_checksum` agrees with `compute_checksum`

The sum of `calculate_checksum` is an `int`. As long as the sum of the buffer is at
most `INT_MAX`, nothing overflows and two folds leave one digit, the same that
`compute_checksum` ends with. From there on an addition overflows.

* `calculateSum_ok`, `calculateSum_overflow`: the sum over the buffer.
* `foldTwice_ok`: two folds are enough for an `int`.
* `calculateChecksum_ok`, `calculateChecksum_overflow`: what the function returns.
* `agree_iff_sum`: the two functions agree exactly on sums of at most `INT_MAX`.
-/

namespace ChatOnC.Checksum

open ChatOnC.Common

/-- The sum, an `int`, is the number `n`. -/
def IntHolds (sum : BitVec 32) (n : ℕ) : Prop := sum.toNat = n ∧ n < 2 ^ 31

theorem IntHolds.toInt {sum : BitVec 32} {n : ℕ} (h : IntHolds sum n) : sum.toInt = n := by
  obtain ⟨rfl, hlt⟩ := h
  apply BitVec.toInt_eq_toNat_of_lt
  omega

theorem addInt_ok {sum x : BitVec 32} {m n : ℕ} (hs : IntHolds sum m) (hx : IntHolds x n)
    (hlt : m + n < 2 ^ 31) : ∃ s', addInt sum x = .ok s' ∧ IntHolds s' (m + n) := by
  have hover : sum.saddOverflow x = false := by
    rw [BitVec.saddOverflow, hs.toInt, hx.toInt, Bool.or_eq_false_iff, decide_eq_false_iff_not,
      decide_eq_false_iff_not]
    omega
  refine ⟨sum + x, by rw [addInt, hover]; rfl, ?_, hlt⟩
  rw [BitVec.toNat_add, hs.1, hx.1, Nat.mod_eq_of_lt (by omega)]

theorem addInt_overflow {sum x : BitVec 32} {m n : ℕ} (hs : IntHolds sum m) (hx : IntHolds x n)
    (hge : 2 ^ 31 ≤ m + n) : addInt sum x = .error .signedOverflow := by
  have hover : sum.saddOverflow x = true := by
    rw [BitVec.saddOverflow, hs.toInt, hx.toInt, Bool.or_eq_true, decide_eq_true_eq]
    omega
  rw [addInt, hover]
  rfl

theorem intHolds_word (x : BitVec 16) : IntHolds (x.setWidth 32) x.toNat := by
  have hx := x.isLt
  constructor
  · rw [BitVec.toNat_setWidth]
    omega
  · omega

theorem setLowByte_zero (c : UInt8) : setLowByte 0 c = c.toBitVec.setWidth 16 := by
  apply BitVec.eq_of_toNat_eq
  have hc := c.toBitVec.isLt
  rw [setLowByte, BitVec.toNat_append, BitVec.toNat_setWidth, Nat.mod_eq_of_lt (by omega)]
  simp

theorem calculateSum_eq {paddress : List UInt8} {len : ℕ} (hbuf : len ≤ paddress.length) :
    calculateSum paddress len =
      (words (paddress.take len)).foldlM (fun sum x => addInt sum (x.setWidth 32)) 0 := by
  rw [calculateSum, sumWords_bind _ _ hbuf]
  · intro sum w
    rfl
  · intro sum c w
    rw [← setLowByte_zero c]
    rfl

theorem addWord_ok (s : BitVec 32) (n : ℕ) (x : BitVec 16) (hs : IntHolds s n)
    (hlt : n + x.toNat < 2 ^ 31) :
    ∃ s', addInt s (x.setWidth 32) = .ok s' ∧ IntHolds s' (n + x.toNat) :=
  addInt_ok hs (intHolds_word x) hlt

theorem intHolds_zero : IntHolds 0 0 := ⟨rfl, by decide⟩

/-- A sum of at most `INT_MAX` is exact. -/
theorem calculateSum_ok {paddress : List UInt8} {len : ℕ} (hbuf : len ≤ paddress.length)
    (hsum : wordSum (paddress.take len) < 2 ^ 31) :
    ∃ sum, calculateSum paddress len = .ok sum ∧ IntHolds sum (wordSum (paddress.take len)) := by
  rw [calculateSum_eq hbuf]
  rw [← sum_words, ← Nat.zero_add (List.sum _)] at hsum ⊢
  exact foldlM_ok addWord_ok intHolds_zero hsum

/-- A larger sum overflows. -/
theorem calculateSum_overflow {paddress : List UInt8} {len : ℕ} (hbuf : len ≤ paddress.length)
    (hsum : 2 ^ 31 ≤ wordSum (paddress.take len)) :
    calculateSum paddress len = .error .signedOverflow := by
  rw [calculateSum_eq hbuf]
  rw [← sum_words, ← Nat.zero_add (List.sum _)] at hsum
  exact foldlM_error addWord_ok (fun s n x hs => addInt_overflow hs (intHolds_word x))
    intHolds_zero (by decide) hsum

/-- Only the bytes that are summed count. -/
theorem calculateChecksum_congr {p q : List UInt8} {len : ℕ} (hp : len ≤ p.length)
    (hq : len ≤ q.length) (h : p.take len = q.take len) :
    calculateChecksum p len = calculateChecksum q len := by
  rw [calculateChecksum, calculateChecksum, calculateSum_eq hp, calculateSum_eq hq, h]

/-! ## The two folds -/

theorem toNat_high {sum : BitVec 32} {n : ℕ} (h : IntHolds sum n) :
    IntHolds (sum.sshiftRight 16) (n / 65536) := by
  have hmsb : sum.msb = false := by
    rw [BitVec.msb_eq_false_iff_two_mul_lt]
    have := h.2
    rw [h.1]
    omega
  constructor
  · rw [BitVec.sshiftRight_eq_of_msb_false hmsb, BitVec.toNat_ushiftRight,
      Nat.shiftRight_eq_div_pow, h.1]
  · have := h.2
    omega

theorem toNat_low {sum : BitVec 32} {n : ℕ} (h : IntHolds sum n) :
    IntHolds (sum &&& 0xffff) (n % 65536) := by
  constructor
  · rw [BitVec.toNat_and, h.1]
    exact Nat.and_two_pow_sub_one_eq_mod _ 16
  · omega

/-- Two folds of an `int` and the truncation leave the digit it is carried to. -/
theorem foldTwice_ok {sum : BitVec 32} {n : ℕ} (h : IntHolds sum n) :
    ∃ answer, foldTwice sum = .ok answer ∧ answer.toNat = 65535 - onesDigit 65536 n := by
  have hn := h.2
  obtain ⟨s, hs, hsum⟩ := addInt_ok (toNat_high h) (toNat_low h) (by omega)
  rw [Nat.add_comm] at hsum
  change IntHolds s (carry 65536 n) at hsum
  obtain ⟨m, hm⟩ : ∃ m, m = carry 65536 n := ⟨_, rfl⟩
  have hmlt : m ≤ 65535 + 32767 := by
    rw [hm, carry]
    omega
  rw [← hm] at hsum
  obtain ⟨t, ht, htotal⟩ := addInt_ok hsum (toNat_high hsum) (by omega)
  refine ⟨(~~~t).setWidth 16, ?_, ?_⟩
  · rw [foldTwice, hs]
    change (addInt s (s.sshiftRight 16) >>= fun sum => pure ((~~~sum).setWidth 16)) = _
    rw [ht]
    rfl
  · have hdigit : onesDigit 65536 n = (m + m / 65536) % 65536 := by
      have hc := onesDigit_carry (show 0 < 65536 by omega) m
      rw [onesDigit_of_lt (show carry 65536 m < 65536 by rw [carry]; omega)] at hc
      rw [← onesDigit_carry (show 0 < 65536 by omega) n, ← hm, ← hc, carry]
      omega
    rw [hdigit, BitVec.toNat_setWidth, BitVec.toNat_not, htotal.1]
    omega

/-- What the function returns while the sum fits into an `int`. -/
theorem calculateChecksum_ok {paddress : List UInt8} {len : ℕ} (hbuf : len ≤ paddress.length)
    (hsum : wordSum (paddress.take len) < 2 ^ 31) :
    ∃ answer, calculateChecksum paddress len = .ok answer ∧
      answer.toNat = 65535 - onesDigit 65536 (wordSum (paddress.take len)) := by
  obtain ⟨sum, hs, hholds⟩ := calculateSum_ok hbuf hsum
  obtain ⟨answer, hfold, hanswer⟩ := foldTwice_ok hholds
  refine ⟨answer, ?_, hanswer⟩
  rw [calculateChecksum, hs]
  exact hfold

theorem calculateChecksum_overflow {paddress : List UInt8} {len : ℕ}
    (hbuf : len ≤ paddress.length) (hsum : 2 ^ 31 ≤ wordSum (paddress.take len)) :
    calculateChecksum paddress len = .error .signedOverflow := by
  rw [calculateChecksum, calculateSum_overflow hbuf hsum]
  rfl

/-- When the function returns, and what. -/
theorem calculateChecksum_eq_ok_iff {paddress : List UInt8} {len : ℕ} {answer : BitVec 16}
    (hbuf : len ≤ paddress.length) : calculateChecksum paddress len = .ok answer ↔
      wordSum (paddress.take len) < 2 ^ 31 ∧
        answer.toNat = 65535 - onesDigit 65536 (wordSum (paddress.take len)) := by
  by_cases hsum : wordSum (paddress.take len) < 2 ^ 31
  · obtain ⟨a, ha, hvalue⟩ := calculateChecksum_ok hbuf hsum
    rw [ha, Except.ok.injEq, ← BitVec.toNat_inj, hvalue, eq_comm]
    exact (and_iff_right hsum).symm
  · rw [calculateChecksum_overflow hbuf (by omega)]
    exact iff_of_false nofun fun h => hsum h.1

/-- Two sums have the same answer if they are carried to the same digit. -/
theorem answer_eq_iff {a b : BitVec 16} {m n : ℕ} (ha : a.toNat = 65535 - onesDigit 65536 m)
    (hb : b.toNat = 65535 - onesDigit 65536 n) :
    a = b ↔ onesDigit 65536 m = onesDigit 65536 n := by
  have hm : onesDigit 65536 m < 65536 := onesDigit_lt (by omega) m
  have hn : onesDigit 65536 n < 65536 := onesDigit_lt (by omega) n
  rw [← BitVec.toNat_inj, ha, hb]
  omega

/-! ## Agreement -/

/-- `calculate_checksum` returns without an overflow, and `compute_checksum` returns
    the same answer. -/
def Agree (buf : List UInt8) (len : ℕ) : Prop :=
  ∃ answer wrapped, calculateChecksum buf len = .ok answer ∧
    ComputeChecksumReturns buf len (.ok (answer, wrapped))

theorem not_agree_of_overflow {buf : List UInt8} {len : ℕ} (hbuf : len ≤ buf.length)
    (hsum : 2 ^ 31 ≤ wordSum (buf.take len)) : ¬Agree buf len := by
  rintro ⟨answer, wrapped, hcalc, -⟩
  rw [calculateChecksum_overflow hbuf hsum] at hcalc
  exact nomatch hcalc

/-- **Agreement.** The two functions agree on a buffer exactly if the sum of its
    words is at most `INT_MAX`. -/
theorem agree_iff_sum {buf : List UInt8} {len : ℕ} (hbuf : len ≤ buf.length)
    (hlen : len < 2 ^ 31) : Agree buf len ↔ wordSum (buf.take len) < 2 ^ 31 := by
  constructor
  · intro h
    by_contra hge
    exact not_agree_of_overflow hbuf (by omega) h
  · intro hsum
    obtain ⟨answer, hcalc, hanswer⟩ := calculateChecksum_ok hbuf hsum
    obtain ⟨answer', hreturns, hanswer'⟩ := computeChecksum_ok hbuf (by omega)
    have heq : answer = answer' := BitVec.eq_of_toNat_eq (by rw [hanswer, hanswer'])
    exact ⟨answer, false, hcalc, heq ▸ hreturns⟩

theorem agree_iff_sum_threeBytes :
    Agree [0x12, 0x34, 0x56] 3 ↔ wordSum [0x12, 0x34, 0x56] < 2 ^ 31 :=
  @agree_iff_sum [0x12, 0x34, 0x56] 3 (by decide) (by decide)

/-- `DATA_SIZE` (line 13). -/
def dataSize : ℕ := 1024 * 1024 * 100

/-- The functions differ on the data `prartb_2.c` runs `calculate_checksum` on:
    `DATA_SIZE` bytes `'A'`. -/
theorem generated_data_overflows :
    calculateChecksum (List.replicate dataSize 65) dataSize = .error .signedOverflow ∧
      ¬Agree (List.replicate dataSize 65) dataSize := by
  have hbuf : dataSize ≤ (List.replicate dataSize (65 : UInt8)).length := by
    rw [List.length_replicate]
  have hsum : 2 ^ 31 ≤ wordSum ((List.replicate dataSize (65 : UInt8)).take dataSize) := by
    have hsize : dataSize = 2 * 52428800 := rfl
    rw [List.take_of_length_le (by rw [List.length_replicate]), hsize, wordSum_replicate]
    decide
  exact ⟨calculateChecksum_overflow hbuf hsum, not_agree_of_overflow hbuf hsum⟩

end ChatOnC.Checksum
