import ChatOnC.Checksum.Internet

/-!
# Verifying a checksum

A receiver runs `compute_checksum` over the data and the two bytes of their
checksum behind them. The words of that buffer add up to a multiple of 65535 other
than 0, and a change of one byte moves the sum by less than 65535.

* `ComputeChecksumReturns.unique`: the bound on the rounds does not matter.
* `answer_eq_zero_iff`: the sums whose checksum is 0.
* `checksum_detects`: checksummed data verify, and with one byte changed they do not.
-/

namespace ChatOnC.Checksum

open ChatOnC.Common

theorem ComputeChecksumReturns.unique {buffer : List UInt8} {length : ℕ}
    {r r' : Except Fault (BitVec 16 × Bool)} (h : ComputeChecksumReturns buffer length r)
    (h' : ComputeChecksumReturns buffer length r') : r = r' := by
  obtain ⟨fuel, h⟩ := h
  obtain ⟨fuel', h'⟩ := h'
  have hmax := computeChecksum_mono (Nat.le_max_left fuel fuel') h
  rw [computeChecksum_mono (Nat.le_max_right fuel fuel') h'] at hmax
  exact (Option.some.inj hmax).symm

/-- `compute_checksum` over the whole buffer returns `answer` and nothing else. -/
def ChecksumIs (buffer : List UInt8) (answer : BitVec 16) : Prop :=
  ∀ result, ComputeChecksumReturns buffer buffer.length result ↔ result = .ok (answer, false)

theorem exists_checksumIs {buffer : List UInt8} (hlen : buffer.length < 2 ^ 48) :
    ∃ answer, ChecksumIs buffer answer ∧
      answer.toNat = 65535 - onesDigit 65536 (wordSum buffer) := by
  obtain ⟨answer, hreturns, hanswer⟩ := computeChecksum_ok (Nat.le_refl _) hlen
  rw [List.take_length] at hanswer
  refine ⟨answer, fun result => ⟨fun h => h.unique hreturns, ?_⟩, hanswer⟩
  rintro rfl
  exact hreturns

/-- The checksum is 0 for the sums that are carried to `0xFFFF`, and not for the sum 0. -/
theorem answer_eq_zero_iff {answer : BitVec 16} {S : ℕ}
    (h : answer.toNat = 65535 - onesDigit 65536 S) : answer = 0 ↔ 0 < S ∧ S % 65535 = 0 := by
  have hlt : onesDigit 65536 S < 65536 := onesDigit_lt (by omega) S
  have hlast : onesDigit 65536 S = 65536 - 1 ↔ 0 < S ∧ S % (65536 - 1) = 0 :=
    onesDigit_eq_last_iff (by omega)
  have hzero : (0 : BitVec 16).toNat = 0 := rfl
  rw [← hlast, ← BitVec.toNat_inj, h, hzero]
  omega

/-- The checksum behind the words fills their sum up to a multiple of 65535. -/
theorem wordSum_checksummed {P : List UInt8} {answer : BitVec 16} (heven : P.length % 2 = 0)
    (h : answer.toNat = 65535 - onesDigit 65536 (wordSum P)) :
    0 < wordSum (P ++ shortBytes answer) ∧ wordSum (P ++ shortBytes answer) % 65535 = 0 := by
  have hmod : onesDigit 65536 (wordSum P) % 65535 = wordSum P % 65535 :=
    onesDigit_modEq 65536 (wordSum P)
  have hlt : onesDigit 65536 (wordSum P) < 65536 := onesDigit_lt (by omega) _
  have hzero : onesDigit 65536 (wordSum P) = 0 ↔ wordSum P = 0 := onesDigit_eq_zero_iff
  rw [wordSum_append _ heven, wordSum_shortBytes, h]
  omega

/-- **Verification.** Data of an even number of bytes, with their checksum behind
    them, have the checksum 0. If any one byte of that is changed, the checksum is not 0. -/
theorem checksum_detects {P : List UInt8} (heven : P.length % 2 = 0) (hlen : P.length < 2 ^ 47) :
    ∃ answer, ChecksumIs P answer ∧ ChecksumIs (P ++ shortBytes answer) 0 ∧
      ∀ Q', DiffersInOneByte (P ++ shortBytes answer) Q' →
        ∃ answer', ChecksumIs Q' answer' ∧ answer' ≠ 0 := by
  obtain ⟨answer, his, hanswer⟩ := @exists_checksumIs P (by omega)
  obtain ⟨hpos, hmod⟩ := wordSum_checksummed heven hanswer
  have hlength : (P ++ shortBytes answer).length < 2 ^ 48 := by
    rw [List.length_append]
    change P.length + 2 < 2 ^ 48
    omega
  refine ⟨answer, his, ?_, ?_⟩
  · obtain ⟨zero, hzero, hvalue⟩ := exists_checksumIs hlength
    rwa [(answer_eq_zero_iff hvalue).mpr ⟨hpos, hmod⟩] at hzero
  · rintro Q' ⟨i, hdiffers⟩
    obtain ⟨answer', his', hvalue⟩ := @exists_checksumIs Q' (by rw [hdiffers.1]; omega)
    refine ⟨answer', his', ?_⟩
    rw [ne_eq, answer_eq_zero_iff hvalue, ← hmod]
    rintro ⟨-, hmod'⟩
    exact hdiffers.sum_mod_ne hmod'.symm

theorem checksum_detects_twoBytes :
    ∃ answer, ChecksumIs [0x12, 0x34] answer ∧ ChecksumIs ([0x12, 0x34] ++ shortBytes answer) 0 ∧
      ∀ Q', DiffersInOneByte ([0x12, 0x34] ++ shortBytes answer) Q' →
        ∃ answer', ChecksumIs Q' answer' ∧ answer' ≠ 0 :=
  checksum_detects (by decide) (by decide)

end ChatOnC.Checksum
