import ChatOnC.Checksum.Agreement
import ChatOnC.PerformanceTest.Model

/-!
# What the checksum of a message covers

A message is a payload and a field of two bytes behind it. The field covers the
payload if it is the checksum of all of it.

* `ipv6Tcp_covers_iff`: the checksum over the data, put over their last two bytes,
  covers the bytes before it only if those two bytes did not count.
* `appendChecksum_covers_iff`: when the checksum of the first half is that of all.
* `appendChecksum_ignores_last`: it never depends on the last byte.
* `protects_iff`: the data for which a sender's field covers the payload and changes
  with every byte of it.
-/

namespace ChatOnC.PerformanceTest

open ChatOnC.Checksum ChatOnC.Common

/-- The message of a sender is a payload and the checksum of that whole payload, in
    the sender's byte order. -/
def Covers (order : BitVec 16 → BitVec 16) (sender : List UInt8 → Except Fault (List UInt8))
    (data : List UInt8) : Prop :=
  ∃ payload checksum, sender data = .ok (payload ++ shortBytes (order checksum)) ∧
    calculateChecksum payload payload.length = .ok checksum

/-- The last two bytes of a message. -/
def field (message : List UInt8) : List UInt8 := message.drop (message.length - 2)

/-- Another byte in the payload gives another field. -/
def Senses (sender : List UInt8 → Except Fault (List UInt8)) (data : List UInt8) : Prop :=
  ∀ message, sender data = .ok message → ∀ i data' message', i < message.length - 2 →
    DiffersAt i data data' → sender data' = .ok message' → field message' ≠ field message

/-- The field covers the payload, and changes with each byte of it. -/
def Protects (order : BitVec 16 → BitVec 16) (sender : List UInt8 → Except Fault (List UInt8))
    (data : List UInt8) : Prop :=
  Covers order sender data ∧ Senses sender data

/-! ## Fields -/

theorem length_shortBytes (x : BitVec 16) : (shortBytes x).length = 2 := rfl

theorem field_append (payload : List UInt8) (x : BitVec 16) :
    field (payload ++ shortBytes x) = shortBytes x := by
  unfold field
  rw [List.length_append, length_shortBytes, Nat.add_sub_cancel, List.drop_left]

theorem shortBytes_inj {x y : BitVec 16} (h : shortBytes x = shortBytes y) : x = y := by
  apply BitVec.eq_of_toNat_eq
  rw [← wordSum_shortBytes x, ← wordSum_shortBytes y, h]

theorem toNat_htons (x : BitVec 16) :
    (htons x).toNat = x.toNat / 256 + 256 * (x.toNat % 256) := by
  have hword : htons x = word (.ofBitVec (x.extractLsb' 8 8)) (.ofBitVec (x.extractLsb' 0 8)) :=
    rfl
  have hx := x.isLt
  rw [hword, toNat_word, toNat_extractByte, toNat_extractByte]
  omega

theorem htons_injective : Function.Injective htons := by
  intro x y h
  apply BitVec.eq_of_toNat_eq
  have heq : (htons x).toNat = (htons y).toNat := by rw [h]
  have hx := x.isLt
  have hy := y.isLt
  rw [toNat_htons, toNat_htons] at heq
  omega

theorem append_field_inj {p q : List UInt8} {x y : BitVec 16}
    (h : p ++ shortBytes x = q ++ shortBytes y) : p = q ∧ x = y := by
  obtain ⟨hp, hx⟩ := List.append_inj' h rfl
  exact ⟨hp, shortBytes_inj hx⟩

/-! ## The checksum over the tail of the data -/

theorem ipv6Tcp_eq_ok_iff {data message : List UInt8} :
    performIpv6TcpClientTest data = .ok message ↔ ∃ checksum,
      calculateChecksum data data.length = .ok checksum ∧ 2 ≤ data.length ∧
        message = data.take (data.length - 2) ++ shortBytes checksum := by
  unfold performIpv6TcpClientTest memcpyTail
  match calculateChecksum data data.length with
  | .error e => exact iff_of_false nofun fun ⟨_, h, _⟩ => nomatch h
  | .ok checksum =>
    change (if data.length < 2 then throw Fault.outOfBounds
      else return data.take (data.length - 2) ++ shortBytes checksum) = _ ↔ _
    split_ifs with hshort
    · exact iff_of_false nofun fun ⟨_, _, h, _⟩ => absurd h (by omega)
    · constructor
      · intro h
        exact ⟨checksum, rfl, by omega, (Except.ok.inj h).symm⟩
      · rintro ⟨c, hc, -, rfl⟩
        rw [Except.ok.inj hc]
        rfl

theorem exists_tail {data : List UInt8} (h : 2 ≤ data.length) :
    ∃ front lo hi, data = front ++ [lo, hi] := by
  obtain ⟨lo, hi, htail⟩ : ∃ lo hi, data.drop (data.length - 2) = [lo, hi] :=
    List.length_eq_two.mp (by rw [List.length_drop]; omega)
  refine ⟨data.take (data.length - 2), lo, hi, ?_⟩
  rw [← htail, List.take_append_drop]

theorem ipv6Tcp_covers_append {front : List UInt8} {lo hi : UInt8}
    (heven : front.length % 2 = 0) :
    Covers id performIpv6TcpClientTest (front ++ [lo, hi]) ↔ wordSum (front ++ [lo, hi]) < 2 ^ 31 ∧
      ([lo, hi] = [0, 0] ∨ [lo, hi] = [0xFF, 0xFF] ∧ ∃ c ∈ front, c ≠ 0) := by
  have hsum := wordSum_append [lo, hi] heven
  have hlast : wordSum [lo, hi] < 65536 := by
    have hlo := lo.toNat_lt
    have hhi := hi.toNat_lt
    rw [wordSum_pair]
    omega
  have hzero : (∃ c ∈ front, c ≠ 0) ↔ wordSum front ≠ 0 := by
    rw [ne_eq, wordSum_eq_zero_iff]
    simp
  have hfront : (front ++ [lo, hi]).take ((front ++ [lo, hi]).length - 2) = front := by
    rw [List.length_append, List.length_cons, List.length_singleton, Nat.add_sub_cancel,
      List.take_left]
  rw [← pair_zeros_iff, ← pair_ones_iff, hzero,
    ← @onesDigit_add_eq_iff 65536 (wordSum front) _ (by omega) hlast, ← hsum]
  constructor
  · rintro ⟨payload, checksum, hmessage, hall⟩
    obtain ⟨c, hc, -, heq⟩ := ipv6Tcp_eq_ok_iff.mp hmessage
    rw [hfront] at heq
    obtain ⟨rfl, rfl⟩ := append_field_inj heq
    rw [calculateChecksum_eq_ok_iff (Nat.le_refl _), List.take_length] at hc hall
    exact ⟨hc.1, (answer_eq_iff hc.2 hall.2).mp rfl⟩
  · rintro ⟨hlt, hdigit⟩
    obtain ⟨c, hc, hvalue⟩ := calculateChecksum_ok (Nat.le_refl (front ++ [lo, hi]).length)
      (by rwa [List.take_length])
    refine ⟨front, c, ipv6Tcp_eq_ok_iff.mpr ⟨c, hc, by simp, by rw [hfront]; rfl⟩, ?_⟩
    rw [List.take_length, hdigit] at hvalue
    rw [calculateChecksum_eq_ok_iff (Nat.le_refl _), List.take_length]
    exact ⟨by omega, hvalue⟩

/-- The field covers the payload if the two bytes it replaces did not count: they are
    zeros, or ones behind something they are carried to. -/
theorem ipv6Tcp_covers_iff {data : List UInt8} (heven : data.length % 2 = 0) :
    Covers id performIpv6TcpClientTest data ↔ 2 ≤ data.length ∧ wordSum data < 2 ^ 31 ∧
      (data.drop (data.length - 2) = [0, 0] ∨
        data.drop (data.length - 2) = [0xFF, 0xFF] ∧
          ∃ c ∈ data.take (data.length - 2), c ≠ 0) := by
  by_cases hlen : 2 ≤ data.length
  · rw [and_iff_right hlen]
    obtain ⟨front, lo, hi, rfl⟩ := exists_tail hlen
    rw [List.length_append] at heven ⊢
    change (front.length + 2) % 2 = 0 at heven
    change _ ↔ _ ∧ (List.drop (front.length + 2 - 2) _ = _ ∨
      List.drop (front.length + 2 - 2) _ = _ ∧ ∃ c ∈ List.take (front.length + 2 - 2) _, _)
    rw [Nat.add_sub_cancel, List.drop_left, List.take_left]
    exact ipv6Tcp_covers_append (by omega)
  · refine iff_of_false ?_ fun h => hlen h.1
    rintro ⟨payload, checksum, hmessage, -⟩
    obtain ⟨-, -, hle, -⟩ := ipv6Tcp_eq_ok_iff.mp hmessage
    exact hlen hle

theorem ipv6Tcp_senses (data : List UInt8) : Senses performIpv6TcpClientTest data := by
  intro message hmessage i data' message' _ hdiffers hmessage'
  obtain ⟨c, hc, -, rfl⟩ := ipv6Tcp_eq_ok_iff.mp hmessage
  obtain ⟨c', hc', -, rfl⟩ := ipv6Tcp_eq_ok_iff.mp hmessage'
  rw [calculateChecksum_eq_ok_iff (Nat.le_refl _), List.take_length] at hc hc'
  rw [field_append, field_append]
  intro heq
  have hdigit := (answer_eq_iff hc'.2 hc.2).mp (shortBytes_inj heq)
  exact hdiffers.sum_mod_ne (onesDigit_eq_iff.mp hdigit).1.symm

/-! ## The checksum of the first half -/

section Append

variable {order : BitVec 16 → BitVec 16} {data : List UInt8}

theorem appendChecksum_eq_ok_iff {message : List UInt8} :
    appendChecksum order data = .ok message ↔ ∃ checksum,
      calculateChecksum data (data.length / 2) = .ok checksum ∧
        message = data ++ shortBytes (order checksum) := by
  unfold appendChecksum
  match calculateChecksum data (data.length / 2) with
  | .error e => exact iff_of_false nofun fun ⟨_, h, _⟩ => nomatch h
  | .ok checksum =>
    constructor
    · intro h
      exact ⟨checksum, rfl, (Except.ok.inj h).symm⟩
    · rintro ⟨c, hc, rfl⟩
      rw [Except.ok.inj hc]
      rfl

/-- The field covers the payload if the first half and the whole of it are carried to
    the same digit. -/
theorem appendChecksum_covers_iff (horder : Function.Injective order) :
    Covers order (appendChecksum order) data ↔ wordSum data < 2 ^ 31 ∧
      onesDigit 65536 (wordSum (data.take (data.length / 2))) = onesDigit 65536 (wordSum data) := by
  have hhalf : data.length / 2 ≤ data.length := Nat.div_le_self _ _
  have hle := wordSum_take_le (data.length / 2) data
  constructor
  · rintro ⟨payload, checksum, hmessage, hall⟩
    obtain ⟨c, hc, heq⟩ := appendChecksum_eq_ok_iff.mp hmessage
    obtain ⟨rfl, hchecksum⟩ := append_field_inj heq
    rw [horder hchecksum] at hall
    rw [calculateChecksum_eq_ok_iff hhalf] at hc
    rw [calculateChecksum_eq_ok_iff (Nat.le_refl _), List.take_length] at hall
    exact ⟨hall.1, (answer_eq_iff hc.2 hall.2).mp rfl⟩
  · rintro ⟨hsum, hdigit⟩
    obtain ⟨c, hc, hvalue⟩ := calculateChecksum_ok hhalf (by omega)
    refine ⟨data, c, appendChecksum_eq_ok_iff.mpr ⟨c, hc, rfl⟩, ?_⟩
    rw [calculateChecksum_eq_ok_iff (Nat.le_refl _), List.take_length, ← hdigit]
    exact ⟨hsum, hvalue⟩

/-- The last byte never counts. -/
theorem appendChecksum_ignores_last (front : List UInt8) (c c' : UInt8) :
    calculateChecksum (front ++ [c]) ((front ++ [c]).length / 2) =
      calculateChecksum (front ++ [c']) ((front ++ [c']).length / 2) := by
  have hlen (x : UInt8) : (front ++ [x]).length = front.length + 1 := by
    rw [List.length_append, List.length_singleton]
  rw [hlen, hlen]
  apply calculateChecksum_congr
  · rw [hlen]
    omega
  · rw [hlen]
    omega
  · rw [List.take_append_of_le_length (by omega), List.take_append_of_le_length (by omega)]

theorem differsAt_last {front : List UInt8} {c c' : UInt8} (h : c ≠ c') :
    DiffersAt front.length (front ++ [c]) (front ++ [c']) := by
  refine ⟨?_, ?_, ?_⟩
  · rw [List.length_append, List.length_append]
    rfl
  · rw [List.getElem?_concat_length, List.getElem?_concat_length]
    exact fun heq => h (Option.some.inj heq).symm
  · intro j hj
    rw [List.getElem?_append, List.getElem?_append]
    split_ifs with hlt
    · rfl
    · rw [List.getElem?_eq_none (by rw [List.length_singleton]; omega),
        List.getElem?_eq_none (by rw [List.length_singleton]; omega)]

/-- Whatever message there is for data, the same field goes with another last byte. -/
theorem not_protects_of_ne_nil (hdata : data ≠ []) :
    ¬Protects order (appendChecksum order) data := by
  rintro ⟨⟨payload, checksum, hmessage, -⟩, hsenses⟩
  obtain ⟨front, c, rfl⟩ : ∃ front c, data = front ++ [c] :=
    ⟨_, _, (List.dropLast_append_getLast hdata).symm⟩
  obtain ⟨c', hne⟩ : ∃ c', c ≠ c' := by
    by_cases hc : c = 0
    · exact ⟨1, by rw [hc]; decide⟩
    · exact ⟨0, hc⟩
  obtain ⟨sum, hsum, heq⟩ := appendChecksum_eq_ok_iff.mp hmessage
  have hmessage' : appendChecksum order (front ++ [c']) =
      .ok (front ++ [c'] ++ shortBytes (order sum)) := by
    rw [appendChecksum_eq_ok_iff]
    exact ⟨sum, by rw [← hsum, appendChecksum_ignores_last front c' c], rfl⟩
  rw [heq] at hmessage
  refine hsenses _ hmessage front.length _ _ ?_ (differsAt_last hne) hmessage' ?_
  · rw [List.length_append, List.length_append, List.length_singleton, length_shortBytes]
    omega
  · rw [field_append, field_append]

theorem appendChecksum_protects_iff (horder : Function.Injective order) :
    Protects order (appendChecksum order) data ↔ data = [] := by
  constructor
  · intro h
    by_contra hdata
    exact not_protects_of_ne_nil hdata h
  · rintro rfl
    refine ⟨(appendChecksum_covers_iff horder).mpr (by decide), ?_⟩
    intro message hmessage i data' message' hi
    obtain ⟨c, -, rfl⟩ := appendChecksum_eq_ok_iff.mp hmessage
    rw [List.nil_append, length_shortBytes] at hi
    omega

end Append

/-- **The coverage of the fields.** `perform_ipv6_tcp_client_test` protects data whose sum
    fits into an `int` and whose last two bytes do not count; the other three senders
    protect no byte of the second half of their data. -/
theorem protects_iff {data : List UInt8} (heven : data.length % 2 = 0) :
    (Protects id performIpv6TcpClientTest data ↔ 2 ≤ data.length ∧ wordSum data < 2 ^ 31 ∧
      (data.drop (data.length - 2) = [0, 0] ∨
        data.drop (data.length - 2) = [0xFF, 0xFF] ∧
          ∃ c ∈ data.take (data.length - 2), c ≠ 0)) ∧
    (Protects htons performMmapClientTest data ↔ data = []) ∧
    (Protects id performPipeClientTest data ↔ data = []) ∧
    (Protects id performServerPerformanceTest data ↔ data = []) := by
  refine ⟨?_, appendChecksum_protects_iff htons_injective,
    appendChecksum_protects_iff Function.injective_id,
    appendChecksum_protects_iff Function.injective_id⟩
  rw [← ipv6Tcp_covers_iff heven]
  exact and_iff_left (ipv6Tcp_senses data)

theorem protects_iff_zeroTail :
    (Protects id performIpv6TcpClientTest [1, 2, 0, 0] ↔
      2 ≤ 4 ∧ wordSum [1, 2, 0, 0] < 2 ^ 31 ∧
        ([(0 : UInt8), 0] = [0, 0] ∨ [(0 : UInt8), 0] = [0xFF, 0xFF] ∧
          ∃ c ∈ [(1 : UInt8), 2], c ≠ 0)) ∧
    (Protects htons performMmapClientTest [1, 2, 0, 0] ↔ [(1 : UInt8), 2, 0, 0] = []) ∧
    (Protects id performPipeClientTest [1, 2, 0, 0] ↔ [(1 : UInt8), 2, 0, 0] = []) ∧
    (Protects id performServerPerformanceTest [1, 2, 0, 0] ↔ [(1 : UInt8), 2, 0, 0] = []) :=
  @protects_iff [1, 2, 0, 0] rfl

/-- The letters all data are filled with: the tests cannot tell, but no sender protects
    its message. -/
theorem letters_unprotected :
    ¬Protects id performIpv6TcpClientTest [65, 65, 65, 65] ∧
      ¬Protects htons performMmapClientTest [65, 65, 65, 65] ∧
      ¬Protects id performPipeClientTest [65, 65, 65, 65] ∧
      ¬Protects id performServerPerformanceTest [65, 65, 65, 65] := by
  have hne : [(65 : UInt8), 65, 65, 65] ≠ [] := List.cons_ne_nil _ _
  refine ⟨?_, not_protects_of_ne_nil hne, not_protects_of_ne_nil hne, not_protects_of_ne_nil hne⟩
  rintro ⟨hcovers, -⟩
  obtain ⟨-, -, htail⟩ := (ipv6Tcp_covers_iff (by decide)).mp hcovers
  revert htail
  decide

end ChatOnC.PerformanceTest
