import ChatOnC.Checksum.Agreement
import ChatOnC.FileTransfer.Udp
import Mathlib.Algebra.Group.Action.Defs
import Mathlib.Algebra.Order.BigOperators.Group.List
import Mathlib.Algebra.Order.Ring.Nat

/-!
# What the UDP servers count

The loops of `s_ipv4_udp`, `s_ipv6_udp`, `s_uds_dgram` and `s_mmap` (`server.c`) with the
variables that they add to: `totalBytesRead`, and an `int` that is called `checksum` or
`bite`. The sum of an `int` overflows when enough has come in, which C leaves undefined.

* `Counting.definedAfter_iff`: a loop that adds at most `m` in a round, and sometimes as
  much, is safe for `n` rounds if and only if `n * m` is an `int`.
* `counters_defined_iff`: the numbers of rounds for which the four servers are safe.
-/

namespace ChatOnC.FileTransfer

open ChatOnC.Common ChatOnC.Checksum

/-! ## The model -/

/-- An `int` variable that is added to. `none` stands for a call in the course of an
    addition that has not returned; what comes behind that or behind a fault has no
    meaning. -/
abbrev Counter := Option (Except Fault (BitVec 32))

/-- `counter += x`. -/
def Counter.add (counter x : Counter) : Counter :=
  match counter with
  | some (.ok sum) =>
    match x with
    | some (.ok x) => some (addInt sum x)
    | x => x
  | counter => counter

/-- `compute_checksum(buffer, bytesRead)` as an `int`. For what fits into a buffer its second
    loop comes to its test at most three times (`computeChecksum_three`). -/
def checksumOf (buffer : List UInt8) (bytesRead : ℕ) : Counter :=
  (computeChecksum 3 buffer bytesRead).map (Except.map fun answer => answer.1.setWidth 32)

/-- `(int)n`, for a length. -/
def intOf (n : ℕ) : Counter := some (.ok (BitVec.ofNat 32 n))

/-- The variables that the loops of `s_ipv4_udp` and `s_uds_dgram` change. -/
structure UdpVars where
  buffer : List UInt8
  totalBytesRead : ℤ
  checksum : Counter

/-- In front of the loop. -/
def UdpVars.start (buffer : List UInt8) : UdpVars := ⟨buffer, 0, intOf 0⟩

/-- A round of these loops, and whether it leaves them. -/
def UdpVars.round (vars : UdpVars) (datagram : List UInt8) : UdpVars × Bool :=
  let bytesRead := (received datagram).length
  let buffer := recvfrom vars.buffer datagram
  if cString buffer = exitMessage then ({ vars with buffer := buffer }, true)
  else
    ({ buffer := zeroed
       totalBytesRead := vars.totalBytesRead + bytesRead
       checksum := vars.checksum.add (checksumOf buffer bytesRead) }, false)

/-- `server.c`, lines 233–246. -/
def sIpv4UdpLoop (vars : UdpVars) (datagram : List UInt8) : UdpVars × Bool := vars.round datagram

/-- `server.c`, lines 367–380. -/
def sUdsDgramLoop (vars : UdpVars) (datagram : List UInt8) : UdpVars × Bool := vars.round datagram

/-- The variables that the loop of `s_ipv6_udp` changes. -/
structure PollVars where
  buffer : List UInt8
  checksum : Counter

/-- In front of the loop. -/
def PollVars.start (buffer : List UInt8) : PollVars := ⟨buffer, intOf 0⟩

/-- `server.c`, lines 297–316. The end message is counted, too. -/
def sIpv6UdpLoop (vars : PollVars) (datagram : List UInt8) : PollVars × Bool :=
  let buffer := recvfrom zeroed datagram
  let err := (received datagram).length
  ({ buffer := buffer, checksum := vars.checksum.add (intOf err) }, cString buffer = exitMessage)

/-- What a round of `s_mmap` meets: `poll` fails, times out or reports something else than
    `POLLIN`, or `recvfrom` fails or gets a datagram. -/
inductive MmapEvent
  | pollError
  | timeout
  | otherEvent
  | recvError
  | datagram (bytes : List UInt8)

/-- The variables that the loop of `s_mmap` changes, and whether it ends with
    `return -1;`. -/
structure MmapVars where
  buffer : List UInt8
  bite : Counter
  failed : Bool

/-- In front of the loop. -/
def MmapVars.start (buffer : List UInt8) : MmapVars := ⟨buffer, intOf 0, false⟩

/-- `server.c`, lines 502–523. `recvfrom` gets at most `BUFFER_SIZE - 1` bytes, and a failed
    one is counted as `-1`. -/
def sMmapLoop (vars : MmapVars) : MmapEvent → MmapVars × Bool
  | .pollError => ({ vars with failed := true }, true)
  | .timeout => (vars, true)
  | .otherEvent => (vars, false)
  | .recvError =>
    ({ buffer := zeroed, bite := vars.bite.add (some (.ok (-1))), failed := true }, true)
  | .datagram bytes =>
    let bytes := bytes.take (bufferSize - 1)
    ({ vars with buffer := overwrite zeroed 0 bytes, bite := vars.bite.add (intOf bytes.length) },
      false)

/-! ## Counters -/

/-- No addition has overflowed. -/
def Counter.Defined (c : Counter) : Prop := ∃ sum, c = some (.ok sum)

/-- The counter is the sum `n`, or has overflowed if that is no `int`. -/
structure Counter.Counts (c : Counter) (n : ℕ) : Prop where
  exact : n < 2 ^ 31 → ∃ sum, c = some (.ok sum) ∧ IntHolds sum n
  overflow : 2 ^ 31 ≤ n → c = some (.error .signedOverflow)

/-- A value that is added is the number `n`. -/
def Counter.Is (c : Counter) (n : ℕ) : Prop := ∃ x, c = some (.ok x) ∧ IntHolds x n

variable {c x : Counter} {m n : ℕ}

theorem Counter.Counts.defined_iff (h : c.Counts n) : c.Defined ↔ n < 2 ^ 31 := by
  constructor
  · rintro ⟨sum, rfl⟩
    by_contra hge
    cases h.overflow (Nat.not_lt.mp hge)
  · intro hlt
    obtain ⟨sum, hsum, -⟩ := h.exact hlt
    exact ⟨sum, hsum⟩

theorem Counter.Counts.add (h : c.Counts m) (hx : x.Is n) : (c.add x).Counts (m + n) := by
  obtain ⟨val, rfl, hval⟩ := hx
  constructor
  · intro hlt
    obtain ⟨sum, rfl, hsum⟩ := h.exact (by omega)
    obtain ⟨sum', hadd, hsum'⟩ := addInt_ok hsum hval hlt
    exact ⟨sum', by rw [Counter.add, hadd], hsum'⟩
  · intro hge
    by_cases hlt : m < 2 ^ 31
    · obtain ⟨sum, rfl, hsum⟩ := h.exact hlt
      rw [Counter.add, addInt_overflow hsum hval hge]
    · simp only [Counter.add, h.overflow (Nat.not_lt.mp hlt)]

/-- `-1` can be added to a sum that has not overflowed. -/
theorem Counter.Counts.defined_add_neg_one (h : c.Counts m) (hlt : m < 2 ^ 31) :
    (c.add (some (.ok (-1)))).Defined := by
  obtain ⟨sum, rfl, hsum⟩ := h.exact hlt
  have hneg : (-1 : BitVec 32).toInt = -1 := rfl
  have hover : sum.saddOverflow (-1) = false := by
    rw [BitVec.saddOverflow, hsum.toInt, hneg, Bool.or_eq_false_iff, decide_eq_false_iff_not,
      decide_eq_false_iff_not]
    omega
  refine ⟨sum + -1, ?_⟩
  rw [Counter.add, addInt, hover]
  rfl

theorem intHolds_ofNat (h : n < 2 ^ 31) : IntHolds (BitVec.ofNat 32 n) n := by
  refine ⟨?_, h⟩
  rw [BitVec.toNat_ofNat, Nat.mod_eq_of_lt (by omega)]

theorem intOf_is (h : n < 2 ^ 31) : (intOf n).Is n := ⟨_, rfl, intHolds_ofNat h⟩

theorem intOf_zero_counts : (intOf 0).Counts 0 :=
  ⟨fun h => intOf_is h, fun h => absurd h (by decide)⟩

/-! ## Loops with a counter -/

section Loops

variable {δ β : Type*} {round : β → δ → β × Bool} {start : β} {count : β → Counter}
  {amount : δ → ℕ} {inv : β → Prop}

/-- After any `n` rounds of the loop the counter is defined. -/
def DefinedAfter (round : β → δ → β × Bool) (start : β) (count : β → Counter) (n : ℕ) : Prop :=
  ∀ ds b returned, ds.length = n → Received round start ds b returned → (count b).Defined

/-- The loop adds this amount in a round that goes on, and at most `m` in any. -/
structure Counting (round : β → δ → β × Bool) (start : β) (count : β → Counter)
    (amount : δ → ℕ) (m : ℕ) (inv : β → Prop) : Prop where
  start : inv start ∧ (count start).Counts 0
  stays : ∀ b d k, inv b → (count b).Counts k → (round b d).2 = false →
    inv (round b d).1 ∧ (count (round b d).1).Counts (k + amount d)
  leaves : ∀ b d k, inv b → (count b).Counts k → (round b d).2 = true → k + m < 2 ^ 31 →
    (count (round b d).1).Defined
  bound : ∀ d, amount d ≤ m

/-- The counter after some datagrams. -/
theorem Counting.received (h : Counting round start count amount m inv) {ds : List δ} {b : β}
    {returned : Bool} (hr : Received round start ds b returned) :
    (returned = false → inv b ∧ (count b).Counts ((ds.map amount).sum)) ∧
      (ds.length * m < 2 ^ 31 → (count b).Defined) := by
  induction hr with
  | nil => exact ⟨fun _ => h.start, fun hlt => h.start.2.defined_iff.mpr (by simp)⟩
  | @round ds b hr d ih =>
    obtain ⟨hinv, hcounts⟩ := ih.1 rfl
    have hle : (ds.map amount).sum ≤ ds.length * m := by
      have hcard := List.sum_le_card_nsmul (ds.map amount) m fun a ha => by
        obtain ⟨e, -, rfl⟩ := List.mem_map.mp ha
        exact h.bound e
      rwa [List.length_map, smul_eq_mul] at hcard
    have hnext : (round b d).2 = false →
        inv (round b d).1 ∧ (count (round b d).1).Counts (((ds ++ [d]).map amount).sum) := by
      intro hstays
      rw [List.map_append, List.sum_append, List.map_singleton, List.sum_singleton]
      exact h.stays b d _ hinv hcounts hstays
    refine ⟨hnext, fun hlt => ?_⟩
    rw [List.length_append, List.length_singleton, Nat.add_mul, Nat.one_mul] at hlt
    cases hside : (round b d).2 with
    | true => exact h.leaves b d _ hinv hcounts hside (by omega)
    | false =>
      rw [(hnext hside).2.defined_iff, List.map_append, List.sum_append, List.map_singleton,
        List.sum_singleton]
      have hd := h.bound d
      omega

/-- A datagram on which the loop goes on can come in any number of times. -/
theorem received_replicate {ok : β → Prop} {d : δ} (hstart : ok start)
    (hstays : ∀ b, ok b → (round b d).2 = false ∧ ok (round b d).1) (n : ℕ) :
    ∃ b, Received round start (List.replicate n d) b false ∧ ok b := by
  induction n with
  | zero => exact ⟨start, .nil, hstart⟩
  | succ n ih =>
    obtain ⟨b, hb, hok⟩ := ih
    obtain ⟨hside, hok'⟩ := hstays b hok
    refine ⟨(round b d).1, ?_, hok'⟩
    rw [List.replicate_succ']
    exact hside ▸ hb.round d

/-- **Counters.** The loop is safe for `n` rounds if and only if it is when each of them
    adds as much as it can. -/
theorem Counting.definedAfter_iff (h : Counting round start count amount m inv)
    (ok : β → Prop) {d : δ} (hd : amount d = m) (hstart : ok start)
    (hstays : ∀ b, ok b → (round b d).2 = false ∧ ok (round b d).1) :
    DefinedAfter round start count n ↔ n * m < 2 ^ 31 := by
  constructor
  · intro hall
    obtain ⟨b, hb, -⟩ := received_replicate hstart hstays n
    have hcounts := ((h.received hb).1 rfl).2
    have hdefined := hall _ b false List.length_replicate hb
    rw [hcounts.defined_iff, List.map_replicate, List.sum_replicate_nat, hd] at hdefined
    exact hdefined
  · rintro hlt ds b returned rfl hr
    exact (h.received hr).2 hlt

end Loops

/-! ## `compute_checksum` on a datagram -/

/-- A sum of 512 words is carried to one digit by two rounds. -/
theorem foldLoop_three {sum : ULong} (h : sum.Holds n) (hle : n ≤ 65535 * 512) :
    ∃ sum', loop foldRound 3 sum = some sum' := by
  by_cases h1 : n < 65536
  · exact ⟨sum, loop_stop (foldRound_stop (h.1 ▸ h1)) 2⟩
  obtain ⟨sum₁, hr₁, hs₁⟩ := foldRound_again h (by omega)
  rw [loop_again hr₁]
  have hn₁ : carry 65536 n ≤ 65535 + 511 := by
    rw [carry]
    omega
  by_cases h2 : carry 65536 n < 65536
  · exact ⟨sum₁, loop_stop (foldRound_stop (hs₁.1 ▸ h2)) 1⟩
  obtain ⟨sum₂, hr₂, hs₂⟩ := foldRound_again hs₁ (by omega)
  rw [loop_again hr₂]
  have hn₂ : carry 65536 (carry 65536 n) < 65536 := by
    rw [carry]
    omega
  exact ⟨sum₂, loop_stop (foldRound_stop (hs₂.1 ▸ hn₂)) 0⟩

theorem computeChecksum_three {buffer : List UInt8} {bytesRead : ℕ}
    (hbuf : bytesRead ≤ buffer.length) (hle : bytesRead ≤ bufferSize) :
    ∃ answer, computeChecksum 3 buffer bytesRead = some (.ok (answer, false)) ∧
      answer.toNat = 65535 - onesDigit 65536 (wordSum (buffer.take bytesRead)) := by
  have hlen : bytesRead ≤ 1024 := hle
  have hsum : wordSum (buffer.take bytesRead) ≤ 65535 * 512 := by
    refine Nat.le_trans (wordSum_le _) ?_
    rw [List.length_take_of_le hbuf]
    omega
  obtain ⟨sum, hcompute, hholds⟩ := computeSum_ok hbuf (Nat.lt_of_le_of_lt hsum (by decide))
  obtain ⟨sum', hloop⟩ := foldLoop_three hholds hsum
  obtain ⟨answer, ⟨fuel, hreturns⟩, hanswer⟩ := computeChecksum_ok hbuf (by omega)
  have hthree : computeChecksum 3 buffer bytesRead =
      some (.ok ((~~~sum'.val).setWidth 16, sum'.wrapped)) := by
    simp only [computeChecksum, hcompute, hloop, Option.map_some]
  have hsame : computeChecksum (max 3 fuel) buffer bytesRead = some (.ok (answer, false)) :=
    computeChecksum_mono (Nat.le_max_right 3 fuel) hreturns
  rw [computeChecksum_mono (Nat.le_max_left 3 fuel) hthree] at hsame
  exact ⟨answer, hthree.trans hsame, hanswer⟩

/-- The checksum of a datagram, as a number. -/
def checksumAmount (datagram : List UInt8) : ℕ :=
  65535 - onesDigit 65536 (wordSum (received datagram))

theorem checksumOf_is {buffer : List UInt8} (hbuffer : buffer.length = bufferSize)
    (datagram : List UInt8) :
    (checksumOf (recvfrom buffer datagram) (received datagram).length).Is
      (checksumAmount datagram) := by
  have hle : (received datagram).length ≤ bufferSize := List.length_take_le _ _
  have hlen : (recvfrom buffer datagram).length = bufferSize := length_recvfrom hbuffer
  obtain ⟨answer, hthree, hanswer⟩ := computeChecksum_three (hlen ▸ hle) hle
  have htake : (recvfrom buffer datagram).take (received datagram).length =
      received datagram := by
    rw [recvfrom_eq, List.take_left']
    rfl
  rw [htake] at hanswer
  refine ⟨answer.setWidth 32, ?_, ?_⟩
  · rw [checksumOf, hthree]
    rfl
  · rw [checksumAmount, ← hanswer]
    exact intHolds_word answer

/-! ## The servers -/

theorem udpVars_counting {buffer : List UInt8} (hbuffer : buffer.length = bufferSize) :
    Counting UdpVars.round (.start buffer) UdpVars.checksum checksumAmount 65535
      fun vars => vars.buffer.length = bufferSize where
  start := ⟨hbuffer, intOf_zero_counts⟩
  stays := by
    intro vars d k hinv hcounts hstays
    unfold UdpVars.round at hstays ⊢
    dsimp only at hstays ⊢
    split_ifs at hstays ⊢ with hexit
    exact ⟨length_zeroed, hcounts.add (checksumOf_is hinv d)⟩
  leaves := by
    intro vars d k hinv hcounts hleaves hlt
    unfold UdpVars.round at hleaves ⊢
    dsimp only at hleaves ⊢
    split_ifs at hleaves ⊢ with hexit
    exact hcounts.defined_iff.mpr (by omega)
  bound d := Nat.sub_le _ _

theorem sIpv6UdpLoop_counting (buffer : List UInt8) :
    Counting sIpv6UdpLoop (.start buffer) PollVars.checksum (fun d => (received d).length)
      bufferSize fun _ => True where
  start := ⟨trivial, intOf_zero_counts⟩
  stays := by
    intro vars d k _ hcounts _
    have hle : (received d).length ≤ 1024 := List.length_take_le _ _
    exact ⟨trivial, hcounts.add (intOf_is (by omega))⟩
  leaves := by
    intro vars d k _ hcounts _ hlt
    have hle : (received d).length ≤ bufferSize := List.length_take_le _ _
    have hsmall : bufferSize < 2 ^ 31 := by decide
    have hnext := hcounts.add (intOf_is (n := (received d).length) (by omega))
    exact hnext.defined_iff.mpr (by omega)
  bound d := List.length_take_le _ _

/-- What an event adds to `bite`. -/
def MmapEvent.amount : MmapEvent → ℕ
  | .datagram bytes => (bytes.take (bufferSize - 1)).length
  | _ => 0

theorem sMmapLoop_counting (buffer : List UInt8) :
    Counting sMmapLoop (.start buffer) MmapVars.bite MmapEvent.amount (bufferSize - 1)
      fun _ => True where
  start := ⟨trivial, intOf_zero_counts⟩
  stays := by
    intro vars event k _ hcounts hstays
    cases event with
    | pollError | timeout | recvError => cases hstays
    | otherEvent => exact ⟨trivial, hcounts⟩
    | datagram bytes =>
      have hle : (bytes.take (bufferSize - 1)).length ≤ 1023 := List.length_take_le _ _
      exact ⟨trivial, hcounts.add (intOf_is (by omega))⟩
  leaves := by
    intro vars event k _ hcounts hleaves hlt
    cases event with
    | pollError | timeout => exact hcounts.defined_iff.mpr (by omega)
    | recvError => exact hcounts.defined_add_neg_one (by omega)
    | otherEvent | datagram bytes => cases hleaves
  bound event := by
    cases event with
    | datagram bytes => exact List.length_take_le _ _
    | pollError | timeout | otherEvent | recvError => exact Nat.zero_le _

/-- An empty datagram has the largest checksum, and a cleared buffer goes on with it. -/
theorem round_nil (vars : UdpVars) (h : vars.buffer = zeroed) :
    (vars.round []).2 = false ∧ (vars.round []).1.buffer = zeroed := by
  have hnot : cString (recvfrom zeroed []) ≠ exitMessage := by
    rw [cString_recvfrom_zeroed List.not_mem_nil (by decide)]
    decide
  rw [UdpVars.round, h, if_neg hnot]
  exact ⟨rfl, rfl⟩

theorem length_received_replicate (byte : UInt8) :
    (received (List.replicate bufferSize byte)).length = bufferSize := by
  rw [received, List.take_of_length_le (by rw [List.length_replicate]), List.length_replicate]

theorem amount_replicate (byte : UInt8) :
    MmapEvent.amount (.datagram (List.replicate (bufferSize - 1) byte)) = bufferSize - 1 := by
  rw [MmapEvent.amount, List.take_of_length_le (by rw [List.length_replicate]),
    List.length_replicate]

/-- A datagram as long as the buffer. -/
theorem sIpv6UdpLoop_full (vars : PollVars) :
    (sIpv6UdpLoop vars (List.replicate bufferSize 120)).2 = false := by
  have hnot : cString (recvfrom zeroed (List.replicate bufferSize 120)) ≠ exitMessage := by
    decide +kernel
  rw [sIpv6UdpLoop]
  exact decide_eq_false hnot

theorem udpVars_definedAfter_iff : (∀ buffer, buffer.length = bufferSize →
    DefinedAfter UdpVars.round (.start buffer) UdpVars.checksum n) ↔ n ≤ 32768 := by
  have hone := (udpVars_counting length_zeroed).definedAfter_iff (n := n)
    (fun vars => vars.buffer = zeroed) (d := []) rfl rfl round_nil
  constructor
  · intro hall
    have hlt := hone.mp (hall zeroed length_zeroed)
    omega
  · intro hle buffer hbuffer ds b returned hlen hr
    exact ((udpVars_counting hbuffer).received hr).2 (by omega)

/-- **The counters of the UDP servers.** After any `n` datagrams `checksum` is defined in
    `s_ipv4_udp` and `s_uds_dgram` if and only if `n` is at most 32768, and in `s_ipv6_udp`
    if and only if it is at most 2097151; after any `n` events `bite` is defined in `s_mmap`
    if and only if `n` is at most 2099202. -/
theorem counters_defined_iff (n : ℕ) :
    ((∀ buffer, buffer.length = bufferSize →
        DefinedAfter sIpv4UdpLoop (.start buffer) UdpVars.checksum n) ↔ n ≤ 32768) ∧
      ((∀ buffer, buffer.length = bufferSize →
        DefinedAfter sUdsDgramLoop (.start buffer) UdpVars.checksum n) ↔ n ≤ 32768) ∧
      (∀ buffer, DefinedAfter sIpv6UdpLoop (.start buffer) PollVars.checksum n ↔ n ≤ 2097151) ∧
      ∀ buffer, DefinedAfter sMmapLoop (.start buffer) MmapVars.bite n ↔ n ≤ 2099202 := by
  refine ⟨udpVars_definedAfter_iff, udpVars_definedAfter_iff, fun buffer => ?_, fun buffer => ?_⟩
  · rw [(sIpv6UdpLoop_counting buffer).definedAfter_iff (fun _ => True)
      (length_received_replicate 120) trivial
      fun vars _ => ⟨sIpv6UdpLoop_full vars, trivial⟩]
    rw [show bufferSize = 1024 from rfl]
    omega
  · rw [(sMmapLoop_counting buffer).definedAfter_iff (fun _ => True)
      (amount_replicate 120) trivial
      fun vars _ => ⟨rfl, trivial⟩]
    rw [show bufferSize - 1 = 1023 from rfl]
    omega

end ChatOnC.FileTransfer
