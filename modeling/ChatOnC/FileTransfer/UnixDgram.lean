import ChatOnC.FileTransfer.Model

/-!
# The Unix datagram session

`c_uds_dgram` sends what one `fread` gives of the file, and nothing behind it;
`s_uds_dgram` goes round its loop until its buffer reads `exit\n`. The buffer has no
initial value, so it is a parameter here.

* `uds_dgram_completes_iff`: when the file is sent as a whole and the server is never
  left waiting.
* `uds_dgram_waits`: a short text after which it is.
-/

namespace ChatOnC.FileTransfer

open ChatOnC.Common

/-- The datagrams of `c_uds_dgram` are the file, and in no run the server is in its
    loop with the client done and no datagram on its way. -/
def Completes (file buffer : List UInt8) : Prop :=
  (cUdsDgram file).flatten = file ∧ ∀ s, (udsDgram file buffer).Reachable s → ¬Waits s

variable {file buffer : List UInt8}

theorem flatten_cUdsDgram (file : List UInt8) :
    (cUdsDgram file).flatten = file.take bufferSize := by
  rw [cUdsDgram]
  split_ifs with h
  · exact List.flatten_singleton
  · rw [List.eq_nil_of_length_eq_zero (Nat.eq_zero_of_not_pos h)]
    rfl

/-- A file that fits into the buffer is sent in one datagram. -/
theorem cUdsDgram_of_le (hne : file ≠ []) (hlen : file.length ≤ bufferSize) :
    cUdsDgram file = [file] := by
  rw [cUdsDgram, List.take_of_length_le hlen, if_pos (List.length_pos_iff.mpr hne)]

/-- The server leaves its loop with this datagram if and only if the datagram and what
    is behind it in the buffer start with the end message and a zero. -/
theorem sUdsDgram_stops_iff (hbuffer : buffer.length = bufferSize)
    (hlen : file.length ≤ bufferSize) : (sUdsDgram buffer file).2 = true ↔
      exitMessage ++ [0] <+: file ++ buffer.drop file.length := by
  rw [sUdsDgram, recvRound, ← isExit_recvfrom_iff hbuffer hlen]
  split_ifs with h
  · exact iff_of_true rfl h
  · exact iff_of_false not_false h

theorem waits_nil (buffer : List UInt8) :
    ∃ s, (udsDgram [] buffer).Reachable s ∧ Waits s :=
  waits_iff.mpr ⟨buffer, .nil⟩

/-- With one datagram, all is in the first round. -/
theorem waits_singleton_iff (hne : file ≠ []) (hlen : file.length ≤ bufferSize) :
    (∃ s, (udsDgram file buffer).Reachable s ∧ Waits s) ↔ (sUdsDgram buffer file).2 = false := by
  rw [udsDgram, waits_iff, cUdsDgram_of_le hne hlen]
  constructor
  · rintro ⟨b, h⟩
    rw [← List.nil_append [file]] at h
    obtain ⟨b', hnil, hround⟩ := h.of_append
    rw [hnil.of_nil.1] at hround
    rw [hround]
  · intro h
    exact ⟨(sUdsDgram buffer file).1, h ▸ Received.nil.round file⟩

/-- **Unix datagram session.** The whole file is sent and the server is never left
    waiting if and only if the file is not empty, fits into the buffer, and starts
    with the end message and a zero, where what the buffer held before counts behind
    the end of the file. -/
theorem uds_dgram_completes_iff (hbuffer : buffer.length = bufferSize) :
    Completes file buffer ↔ file ≠ [] ∧ file.length ≤ bufferSize ∧
      exitMessage ++ [0] <+: file ++ buffer.drop file.length := by
  constructor
  · rintro ⟨hall, hnot⟩
    have hlen : file.length ≤ bufferSize := by
      rw [← hall, flatten_cUdsDgram]
      exact List.length_take_le bufferSize file
    have hne : file ≠ [] := by
      rintro rfl
      obtain ⟨s, hs, hwaits⟩ := waits_nil buffer
      exact hnot s hs hwaits
    refine ⟨hne, hlen, ?_⟩
    rw [← sUdsDgram_stops_iff hbuffer hlen]
    by_contra hstops
    obtain ⟨s, hs, hwaits⟩ :=
      (waits_singleton_iff hne hlen).mpr (Bool.not_eq_true _ ▸ hstops)
    exact hnot s hs hwaits
  · rintro ⟨hne, hlen, hstops⟩
    rw [← sUdsDgram_stops_iff hbuffer hlen] at hstops
    refine ⟨by rw [flatten_cUdsDgram, List.take_of_length_le hlen], fun s hs hwaits => ?_⟩
    have hloop := (waits_singleton_iff hne hlen).mp ⟨s, hs, hwaits⟩
    rw [hstops] at hloop
    cases hloop

theorem uds_dgram_completes_iff_exit : zeroed.length = bufferSize ∧
    (Completes exitMessage zeroed ↔ exitMessage ≠ [] ∧ exitMessage.length ≤ bufferSize ∧
      exitMessage ++ [0] <+: exitMessage ++ zeroed.drop exitMessage.length) :=
  ⟨length_zeroed, uds_dgram_completes_iff length_zeroed⟩

/-- The client has sent its only datagram, and the server waits for the next one. -/
theorem uds_dgram_waits :
    ¬∀ file buffer : List UInt8, buffer.length = bufferSize → Completes file buffer := by
  intro h
  have hne : ascii "hi\n" ≠ [] := by decide
  have hlen : (ascii "hi\n").length ≤ bufferSize := by decide
  have hloop : (sUdsDgram zeroed (ascii "hi\n")).2 = false := by decide +kernel
  obtain ⟨s, hs, hwaits⟩ := (waits_singleton_iff hne hlen).mpr hloop
  exact (h (ascii "hi\n") zeroed length_zeroed).2 s hs hwaits

end ChatOnC.FileTransfer
