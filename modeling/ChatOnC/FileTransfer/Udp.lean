import ChatOnC.FileTransfer.Model

/-!
# The end of a UDP session

`c_ipv4_udp` and `c_ipv6_udp` send the text file line by line and then the end
message, in a datagram like any other; `s_ipv4_udp` and `s_ipv6_udp` leave their loop
with the first datagram that reads like it.

* `udp_ends_at_exit_iff`: for every file without a zero byte, the server leaves its
  loop with the last datagram, and has then received the whole file, if and only if
  the file has no `ExitLine`.
* `udp_ends_early`: a file of two lines of which only the first one is received.
-/

namespace ChatOnC.FileTransfer

open ChatOnC.Common

/-- What the file is read into has a piece `exit\n`: the line itself, or the rest of a
    longer line in front of which the buffer was full once or several times. -/
def ExitLine (file : List UInt8) : Prop :=
  ∃ before full behind, file = before ++ (full ++ (ascii "exit" ++ newline :: behind)) ∧
    EndsLine newline before ∧ newline ∉ full ∧ bufferSize - 1 ∣ full.length

/-- The server leaves its loop with the last of the datagrams and on no earlier one,
    and it does leave it; it has then received the file and the end message. -/
structure EndsAtExit (file : List UInt8) (sends : List (List UInt8))
    (s : Session (List UInt8) (List UInt8)) : Prop where
  last : EndsAtLast sends s
  bytes : s.returned = true → (s.channel.taken.map received).flatten = file ++ exitMessage

variable {file : List UInt8}

/-! ## The datagrams -/

/-- A datagram of a text: no zero byte, and room for one in the buffer. -/
def Text (d : List UInt8) : Prop := 0 ∉ d ∧ d.length < bufferSize

theorem text_exitMessage : Text exitMessage := ⟨by decide, by decide⟩

theorem text_of_mem_lines (hfile : 0 ∉ file) {d : List UInt8}
    (hd : d ∈ lines newline bufferSize file) : Text d := by
  constructor
  · intro hzero
    have hall := flatten_lines newline (show 2 ≤ bufferSize by decide) file
    apply hfile
    rw [← hall]
    exact List.mem_flatten_of_mem hd hzero
  · have hlen := length_le_of_mem_lines (by decide) hd
    exact Nat.lt_of_le_of_lt hlen (by decide)

theorem sendLines_eq (hfile : 0 ∉ file) :
    sendLines file = lines newline bufferSize file ++ [exitMessage] := by
  have hline : ∀ d ∈ lines newline bufferSize file, lineDatagram d = id d := by
    intro d hd
    exact cString_append_zero (text_of_mem_lines hfile hd).1 []
  rw [sendLines, List.map_congr_left hline, List.map_id]

theorem received_of_text {d : List UInt8} (hd : Text d) : received d = d :=
  List.take_of_length_le (Nat.le_of_lt hd.2)

/-- The datagrams carry the file. -/
theorem flatten_sendLines (hfile : 0 ∉ file) :
    ((sendLines file).map received).flatten = file ++ exitMessage := by
  have hline : ∀ d ∈ lines newline bufferSize file, received d = id d := by
    intro d hd
    exact received_of_text (text_of_mem_lines hfile hd)
  rw [sendLines_eq hfile, List.map_append, List.map_congr_left hline, List.map_id,
    List.flatten_append, flatten_lines newline (by decide), List.map_singleton,
    received_of_text text_exitMessage, List.flatten_singleton]

theorem exitMessage_mem_lines :
    exitMessage ∈ lines newline bufferSize file ↔ ExitLine file := by
  have hline : newline ∉ ascii "exit" := by decide
  have hroom : (ascii "exit").length + 1 < bufferSize := by decide
  exact mem_lines_iff (by decide) hline hroom

/-! ## The loops -/

theorem isExit_recvfrom_zeroed {d : List UInt8} (hd : Text d) :
    cString (recvfrom zeroed d) = exitMessage ↔ d = exitMessage := by
  rw [cString_recvfrom_zeroed hd.1 hd.2]

theorem sIpv4Udp_stopsAt : StopsAt sIpv4Udp zeroed exitMessage Text (· = zeroed) where
  start := rfl
  stops := by
    rintro b d rfl hd
    rw [← isExit_recvfrom_zeroed hd, sIpv4Udp, recvRound]
    split_ifs with h
    · simp [h]
    · simp [h]
  keeps := by
    rintro b d rfl hd hne
    rw [sIpv4Udp, recvRound, if_neg fun h => hne ((isExit_recvfrom_zeroed hd).mp h)]

theorem sIpv6Udp_stopsAt (buffer : List UInt8) :
    StopsAt sIpv6Udp buffer exitMessage Text fun _ => True where
  start := trivial
  stops := by
    intro b d _ hd
    rw [← isExit_recvfrom_zeroed hd]
    simp [sIpv6Udp]
  keeps := fun _ _ _ _ _ => trivial

theorem endsAtExit_iff {round : List UInt8 → List UInt8 → List UInt8 × Bool}
    {start : List UInt8} {ok : List UInt8 → Prop}
    (hround : StopsAt round start exitMessage Text ok) (hfile : 0 ∉ file) :
    (∀ s, (datagramSystem (sendLines file) round start).Reachable s →
      EndsAtExit file (sendLines file) s) ↔ ¬ExitLine file := by
  have hlast := ends_at_marker_iff hround (fun d => text_of_mem_lines hfile) text_exitMessage
  rw [← sendLines_eq hfile, exitMessage_mem_lines] at hlast
  rw [← hlast]
  constructor
  · intro h s hs
    exact (h s hs).last
  · intro h s hs
    refine ⟨h s hs, fun hreturned => ?_⟩
    rw [(h s hs).1 hreturned, flatten_sendLines hfile]

/-- **UDP sessions.** For a file without a zero byte, in every run the session ends at
    the end message behind the file, and with all of the file received, if and only if
    the file has no `ExitLine`. -/
theorem udp_ends_at_exit_iff (hfile : 0 ∉ file) :
    ((∀ s, (ipv4Udp file zeroed).Reachable s → EndsAtExit file (cIpv4Udp file) s) ↔
      ¬ExitLine file) ∧
    ∀ buffer, (∀ s, (ipv6Udp file buffer).Reachable s → EndsAtExit file (cIpv6Udp file) s) ↔
      ¬ExitLine file :=
  ⟨endsAtExit_iff sIpv4Udp_stopsAt hfile,
    fun buffer => endsAtExit_iff (sIpv6Udp_stopsAt buffer) hfile⟩

theorem udp_ends_at_exit_iff_hello : 0 ∉ ascii "hello\n" ∧
    ((∀ s, (ipv4Udp (ascii "hello\n") zeroed).Reachable s →
        EndsAtExit (ascii "hello\n") (cIpv4Udp (ascii "hello\n")) s) ↔
      ¬ExitLine (ascii "hello\n")) ∧
    ∀ buffer, (∀ s, (ipv6Udp (ascii "hello\n") buffer).Reachable s →
        EndsAtExit (ascii "hello\n") (cIpv6Udp (ascii "hello\n")) s) ↔
      ¬ExitLine (ascii "hello\n") :=
  ⟨by decide, udp_ends_at_exit_iff (by decide)⟩

/-- The lines `exit` and `x`: in both sessions the server stops after the first one. -/
theorem udp_ends_early : ¬∀ file : List UInt8, 0 ∉ file →
    (∀ s, (ipv4Udp file zeroed).Reachable s → EndsAtExit file (cIpv4Udp file) s) ∧
    ∀ s, (ipv6Udp file zeroed).Reachable s → EndsAtExit file (cIpv6Udp file) s := by
  intro hall
  have hfile : 0 ∉ ascii "exit\nx\n" := by decide
  have hexit : ExitLine (ascii "exit\nx\n") :=
    ⟨[], [], ascii "x\n", by decide, .inl rfl, by decide, by decide⟩
  exact (endsAtExit_iff sIpv4Udp_stopsAt hfile).mp (hall _ hfile).1 hexit

end ChatOnC.FileTransfer
