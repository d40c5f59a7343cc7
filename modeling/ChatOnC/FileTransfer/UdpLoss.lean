import ChatOnC.Common.UnreliableDatagram
import ChatOnC.FileTransfer.Counters
import ChatOnC.FileTransfer.UdpReceivers

/-!
# UDP sessions over an unreliable network

`c_ipv4_udp` with `s_ipv4_udp` and `c_ipv6_udp` with `s_ipv6_udp`, when datagrams may be
lost, repeated and reordered. Nothing in a datagram says where it belongs, so each server
takes what comes until it sees the end message. `s_ipv4_udp` does not clear its buffer in front
of the first datagram, and compares that one with what the buffer holds.

* `outcomes_ipv4_iff`: with which buffers that does not matter.
* `totalBytesRead_eq`, `checksum_counts`: what the two servers have counted, in any state.
* `udp_outcomes`: for every file without a zero byte, what a server can have received when it
  leaves its loop, and when it is left waiting; and when it never leaves early.
-/

namespace ChatOnC.FileTransfer

open ChatOnC.Common ChatOnC.Checksum

/-- `c_ipv4_udp` and `s_ipv4_udp`. -/
def unreliableIpv4Udp (file buffer : List UInt8) :
    System (Exchange (List UInt8) UdpVars) NetworkMove :=
  unreliableSystem (cIpv4Udp file) sIpv4UdpLoop (.start buffer)

/-- `c_ipv6_udp` and `s_ipv6_udp`. -/
def unreliableIpv6Udp (file buffer : List UInt8) :
    System (Exchange (List UInt8) PollVars) NetworkMove :=
  unreliableSystem (cIpv6Udp file) sIpv6UdpLoop (.start buffer)

/-- Some of the lines of the file other than the end message, each any number of times and in any
    order. -/
def SomeLines (file : List UInt8) (xs : List (List UInt8)) : Prop :=
  SomeOf (lines newline bufferSize file) exitMessage xs

/-- The ends of a session: the server leaves its loop behind any lines and the end message,
    or waits for ever behind any lines; and it never leaves while the client has something to
    send if and only if the file has no `ExitLine`. -/
structure Outcomes {β : Type*} (S : System (Exchange (List UInt8) β) NetworkMove)
    (file : List UInt8) : Prop where
  leaves : ∀ ds, (∃ s, S.Reachable s ∧ Quiet s ∧ s.returned = true ∧ s.taken = ds) ↔
    ∃ xs, ds = xs ++ [exitMessage] ∧ SomeLines file xs
  waits : ∀ ds, (∃ s, S.Reachable s ∧ Quiet s ∧ s.returned = false ∧ s.taken = ds) ↔
    SomeLines file ds
  early : (∀ s, S.Reachable s → s.returned = true → s.toSend = []) ↔ ¬ExitLine file

variable {file buffer : List UInt8}

/-! ## The loops -/

/-- With its counters the loop does with the buffer what it does without. -/
theorem sIpv4UdpLoop_eq (vars : UdpVars) (d : List UInt8) :
    ((sIpv4UdpLoop vars d).1.buffer, (sIpv4UdpLoop vars d).2) = sIpv4Udp vars.buffer d := by
  unfold sIpv4UdpLoop UdpVars.round sIpv4Udp recvRound
  dsimp only
  split_ifs with hexit
  · rfl
  · rfl

theorem sIpv6UdpLoop_eq (vars : PollVars) (d : List UInt8) :
    ((sIpv6UdpLoop vars d).1.buffer, (sIpv6UdpLoop vars d).2) = sIpv6Udp vars.buffer d := rfl

/-- What the buffer holds does not matter for this text. -/
structure Unspoilt (buffer d : List UInt8) : Prop where
  text : Text d
  harmless : LeftoverHarmless buffer d

theorem sIpv4Udp_leaves_text (hbuffer : buffer.length = bufferSize) {d : List UInt8}
    (hd : Text d) :
    ((sIpv4Udp buffer d).2 = true ↔ d = exitMessage) ↔ LeftoverHarmless buffer d := by
  rw [← leaves_iff_zeroed_iff hbuffer (Nat.le_of_lt hd.2), sIpv4Udp_stopsAt.stops zeroed d rfl hd]

/-- The loop is left on the end message, from a cleared buffer and from one that is harmless. -/
theorem sIpv4UdpLoop_stopsAt (hbuffer : buffer.length = bufferSize) :
    StopsAt sIpv4UdpLoop (.start buffer) exitMessage (Unspoilt buffer)
      fun vars => vars.buffer = zeroed ∨ vars = .start buffer where
  start := .inr rfl
  stops vars d hok hd := by
    have hround := sIpv4UdpLoop_eq vars d
    rcases hok with hok | rfl
    · rw [← sIpv4Udp_stopsAt.stops vars.buffer d hok hd.text, ← hround]
    · rw [← (sIpv4Udp_leaves_text hbuffer hd.text).mpr hd.harmless]
      exact iff_of_eq (congrArg (·.2 = true) hround)
  keeps vars d hok hd hne := by
    have hround := sIpv4UdpLoop_eq vars d
    have hstays : ¬(sIpv4Udp vars.buffer d).2 = true := by
      rcases hok with hok | rfl
      · exact fun h => hne ((sIpv4Udp_stopsAt.stops vars.buffer d hok hd.text).mp h)
      · exact fun h => hne (((sIpv4Udp_leaves_text hbuffer hd.text).mpr hd.harmless).mp h)
    have hzeroed := sIpv4Udp_of_stays hstays
    rw [← hround] at hzeroed
    exact .inl hzeroed

theorem sIpv6UdpLoop_stopsAt (buffer : List UInt8) :
    StopsAt sIpv6UdpLoop (.start buffer) exitMessage Text fun _ => True where
  start := trivial
  stops vars d _ hd := by
    rw [← (sIpv6Udp_stopsAt vars.buffer).stops vars.buffer d trivial hd, ← sIpv6UdpLoop_eq]
  keeps _ _ _ _ _ := trivial

theorem outcomes {β : Type*} {round : β → List UInt8 → β × Bool} {start : β} {ok : β → Prop}
    {wf : List UInt8 → Prop} (h : StopsAt round start exitMessage wf ok) (hfile : 0 ∉ file)
    (hwf : ∀ d ∈ sendLines file, wf d) :
    Outcomes (unreliableSystem (sendLines file) round start) file := by
  rw [sendLines_eq hfile] at hwf ⊢
  have hdata : ∀ d ∈ lines newline bufferSize file, wf d :=
    fun d hd => hwf d (List.mem_append_left _ hd)
  have hexit : wf exitMessage := hwf _ (List.mem_append_right _ List.mem_cons_self)
  refine ⟨fun ds => ?_, fun ds => ?_, ?_⟩
  · exact leaves_with_iff h hdata hexit
  · exact left_waiting_iff h hdata hexit
  · rw [never_early_iff h hdata hexit, exitMessage_mem_lines]

/-- A server with these outcomes leaves its loop on the end message, if that comes first, and
    goes on with any other line. -/
theorem Outcomes.first {β : Type*} {round : β → List UInt8 → β × Bool} {start : β}
    {d : List UInt8} (h : Outcomes (unreliableSystem (sendLines file) round start) file)
    (hfile : 0 ∉ file) (hd : d ∈ sendLines file) :
    (round start d).2 = true ↔ d = exitMessage := by
  have hone : ∀ {s : Exchange (List UInt8) β}, s.taken = [d] →
      (unreliableSystem (sendLines file) round start).Reachable s →
      (round start d).2 = s.returned := by
    intro s htaken hs
    have hreceived := (networkInv_reach hs).received
    rw [htaken] at hreceived
    have hfirst : Received round start ([] ++ [d]) s.vars s.returned := hreceived
    obtain ⟨start', hnone, hround⟩ := hfirst.of_append
    obtain ⟨rfl, -⟩ := hnone.of_nil
    rw [hround]
  constructor
  · intro hleaves
    by_contra hne
    have hline : d ∈ lines newline bufferSize file := by
      rw [sendLines_eq hfile] at hd
      exact (List.mem_append.mp hd).resolve_right fun hlast => hne (List.mem_singleton.mp hlast)
    have hsome : SomeLines file [d] := fun x hx => List.mem_singleton.mp hx ▸ ⟨hline, hne⟩
    obtain ⟨s, hs, -, hreturned, htaken⟩ := (h.waits [d]).mpr hsome
    rw [hone htaken hs, hreturned] at hleaves
    cases hleaves
  · rintro rfl
    obtain ⟨s, hs, -, hreturned, htaken⟩ := (h.leaves [exitMessage]).mpr
      ⟨[], rfl, fun x hx => absurd hx List.not_mem_nil⟩
    rw [hone htaken hs, hreturned]

theorem text_of_mem_sendLines (hfile : 0 ∉ file) {d : List UInt8} (hd : d ∈ sendLines file) :
    Text d := by
  rw [sendLines_eq hfile] at hd
  exact wf_of_mem_sends (fun d => text_of_mem_lines hfile) text_exitMessage hd

/-- What the buffer holds at the start does not matter for anything that can be sent. -/
def Harmless (file buffer : List UInt8) : Prop := ∀ d ∈ sendLines file, LeftoverHarmless buffer d

theorem unspoilt_of_harmless (hfile : 0 ∉ file) (h : Harmless file buffer) :
    ∀ d ∈ sendLines file, Unspoilt buffer d :=
  fun d hd => ⟨text_of_mem_sendLines hfile hd, h d hd⟩

theorem outcomes_ipv4_iff (hfile : 0 ∉ file) (hbuffer : buffer.length = bufferSize) :
    Outcomes (unreliableIpv4Udp file buffer) file ↔ Harmless file buffer := by
  constructor
  · intro h d hd
    rw [← sIpv4Udp_leaves_text hbuffer (text_of_mem_sendLines hfile hd), ← h.first hfile hd]
    exact iff_of_eq (congrArg (·.2 = true) (sIpv4UdpLoop_eq (.start buffer) d).symm)
  · exact fun h => outcomes (sIpv4UdpLoop_stopsAt hbuffer) hfile (unspoilt_of_harmless hfile h)

/-! ## The counters -/

/-- The lengths of the datagrams that are not the end message. -/
def dataLength (ds : List (List UInt8)) : ℕ :=
  ((ds.filter (· ≠ exitMessage)).map List.length).sum

theorem dataLength_append (ds es : List (List UInt8)) :
    dataLength (ds ++ es) = dataLength ds + dataLength es := by
  rw [dataLength, List.filter_append, List.map_append, List.sum_append]
  rfl

theorem dataLength_singleton (d : List UInt8) :
    dataLength [d] = if d = exitMessage then 0 else d.length := by
  unfold dataLength
  split_ifs with hexit
  · simp [hexit]
  · simp [hexit]

theorem round_totalBytesRead {vars : UdpVars} {d : List UInt8} (hd : Text d)
    (hleaves : (vars.round d).2 = true ↔ d = exitMessage) :
    (vars.round d).1.totalBytesRead = vars.totalBytesRead + dataLength [d] := by
  rw [dataLength_singleton]
  by_cases hexit : cString (recvfrom vars.buffer d) = exitMessage
  · have hround : vars.round d = ({ vars with buffer := recvfrom vars.buffer d }, true) :=
      if_pos hexit
    rw [if_pos (hleaves.mp (by rw [hround])), hround]
    exact (Int.add_zero _).symm
  · have hstays : (vars.round d).2 = false := by
      rw [UdpVars.round, if_neg hexit]
    have hne : d ≠ exitMessage := by
      intro heq
      rw [hleaves.mpr heq] at hstays
      cases hstays
    rw [if_neg hne, UdpVars.round, if_neg hexit, received_of_text hd]

/-- What `s_ipv4_udp` has counted of some texts for which its buffer is harmless. -/
theorem received_totalBytesRead (hbuffer : buffer.length = bufferSize) {ds : List (List UInt8)}
    {vars : UdpVars} {returned : Bool} (hds : ∀ d ∈ ds, Unspoilt buffer d)
    (h : Received sIpv4UdpLoop (.start buffer) ds vars returned) :
    vars.totalBytesRead = dataLength ds := by
  have hstops := sIpv4UdpLoop_stopsAt hbuffer
  induction h with
  | nil => rfl
  | @round ds vars h d ih =>
    have hfront : ∀ x ∈ ds, Unspoilt buffer x := fun x hx => hds x (List.mem_append_left _ hx)
    have hlast : Unspoilt buffer d := hds d (by simp)
    have hok := ((hstops.received hfront h).1 rfl).2
    rw [sIpv4UdpLoop, round_totalBytesRead hlast.text (hstops.stops vars d hok hlast), ih hfront,
      dataLength_append, Int.natCast_add]

/-- What `s_ipv6_udp` has counted of some texts. -/
theorem received_checksum {ds : List (List UInt8)} {vars : PollVars} {returned : Bool}
    (hds : ∀ d ∈ ds, Text d) (h : Received sIpv6UdpLoop (.start buffer) ds vars returned) :
    vars.checksum.Counts (ds.map List.length).sum := by
  induction h with
  | nil => exact intOf_zero_counts
  | @round ds vars h d ih =>
    have hd : Text d := hds d (by simp)
    have hlen : d.length < 1024 := hd.2
    have hround : (sIpv6UdpLoop vars d).1.checksum = vars.checksum.add (intOf d.length) := by
      rw [sIpv6UdpLoop, received_of_text hd]
    rw [List.map_append, List.sum_append, List.map_singleton, List.sum_singleton, hround]
    exact (ih fun x hx => hds x (List.mem_append_left _ hx)).add (intOf_is (by omega))

theorem mem_sendLines_of_taken {β : Type*} {round : β → List UInt8 → β × Bool} {start : β}
    {s : Exchange (List UInt8) β}
    (hs : (unreliableSystem (sendLines file) round start).Reachable s) :
    ∀ d ∈ s.taken, d ∈ sendLines file := by
  intro d hd
  have hinv := networkInv_reach hs
  exact hinv.sent ▸ List.mem_append_left _ (hinv.genuine d hd)

theorem totalBytesRead_eq (hfile : 0 ∉ file) (hbuffer : buffer.length = bufferSize)
    (hharmless : Harmless file buffer) {s : Exchange (List UInt8) UdpVars}
    (hs : (unreliableIpv4Udp file buffer).Reachable s) :
    s.vars.totalBytesRead = dataLength s.taken :=
  received_totalBytesRead hbuffer
    (fun d hd => unspoilt_of_harmless hfile hharmless d (mem_sendLines_of_taken hs d hd))
    (networkInv_reach hs).received

theorem checksum_counts (hfile : 0 ∉ file) {s : Exchange (List UInt8) PollVars}
    (hs : (unreliableIpv6Udp file buffer).Reachable s) :
    s.vars.checksum.Counts (s.taken.map List.length).sum :=
  received_checksum (fun d hd => text_of_mem_sendLines hfile (mem_sendLines_of_taken hs d hd))
    (networkInv_reach hs).received

/-- **UDP over an unreliable network.** For every file without a zero byte: the ends a session
    can have, and what the servers have counted in any state, `s_ipv4_udp` without the end
    message and `s_ipv6_udp` with it. With `s_ipv4_udp` this is so if and only if what its buffer
    holds in front of the loop is harmless, as with a cleared one. -/
theorem udp_outcomes (hfile : 0 ∉ file) (hbuffer : buffer.length = bufferSize) :
    ((Outcomes (unreliableIpv4Udp file buffer) file ↔ Harmless file buffer) ∧
      (Harmless file buffer → ∀ s, (unreliableIpv4Udp file buffer).Reachable s →
        s.vars.totalBytesRead = dataLength s.taken)) ∧
    Outcomes (unreliableIpv6Udp file buffer) file ∧
      ∀ s, (unreliableIpv6Udp file buffer).Reachable s →
        s.vars.checksum.Counts (s.taken.map List.length).sum := by
  refine ⟨⟨outcomes_ipv4_iff hfile hbuffer, fun hharmless s hs => ?_⟩, ?_, fun s hs => ?_⟩
  · exact totalBytesRead_eq hfile hbuffer hharmless hs
  · exact outcomes (sIpv6UdpLoop_stopsAt buffer) hfile fun d => text_of_mem_sendLines hfile
  · exact checksum_counts hfile hs

/-- With a cleared buffer, and with one that completes no end message. -/
theorem udp_outcomes_hello :
    (0 ∉ ascii "hello\n" ∧ Harmless (ascii "hello\n") zeroed ∧
      Outcomes (unreliableIpv4Udp (ascii "hello\n") zeroed) (ascii "hello\n")) ∧
    ¬Outcomes (unreliableIpv4Udp (ascii "hello\n") (List.replicate bufferSize 255))
      (ascii "hello\n") := by
  have hfile : 0 ∉ ascii "hello\n" := by decide
  have hharmless : Harmless (ascii "hello\n") zeroed := fun d hd =>
    (leaves_iff_zeroed_iff length_zeroed
      (Nat.le_of_lt (text_of_mem_sendLines hfile hd).2)).mp Iff.rfl
  have hspoilt : ¬Harmless (ascii "hello\n") (List.replicate bufferSize 255) := by
    intro h
    have hexit := h exitMessage (by decide +kernel) List.prefix_rfl
    exact absurd (hexit.mpr rfl) (by decide +kernel)
  have hboth := udp_outcomes hfile length_zeroed
  refine ⟨⟨hfile, hharmless, hboth.1.1.mpr hharmless⟩, fun h => hspoilt ?_⟩
  exact (udp_outcomes hfile List.length_replicate).1.1.mp h

end ChatOnC.FileTransfer
