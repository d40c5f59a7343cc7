import ChatOnC.Common.CString
import ChatOnC.Common.Datagram
import ChatOnC.Common.Lines

/-!
# The transfers by datagrams

Models of `c_ipv4_udp`, `c_ipv6_udp` and `c_uds_dgram` (`client.c`, lines 129–268) and
of `s_ipv4_udp`, `s_ipv6_udp` and `s_uds_dgram` (`server.c`, lines 197–391), from the
first byte of `file.txt` to the end of the receive loop. No call fails, and datagrams
arrive once each and in order. A client is the list of the datagrams it sends, a
server a round of its loop on the buffer it receives into.

`checksum` and `totalBytesRead` are left out, as nothing reads them, and so are the
rounds of `s_ipv6_udp` in which `poll` reports something else than `POLLIN`, as they
change nothing.
-/

namespace ChatOnC.FileTransfer

open ChatOnC.Common

/-- `char buffer[1024]` of the clients and `BUFFER_SIZE` of the servers. -/
def bufferSize : ℕ := 1024

/-- `'\n'`. -/
def newline : UInt8 := 10

/-- The end message of the clients. -/
def exitMessage : List UInt8 := ascii "exit\n"

/-! ## The clients -/

/-- The `strlen(buffer)` bytes sent for a line that `fgets` has stored. -/
def lineDatagram (line : List UInt8) : List UInt8 := cString (line ++ [0])

/-- The body of `c_ipv4_udp` and `c_ipv6_udp`: the file line by line, then the end
    message. -/
def sendLines (file : List UInt8) : List (List UInt8) :=
  (lines newline bufferSize file).map lineDatagram ++ [exitMessage]

/-- `client.c`, lines 155–170. -/
def cIpv4Udp (file : List UInt8) : List (List UInt8) := sendLines file

/-- `client.c`, lines 205–220. -/
def cIpv6Udp (file : List UInt8) : List (List UInt8) := sendLines file

/-- `client.c`, lines 254–262: one `fread`, and one `sendto` if it has read something. -/
def cUdsDgram (file : List UInt8) : List (List UInt8) :=
  let bytesRead := file.take bufferSize
  if bytesRead.length > 0 then [bytesRead] else []

/-! ## The servers -/

/-- What `recvfrom` hands over of a datagram: what fits into the buffer. -/
def received (datagram : List UInt8) : List UInt8 := datagram.take bufferSize

/-- The buffer after `recvfrom(socket_fd, buffer, sizeof(buffer), ..)`. -/
def recvfrom (buffer datagram : List UInt8) : List UInt8 :=
  overwrite buffer 0 (received datagram)

/-- The buffer after `memset(buffer, 0, sizeof(buffer))`. -/
def zeroed : List UInt8 := List.replicate bufferSize 0

/-- A round of the loop of `s_ipv4_udp` and `s_uds_dgram`: the buffer behind it, and
    whether it has left the loop. -/
def recvRound (buffer datagram : List UInt8) : List UInt8 × Bool :=
  let buffer := recvfrom buffer datagram
  if cString buffer = exitMessage then (buffer, true) else (zeroed, false)

/-- `server.c`, lines 233–246. -/
def sIpv4Udp (buffer datagram : List UInt8) : List UInt8 × Bool := recvRound buffer datagram

/-- `server.c`, lines 297–316. Here the buffer is zeroed in front of `recvfrom`. -/
def sIpv6Udp (_buffer datagram : List UInt8) : List UInt8 × Bool :=
  let buffer := recvfrom zeroed datagram
  (buffer, cString buffer = exitMessage)

/-- `server.c`, lines 364–377. -/
def sUdsDgram (buffer datagram : List UInt8) : List UInt8 × Bool := recvRound buffer datagram

/-! ## The sessions -/

/-- `c_ipv4_udp` and `s_ipv4_udp`. -/
def ipv4Udp (file buffer : List UInt8) : System (Session (List UInt8) (List UInt8)) Side :=
  datagramSystem (cIpv4Udp file) sIpv4Udp buffer

/-- `c_ipv6_udp` and `s_ipv6_udp`. -/
def ipv6Udp (file buffer : List UInt8) : System (Session (List UInt8) (List UInt8)) Side :=
  datagramSystem (cIpv6Udp file) sIpv6Udp buffer

/-- `c_uds_dgram` and `s_uds_dgram`. -/
def udsDgram (file buffer : List UInt8) : System (Session (List UInt8) (List UInt8)) Side :=
  datagramSystem (cUdsDgram file) sUdsDgram buffer

/-! ## Lemmas about the buffer -/

@[simp] theorem length_zeroed : zeroed.length = bufferSize := List.length_replicate

theorem zero_notMem_exitMessage : 0 ∉ exitMessage := by decide

theorem recvfrom_eq (buffer datagram : List UInt8) : recvfrom buffer datagram =
    received datagram ++ buffer.drop (received datagram).length :=
  overwrite_zero buffer (received datagram)

theorem length_recvfrom {buffer datagram : List UInt8} (hbuffer : buffer.length = bufferSize) :
    (recvfrom buffer datagram).length = bufferSize := by
  have hreceived : (received datagram).length ≤ bufferSize := List.length_take_le _ _
  rw [recvfrom_eq, List.length_append, List.length_drop, hbuffer, Nat.add_sub_cancel' hreceived]

/-- The buffer reads like the end message if the datagram and what is behind it in the
    buffer start with that and a zero. -/
theorem isExit_recvfrom_iff {buffer datagram : List UInt8} (hbuffer : buffer.length = bufferSize)
    (hlen : datagram.length ≤ bufferSize) :
    cString (recvfrom buffer datagram) = exitMessage ↔
      exitMessage ++ [0] <+: datagram ++ buffer.drop datagram.length := by
  have hroom : exitMessage.length < (recvfrom buffer datagram).length := by
    rw [length_recvfrom hbuffer]
    decide
  have hreceived : received datagram = datagram := List.take_of_length_le hlen
  rw [cString_eq_iff zero_notMem_exitMessage hroom, recvfrom_eq, hreceived]

/-- A datagram without zeros that leaves room for one is the string of the buffer. -/
theorem cString_recvfrom_zeroed {d : List UInt8} (h0 : 0 ∉ d) (hlen : d.length < bufferSize) :
    cString (recvfrom zeroed d) = d := by
  have hreceived : received d = d := List.take_of_length_le (Nat.le_of_lt hlen)
  obtain ⟨room, hroom⟩ : ∃ room, bufferSize - d.length = room + 1 :=
    ⟨bufferSize - d.length - 1, by omega⟩
  rw [recvfrom_eq, hreceived, zeroed, List.drop_replicate, hroom, List.replicate_succ,
    cString_append_zero h0]

end ChatOnC.FileTransfer
