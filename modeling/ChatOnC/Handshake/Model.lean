import ChatOnC.Common.CString
import ChatOnC.Common.System

/-!
# The handshake of the transfer tool (`task3_making-chat-on-c`)

Model of the part of `client_main` and `server_main` that agrees on a transfer:
the client sends `argv[5]` and `argv[6]` over one TCP connection and closes it,
the server calls `recv` twice and both select a transfer function by their pair
of strings. The connection is a stream of bytes: what the client has sent
arrives in order, in pieces of any size, and the end of the stream behind it.
-/

namespace ChatOnC.Handshake

open ChatOnC.Common

/-- `sizeof(buffer[0])` (`server.c`, line 595). -/
def bufferSize : ℕ := 1024

/-- An argument that fits `message` (`client.c`, line 409): the bytes of a
    non-empty string. -/
structure Arg where
  bytes : List UInt8
  ne_nil : bytes ≠ []
  zero_notMem : 0 ∉ bytes
  length_lt : bytes.length < bufferSize

/-- The transfer functions of `client.c`. -/
inductive ClientTransfer
  | c_ipv4_tcp | c_ipv4_udp | c_ipv6_tcp | c_ipv6_udp | c_mmap | c_pipe | c_uds_dgram
  | c_uds_stream
  deriving DecidableEq

/-- The transfer functions of `server.c`. -/
inductive ServerTransfer
  | s_ipv4_tcp | s_ipv4_udp | s_ipv6_tcp | s_ipv6_udp | s_mmap | s_pipe | s_uds_dgram
  | s_uds_stream
  deriving DecidableEq

/-- The function that serves a transfer function of the client. -/
def ClientTransfer.peer : ClientTransfer → ServerTransfer
  | .c_ipv4_tcp => .s_ipv4_tcp
  | .c_ipv4_udp => .s_ipv4_udp
  | .c_ipv6_tcp => .s_ipv6_tcp
  | .c_ipv6_udp => .s_ipv6_udp
  | .c_mmap => .s_mmap
  | .c_pipe => .s_pipe
  | .c_uds_dgram => .s_uds_dgram
  | .c_uds_stream => .s_uds_stream

/-- A chain of tests `strcmp(type, ..) == 0 && strcmp(param, ..) == 0`; none of
    them holding ends in `exit(1)`. -/
def select {α : Type*} (table : List (String × String × α)) (type param : List UInt8) : Option α :=
  match table with
  | [] => none
  | (t, p, transfer) :: rest =>
    if type = ascii t ∧ param = ascii p then some transfer else select rest type param

/-- `client.c`, lines 455–473. -/
def clientTable : List (String × String × ClientTransfer) :=
  [("ipv4", "tcp", .c_ipv4_tcp), ("ipv4", "udp", .c_ipv4_udp), ("ipv6", "tcp", .c_ipv6_tcp),
    ("ipv6", "udp", .c_ipv6_udp), ("mmap", "filename", .c_mmap), ("pipe", "filename", .c_pipe),
    ("uds", "dgram", .c_uds_dgram), ("uds", "stream", .c_uds_stream)]

/-- `server.c`, lines 652–678. -/
def serverTable : List (String × String × ServerTransfer) :=
  [("ipv4", "tcp", .s_ipv4_tcp), ("ipv4", "udp", .s_ipv4_udp), ("ipv6", "tcp", .s_ipv6_tcp),
    ("ipv6", "udp", .s_ipv6_udp), ("mmap", "filename", .s_mmap), ("pipe", "filename", .s_pipe),
    ("uds", "dgram", .s_uds_dgram), ("uds", "stream", .s_uds_stream)]

/-- Where `client_main` stands (lines 433–475). `selected none` is `exit(1)`. -/
inductive ClientPc
  | sendType
  | sendParam
  | close
  | select
  | selected (transfer : Option ClientTransfer)
  deriving DecidableEq

/-- Where `server_main` stands (lines 627–678). -/
inductive ServerPc
  | recvType
  | recvParam
  | select
  | selected (transfer : Option ServerTransfer)
  deriving DecidableEq

/-- `inTransit` is what was sent and has not arrived, `arrived` what has arrived
    and was not received. `counts` is history: the values `recv` returned. -/
structure State where
  client : ClientPc
  inTransit : List UInt8
  closed : Bool
  arrived : List UInt8
  endArrived : Bool
  server : ServerPc
  buffer : ℕ → List UInt8
  counts : List ℕ

/-- Who takes the next step. `recv` returns `n`. -/
inductive Label
  | client
  | deliver (n : ℕ)
  | deliverEnd
  | recv (n : ℕ)
  | serverSelect
  deriving DecidableEq

variable (type param : Arg)

/-- A step of `client_main`. -/
def clientStep (s : State) : Option State :=
  match s.client with
  | .sendType => some { s with client := .sendParam, inTransit := s.inTransit ++ type.bytes }
  | .sendParam => some { s with client := .close, inTransit := s.inTransit ++ param.bytes }
  | .close => some { s with client := .select, closed := true }
  | .select =>
    some { s with client := .selected (select clientTable type.bytes param.bytes) }
  | .selected _ => none

/-- The next `n` bytes of the stream arrive. -/
def deliverStep (n : ℕ) (s : State) : Option State :=
  if 0 < n ∧ n ≤ s.inTransit.length then
    some { s with inTransit := s.inTransit.drop n, arrived := s.arrived ++ s.inTransit.take n }
  else none

/-- The end of the stream arrives. -/
def deliverEndStep (s : State) : Option State :=
  if s.closed = true ∧ s.inTransit = [] then some { s with endArrived := true } else none

/-- `recv(client_fd, buf, size, 0)` can return `n`: some bytes that have arrived,
    or 0 at the end of the stream. -/
def recvReturns (size n : ℕ) (s : State) : Prop :=
  0 < n ∧ n ≤ size ∧ n ≤ s.arrived.length ∨ n = 0 ∧ s.arrived = [] ∧ s.endArrived = true

instance (size n : ℕ) (s : State) : Decidable (recvReturns size n s) :=
  inferInstanceAs (Decidable (_ ∨ _))

/-- `recv` into `buffer[i]` and its terminator (lines 628–633 and 636–641). -/
def recvInto (i n : ℕ) (next : ServerPc) (s : State) : Option State :=
  if recvReturns (bufferSize - 1) n s then
    some { s with
      server := next
      arrived := s.arrived.drop n
      buffer := Function.update s.buffer i
        (overwrite (overwrite (s.buffer i) 0 (s.arrived.take n)) n [0])
      counts := s.counts ++ [n] }
  else none

/-- A call of `recv` by `server_main`. -/
def recvStep (n : ℕ) (s : State) : Option State :=
  match s.server with
  | .recvType => recvInto 0 n .recvParam s
  | .recvParam => recvInto 1 n .select s
  | _ => none

/-- Lines 652–678. -/
def serverSelectStep (s : State) : Option State :=
  match s.server with
  | .select =>
    some { s with
      server := .selected (select serverTable (cString (s.buffer 0)) (cString (s.buffer 1))) }
  | _ => none

/-- The two programs once they are connected. `stack` is what `buffer` holds
    before it is written. -/
def system (stack : ℕ → Fin bufferSize → UInt8) : System State Label where
  init :=
    { client := .sendType, inTransit := [], closed := false, arrived := [], endArrived := false,
      server := .recvType, buffer := fun i => List.ofFn (stack i), counts := [] }
  step
    | .client, s => clientStep type param s
    | .deliver n, s => deliverStep n s
    | .deliverEnd, s => deliverEndStep s
    | .recv n, s => recvStep n s
    | .serverSelect, s => serverSelectStep s

end ChatOnC.Handshake
