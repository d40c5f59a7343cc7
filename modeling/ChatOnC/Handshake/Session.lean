import ChatOnC.Handshake.Progress

/-!
# From the handshake to the connection of the transfer

`client_main` and `server_main` up to the point where their transfer functions have met. The
server's functions for streams bind, listen and accept, and the client's connect; only two calls
of `usleep` let the server come first. A client that comes too early ends, and leaves the
server in `accept`. One that comes to another address connects to whoever listens there, and one
that is given port 8000 may come to the listener of the handshake, which is still open.

* `sessionInv_step`: each side is in the function that it has selected.
* `SessionInv.met`: a client that has connected to the server's transfer function has selected
  the other side of the same transfer.
* `SessionInv.ends`: what a session looks like that cannot go on.
* `session_ends`: every session ends, and how.
-/

namespace ChatOnC.Handshake

open ChatOnC.Common

/-! ## The calls of the transfer functions -/

/-- Where a stream socket listens: at the port `htons(atoi(port))`, or at `SOCKET_PATH`. The
    ports of IPv4 and IPv6 are not told apart, since a socket at `in6addr_any` may take both. -/
inductive Address
  | port (number : UInt16)
  | path
  deriving DecidableEq

/-- The port of the handshake (`client.c`, line 425, and `server.c`, line 606). -/
def handshakePort : UInt16 := 8000

/-- Where the functions of `client.c` connect to (lines 48–52, 99–102, 288–291 and 344–348);
    `none` for those that do not. -/
def ClientTransfer.target (port : UInt16) : ClientTransfer → Option Address
  | .c_ipv4_tcp | .c_ipv6_tcp | .c_mmap => some (.port port)
  | .c_uds_stream => some .path
  | .c_ipv4_udp | .c_ipv6_udp | .c_pipe | .c_uds_dgram => none

/-- Where the functions of `server.c` listen and accept (lines 74–91, 148–164 and 414–430);
    `none` for those that do not. The socket of `s_mmap` is one for datagrams (line 470). -/
def ServerTransfer.listensAt (port : UInt16) : ServerTransfer → Option Address
  | .s_ipv4_tcp | .s_ipv6_tcp => some (.port port)
  | .s_uds_stream => some .path
  | .s_ipv4_udp | .s_ipv6_udp | .s_mmap | .s_pipe | .s_uds_dgram => none

/-- How `client_main` ends when `connect` fails: `c_mmap` returns (line 352), and its result is not
    looked at (line 464). -/
def ClientTransfer.refused : ClientTransfer → ℕ
  | .c_mmap => 0
  | _ => 1

/-- Who may take the connection of a transfer: the server for the handshake, its transfer
    function, or another program, here or on another host. -/
inductive Listener
  | handshake
  | transfer
  | elsewhere
  deriving DecidableEq

/-- Where the client stands. -/
inductive Caller
  /-- in `client_main` -/
  | main
  /-- before `connect` -/
  | connecting (transfer : ClientTransfer) (address : Address)
  | connected (transfer : ClientTransfer) (listener : Listener)
  /-- in a function that does not connect -/
  | other (transfer : ClientTransfer)
  /-- the process has ended with this code -/
  | ended (code : ℕ)
  deriving DecidableEq

/-- Where the server stands. -/
inductive Callee
  /-- in `server_main` -/
  | main
  /-- before `bind` -/
  | binding (transfer : ServerTransfer) (address : Address)
  /-- behind `listen`, in `accept` -/
  | accepting (transfer : ServerTransfer) (address : Address)
  | accepted (transfer : ServerTransfer)
  /-- in a function that does not accept -/
  | other (transfer : ServerTransfer)
  | ended (code : ℕ)
  deriving DecidableEq

structure Session where
  handshake : State
  client : Caller
  server : Callee

/-- Who takes the next step, and what his call gives. `connect` reaches a listener or fails. -/
inductive SessionLabel
  | handshake (label : Label)
  | call
  | connect (reached : Option Listener)
  | serve
  | listen (ok : Bool)
  | accept (ok : Bool)

namespace Session

/-- The listener is open at the address. The one of the handshake is closed before the server
    selects (line 645); of other programs nothing is known. -/
def isOpen (s : Session) (address : Address) : Listener → Bool
  | .handshake =>
    match s.handshake.server with
    | .selected _ => false
    | _ => address = .port handshakePort
  | .transfer =>
    match s.server with
    | .accepting _ bound => bound = address
    | _ => false
  | .elsewhere => true

/-- Lines 455–473 of `client.c`, and the function up to `connect`. -/
def callStep (port : UInt16) (s : Session) : Option Session :=
  match s.client, s.handshake.client with
  | .main, .selected none => some { s with client := .ended 1 }
  | .main, .selected (some transfer) =>
    match transfer.target port with
    | some address => some { s with client := .connecting transfer address }
    | none => some { s with client := .other transfer }
  | _, _ => none

/-- `connect`, and the calls before it that fail alike. -/
def connectStep (reached : Option Listener) (s : Session) : Option Session :=
  match s.client, reached with
  | .connecting transfer address, some listener =>
    if s.isOpen address listener then some { s with client := .connected transfer listener }
    else none
  | .connecting transfer _, none => some { s with client := .ended transfer.refused }
  | _, _ => none

/-- Lines 652–678 of `server.c`, and the function up to `bind`. -/
def serveStep (port : UInt16) (s : Session) : Option Session :=
  match s.server, s.handshake.server with
  | .main, .selected none => some { s with server := .ended 1 }
  | .main, .selected (some transfer) =>
    match transfer.listensAt port with
    | some address => some { s with server := .binding transfer address }
    | none => some { s with server := .other transfer }
  | _, _ => none

/-- `bind` and `listen`, and the calls before them that fail alike. -/
def listenStep (ok : Bool) (s : Session) : Option Session :=
  match s.server with
  | .binding transfer address =>
    some { s with server := if ok then .accepting transfer address else .ended 1 }
  | _ => none

/-- `accept` returns when the client has connected. -/
def acceptStep (ok : Bool) (s : Session) : Option Session :=
  match s.server, s.client with
  | .accepting transfer _, .connected _ .transfer =>
    some { s with server := if ok then .accepted transfer else .ended 1 }
  | _, _ => none

end Session

/-- The two programs from their handshake connection on. The ports are those that `argv[3]` of
    the client and `argv[2]` of the server give. -/
def session (type param : Arg) (clientPort serverPort : UInt16)
    (stack : ℕ → Fin bufferSize → UInt8) : System Session SessionLabel where
  init := { handshake := (system type param stack).init, client := .main, server := .main }
  step
    | .handshake label, s =>
      ((system type param stack).step label s.handshake).map fun t => { s with handshake := t }
    | .call, s => s.callStep clientPort
    | .connect reached, s => s.connectStep reached
    | .serve, s => s.serveStep serverPort
    | .listen ok, s => s.listenStep ok
    | .accept ok, s => s.acceptStep ok

variable {type param : Arg} {clientPort serverPort : UInt16}
  {stack : ℕ → Fin bufferSize → UInt8} {s s' : Session} {a : SessionLabel}

/-! ## What a step can do -/

/-- The state after a step. -/
inductive SessionOutcome (type param : Arg) (clientPort serverPort : UInt16)
    (stack : ℕ → Fin bufferSize → UInt8) (s : Session) : SessionLabel → Session → Prop
  | shook {label : Label} {t : State}
      (hstep : (system type param stack).step label s.handshake = some t) :
      SessionOutcome type param clientPort serverPort stack s (.handshake label)
        { s with handshake := t }
  | rejected (hclient : s.client = .main) (hsel : s.handshake.client = .selected none) :
      SessionOutcome type param clientPort serverPort stack s .call { s with client := .ended 1 }
  | called {transfer : ClientTransfer} {address : Address} (hclient : s.client = .main)
      (hsel : s.handshake.client = .selected (some transfer))
      (htarget : transfer.target clientPort = some address) :
      SessionOutcome type param clientPort serverPort stack s .call
        { s with client := .connecting transfer address }
  | calledOther {transfer : ClientTransfer} (hclient : s.client = .main)
      (hsel : s.handshake.client = .selected (some transfer))
      (htarget : transfer.target clientPort = none) :
      SessionOutcome type param clientPort serverPort stack s .call
        { s with client := .other transfer }
  | connected {transfer : ClientTransfer} {address : Address} {listener : Listener}
      (hclient : s.client = .connecting transfer address)
      (hopen : s.isOpen address listener = true) :
      SessionOutcome type param clientPort serverPort stack s (.connect (some listener))
        { s with client := .connected transfer listener }
  | refused {transfer : ClientTransfer} {address : Address}
      (hclient : s.client = .connecting transfer address) :
      SessionOutcome type param clientPort serverPort stack s (.connect none)
        { s with client := .ended transfer.refused }
  | gaveUp (hserver : s.server = .main) (hsel : s.handshake.server = .selected none) :
      SessionOutcome type param clientPort serverPort stack s .serve
        { s with server := .ended 1 }
  | served {transfer : ServerTransfer} {address : Address} (hserver : s.server = .main)
      (hsel : s.handshake.server = .selected (some transfer))
      (hbound : transfer.listensAt serverPort = some address) :
      SessionOutcome type param clientPort serverPort stack s .serve
        { s with server := .binding transfer address }
  | servedOther {transfer : ServerTransfer} (hserver : s.server = .main)
      (hsel : s.handshake.server = .selected (some transfer))
      (hbound : transfer.listensAt serverPort = none) :
      SessionOutcome type param clientPort serverPort stack s .serve
        { s with server := .other transfer }
  | listens {transfer : ServerTransfer} {address : Address}
      (hserver : s.server = .binding transfer address) :
      SessionOutcome type param clientPort serverPort stack s (.listen true)
        { s with server := .accepting transfer address }
  | notBound {transfer : ServerTransfer} {address : Address}
      (hserver : s.server = .binding transfer address) :
      SessionOutcome type param clientPort serverPort stack s (.listen false)
        { s with server := .ended 1 }
  | accepted {transfer : ServerTransfer} {address : Address} {peer : ClientTransfer}
      (hserver : s.server = .accepting transfer address)
      (hclient : s.client = .connected peer .transfer) :
      SessionOutcome type param clientPort serverPort stack s (.accept true)
        { s with server := .accepted transfer }
  | notAccepted {transfer : ServerTransfer} {address : Address} {peer : ClientTransfer}
      (hserver : s.server = .accepting transfer address)
      (hclient : s.client = .connected peer .transfer) :
      SessionOutcome type param clientPort serverPort stack s (.accept false)
        { s with server := .ended 1 }

theorem session_outcome (h : (session type param clientPort serverPort stack).step a s = some s') :
    SessionOutcome type param clientPort serverPort stack s a s' := by
  cases a with
  | handshake label =>
    obtain ⟨t, ht, rfl⟩ := Option.map_eq_some_iff.mp h
    exact .shook ht
  | call =>
    change s.callStep clientPort = some s' at h
    unfold Session.callStep at h
    split at h
    · rename_i hclient hsel
      cases h
      exact .rejected hclient hsel
    · rename_i transfer hclient hsel
      split at h
      · rename_i address htarget
        cases h
        exact .called hclient hsel htarget
      · rename_i htarget
        cases h
        exact .calledOther hclient hsel htarget
    · cases h
  | connect reached =>
    change s.connectStep reached = some s' at h
    unfold Session.connectStep at h
    split at h
    · rename_i transfer address listener hclient
      obtain ⟨hopen, h⟩ := Option.ite_none_right_eq_some.mp h
      cases h
      exact .connected hclient hopen
    · rename_i transfer address hclient
      cases h
      exact .refused hclient
    · cases h
  | serve =>
    change s.serveStep serverPort = some s' at h
    unfold Session.serveStep at h
    split at h
    · rename_i hserver hsel
      cases h
      exact .gaveUp hserver hsel
    · rename_i transfer hserver hsel
      split at h
      · rename_i address hbound
        cases h
        exact .served hserver hsel hbound
      · rename_i hbound
        cases h
        exact .servedOther hserver hsel hbound
    · cases h
  | listen ok =>
    change s.listenStep ok = some s' at h
    unfold Session.listenStep at h
    split at h
    · rename_i transfer address hserver
      cases h
      cases ok with
      | true => exact .listens hserver
      | false => exact .notBound hserver
    · cases h
  | accept ok =>
    change s.acceptStep ok = some s' at h
    unfold Session.acceptStep at h
    split at h
    · rename_i transfer address peer hserver hclient
      cases h
      cases ok with
      | true => exact .accepted hserver hclient
      | false => exact .notAccepted hserver hclient
    · cases h

/-! ## The invariant -/

/-- The client is in the function that it has selected, and goes where that goes. -/
def ClientCalls (clientPort : UInt16) (s : Session) : Prop :=
  match s.client with
  | .connecting transfer address =>
    s.handshake.client = .selected (some transfer) ∧ transfer.target clientPort = some address
  | .connected transfer listener =>
    s.handshake.client = .selected (some transfer) ∧
      (listener = .handshake → transfer.target clientPort = some (.port handshakePort))
  | .other transfer =>
    s.handshake.client = .selected (some transfer) ∧ transfer.target clientPort = none
  | .main | .ended _ => True

/-- The server is in the function that it has selected. -/
def ServerCalls (serverPort : UInt16) (s : Session) : Prop :=
  match s.server with
  | .binding transfer address | .accepting transfer address =>
    s.handshake.server = .selected (some transfer) ∧ transfer.listensAt serverPort = some address
  | .accepted transfer => s.handshake.server = .selected (some transfer)
  | .other transfer =>
    s.handshake.server = .selected (some transfer) ∧ transfer.listensAt serverPort = none
  | .main | .ended _ => True

/-- The server listens in this function, or is behind that. -/
def Callee.listened (transfer : ServerTransfer) : Callee → Prop
  | .accepting transfer' _ | .accepted transfer' => transfer' = transfer
  | .ended _ => True
  | .main | .binding _ _ | .other _ => False

/-- The client has met the other side of its own transfer, at the address where that listens. -/
structure Met (clientPort serverPort : UInt16) (transfer : ClientTransfer) (server : Callee) :
    Prop where
  listened : server.listened transfer.peer
  address : ∃ address, transfer.target clientPort = some address ∧
    transfer.peer.listensAt serverPort = some address

/-- The steps that are left to a side, at most. -/
def Caller.left : Caller → ℕ
  | .main => 2
  | .connecting _ _ => 1
  | .connected _ _ | .other _ | .ended _ => 0

def Callee.left : Callee → ℕ
  | .main => 3
  | .binding _ _ => 2
  | .accepting _ _ => 1
  | .accepted _ | .other _ | .ended _ => 0

structure SessionInv (type param : Arg) (clientPort serverPort : UInt16)
    (stack : ℕ → Fin bufferSize → UInt8) (s : Session) : Prop where
  handshake : (system type param stack).Reachable s.handshake
  client : ClientCalls clientPort s
  server : ServerCalls serverPort s
  met : ∀ transfer, s.client = .connected transfer .transfer →
    Met clientPort serverPort transfer s.server
  accepted : ∀ transfer, s.server = .accepted transfer →
    ∃ peer, s.client = .connected peer .transfer

/-- The handshake goes on, and neither side is called back. -/
theorem SessionInv.shook {label : Label} {t : State}
    (h : SessionInv type param clientPort serverPort stack s)
    (hstep : (system type param stack).step label s.handshake = some t) :
    SessionInv type param clientPort serverPort stack { s with handshake := t } := by
  obtain ⟨hhand, hclient, hserver, hmet, hacc⟩ := h
  obtain ⟨hkeepC, hkeepS⟩ := selected_shake (shake_of_step hstep)
  refine ⟨hhand.step trivial hstep, ?_, ?_, hmet, hacc⟩
  · unfold ClientCalls at hclient ⊢
    dsimp only
    cases hc : s.client with
    | main => trivial
    | ended code => trivial
    | _ =>
      rw [hc] at hclient
      exact ⟨hkeepC _ hclient.1, hclient.2⟩
  · unfold ServerCalls at hserver ⊢
    dsimp only
    cases hs : s.server with
    | main => trivial
    | ended code => trivial
    | accepted transfer =>
      rw [hs] at hserver
      exact hkeepS _ hserver
    | _ =>
      rw [hs] at hserver
      exact ⟨hkeepS _ hserver.1, hserver.2⟩

/-- The client moves, without meeting the server and not from a connection. -/
theorem SessionInv.clientMoves {client : Caller}
    (h : SessionInv type param clientPort serverPort stack s)
    (hcalls : ClientCalls clientPort { s with client := client })
    (hnot : ∀ transfer, client ≠ .connected transfer .transfer) (hwas : 0 < s.client.left) :
    SessionInv type param clientPort serverPort stack { s with client := client } where
  handshake := h.handshake
  client := hcalls
  server := h.server
  met transfer heq := absurd heq (hnot transfer)
  accepted transfer heq := by
    obtain ⟨peer, hpeer⟩ := h.accepted transfer heq
    rw [hpeer] at hwas
    exact absurd hwas (lt_irrefl 0)

/-- The server moves, without accepting and not from where the client has met it. -/
theorem SessionInv.serverMoves {server : Callee}
    (h : SessionInv type param clientPort serverPort stack s)
    (hcalls : ServerCalls serverPort { s with server := server })
    (hnot : ∀ transfer, server ≠ .accepted transfer) (hwas : 1 < s.server.left) :
    SessionInv type param clientPort serverPort stack { s with server := server } where
  handshake := h.handshake
  client := h.client
  server := hcalls
  met transfer heq := by
    have hlistened := (h.met transfer heq).listened
    cases hs : s.server with
    | main =>
      rw [hs] at hlistened
      exact hlistened.elim
    | binding transfer' address =>
      rw [hs] at hlistened
      exact hlistened.elim
    | accepting transfer' address =>
      rw [hs] at hwas
      exact absurd hwas (lt_irrefl 1)
    | _ =>
      rw [hs] at hwas
      exact absurd hwas (Nat.not_lt_zero 1)
  accepted transfer heq := absurd heq (hnot transfer)

theorem port_of_open {address : Address} (h : s.isOpen address .handshake = true) :
    address = .port handshakePort := by
  simp only [Session.isOpen] at h
  split at h
  · cases h
  · exact of_decide_eq_true h

/-- The client connects to an open listener. If that is the server's transfer function, both
    sides have selected it. -/
theorem SessionInv.connects {transfer : ClientTransfer} {address : Address} {listener : Listener}
    (h : SessionInv type param clientPort serverPort stack s)
    (hclient : s.client = .connecting transfer address)
    (hopen : s.isOpen address listener = true) :
    SessionInv type param clientPort serverPort stack
      { s with client := .connected transfer listener } := by
  have hcalls := h.client
  have hserver := h.server
  unfold ClientCalls at hcalls
  unfold ServerCalls at hserver
  rw [hclient] at hcalls
  cases listener with
  | transfer =>
    refine ⟨h.handshake, ⟨hcalls.1, nofun⟩, h.server, fun transfer' heq => ?_,
      fun _ _ => ⟨transfer, rfl⟩⟩
    cases heq
    unfold Session.isOpen at hopen
    cases hs : s.server with
    | accepting transfer' bound =>
      rw [hs] at hopen hserver
      obtain rfl : bound = address := of_decide_eq_true hopen
      obtain rfl := peer_of_selected h.handshake hcalls.1 hserver.1
      exact ⟨rfl, bound, hcalls.2, hserver.2⟩
    | _ =>
      rw [hs] at hopen
      cases hopen
  | handshake =>
    refine h.clientMoves ⟨hcalls.1, fun _ => ?_⟩ nofun (by rw [hclient]; exact Nat.one_pos)
    rw [hcalls.2, port_of_open hopen]
  | elsewhere =>
    exact h.clientMoves ⟨hcalls.1, nofun⟩ nofun (by rw [hclient]; exact Nat.one_pos)

/-- `accept` returns. -/
theorem SessionInv.accepts {transfer : ServerTransfer} {address : Address}
    {peer : ClientTransfer} {server : Callee}
    (h : SessionInv type param clientPort serverPort stack s)
    (hserver : s.server = .accepting transfer address)
    (hclient : s.client = .connected peer .transfer)
    (hnext : server = .accepted transfer ∨ ∃ code, server = .ended code) :
    SessionInv type param clientPort serverPort stack { s with server := server } := by
  have hcalls := h.server
  unfold ServerCalls at hcalls
  rw [hserver] at hcalls
  refine ⟨h.handshake, h.client, ?_, fun transfer' heq => ?_, fun _ _ => ⟨peer, hclient⟩⟩
  · rcases hnext with rfl | ⟨code, rfl⟩
    · exact hcalls.1
    · trivial
  · have hmet := h.met transfer' heq
    refine ⟨?_, hmet.address⟩
    have hlistened := hmet.listened
    rw [hserver] at hlistened
    rcases hnext with rfl | ⟨code, rfl⟩
    · exact hlistened
    · trivial

theorem sessionInv_step (h : SessionInv type param clientPort serverPort stack s)
    (hout : SessionOutcome type param clientPort serverPort stack s a s') :
    SessionInv type param clientPort serverPort stack s' := by
  have hserver := h.server
  unfold ServerCalls at hserver
  cases hout with
  | shook hstep => exact h.shook hstep
  | rejected hc hsel => exact h.clientMoves trivial nofun (by rw [hc]; exact Nat.two_pos)
  | called hc hsel htarget =>
    exact h.clientMoves ⟨hsel, htarget⟩ nofun (by rw [hc]; exact Nat.two_pos)
  | calledOther hc hsel htarget =>
    exact h.clientMoves ⟨hsel, htarget⟩ nofun (by rw [hc]; exact Nat.two_pos)
  | connected hc hopen => exact h.connects hc hopen
  | refused hc => exact h.clientMoves trivial nofun (by rw [hc]; exact Nat.one_pos)
  | gaveUp hs hsel =>
    exact h.serverMoves trivial nofun (by rw [hs]; exact Nat.succ_lt_succ (Nat.succ_pos 1))
  | served hs hsel hbound =>
    exact h.serverMoves ⟨hsel, hbound⟩ nofun
      (by rw [hs]; exact Nat.succ_lt_succ (Nat.succ_pos 1))
  | servedOther hs hsel hbound =>
    exact h.serverMoves ⟨hsel, hbound⟩ nofun
      (by rw [hs]; exact Nat.succ_lt_succ (Nat.succ_pos 1))
  | listens hs =>
    rw [hs] at hserver
    exact h.serverMoves hserver nofun (by rw [hs]; exact Nat.one_lt_two)
  | notBound hs => exact h.serverMoves trivial nofun (by rw [hs]; exact Nat.one_lt_two)
  | accepted hs hc => exact h.accepts hs hc (.inl rfl)
  | notAccepted hs hc => exact h.accepts hs hc (.inr ⟨1, rfl⟩)

theorem sessionInv_init : SessionInv type param clientPort serverPort stack
    (session type param clientPort serverPort stack).init :=
  ⟨.init, trivial, trivial, nofun, nofun⟩

/-- The end of the stream arrives once. -/
def ArrivesOnce : SessionLabel → Session → Prop
  | .handshake .deliverEnd, s => s.handshake.endArrived = false
  | _, _ => True

theorem sessionInv_reach {ok : SessionLabel → Session → Prop}
    (h : (session type param clientPort serverPort stack).Reach ok s) :
    SessionInv type param clientPort serverPort stack s :=
  h.invariant (I := SessionInv type param clientPort serverPort stack) sessionInv_init
    fun _ _ _ _ hinv hstep => sessionInv_step hinv (session_outcome hstep)

/-! ## The end -/

/-- The steps that are left at most. -/
def Session.left (type param : Arg) (s : Session) : ℕ :=
  handshakeLeft type param s.handshake + s.client.left + s.server.left

theorem left_step (hlabel : ArrivesOnce a s)
    (hout : SessionOutcome type param clientPort serverPort stack s a s') :
    s'.left type param < s.left type param := by
  have hclient : ∀ client : Caller, client.left < s.client.left →
      Session.left type param { s with client := client } < s.left type param :=
    fun client hlt => Nat.add_lt_add_right (Nat.add_lt_add_left hlt _) _
  have hserver : ∀ server : Callee, server.left < s.server.left →
      Session.left type param { s with server := server } < s.left type param :=
    fun server hlt => Nat.add_lt_add_left hlt _
  cases hout with
  | @shook label t hstep =>
    have hlt := handshakeLeft_shake (shake_of_step hstep) fun heq => by
      rw [heq] at hlabel
      exact hlabel
    exact Nat.add_lt_add_right (Nat.add_lt_add_right hlt _) _
  | rejected hc | calledOther hc =>
    apply hclient
    rw [hc]
    exact Nat.two_pos
  | called hc =>
    apply hclient
    rw [hc]
    exact Nat.one_lt_two
  | connected hc | refused hc =>
    apply hclient
    rw [hc]
    exact Nat.one_pos
  | gaveUp hs | servedOther hs =>
    apply hserver
    rw [hs]
    exact Nat.succ_pos 2
  | served hs =>
    apply hserver
    rw [hs]
    exact Nat.lt_succ_self 2
  | listens hs =>
    apply hserver
    rw [hs]
    exact Nat.one_lt_two
  | notBound hs =>
    apply hserver
    rw [hs]
    exact Nat.two_pos
  | accepted hs hc | notAccepted hs hc =>
    apply hserver
    rw [hs]
    exact Nat.one_pos

/-- How a session may end. A server in `accept` waits for ever. -/
def Ends (s : Session) : Prop :=
  match s.client, s.server with
  | .connected transfer .transfer, .accepted transfer' => transfer' = transfer.peer
  -- its `accept` has failed
  | .connected _ .transfer, .ended _ => True
  | .connected _ .transfer, _ => False
  -- the client has come to somebody else
  | .connected transfer _, .accepting transfer' _ => transfer' = transfer.peer
  | .connected transfer _, .other transfer' => transfer' = transfer.peer
  | .connected _ _, .ended _ => True
  | .other transfer, .other transfer' => transfer' = transfer.peer
  | .other _, .ended _ => True
  | .ended _, .accepting _ _ => True
  | .ended _, .other _ => True
  | .ended _, .ended _ => True
  | _, _ => False

/-- Where the server listens, the client connects. -/
theorem target_of_listensAt {transfer : ClientTransfer} {address : Address}
    (h : transfer.peer.listensAt serverPort = some address) :
    transfer.target clientPort ≠ none := by
  cases transfer with
  | c_ipv4_tcp | c_ipv6_tcp | c_uds_stream => exact Option.some_ne_none _
  | _ => cases h

/-- A client that has selected goes on to its connection. -/
theorem client_steps {t : Option ClientTransfer} (ht : s.handshake.client = .selected t)
    (hleft : 0 < s.client.left) :
    ∃ a s', ArrivesOnce a s ∧
      (session type param clientPort serverPort stack).step a s = some s' := by
  cases hc : s.client with
  | main =>
    obtain ⟨s', hstep⟩ : ∃ s', s.callStep clientPort = some s' := by
      unfold Session.callStep
      rw [hc, ht]
      cases t with
      | none => exact ⟨_, rfl⟩
      | some transfer =>
        dsimp only
        cases transfer.target clientPort with
        | none => exact ⟨_, rfl⟩
        | some address => exact ⟨_, rfl⟩
    exact ⟨.call, s', trivial, hstep⟩
  | connecting transfer address =>
    obtain ⟨s', hstep⟩ : ∃ s', s.connectStep none = some s' := by
      unfold Session.connectStep
      rw [hc]
      exact ⟨_, rfl⟩
    exact ⟨.connect none, s', trivial, hstep⟩
  | _ =>
    rw [hc] at hleft
    exact absurd hleft (lt_irrefl 0)

/-- A server that has selected goes on to `accept`. -/
theorem server_steps {t : Option ServerTransfer} (ht : s.handshake.server = .selected t)
    (hleft : 1 < s.server.left) :
    ∃ a s', ArrivesOnce a s ∧
      (session type param clientPort serverPort stack).step a s = some s' := by
  cases hs : s.server with
  | main =>
    obtain ⟨s', hstep⟩ : ∃ s', s.serveStep serverPort = some s' := by
      unfold Session.serveStep
      rw [hs, ht]
      cases t with
      | none => exact ⟨_, rfl⟩
      | some transfer =>
        dsimp only
        cases transfer.listensAt serverPort with
        | none => exact ⟨_, rfl⟩
        | some address => exact ⟨_, rfl⟩
    exact ⟨.serve, s', trivial, hstep⟩
  | binding transfer address =>
    obtain ⟨s', hstep⟩ : ∃ s', s.listenStep true = some s' := by
      unfold Session.listenStep
      rw [hs]
      exact ⟨_, rfl⟩
    exact ⟨.listen true, s', trivial, hstep⟩
  | accepting transfer address =>
    rw [hs] at hleft
    exact absurd hleft (lt_irrefl 1)
  | _ =>
    rw [hs] at hleft
    exact absurd hleft (Nat.not_lt_zero 1)

/-- Where a client is that has no step left. -/
theorem client_of_left {client : Caller} (h : ¬0 < client.left) :
    (∃ code, client = .ended code) ∨ (∃ transfer, client = .other transfer) ∨
      ∃ transfer listener, client = .connected transfer listener := by
  cases client with
  | main => exact absurd Nat.two_pos h
  | connecting transfer address => exact absurd Nat.one_pos h
  | connected transfer listener => exact .inr (.inr ⟨transfer, listener, rfl⟩)
  | other transfer => exact .inr (.inl ⟨transfer, rfl⟩)
  | ended code => exact .inl ⟨code, rfl⟩

/-- A session that cannot go on has ended. -/
theorem SessionInv.ends (h : SessionInv type param clientPort serverPort stack s)
    (hstuck : (session type param clientPort serverPort stack).Stuck ArrivesOnce s) : Ends s := by
  have hnot : ¬∃ a s', ArrivesOnce a s ∧
      (session type param clientPort serverPort stack).step a s = some s' := by
    rintro ⟨a, s', ha, hstep⟩
    exact System.not_stuck_of_step ha hstep hstuck
  have hselected : (∃ t, s.handshake.client = .selected t) ∧
      ∃ t, s.handshake.server = .selected t := by
    refine (handshake_steps h.handshake).resolve_right ?_
    rintro ⟨label, t, hstep, hlabel⟩
    refine hnot ⟨.handshake label, { s with handshake := t }, ?_, ?_⟩
    · cases label with
      | deliverEnd => exact hlabel rfl
      | _ => trivial
    · exact Option.map_eq_some_iff.mpr ⟨t, hstep, rfl⟩
  obtain ⟨⟨t, ht⟩, t', ht'⟩ := hselected
  have hcleft := client_of_left fun hleft => hnot (client_steps ht hleft)
  have hsleft : ¬1 < s.server.left := fun hleft => hnot (server_steps ht' hleft)
  have hclient := h.client
  have hserver := h.server
  unfold ClientCalls at hclient
  unfold ServerCalls at hserver
  cases hs : s.server with
  | main =>
    rw [hs] at hsleft
    exact absurd (Nat.succ_lt_succ (Nat.succ_pos 1)) hsleft
  | binding transfer' address =>
    rw [hs] at hsleft
    exact absurd Nat.one_lt_two hsleft
  | accepted transfer' =>
    obtain ⟨peer, hpeer⟩ := h.accepted transfer' hs
    have hlistened := (h.met peer hpeer).listened
    rw [hs] at hlistened
    rw [Ends, hpeer, hs]
    exact hlistened
  | accepting transfer' address =>
    rw [hs] at hserver
    rcases hcleft with ⟨code, hc⟩ | ⟨transfer, hc⟩ | ⟨transfer, listener, hc⟩
    · rw [Ends, hc, hs]
      trivial
    · -- the server listens, so its peer connects
      rw [hc] at hclient
      obtain rfl := peer_of_selected h.handshake hclient.1 hserver.1
      exact absurd hclient.2 (target_of_listensAt hserver.2)
    · rw [hc] at hclient
      have hpeer := peer_of_selected h.handshake hclient.1 hserver.1
      cases listener with
      | transfer =>
        refine absurd ⟨.accept true, { s with server := .accepted transfer' }, trivial, ?_⟩ hnot
        show s.acceptStep true = _
        rw [Session.acceptStep, hs, hc]
        rfl
      | _ =>
        rw [Ends, hc, hs]
        exact hpeer
  | other transfer' =>
    rw [hs] at hserver
    rcases hcleft with ⟨code, hc⟩ | ⟨transfer, hc⟩ | ⟨transfer, listener, hc⟩
    · rw [Ends, hc, hs]
      trivial
    · rw [hc] at hclient
      rw [Ends, hc, hs]
      exact peer_of_selected h.handshake hclient.1 hserver.1
    · cases listener with
      | transfer =>
        have hlistened := (h.met transfer hc).listened
        rw [hs] at hlistened
        exact hlistened.elim
      | _ =>
        rw [hc] at hclient
        rw [Ends, hc, hs]
        exact peer_of_selected h.handshake hclient.1 hserver.1
  | ended code =>
    rcases hcleft with ⟨code', hc⟩ | ⟨transfer, hc⟩ | ⟨transfer, listener, hc⟩
    · rw [Ends, hc, hs]
      trivial
    · rw [Ends, hc, hs]
      trivial
    · rw [Ends, hc, hs]
      cases listener <;> trivial

/-- `s_mmap` does not listen. -/
theorem Met.ne_mmap {transfer : ClientTransfer} {server : Callee}
    (h : Met clientPort serverPort transfer server) : transfer ≠ .c_mmap := by
  rintro rfl
  obtain ⟨address, -, hbound⟩ := h.address
  cases hbound

/-- **A session of the transfer tool.** Whatever the two arguments and the two ports, the cuts of
    the stream, the calls that fail, whoever listens elsewhere and the order of the steps: the
    session ends as `Ends` says. A client that has connected to the server's transfer function
    has met the other side of its own transfer, at one address, and is never `c_mmap`; one that
    has connected to the listener of the handshake was given its port. -/
theorem session_ends (type param : Arg) (clientPort serverPort : UInt16)
    (stack : ℕ → Fin bufferSize → UInt8) :
    (session type param clientPort serverPort stack).AlwaysEnds ArrivesOnce Ends ∧
      ∀ s, (session type param clientPort serverPort stack).Reach ArrivesOnce s →
        (∀ transfer, s.client = .connected transfer .transfer →
          Met clientPort serverPort transfer s.server ∧ transfer ≠ .c_mmap) ∧
        ∀ transfer, s.client = .connected transfer .handshake →
          transfer.target clientPort = some (.port handshakePort) := by
  refine ⟨System.alwaysEnds_of_measure
    (I := SessionInv type param clientPort serverPort stack) (fun s => s.left type param)
    (fun s hs => sessionInv_reach hs) ?_ ?_, fun s hs => ⟨fun transfer hc => ?_,
      fun transfer hc => ?_⟩⟩
  · exact fun a s s' ha _ hstep => left_step ha (session_outcome hstep)
  · exact fun s hinv hstuck => hinv.ends hstuck
  · have hmet := (sessionInv_reach hs).met transfer hc
    exact ⟨hmet, hmet.ne_mmap⟩
  · have hclient := (sessionInv_reach hs).client
    unfold ClientCalls at hclient
    rw [hc] at hclient
    exact hclient.2 rfl

/-- A client that is given port 8000 may come before the server has closed its first listener. -/
example : ((session ipv4 tcp 8000 9000 fun _ _ => 0).exec
    [.handshake .client, .handshake .client, .handshake .client, .handshake .client, .call,
      .connect (some .handshake)] (session ipv4 tcp 8000 9000 fun _ _ => 0).init).map
        (fun s => (s.client, s.server)) = some (.connected .c_ipv4_tcp .handshake, .main) := by
  decide +kernel

end ChatOnC.Handshake
