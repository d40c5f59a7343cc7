import ChatOnC.FileTransfer.StreamSessions
import ChatOnC.Handshake.Session

/-!
# The transfer tool from its handshake to the line it prints

`client_main` and `server_main` with the functions they call for a connection. A client that has
connected to the server's function opens the file and makes its calls of `send` at once; the
server receives once it has accepted, and `server_main` prints a line for what its function
returns. The functions for datagrams, `s_mmap` and the pipe are not followed here, nor a client
that has come to another listener.

* `toolInv_step`: a client that has met the server is in the loop of its function, and the server
  runs the loop of the other side.
* `tool_ends`: every run ends, and where a client has met the server that has printed the time of
  its own protocol, whether the file was carried or not.
-/

namespace ChatOnC.FileTransfer

open ChatOnC.Common
open ChatOnC.Handshake (Arg Session SessionLabel SessionOutcome SessionInv ClientTransfer
  ServerTransfer ArrivesOnce Ends session session_outcome sessionInv_step sessionInv_init left_step)

/-! ## The model -/

/-- The loops of the functions of `client.c` that meet one of the server. -/
def clientLoop : ClientTransfer → Option FileClient
  | .c_ipv4_tcp => some cIpv4Tcp
  | .c_ipv6_tcp => some cIpv6Tcp
  | .c_uds_stream => some cUdsStream
  | .c_ipv4_udp | .c_ipv6_udp | .c_mmap | .c_pipe | .c_uds_dgram => none

/-- The loops of the functions of `server.c` that accept one. -/
def serverLoop : ServerTransfer → Option StreamServer
  | .s_ipv4_tcp => some sIpv4Tcp
  | .s_ipv6_tcp => some sIpv6Tcp
  | .s_uds_stream => some sUdsStream
  | .s_ipv4_udp | .s_ipv6_udp | .s_mmap | .s_pipe | .s_uds_dgram => none

/-- `protocol` (`server.c`, lines 652–676). -/
def protocol : ServerTransfer → String
  | .s_ipv4_tcp => "ipv4_tcp"
  | .s_ipv4_udp => "ipv4_udp"
  | .s_ipv6_tcp => "ipv6_tcp"
  | .s_ipv6_udp => "ipv6_udp"
  | .s_mmap => "mmap"
  | .s_pipe => "pipe"
  | .s_uds_dgram => "uds_dgram"
  | .s_uds_stream => "uds_stream"

/-- `printf("%s,%ld\n", protocol, time)` (line 680). -/
def line (transfer : ServerTransfer) (time : ℤ) : String :=
  protocol transfer ++ "," ++ toString time ++ "\n"

/-- The transfer before the first call of `send`. A client that cannot open the file calls
    `exit(1)`. -/
def Transfer.start (c : FileClient) (file : Option (List UInt8)) : Transfer where
  unread := (file.map c.read).getD []
  calls := []
  ending := if file = none then some .exited else none
  connection := .empty
  totalBytesRead := 0
  reads := []
  report := none

/-- What `server_main` prints behind a function that has accepted (line 680). -/
def printed (transfer : ServerTransfer) (t : Transfer) : Option String :=
  match t.report with
  | some (.time time) => some (line transfer time)
  | _ => none

/-- The two programs, and the transfer since the client has met the server. -/
structure Tool where
  session : Session
  transfer : Option Transfer

/-- Who takes the next step, and what `send` or `recv` returns to him. -/
inductive ToolLabel
  | session (label : SessionLabel)
  | send (result : ℤ)
  | recv (bytesRead : ℤ)

namespace Tool

variable (s : Tool)

/-- The session goes on; a client that has just met the server opens the file. -/
def goOn (file : Option (List UInt8)) (session : Session) : Tool :=
  match s.transfer, session.client with
  | none, .connected transfer .transfer =>
    { session := session
      transfer := (clientLoop transfer).map fun c => .start c file }
  | transfer, _ => { session := session, transfer := transfer }

/-- A client that has met the server is in the loop of its function. -/
def sendStep (result : ℤ) : Option Tool :=
  match s.session.client, s.transfer with
  | .connected transfer .transfer, some t =>
    (clientLoop transfer).bind fun c =>
      (t.clientStep c result).map fun t => { s with transfer := some t }
  | _, _ => none

/-- A server that has accepted is in the loop of its function. -/
def recvStep (start stop : Timeval) (bytesRead : ℤ) : Option Tool :=
  match s.session.server, s.transfer with
  | .accepted transfer, some t =>
    (serverLoop transfer).bind fun server =>
      (t.serverStep server start stop bytesRead).map fun t => { s with transfer := some t }
  | _, _ => none

end Tool

/-- The two programs. `file` is what the client finds in its directory, if anything. -/
def tool (type param : Arg) (clientPort serverPort : UInt16)
    (stack : ℕ → Fin Handshake.bufferSize → UInt8) (file : Option (List UInt8))
    (start stop : Timeval) : System Tool ToolLabel where
  init := { session := (session type param clientPort serverPort stack).init, transfer := none }
  step
    | .session label, s =>
      ((session type param clientPort serverPort stack).step label s.session).map (s.goOn file)
    | .send result, s => s.sendStep result
    | .recv bytesRead, s => s.recvStep start stop bytesRead

variable {type param : Arg} {clientPort serverPort : UInt16}
  {stack : ℕ → Fin Handshake.bufferSize → UInt8}
  {file : Option (List UInt8)} {start stop : Timeval} {s s' : Tool} {a : ToolLabel}
  {c : FileClient} {server : StreamServer} {t t' : Transfer} {transfer : ClientTransfer}

/-! ## What a step can do -/

inductive ToolOutcome (type param : Arg) (clientPort serverPort : UInt16)
    (stack : ℕ → Fin Handshake.bufferSize → UInt8) (file : Option (List UInt8))
    (start stop : Timeval) (s : Tool) : ToolLabel → Tool → Prop
  | goesOn {label : SessionLabel} {next : Session}
      (hout : SessionOutcome type param clientPort serverPort stack s.session label next) :
      ToolOutcome type param clientPort serverPort stack file start stop s (.session label)
        (s.goOn file next)
  | sends {transfer : ClientTransfer} {c : FileClient} {t t' : Transfer} {result : ℤ}
      (hclient : s.session.client = .connected transfer .transfer) (ht : s.transfer = some t)
      (hc : clientLoop transfer = some c) (hstep : t.clientStep c result = some t') :
      ToolOutcome type param clientPort serverPort stack file start stop s (.send result)
        { s with transfer := some t' }
  | receives {transfer : ServerTransfer} {server : StreamServer} {t t' : Transfer} {bytesRead : ℤ}
      (hserver : s.session.server = .accepted transfer) (ht : s.transfer = some t)
      (hc : serverLoop transfer = some server)
      (hstep : t.serverStep server start stop bytesRead = some t') :
      ToolOutcome type param clientPort serverPort stack file start stop s (.recv bytesRead)
        { s with transfer := some t' }

theorem tool_outcome
    (h : (tool type param clientPort serverPort stack file start stop).step a s = some s') :
    ToolOutcome type param clientPort serverPort stack file start stop s a s' := by
  cases a with
  | session label =>
    obtain ⟨next, hnext, rfl⟩ := Option.map_eq_some_iff.mp h
    exact .goesOn (session_outcome hnext)
  | send result =>
    change s.sendStep result = some s' at h
    unfold Tool.sendStep at h
    split at h
    · rename_i transfer t hclient ht
      obtain ⟨c, hc, h⟩ := Option.bind_eq_some_iff.mp h
      obtain ⟨t', hstep, rfl⟩ := Option.map_eq_some_iff.mp h
      exact .sends hclient ht hc hstep
    · cases h
  | recv bytesRead =>
    change s.recvStep start stop bytesRead = some s' at h
    unfold Tool.recvStep at h
    split at h
    · rename_i transfer t hserver ht
      obtain ⟨server, hc, h⟩ := Option.bind_eq_some_iff.mp h
      obtain ⟨t', hstep, rfl⟩ := Option.map_eq_some_iff.mp h
      exact .receives hserver ht hc hstep
    · cases h

/-- A client that has met the server stays in its function. -/
theorem connected_outcome {label : SessionLabel} {next : Session}
    (hout : SessionOutcome type param clientPort serverPort stack s.session label next)
    (hclient : s.session.client = .connected transfer .transfer) :
    next.client = .connected transfer .transfer := by
  cases hout with
  | rejected hc | called hc | calledOther hc | connected hc | refused hc =>
    rw [hclient] at hc
    cases hc
  | _ => exact hclient

/-! ## The loops of the two sides -/

/-- A loop that leaves nothing of a file out when all goes well. -/
structure FileClient.Covers (c : FileClient) : Prop where
  honest : c.Honest
  read : ∀ file, (c.read file).flatten = file
  chunks : ∀ file, [] ∉ c.read file

theorem covers_readLines {failed : ℤ → Bool} {onFailure : Ending} :
    FileClient.Covers ⟨readLines, fun _ => true, lineDatagram, failed, onFailure⟩ where
  honest := honest_of_argument lineDatagram_isPrefix
  read file := flatten_lines newline (by decide) file
  chunks file := nil_notMem_lines newline (by decide) file

theorem covers_cIpv6Tcp : cIpv6Tcp.Covers where
  honest := honest_of_argument List.prefix_refl
  read file := flatten_chunks (by decide) file
  chunks file := nil_notMem_chunksUpTo file.length file

/-- The pairs of functions that meet over a connection. -/
theorem loops_of_met {callee : Handshake.Callee}
    (h : Handshake.Met clientPort serverPort transfer callee) :
    ∃ c server, clientLoop transfer = some c ∧ serverLoop transfer.peer = some server ∧
      c.Covers ∧ server.Sound := by
  obtain ⟨address, -, hbound⟩ := h.address
  cases transfer with
  | c_ipv4_tcp => exact ⟨_, _, rfl, rfl, covers_readLines, sound_sIpv4Tcp⟩
  | c_ipv6_tcp => exact ⟨_, _, rfl, rfl, covers_cIpv6Tcp, sound_sIpv6Tcp⟩
  | c_uds_stream => exact ⟨_, _, rfl, rfl, covers_readLines, sound_sUdsStream⟩
  | _ => cases hbound

/-! ## The invariant -/

/-- What the client has done so far: nothing where it could not open the file. -/
def ClientSide (c : FileClient) (file : Option (List UInt8)) (t : Transfer) : Prop :=
  match file with
  | some bytes => ClientInv c bytes t
  | none => t.ending = some .exited ∧ t.connection.put = []

theorem clientSide_start : ClientSide c file (.start c file) := by
  cases file with
  | none => exact ⟨rfl, rfl⟩
  | some bytes =>
    refine ⟨rfl, ?_, rfl, fun _ call hcall => ?_, fun e heq => ?_⟩
    · intro call hcall
      cases hcall
    · cases hcall
    · cases heq

theorem serverInv_start : ServerInv start stop (.start c file) :=
  ⟨rfl, fun hne => absurd rfl hne⟩

theorem clientSide_client (h : ClientMoves c t t') (hinv : ClientSide c file t) :
    ClientSide c file t' := by
  cases file with
  | some bytes => exact clientInv_client h hinv
  | none =>
    obtain ⟨hexited, -⟩ := hinv
    cases h with
    | returns hopen | calls hopen | fails hopen =>
      rw [hopen] at hexited
      cases hexited

theorem clientSide_server (h : ServerMoves start stop t t') (hinv : ClientSide c file t) :
    ClientSide c file t' := by
  cases file with
  | some bytes => exact clientInv_server h hinv
  | none =>
    cases h with
    | receives _ hread =>
      obtain ⟨-, -, -, hput, -⟩ := Fifo.read_eq_some hread
      exact ⟨hinv.1, hput.trans hinv.2⟩
    | reports => exact hinv

/-- The transfer of a client that has met the server. -/
def Carrying (file : Option (List UInt8)) (start stop : Timeval) (transfer : ClientTransfer)
    (t : Transfer) : Prop :=
  ∃ c, clientLoop transfer = some c ∧ ClientSide c file t ∧ ServerInv start stop t

structure ToolInv (type param : Arg) (clientPort serverPort : UInt16)
    (stack : ℕ → Fin Handshake.bufferSize → UInt8) (file : Option (List UInt8))
    (start stop : Timeval) (s : Tool) : Prop where
  session : SessionInv type param clientPort serverPort stack s.session
  carrying : ∀ transfer, s.session.client = .connected transfer .transfer →
    ∃ t, s.transfer = some t ∧ Carrying file start stop transfer t
  idle : ∀ t, s.transfer = some t →
    ∃ transfer, s.session.client = .connected transfer .transfer
  serving : ∀ transfer, s.session.client = .connected transfer .transfer →
    ∀ code, s.session.server ≠ .ended code

/-- `accept` and `recv` do not fail, and the end of the handshake arrives once. -/
def ToolOk : ToolLabel → Tool → Prop
  | .session (.accept ok), _ => ok = true
  | .session label, s => ArrivesOnce label s.session
  | .send _, _ => True
  | .recv bytesRead, _ => bytesRead ≠ -1

/-- The two loops of a transfer that goes on. -/
theorem ToolInv.loops (h : ToolInv type param clientPort serverPort stack file start stop s)
    (hclient : s.session.client = .connected transfer .transfer) :
    ∃ c server t, clientLoop transfer = some c ∧ serverLoop transfer.peer = some server ∧
      c.Covers ∧ server.Sound ∧ s.transfer = some t ∧ ClientSide c file t ∧
      ServerInv start stop t := by
  obtain ⟨c, server, hc, hserver, hcovers, hsound⟩ :=
    loops_of_met (h.session.met transfer hclient)
  obtain ⟨t, ht, c', hc', hcs, hss⟩ := h.carrying transfer hclient
  rw [hc] at hc'
  cases hc'
  exact ⟨c, server, t, hc, hserver, hcovers, hsound, ht, hcs, hss⟩

/-- The server that has accepted is the peer of the client. -/
theorem ToolInv.peer {transfer' : ServerTransfer}
    (h : ToolInv type param clientPort serverPort stack file start stop s)
    (hserver : s.session.server = .accepted transfer') :
    ∃ transfer, s.session.client = .connected transfer .transfer ∧
      transfer' = transfer.peer := by
  obtain ⟨transfer, hclient⟩ := h.session.accepted transfer' hserver
  have hlistened := (h.session.met transfer hclient).listened
  rw [hserver] at hlistened
  exact ⟨transfer, hclient, hlistened⟩

/-- The loops of a step of the transfer, and what the step does. -/
theorem ToolInv.sends {result : ℤ}
    (h : ToolInv type param clientPort serverPort stack file start stop s)
    (hclient : s.session.client = .connected transfer .transfer) (ht : s.transfer = some t)
    (hc : clientLoop transfer = some c) (hstep : t.clientStep c result = some t') :
    c.Covers ∧ ClientMoves c t t' ∧ ClientSide c file t ∧ ServerInv start stop t := by
  obtain ⟨c', server, t₀, hc', -, hcovers, -, ht₀, hcs, hss⟩ := h.loops hclient
  rw [hc] at hc'
  rw [ht] at ht₀
  cases hc'
  cases ht₀
  exact ⟨hcovers, clientMoves_of_step hstep, hcs, hss⟩

theorem ToolInv.receives {transfer' : ServerTransfer} {bytesRead : ℤ}
    (h : ToolInv type param clientPort serverPort stack file start stop s)
    (hserver : s.session.server = .accepted transfer') (ht : s.transfer = some t)
    (hc : serverLoop transfer' = some server) (hok : bytesRead ≠ -1)
    (hstep : t.serverStep server start stop bytesRead = some t') :
    ∃ transfer c, s.session.client = .connected transfer .transfer ∧
      clientLoop transfer = some c ∧ ServerMoves start stop t t' ∧ ClientSide c file t ∧
      ServerInv start stop t := by
  obtain ⟨transfer, hclient, rfl⟩ := h.peer hserver
  obtain ⟨c, server', t₀, hc', hs', -, hsound, ht₀, hcs, hss⟩ := h.loops hclient
  rw [hc] at hs'
  rw [ht] at ht₀
  cases hs'
  cases ht₀
  exact ⟨transfer, c, hclient, hc', serverMoves_of_step hsound hok hstep, hcs, hss⟩

/-- The server does not end where it has been met. -/
theorem ToolInv.serves {label : SessionLabel} {next : Session}
    (h : ToolInv type param clientPort serverPort stack file start stop s)
    (hok : ToolOk (.session label) s)
    (hout : SessionOutcome type param clientPort serverPort stack s.session label next)
    (hclient : next.client = .connected transfer .transfer) (code : ℕ) :
    next.server ≠ .ended code := by
  intro hended
  cases hout with
  | shook hstep => exact h.serving transfer hclient code hended
  | rejected | called | calledOther | refused => cases hclient
  | @connected transfer' address listener hc hopen =>
    -- an open listener is one of a server that goes on
    cases hclient
    have hserver : s.session.server = .ended code := hended
    rw [Session.isOpen, hserver] at hopen
    cases hopen
  | gaveUp hs | notBound hs =>
    have hlistened := (h.session.met transfer hclient).listened
    rw [hs] at hlistened
    exact hlistened
  | served | servedOther | listens | accepted => cases hended
  | notAccepted hs hc => cases hok

theorem arrivesOnce_of_ok {label : SessionLabel} (hok : ToolOk (.session label) s) :
    ArrivesOnce label s.session := by
  cases label with
  | accept ok => trivial
  | _ => exact hok

/-- The session goes on, and the transfer begins where the client meets the server. -/
theorem ToolInv.goesOn {label : SessionLabel} {next : Session}
    (h : ToolInv type param clientPort serverPort stack file start stop s)
    (hok : ToolOk (.session label) s)
    (hout : SessionOutcome type param clientPort serverPort stack s.session label next) :
    ToolInv type param clientPort serverPort stack file start stop (s.goOn file next) := by
  have hnext := sessionInv_step h.session hout
  have hserves : ∀ transfer, next.client = .connected transfer .transfer →
      ∀ code, next.server ≠ .ended code := fun _ hclient => h.serves hok hout hclient
  unfold Tool.goOn
  split
  · rename_i transfer ht hclient
    obtain ⟨c, server, hc, -, -, -⟩ := loops_of_met (hnext.met transfer hclient)
    rw [hc]
    refine ⟨hnext, fun transfer' hclient' => ?_, fun t _ => ⟨transfer, hclient⟩, hserves⟩
    rw [hclient] at hclient'
    cases hclient'
    exact ⟨_, rfl, c, hc, clientSide_start, serverInv_start⟩
  · rename_i hnot
    refine ⟨hnext, fun transfer hclient => ?_, fun t ht => ?_, hserves⟩
    · cases ht : s.transfer with
      | none => exact absurd hclient (hnot transfer ht)
      | some t =>
        -- a transfer that has begun is the one of this client
        obtain ⟨transfer', hclient'⟩ := h.idle t ht
        have hsame := connected_outcome hout hclient'
        rw [hclient] at hsame
        cases hsame
        obtain ⟨t', ht', hcarrying⟩ := h.carrying transfer hclient'
        exact ⟨t', ht' ▸ ht.symm ▸ rfl, hcarrying⟩
    · obtain ⟨transfer, hclient⟩ := h.idle t ht
      exact ⟨transfer, connected_outcome hout hclient⟩

/-- The transfer of a client that has met the server goes on. -/
theorem ToolInv.carries (h : ToolInv type param clientPort serverPort stack file start stop s)
    (hclient : s.session.client = .connected transfer .transfer)
    (hc : clientLoop transfer = some c) (hcs : ClientSide c file t')
    (hss : ServerInv start stop t') :
    ToolInv type param clientPort serverPort stack file start stop
      { s with transfer := some t' } where
  session := h.session
  carrying transfer' hclient' := by
    rw [hclient] at hclient'
    cases hclient'
    exact ⟨t', rfl, c, hc, hcs, hss⟩
  idle _ _ := ⟨transfer, hclient⟩
  serving := h.serving

theorem toolInv_step (hok : ToolOk a s)
    (h : ToolInv type param clientPort serverPort stack file start stop s)
    (hout : ToolOutcome type param clientPort serverPort stack file start stop s a s') :
    ToolInv type param clientPort serverPort stack file start stop s' := by
  cases hout with
  | goesOn hout => exact h.goesOn hok hout
  | sends hclient ht hc hstep =>
    obtain ⟨-, hmoves, hcs, hss⟩ := h.sends hclient ht hc hstep
    exact h.carries hclient hc (clientSide_client hmoves hcs) (serverInv_client hmoves hss)
  | receives hserver ht hc hstep =>
    obtain ⟨transfer, c, hclient, hc', hmoves, hcs, hss⟩ := h.receives hserver ht hc hok hstep
    exact h.carries hclient hc' (clientSide_server hmoves hcs) (serverInv_server hmoves hss)

theorem toolInv_reach
    (h : (tool type param clientPort serverPort stack file start stop).Reach ToolOk s) :
    ToolInv type param clientPort serverPort stack file start stop s := by
  apply h.invariant
  · refine ⟨sessionInv_init, fun transfer heq => ?_, fun t heq => ?_, fun transfer heq => ?_⟩
    · cases heq
    · cases heq
    · cases heq
  · exact fun a s s' hok hinv hstep => toolInv_step hok hinv (tool_outcome hstep)

/-! ## The end -/

/-- The work of a transfer that has not begun, by whichever client. -/
def startWork (file : Option (List UInt8)) : ℕ :=
  (Transfer.start cIpv4Tcp file).work + (Transfer.start cIpv6Tcp file).work +
    (Transfer.start cUdsStream file).work

theorem work_start_le (h : clientLoop transfer = some c) :
    (Transfer.start c file).work ≤ startWork file := by
  unfold startWork
  cases transfer with
  | c_ipv4_tcp | c_ipv6_tcp | c_uds_stream =>
    cases h
    omega
  | _ => cases h

def transferLeft (file : Option (List UInt8)) (t : Option Transfer) : ℕ :=
  (t.map Transfer.work).getD (startWork file)

/-- The steps that are left at most. -/
def Tool.left (type param : Arg) (file : Option (List UInt8)) (s : Tool) : ℕ :=
  s.session.left type param + transferLeft file s.transfer

/-- A transfer that begins does not need more than was reserved for it. -/
theorem transferLeft_goOn (next : Session) :
    transferLeft file (s.goOn file next).transfer ≤ transferLeft file s.transfer := by
  unfold Tool.goOn
  split
  · rename_i transfer ht _
    rw [ht]
    cases hc : clientLoop transfer with
    | none => exact le_refl _
    | some c => exact work_start_le hc
  · exact le_refl _

theorem toolLeft_step (hok : ToolOk a s)
    (h : ToolInv type param clientPort serverPort stack file start stop s)
    (hout : ToolOutcome type param clientPort serverPort stack file start stop s a s') :
    s'.left type param file < s.left type param file := by
  cases hout with
  | @goesOn label next hout =>
    have hsession : (s.goOn file next).session = next := by
      unfold Tool.goOn
      split <;> rfl
    have hlt := left_step (arrivesOnce_of_ok hok) hout
    have hle : transferLeft file (s.goOn file next).transfer ≤ transferLeft file s.transfer :=
      transferLeft_goOn next
    rw [Tool.left, Tool.left, hsession]
    omega
  | sends hclient ht hc hstep =>
    obtain ⟨hcovers, hmoves, -⟩ := h.sends hclient ht hc hstep
    have hlt := work_client hcovers.honest hmoves
    rw [Tool.left, Tool.left, ht]
    exact Nat.add_lt_add_left hlt _
  | receives hserver ht hc hstep =>
    obtain ⟨-, -, -, -, hmoves, -⟩ := h.receives hserver ht hc hok hstep
    have hlt := work_server hmoves
    rw [Tool.left, Tool.left, ht]
    exact Nat.add_lt_add_left hlt _

/-- The end of a transfer: the file was carried as far as the calls of `send` went, or nothing
    was, since it could not be opened. -/
def Settled (c : FileClient) (file : Option (List UInt8)) (start stop : Timeval)
    (t : Transfer) : Prop :=
  match file with
  | some bytes => Carried c bytes start stop t
  | none =>
    t.ending = some .exited ∧ t.report = some (.time (elapsed start stop)) ∧
      t.connection.taken = [] ∧ t.totalBytesRead = 0

theorem Settled.report (h : Settled c file start stop t) :
    t.report = some (.time (elapsed start stop)) := by
  cases file with
  | some bytes => exact h.time
  | none => exact h.2.1

theorem settled_of_stuck (hcovers : c.Covers) (hclient : ClientSide c file t)
    (hserving : ServerInv start stop t) (hcalls : ∀ result, t.clientStep c result = none)
    (hreads : ∀ bytesRead ≠ -1, t.serverStep server start stop bytesRead = none) :
    Settled c file start stop t := by
  cases file with
  | some bytes =>
    exact carried_of_stuck hcovers.honest (hcovers.read bytes) (hcovers.chunks bytes) hclient
      hserving hcalls hreads
  | none =>
    obtain ⟨hexited, hput⟩ := hclient
    have hclosed : t.ending ≠ none := by
      rw [hexited]
      exact Option.some_ne_none _
    obtain ⟨htime, htaken⟩ := reported_of_stuck hserving hclosed hreads
    refine ⟨hexited, htime, htaken.trans hput, ?_⟩
    rw [hserving.counted, htaken, hput]
    rfl

/-- How a run of the tool ends. -/
structure ToolEnds (file : Option (List UInt8)) (start stop : Timeval) (s : Tool) : Prop where
  session : Ends s.session
  settled : ∀ transfer, s.session.client = .connected transfer .transfer →
    s.session.server = .accepted transfer.peer ∧
    ∃ c t, clientLoop transfer = some c ∧ s.transfer = some t ∧ Settled c file start stop t ∧
      printed transfer.peer t = some (line transfer.peer (elapsed start stop))

/-- Where the session has ended, the server has accepted the client that has met it. -/
theorem ToolInv.accepted_of_ends
    (h : ToolInv type param clientPort serverPort stack file start stop s)
    (hends : Ends s.session) (hclient : s.session.client = .connected transfer .transfer) :
    s.session.server = .accepted transfer.peer := by
  unfold Ends at hends
  rw [hclient] at hends
  cases hs : s.session.server with
  | accepted transfer' =>
    rw [hs] at hends
    rw [show transfer' = transfer.peer from hends]
  | ended code => exact absurd hs (h.serving transfer hclient code)
  | _ =>
    rw [hs] at hends
    exact hends.elim

/-- The transfer is settled where neither side of it has a step. -/
theorem ToolInv.settled (h : ToolInv type param clientPort serverPort stack file start stop s)
    (hclient : s.session.client = .connected transfer .transfer)
    (haccepted : s.session.server = .accepted transfer.peer)
    (hstuck : (tool type param clientPort serverPort stack file start stop).Stuck ToolOk s) :
    ∃ c t, clientLoop transfer = some c ∧ s.transfer = some t ∧
      Settled c file start stop t := by
  obtain ⟨c, server, t, hc, hserver, hcovers, -, ht, hcs, hss⟩ := h.loops hclient
  have hcalls : ∀ result, t.clientStep c result = none := by
    intro result
    have hnone : s.sendStep result = none := hstuck (.send result) trivial
    rw [Tool.sendStep, hclient, ht] at hnone
    dsimp only at hnone
    rw [hc, Option.bind_some] at hnone
    exact Option.map_eq_none_iff.mp hnone
  have hreads : ∀ bytesRead ≠ -1, t.serverStep server start stop bytesRead = none := by
    intro bytesRead hok
    have hnone : s.recvStep start stop bytesRead = none := hstuck (.recv bytesRead) hok
    rw [Tool.recvStep, haccepted, ht] at hnone
    dsimp only at hnone
    rw [hserver, Option.bind_some] at hnone
    exact Option.map_eq_none_iff.mp hnone
  exact ⟨c, t, hc, ht, settled_of_stuck hcovers hcs hss hcalls hreads⟩

/-- Where `accept` cannot return a descriptor it cannot fail. -/
theorem acceptStep_eq_none {session : Session} (h : session.acceptStep true = none) :
    session.acceptStep false = none := by
  unfold Session.acceptStep at h ⊢
  split at h
  · cases h
  · rfl

/-- Where the tool cannot go on, the session cannot. -/
theorem session_stuck
    (hstuck : (tool type param clientPort serverPort stack file start stop).Stuck ToolOk s) :
    (session type param clientPort serverPort stack).Stuck ArrivesOnce s.session := by
  intro label hok
  cases label with
  | accept ok =>
    have hnone : s.session.acceptStep true = none :=
      Option.map_eq_none_iff.mp (hstuck (.session (.accept true)) rfl)
    cases ok with
    | true => exact hnone
    | false => exact acceptStep_eq_none hnone
  | _ => exact Option.map_eq_none_iff.mp (hstuck (.session _) hok)

theorem toolEnds_of_stuck (h : ToolInv type param clientPort serverPort stack file start stop s)
    (hstuck : (tool type param clientPort serverPort stack file start stop).Stuck ToolOk s) :
    ToolEnds file start stop s := by
  have hends : Ends s.session := h.session.ends (session_stuck hstuck)
  refine ⟨hends, fun transfer hclient => ?_⟩
  have haccepted := h.accepted_of_ends hends hclient
  obtain ⟨c, t, hc, ht, hsettled⟩ := h.settled hclient haccepted hstuck
  refine ⟨haccepted, c, t, hc, ht, hsettled, ?_⟩
  rw [printed, hsettled.report]

/-- **The transfer tool.** For any two arguments and ports, any file or none, and in every order
    of the steps, whatever fails but `accept` and `recv`: every run ends. Where it ends a client
    that has connected to the server's transfer function has been accepted by the other side of
    its transfer and has ended too; the server has counted what the calls of `send` had accepted
    and has printed the time of its own protocol, also when the file was cut short or could not
    be opened. -/
theorem tool_ends (type param : Arg) (clientPort serverPort : UInt16)
    (stack : ℕ → Fin Handshake.bufferSize → UInt8) (file : Option (List UInt8))
    (start stop : Timeval) :
    (tool type param clientPort serverPort stack file start stop).AlwaysEnds ToolOk
      (ToolEnds file start stop) := by
  apply System.alwaysEnds_of_measure (Tool.left type param file) fun s hs => toolInv_reach hs
  · exact fun a s s' hok hinv hstep => toolLeft_step hok hinv (tool_outcome hstep)
  · exact fun s hinv hstuck => toolEnds_of_stuck hinv hstuck

end ChatOnC.FileTransfer
