import ChatOnC.Common.Termination
import ChatOnC.PerformanceTest.WriteLoops

/-!
# A client test against the server test

`perform_server_performance_test` (`prartb_2.c`, lines 764–799) connected to one of the two
client tests that can reach it, from the start of the timers on:
`perform_ipv4_tcp_client_test` (lines 114–156), which sends a checksum and a file and then
waits for a reply, and `perform_mmap_client_test` (lines 598–606), which only sends. The
server writes and never reads. Each direction of the connection holds as many bytes as the
socket buffers of the system do; a call that sends blocks while there is no room. Once the other
side has closed the connection such a call takes bytes that nobody reads, returns `-1`, or
raises `SIGPIPE`, which nobody handles and which kills the process. Only the numbers of bytes are
modelled.

* `CrossingInv.killed`: a process is killed only where the other function has returned.
* `tests_end`: if one of the two messages fits into the buffers of its direction both processes
  get out of their calls; otherwise both are stuck in their first calls.
-/

namespace ChatOnC.PerformanceTest

open ChatOnC.Common

/-! ## The model -/

/-- The calls of a client test: the bytes of its calls of `send`, and whether `recv`
    follows. -/
structure ClientCalls where
  size : ℕ
  awaitsReply : Bool

/-- `perform_ipv4_tcp_client_test`, lines 118, 126 and 134. -/
def ipv4TcpCalls (filesize : ℕ) : ClientCalls := ⟨2 + filesize, true⟩

/-- `perform_mmap_client_test`, line 603. -/
def mmapCalls (dataSize : ℕ) : ClientCalls := ⟨dataSize + 2, false⟩

/-- Where a client test stands. -/
inductive ClientPc
  | sending
  | receiving
  | returned
  /-- by `SIGPIPE` -/
  | killed
  deriving DecidableEq

/-- Where the server test stands. -/
inductive ServerPc
  | writing
  | returned
  | killed
  deriving DecidableEq

/-- The connection is closed on this side. -/
def ClientPc.closed : ClientPc → Bool
  | .sending | .receiving => false
  | .returned | .killed => true

def ServerPc.closed : ServerPc → Bool
  | .writing => false
  | .returned | .killed => true

/-- How many bytes the socket buffers hold in each direction. -/
structure Buffers where
  toServer : ℕ
  toClient : ℕ

/-- `left` is what the client has still to hand over; `toServer` and `toClient` are the
    bytes in the buffers. -/
structure Crossing where
  client : ClientPc
  left : ℕ
  toServer : ℕ
  server : ServerPc
  counters : Counters
  toClient : ℕ

/-- Who takes the next step, and how many bytes it moves. -/
inductive CrossingMove
  | clientSends (n : ℕ)
  | clientSent
  | clientFails
  | clientKilled
  | clientReceives (n : ℕ)
  | serverWrites (n : ℕ)
  | serverLeaves
  | serverFails
  | serverKilled

/-- `BUFFER_SIZE`. -/
def bufferSize : ℕ := 1024

/-- One step: of a call of the client, of a call of `write`, or to the end of the server's
    loop. -/
def Crossing.step (calls : ClientCalls) (dataSize : ℕ) (buffers : Buffers) :
    CrossingMove → Crossing → Option Crossing
  | .clientSends n, s =>
    if s.client = .sending ∧ 0 < n ∧ n ≤ s.left ∧ s.toServer + n ≤ buffers.toServer then
      some { s with left := s.left - n, toServer := s.toServer + n }
    else none
  | .clientSent, s =>
    if s.client = .sending ∧ s.left = 0 then
      some { s with client := if calls.awaitsReply then .receiving else .returned }
    else none
  | .clientFails, s =>
    if s.client = .sending ∧ s.server.closed = true then some { s with client := .returned }
    else none
  | .clientKilled, s =>
    if s.client = .sending ∧ s.server.closed = true then some { s with client := .killed }
    else none
  | .clientReceives n, s =>
    if s.client = .receiving ∧ n ≤ bufferSize ∧ n ≤ s.toClient ∧
        (0 < n ∨ s.server.closed = true) then
      some { s with client := .returned, toClient := s.toClient - n }
    else none
  | .serverWrites n, s =>
    if s.server = .writing ∧ (serverLoop dataSize).more s.counters ∧ 0 < n ∧
        (n : ℤ) ≤ (serverLoop dataSize).request s.counters ∧
        s.toClient + n ≤ buffers.toClient then
      some { s with
        counters := (serverLoop dataSize).advance s.counters n, toClient := s.toClient + n }
    else none
  | .serverLeaves, s =>
    if s.server = .writing ∧ ¬(serverLoop dataSize).more s.counters then
      some { s with server := .returned }
    else none
  | .serverFails, s =>
    if s.server = .writing ∧ s.client.closed = true ∧ (serverLoop dataSize).more s.counters then
      some { s with server := .returned }
    else none
  | .serverKilled, s =>
    if s.server = .writing ∧ s.client.closed = true ∧ (serverLoop dataSize).more s.counters then
      some { s with server := .killed }
    else none

/-- A client test and the server test. -/
def crossing (calls : ClientCalls) (dataSize : ℕ) (buffers : Buffers) :
    System Crossing CrossingMove where
  init :=
    { client := .sending
      left := calls.size
      toServer := 0
      server := .writing
      counters := (serverLoop dataSize).start
      toClient := 0 }
  step := Crossing.step calls dataSize buffers

/-! ## What a step does -/

variable {calls : ClientCalls} {dataSize : ℕ} {buffers : Buffers} {s s' : Crossing}

/-- The counters of the server's loop once it has written this many bytes. -/
def countersAt (dataSize written : ℕ) : Counters := ⟨written, (dataSize + 2 : ℕ) - written⟩

theorem serverLoop_tracks (dataSize : ℕ) :
    Tracks (serverLoop dataSize) (dataSize + 2) (countersAt dataSize) := by
  rw [serverLoop_eq]
  exact udsStreamLoop_tracks (dataSize + 2)

/-- The invariant: no byte gets lost, what is behind a call is done, nobody has read before, and
    a process is killed only where the other function has returned. -/
structure CrossingInv (calls : ClientCalls) (dataSize : ℕ) (buffers : Buffers) (written : ℕ)
    (s : Crossing) : Prop where
  sent : s.toServer + s.left = calls.size
  fits : s.toServer ≤ buffers.toServer
  counters : s.counters = countersAt dataSize written
  written_le : written ≤ dataSize + 2
  unread : s.client.closed = false → s.toClient = written
  fitsBack : s.toClient ≤ buffers.toClient
  killed : (s.client = .killed → s.server = .returned) ∧
    (s.server = .killed → s.client = .returned)

/-- The steps, on the number of bytes the server has written. -/
inductive CrossingMoves (calls : ClientCalls) (dataSize : ℕ) (buffers : Buffers)
    (written : ℕ) (s : Crossing) : ℕ → Crossing → Prop
  | sends {n : ℕ} (hpc : s.client = .sending) (hpos : 0 < n) (hle : n ≤ s.left)
      (hroom : s.toServer + n ≤ buffers.toServer) :
      CrossingMoves calls dataSize buffers written s written
        { s with left := s.left - n, toServer := s.toServer + n }
  | sent (hpc : s.client = .sending) (hleft : s.left = 0) :
      CrossingMoves calls dataSize buffers written s written
        { s with client := if calls.awaitsReply then .receiving else .returned }
  | clientEnds {pc : ClientPc} (hpc : s.client = .sending) (hclosed : s.server.closed = true)
      (hend : pc = .returned ∨ pc = .killed) :
      CrossingMoves calls dataSize buffers written s written { s with client := pc }
  | receives {n : ℕ} (hpc : s.client = .receiving) (hle : n ≤ s.toClient) :
      CrossingMoves calls dataSize buffers written s written
        { s with client := .returned, toClient := s.toClient - n }
  | writes {n : ℕ} (hpc : s.server = .writing) (hpos : 0 < n) (hle : written + n ≤ dataSize + 2)
      (hroom : s.toClient + n ≤ buffers.toClient) :
      CrossingMoves calls dataSize buffers written s (written + n)
        { s with counters := countersAt dataSize (written + n), toClient := s.toClient + n }
  | leaves (hpc : s.server = .writing) (hall : written = dataSize + 2) :
      CrossingMoves calls dataSize buffers written s written { s with server := .returned }
  | serverEnds {pc : ServerPc} (hpc : s.server = .writing) (hclosed : s.client.closed = true)
      (hend : pc = .returned ∨ pc = .killed) :
      CrossingMoves calls dataSize buffers written s written { s with server := pc }

theorem crossingMoves_of_step {written : ℕ} (hinv : CrossingInv calls dataSize buffers written s)
    {move : CrossingMove} (h : (crossing calls dataSize buffers).step move s = some s') :
    ∃ written', CrossingMoves calls dataSize buffers written s written' s' := by
  have htracks := serverLoop_tracks dataSize
  have hmore := htracks.more written hinv.written_le
  simp only [crossing] at h
  cases move with
  | clientSends n =>
    obtain ⟨⟨hpc, hpos, hle, hroom⟩, h⟩ := Option.ite_none_right_eq_some.mp h
    cases h
    exact ⟨_, .sends hpc hpos hle hroom⟩
  | clientSent =>
    obtain ⟨⟨hpc, hleft⟩, h⟩ := Option.ite_none_right_eq_some.mp h
    cases h
    exact ⟨_, .sent hpc hleft⟩
  | clientFails =>
    obtain ⟨⟨hpc, hclosed⟩, h⟩ := Option.ite_none_right_eq_some.mp h
    cases h
    exact ⟨_, .clientEnds hpc hclosed (.inl rfl)⟩
  | clientKilled =>
    obtain ⟨⟨hpc, hclosed⟩, h⟩ := Option.ite_none_right_eq_some.mp h
    cases h
    exact ⟨_, .clientEnds hpc hclosed (.inr rfl)⟩
  | clientReceives n =>
    obtain ⟨⟨hpc, -, hle, -⟩, h⟩ := Option.ite_none_right_eq_some.mp h
    cases h
    exact ⟨_, .receives hpc hle⟩
  | serverWrites n =>
    obtain ⟨⟨hpc, -, hpos, hle, hroom⟩, h⟩ := Option.ite_none_right_eq_some.mp h
    rw [hinv.counters, htracks.request written hinv.written_le] at hle
    have hle' : written + n ≤ dataSize + 2 := by omega
    rw [hinv.counters, htracks.advance written n hle'] at h
    cases h
    exact ⟨_, .writes hpc hpos hle' hroom⟩
  | serverLeaves =>
    obtain ⟨⟨hpc, hdone⟩, h⟩ := Option.ite_none_right_eq_some.mp h
    rw [hinv.counters, hmore] at hdone
    cases h
    have hle := hinv.written_le
    exact ⟨_, .leaves hpc (by omega)⟩
  | serverFails =>
    obtain ⟨⟨hpc, hclosed, -⟩, h⟩ := Option.ite_none_right_eq_some.mp h
    cases h
    exact ⟨_, .serverEnds hpc hclosed (.inl rfl)⟩
  | serverKilled =>
    obtain ⟨⟨hpc, hclosed, -⟩, h⟩ := Option.ite_none_right_eq_some.mp h
    cases h
    exact ⟨_, .serverEnds hpc hclosed (.inr rfl)⟩

/-! ## The invariant -/

variable {written written' : ℕ}

/-- Neither message fits into the buffers of its direction. -/
def Overfull (calls : ClientCalls) (dataSize : ℕ) (buffers : Buffers) : Prop :=
  buffers.toServer < calls.size ∧ buffers.toClient < dataSize + 2

/-- Both functions are in the calls they have begun with. -/
def Blocked (s : Crossing) : Prop := s.client = .sending ∧ s.server = .writing

theorem crossingInv_init : CrossingInv calls dataSize buffers 0
    (crossing calls dataSize buffers).init where
  sent := Nat.zero_add _
  fits := Nat.zero_le _
  counters := (serverLoop_tracks dataSize).start
  written_le := Nat.zero_le _
  unread _ := rfl
  fitsBack := Nat.zero_le _
  killed := by
    constructor
    · intro heq
      cases heq
    · intro heq
      cases heq

/-- A side that has not closed has not been killed, nor has its peer. -/
theorem CrossingInv.alive (hinv : CrossingInv calls dataSize buffers written s) :
    (s.client = .sending ∨ s.client = .receiving → s.server ≠ .killed) ∧
      (s.server = .writing → s.client ≠ .killed) := by
  constructor
  · rintro hpc heq
    rw [hinv.killed.2 heq] at hpc
    rcases hpc with hpc | hpc
    · cases hpc
    · cases hpc
  · intro hpc heq
    rw [hinv.killed.1 heq] at hpc
    cases hpc

theorem crossingInv_of_moves (h : CrossingMoves calls dataSize buffers written s written' s')
    (hinv : CrossingInv calls dataSize buffers written s) :
    CrossingInv calls dataSize buffers written' s' := by
  obtain ⟨halive, halive'⟩ := hinv.alive
  obtain ⟨hsent, hfits, hcounters, hle, hunread, hback, hkilled⟩ := hinv
  cases h with
  | sends hpc hpos hleft hroom =>
    refine ⟨?_, hroom, hcounters, hle, hunread, hback, hkilled⟩
    dsimp only
    omega
  | sent hpc hleft =>
    refine ⟨hsent, hfits, hcounters, hle, fun _ => hunread (by rw [hpc]; rfl), hback, ?_, ?_⟩
    · intro heq
      dsimp only at heq
      split_ifs at heq
    · exact fun heq => absurd heq (halive (.inl hpc))
  | clientEnds hpc hclosed hend =>
    refine ⟨hsent, hfits, hcounters, hle, fun hopen => ?_, hback, fun _ => ?_, fun heq => ?_⟩
    · rcases hend with rfl | rfl
      · cases hopen
      · cases hopen
    · show s.server = .returned
      cases hserver : s.server with
      | returned => rfl
      | writing =>
        rw [hserver] at hclosed
        cases hclosed
      | killed => exact absurd hserver (halive (.inl hpc))
    · exact absurd heq (halive (.inl hpc))
  | receives hpc hcount =>
    refine ⟨hsent, hfits, hcounters, hle, fun hopen => ?_, Nat.le_trans (Nat.sub_le _ _) hback,
      fun heq => ?_, fun _ => rfl⟩
    · cases hopen
    · cases heq
  | writes hpc hpos hcount hroom =>
    refine ⟨hsent, hfits, rfl, hcount, fun hopen => ?_, hroom, hkilled⟩
    dsimp only
    rw [hunread hopen]
  | leaves hpc hall =>
    refine ⟨hsent, hfits, hcounters, hle, hunread, hback, fun _ => rfl, fun heq => ?_⟩
    cases heq
  | serverEnds hpc hclosed hend =>
    refine ⟨hsent, hfits, hcounters, hle, hunread, hback, fun heq => ?_, fun _ => ?_⟩
    · exact absurd heq (halive' hpc)
    · show s.client = .returned
      cases hclient : s.client with
      | returned => rfl
      | killed => exact absurd hclient (halive' hpc)
      | _ =>
        rw [hclient] at hclosed
        cases hclosed

/-- Two messages that do not fit keep both functions in their first calls: each waits for
    the other one to read. -/
theorem blocked_of_moves (hfull : Overfull calls dataSize buffers)
    (h : CrossingMoves calls dataSize buffers written s written' s')
    (hinv : CrossingInv calls dataSize buffers written s) (hblocked : Blocked s) : Blocked s' := by
  obtain ⟨hclient, hserver⟩ := hblocked
  cases h with
  | sends _ _ _ _ | writes _ _ _ _ => exact ⟨hclient, hserver⟩
  | sent _ hleft =>
    have hsent := hinv.sent
    have hfits := hinv.fits
    have hmore := hfull.1
    omega
  | clientEnds _ hclosed _ =>
    rw [hserver] at hclosed
    cases hclosed
  | receives hpc _ =>
    rw [hclient] at hpc
    cases hpc
  | leaves _ hall =>
    have hunread := hinv.unread (by rw [hclient]; rfl)
    have hback := hinv.fitsBack
    have hmore := hfull.2
    omega
  | serverEnds _ hclosed _ =>
    rw [hclient] at hclosed
    cases hclosed

/-- What is known of every state of a run. -/
def CrossingPhase (calls : ClientCalls) (dataSize : ℕ) (buffers : Buffers) (s : Crossing) : Prop :=
  (∃ written, CrossingInv calls dataSize buffers written s) ∧
    (Overfull calls dataSize buffers → Blocked s)

theorem crossingPhase_reach (h : (crossing calls dataSize buffers).Reachable s) :
    CrossingPhase calls dataSize buffers s := by
  apply h.invariant
  · exact ⟨⟨0, crossingInv_init⟩, fun _ => ⟨rfl, rfl⟩⟩
  · rintro move s s' - ⟨⟨written, hinv⟩, hblocked⟩ hstep
    obtain ⟨written', hmoves⟩ := crossingMoves_of_step hinv hstep
    exact ⟨⟨written', crossingInv_of_moves hmoves hinv⟩,
      fun hfull => blocked_of_moves hfull hmoves hinv (hblocked hfull)⟩

/-! ## The end of a run -/

/-- The calls a client has in front of it. -/
def ClientPc.rank : ClientPc → ℕ
  | .sending => 2
  | .receiving => 1
  | .returned | .killed => 0

def ServerPc.rank : ServerPc → ℕ
  | .writing => 1
  | .returned | .killed => 0

/-- The bytes and the steps that are left. -/
def Crossing.work (s : Crossing) : ℕ :=
  s.left + s.client.rank + s.counters.remaining.toNat + s.server.rank

theorem crossing_work_lt (h : CrossingMoves calls dataSize buffers written s written' s')
    (hinv : CrossingInv calls dataSize buffers written s) : s'.work < s.work := by
  cases h with
  | sends hpc hpos hle hroom =>
    simp only [Crossing.work]
    omega
  | sent hpc hleft =>
    simp only [Crossing.work, hpc]
    cases calls.awaitsReply with
    | true =>
      simp only [if_true, ClientPc.rank]
      omega
    | false =>
      simp only [Bool.false_eq_true, if_false, ClientPc.rank]
      omega
  | clientEnds hpc _ hend =>
    rcases hend with rfl | rfl
    · simp only [Crossing.work, hpc, ClientPc.rank]
      omega
    · simp only [Crossing.work, hpc, ClientPc.rank]
      omega
  | receives hpc _ =>
    simp only [Crossing.work, hpc, ClientPc.rank]
    omega
  | writes hpc hpos hle hroom =>
    simp only [Crossing.work, hinv.counters, countersAt]
    omega
  | leaves hpc _ =>
    simp only [Crossing.work, hpc, ServerPc.rank]
    omega
  | serverEnds hpc _ hend =>
    rcases hend with rfl | rfl
    · simp only [Crossing.work, hpc, ServerPc.rank]
      omega
    · simp only [Crossing.work, hpc, ServerPc.rank]
      omega

/-- How a test ends. If one of the messages fits, both processes are out of their calls: both
    functions have returned, or one has and the other process was killed. Otherwise both are
    stuck in the calls they have begun with. -/
structure TestEnds (calls : ClientCalls) (dataSize : ℕ) (buffers : Buffers) (s : Crossing) :
    Prop where
  fits : ¬Overfull calls dataSize buffers →
    s.client = .returned ∧ s.server.closed = true ∨ s.client.closed = true ∧ s.server = .returned
  overfull : Overfull calls dataSize buffers → Blocked s

/-- A server that is stuck has filled its buffers, and its client has not closed. -/
theorem server_of_stuck (hinv : CrossingInv calls dataSize buffers written s)
    (hstuck : (crossing calls dataSize buffers).Stuck (fun _ _ => True) s)
    (hpc : s.server = .writing) :
    s.client.closed = false ∧ written < dataSize + 2 ∧ buffers.toClient ≤ s.toClient := by
  have htracks := serverLoop_tracks dataSize
  have hmore : (serverLoop dataSize).more s.counters = true ↔ written < dataSize + 2 := by
    rw [hinv.counters]
    exact htracks.more written hinv.written_le
  have hlt : written < dataSize + 2 := by
    by_contra hall
    exact System.not_stuck_of_step (a := .serverLeaves) trivial
      (if_pos ⟨hpc, fun hm => hall (hmore.mp hm)⟩) hstuck
  have hopen : s.client.closed = false := by
    rw [← Bool.not_eq_true]
    intro hclosed
    exact System.not_stuck_of_step (a := .serverFails) trivial
      (if_pos ⟨hpc, hclosed, hmore.mpr hlt⟩) hstuck
  refine ⟨hopen, hlt, ?_⟩
  by_contra hroom
  have hrequest : ((1 : ℕ) : ℤ) ≤ (serverLoop dataSize).request s.counters := by
    rw [hinv.counters, htracks.request written hinv.written_le]
    omega
  exact System.not_stuck_of_step (a := .serverWrites 1) trivial
    (if_pos ⟨hpc, hmore.mpr hlt, Nat.one_pos, hrequest, by omega⟩) hstuck

theorem ServerPc.eq_writing {pc : ServerPc} (h : ¬pc.closed = true) : pc = .writing := by
  cases pc with
  | writing => rfl
  | _ => exact absurd rfl h

theorem sending_of_stuck (hinv : CrossingInv calls dataSize buffers written s)
    (hstuck : (crossing calls dataSize buffers).Stuck (fun _ _ => True) s)
    (hpc : s.client = .sending) : Overfull calls dataSize buffers := by
  have hleft : 0 < s.left := by
    by_contra hnone
    exact System.not_stuck_of_step (a := .clientSent) trivial (if_pos ⟨hpc, by omega⟩) hstuck
  have hopen : ¬s.server.closed = true := by
    intro hclosed
    exact System.not_stuck_of_step (a := .clientFails) trivial (if_pos ⟨hpc, hclosed⟩) hstuck
  have hroom : buffers.toServer ≤ s.toServer := by
    by_contra hroom
    exact System.not_stuck_of_step (a := .clientSends 1) trivial
      (if_pos ⟨hpc, Nat.one_pos, hleft, by omega⟩) hstuck
  obtain ⟨hnot, hlt, hback⟩ := server_of_stuck hinv hstuck (ServerPc.eq_writing hopen)
  have hsent := hinv.sent
  have hunread := hinv.unread hnot
  constructor <;> omega

theorem not_receiving_of_stuck (hcap : 0 < buffers.toClient)
    (hinv : CrossingInv calls dataSize buffers written s)
    (hstuck : (crossing calls dataSize buffers).Stuck (fun _ _ => True) s) :
    s.client ≠ .receiving := by
  intro hpc
  have hnone : s.toClient = 0 := by
    by_contra hsome
    exact System.not_stuck_of_step (a := .clientReceives 1) trivial
      (if_pos ⟨hpc, by decide, by omega, .inl Nat.one_pos⟩) hstuck
  have hopen : ¬s.server.closed = true := by
    intro hclosed
    exact System.not_stuck_of_step (a := .clientReceives 0) trivial
      (if_pos ⟨hpc, by decide, Nat.zero_le _, .inr hclosed⟩) hstuck
  obtain ⟨-, -, hback⟩ := server_of_stuck hinv hstuck (ServerPc.eq_writing hopen)
  omega

/-- Where one of the messages fits, nobody is stuck in a call. -/
theorem closed_of_stuck (hcap : 0 < buffers.toClient)
    (hinv : CrossingInv calls dataSize buffers written s)
    (hstuck : (crossing calls dataSize buffers).Stuck (fun _ _ => True) s)
    (hfits : ¬Overfull calls dataSize buffers) :
    s.client.closed = true ∧ s.server.closed = true := by
  have hclient : s.client.closed = true := by
    cases hpc : s.client with
    | sending => exact absurd (sending_of_stuck hinv hstuck hpc) hfits
    | receiving => exact absurd hpc (not_receiving_of_stuck hcap hinv hstuck)
    | returned => rfl
    | killed => rfl
  refine ⟨hclient, ?_⟩
  by_contra hopen
  have hnot := (server_of_stuck hinv hstuck (ServerPc.eq_writing hopen)).1
  rw [hclient] at hnot
  cases hnot

theorem crossing_alwaysEnds (calls : ClientCalls) (dataSize : ℕ) (hcap : 0 < buffers.toClient) :
    (crossing calls dataSize buffers).AlwaysEnds (fun _ _ => True)
      (TestEnds calls dataSize buffers) := by
  apply System.alwaysEnds_of_measure Crossing.work fun s hs => crossingPhase_reach hs
  · rintro move s s' - ⟨⟨written, hinv⟩, -⟩ hstep
    obtain ⟨written', hmoves⟩ := crossingMoves_of_step hinv hstep
    exact crossing_work_lt hmoves hinv
  · rintro s ⟨⟨written, hinv⟩, hblocked⟩ hstuck
    refine ⟨fun hfits => ?_, hblocked⟩
    obtain ⟨hclient, hserver⟩ := closed_of_stuck hcap hinv hstuck hfits
    cases hpc : s.client with
    | returned => exact .inl ⟨rfl, hserver⟩
    | killed => exact .inr ⟨rfl, hinv.killed.1 hpc⟩
    | _ =>
      rw [hpc] at hclient
      cases hclient

/-- **A client test against the server test.** For every size of the file and of the data,
    and for all socket buffers: neither function ever returns if both messages are larger
    than the buffers they go through. If one of them fits, both processes get out of their
    calls in every run; at least one of the functions has returned then, and the other process
    may have been killed for writing to a connection that was closed. -/
theorem tests_end (filesize dataSize : ℕ) (buffers : Buffers) (hcap : 0 < buffers.toClient) :
    (crossing (ipv4TcpCalls filesize) dataSize buffers).AlwaysEnds (fun _ _ => True)
        (TestEnds (ipv4TcpCalls filesize) dataSize buffers) ∧
      (crossing (mmapCalls dataSize) dataSize buffers).AlwaysEnds (fun _ _ => True)
        (TestEnds (mmapCalls dataSize) dataSize buffers) :=
  ⟨crossing_alwaysEnds _ dataSize hcap, crossing_alwaysEnds _ dataSize hcap⟩

/-- The sizes of the source, with four megabytes of buffers in each direction: all runs of
    both tests come to a standstill. -/
theorem tests_end_sources :
    (crossing (ipv4TcpCalls 104857627) 104857600 ⟨4194304, 4194304⟩).AlwaysEnds
        (fun _ _ => True) Blocked ∧
      (crossing (mmapCalls 104857600) 104857600 ⟨4194304, 4194304⟩).AlwaysEnds
        (fun _ _ => True) Blocked := by
  have hends := tests_end 104857627 104857600 ⟨4194304, 4194304⟩ (by decide)
  exact ⟨hends.1.mono fun s _ h => h.overfull (by unfold Overfull; decide),
    hends.2.mono fun s _ h => h.overfull (by unfold Overfull; decide)⟩

/-- The message of the client fits, and the server is killed. -/
example : ((crossing (mmapCalls 8) 8 ⟨16, 4⟩).exec
    [.clientSends 10, .clientSent, .serverWrites 4, .serverKilled]
    (crossing (mmapCalls 8) 8 ⟨16, 4⟩).init).map (fun s => (s.client, s.server)) =
      some (.returned, .killed) := by
  decide

end ChatOnC.PerformanceTest
