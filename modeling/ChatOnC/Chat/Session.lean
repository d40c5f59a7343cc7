import ChatOnC.Chat.Arrival
import ChatOnC.Common.Stream
import Mathlib.Logic.Function.Basic

/-!
# A whole chat

The four processes of a chat (`stnc.c`, lines 74–99): each side has forked, its child
runs `handle_client` and its parent the loop that sends what is typed. Both hold the
connected socket. Calls do not fail, `send` accepts what it is given, and `recv` gives
any part of what has arrived, or nothing when nothing is left and the other side sends
no more: it has called `shutdown`, or none of its processes is left that holds the
socket.

* `SenderMoves`, `ReceiverMoves`: what a step does.
* `ChatInv`: the invariant of a chat in which no chunk fills a buffer.
-/

namespace ChatOnC.Chat

open ChatOnC.Common

/-- The two sides of a chat. -/
inductive Party
  | client
  | server
  deriving DecidableEq

def Party.peer : Party → Party
  | .client => .server
  | .server => .client

/-- Where the parent process stands. -/
inductive SenderPc
  /-- before `read(STDIN_FILENO, buffer, BUFFER_SIZE)` (line 83) -/
  | read
  /-- before `send(sock, buffer, read_size, 0)` (line 92) -/
  | send (bytes : List UInt8)
  /-- behind the loop (line 95) -/
  | shutdown
  /-- left by `exit(0)` or by `return 0` -/
  | ended
  /-- behind a write outside the buffer -/
  | undefined
  deriving DecidableEq

/-- Where the child process stands. -/
inductive ReceiverPc
  /-- before `recv(client_sock, buffer, BUFFER_SIZE, 0)` (line 17) -/
  | recv
  | ended
  /-- behind a write outside the buffer -/
  | undefined
  deriving DecidableEq

/-- The processes of one side. `typed` is what `read` has still to return, `outgoing` what
    this side sends, and `shut` says that `shutdown(sock, SHUT_WR)` was called. -/
structure Side where
  typed : List Chunk
  sendBuffer : List UInt8
  sender : SenderPc
  shut : Bool
  outgoing : Fifo UInt8
  recvBuffer : List UInt8
  receiver : ReceiverPc
  printed : List Printed

/-- Nothing more will be sent from this side. -/
def Side.Closed (s : Side) : Prop := s.shut = true ∨ s.sender = .ended ∧ s.receiver = .ended

instance (s : Side) : Decidable s.Closed := inferInstanceAs (Decidable (_ ∨ _))

/-- Who takes the next step. For a child the label says what `recv` returns. -/
inductive Move
  | sender (p : Party)
  | receiver (p : Party) (readSize : ℕ)

/-- A step of the parent process (lines 83–96). -/
def Side.senderStep (s : Side) : Option Side :=
  match s.sender with
  | .read =>
    match s.typed with
    | [] => some { s with sender := .shutdown }
    | chunk :: typed =>
      match store s.sendBuffer chunk with
      | none => some { s with typed := typed, sender := .undefined }
      | some buffer =>
        if cString buffer = ascii "exit\n" then
          some { s with typed := typed, sendBuffer := buffer, sender := .ended }
        else
          some { s with
            typed := typed
            sendBuffer := buffer
            sender := .send (buffer.take chunk.bytes.length) }
  | .send bytes => some { s with sender := .read, outgoing := s.outgoing.write bytes }
  | .shutdown => some { s with sender := .ended, shut := true }
  | .ended | .undefined => none

/-- The label that `handle_client` prints. -/
def peerLabel (argc : ℕ) : List UInt8 := if argc = 4 then ascii "server: " else ascii "client: "

/-- What `handle_client` does with the bytes that `recv` has returned (lines 18–26). -/
def Side.print (s : Side) (argc : ℕ) (chunk : Chunk) : Side :=
  match store s.recvBuffer chunk with
  | none => { s with receiver := .undefined }
  | some buffer =>
    { s with recvBuffer := buffer, printed := s.printed ++ [⟨peerLabel argc, cString buffer⟩] }

/-- The state with this side changed. -/
def setSide (s : Party → Side) (p : Party) (side : Side) : Party → Side := Function.update s p side

/-- A step of the child process: `recv`, and what is printed. -/
def receiverStep (argc : Party → ℕ) (p : Party) (readSize : ℕ) (s : Party → Side) :
    Option (Party → Side) :=
  if (s p).receiver ≠ .recv then none
  else if readSize = 0 then
    if (s p.peer).outgoing.items = [] ∧ (s p.peer).Closed then
      some (setSide s p { s p with receiver := .ended })
    else none
  else
    match (s p.peer).outgoing.read readSize with
    | none => none
    | some (bytes, outgoing) =>
      if h : bytes ≠ [] ∧ bytes.length ≤ bufferSize then
        some (setSide (setSide s p.peer { s p.peer with outgoing := outgoing }) p
          ((s p).print (argc p) ⟨bytes, h.1, h.2⟩))
      else none

/-- What the two sides start with: `argc`, what will be typed, and what the buffers held
    at first. -/
structure Setup where
  argc : Party → ℕ
  typed : Party → List Chunk
  sendBuffer : Party → List UInt8
  recvBuffer : Party → List UInt8
  length_sendBuffer : ∀ p, (sendBuffer p).length = bufferSize
  length_recvBuffer : ∀ p, (recvBuffer p).length = bufferSize

/-- The chat from the two calls of `fork` on. -/
def chat (c : Setup) : System (Party → Side) Move where
  init p :=
    { typed := c.typed p
      sendBuffer := c.sendBuffer p
      sender := .read
      shut := false
      outgoing := .empty
      recvBuffer := c.recvBuffer p
      receiver := .recv
      printed := [] }
  step
    | .sender p, s => (s p).senderStep.map (setSide s p)
    | .receiver p readSize, s => receiverStep c.argc p readSize s

/-! ## What a step does -/

variable {c : Setup} {p : Party} {s s' : Party → Side} {side side' : Side}

theorem Party.peer_ne (p : Party) : p.peer ≠ p := by
  cases p <;> decide

@[simp] theorem Party.peer_peer (p : Party) : p.peer.peer = p := by
  cases p <;> rfl

/-- Both sides are this one and the other one. -/
theorem Party.forall_iff {P : Party → Prop} (p : Party) : (∀ q, P q) ↔ P p ∧ P p.peer := by
  refine ⟨fun h => ⟨h p, h p.peer⟩, fun h q => ?_⟩
  by_cases hq : q = p
  · rw [hq]
    exact h.1
  · have hpeer : q = p.peer := by
      cases q <;> cases p <;> first | rfl | exact absurd rfl hq
    rw [hpeer]
    exact h.2

@[simp] theorem setSide_self : setSide s p side p = side := by
  rw [setSide, Function.update_self]

@[simp] theorem setSide_peer : setSide s p side p.peer = s p.peer := by
  rw [setSide, Function.update_of_ne p.peer_ne]

@[simp] theorem setSide_of_peer : setSide s p.peer side p = s p := by
  rw [setSide, Function.update_of_ne p.peer_ne.symm]

/-- The steps of a parent process whose chunks leave room in the buffer. -/
inductive SenderMoves (side : Side) : Side → Prop
  | inputEnds (hpc : side.sender = .read) (htyped : side.typed = []) :
      SenderMoves side { side with sender := .shutdown }
  | leaves {chunk : Chunk} {typed : List Chunk} {buffer : List UInt8} (hpc : side.sender = .read)
      (htyped : side.typed = chunk :: typed) (hbuffer : buffer.length = bufferSize)
      (hexit : cString chunk.bytes = ascii "exit\n") :
      SenderMoves side { side with typed := typed, sendBuffer := buffer, sender := .ended }
  | reads {chunk : Chunk} {typed : List Chunk} {buffer : List UInt8} (hpc : side.sender = .read)
      (htyped : side.typed = chunk :: typed) (hbuffer : buffer.length = bufferSize)
      (hgo : cString chunk.bytes ≠ ascii "exit\n") :
      SenderMoves side
        { side with typed := typed, sendBuffer := buffer, sender := .send chunk.bytes }
  | sends {bytes : List UInt8} (hpc : side.sender = .send bytes) :
      SenderMoves side { side with sender := .read, outgoing := side.outgoing.write bytes }
  | shuts (hpc : side.sender = .shutdown) :
      SenderMoves side { side with sender := .ended, shut := true }

theorem senderMoves_of_step (hbuffer : side.sendBuffer.length = bufferSize)
    (hroom : ∀ chunk ∈ side.typed, chunk.bytes.length < bufferSize)
    (h : side.senderStep = some side') : SenderMoves side side' := by
  unfold Side.senderStep at h
  split at h
  · rename_i hpc
    split at h
    · rename_i htyped
      cases h
      exact .inputEnds hpc htyped
    · rename_i chunk typed htyped
      rw [htyped, List.forall_mem_cons] at hroom
      obtain ⟨buffer, hstore, hlen, hstring, htake⟩ := store_of_lt hbuffer hroom.1
      rw [hstore] at h
      dsimp only at h
      rw [hstring, htake] at h
      split_ifs at h with hexit
      · cases h
        exact .leaves hpc htyped hlen hexit
      · cases h
        exact .reads hpc htyped hlen hexit
  · rename_i bytes hpc
    cases h
    exact .sends hpc
  · rename_i hpc
    cases h
    exact .shuts hpc
  · cases h
  · cases h

/-- A parent process is done, or it has a step. -/
theorem exists_senderStep (h : side.sender ≠ .ended) (h' : side.sender ≠ .undefined) :
    ∃ side', side.senderStep = some side' := by
  unfold Side.senderStep
  split
  · split
    · exact ⟨_, rfl⟩
    · split
      · exact ⟨_, rfl⟩
      · split_ifs
        · exact ⟨_, rfl⟩
        · exact ⟨_, rfl⟩
  · exact ⟨_, rfl⟩
  · exact ⟨_, rfl⟩
  · rename_i hpc
    exact absurd hpc h
  · rename_i hpc
    exact absurd hpc h'

/-- The steps of a child process on a `recv` that leaves room in the buffer. -/
inductive ReceiverMoves (argc : Party → ℕ) (p : Party) (s : Party → Side) :
    (Party → Side) → Prop
  | endOfStream (hpc : (s p).receiver = .recv) (hitems : (s p.peer).outgoing.items = [])
      (hclosed : (s p.peer).Closed) :
      ReceiverMoves argc p s (setSide s p { s p with receiver := .ended })
  | prints {readSize : ℕ} {bytes buffer : List UInt8} {outgoing : Fifo UInt8}
      (hpc : (s p).receiver = .recv)
      (hread : (s p.peer).outgoing.read readSize = some (bytes, outgoing))
      (hbuffer : buffer.length = bufferSize) :
      ReceiverMoves argc p s
        (setSide (setSide s p.peer { s p.peer with outgoing := outgoing }) p
          { s p with
            recvBuffer := buffer
            printed := (s p).printed ++ [⟨peerLabel (argc p), cString bytes⟩] })

theorem receiverMoves_of_step {argc : Party → ℕ} {readSize : ℕ}
    (hbuffer : (s p).recvBuffer.length = bufferSize) (hroom : readSize < bufferSize)
    (h : receiverStep argc p readSize s = some s') : ReceiverMoves argc p s s' := by
  unfold receiverStep at h
  split_ifs at h with hpc hzero hend
  · cases h
    exact .endOfStream (not_not.mp hpc) hend.1 hend.2
  · split at h
    · cases h
    · rename_i bytes outgoing hread
      obtain ⟨-, hlen, -⟩ := Fifo.read_eq_some hread
      split_ifs at h with hchunk
      have hfits : (Chunk.mk bytes hchunk.1 hchunk.2).bytes.length < bufferSize := by
        rw [hlen]
        exact hroom
      obtain ⟨buffer, hstore, hbuffer', hstring, -⟩ := store_of_lt hbuffer hfits
      simp only [Side.print, hstore, hstring, Option.some.injEq] at h
      rw [← h]
      exact .prints (not_not.mp hpc) hread hbuffer'

/-! ## The invariant -/

/-- What this side says: everything in front of the chunk it leaves on. -/
def said (chunks : List Chunk) : List UInt8 := upTo (stream chunks) (exitAt chunks)

/-- The input of this side leaves by `exit`. -/
def leaves (chunks : List Chunk) : Bool := (exitAt chunks).isSome

theorem said_of_exit {chunk : Chunk} {chunks : List Chunk}
    (hexit : cString chunk.bytes = ascii "exit\n") : said (chunk :: chunks) = [] := by
  rw [said, exitAt, if_pos hexit, upTo, List.take_zero]

theorem said_cons {chunk : Chunk} {chunks : List Chunk}
    (hgo : cString chunk.bytes ≠ ascii "exit\n") :
    said (chunk :: chunks) = chunk.bytes ++ said chunks := by
  rw [said, said, append_upTo, exitAt, if_neg hgo]
  rfl

theorem leaves_of_exit {chunk : Chunk} {chunks : List Chunk}
    (hexit : cString chunk.bytes = ascii "exit\n") : leaves (chunk :: chunks) = true := by
  rw [leaves, exitAt, if_pos hexit, Option.isSome_some]

theorem leaves_cons {chunk : Chunk} {chunks : List Chunk}
    (hgo : cString chunk.bytes ≠ ascii "exit\n") : leaves (chunk :: chunks) = leaves chunks := by
  rw [leaves, leaves, exitAt, if_neg hgo, Option.isSome_map]

/-- What the parent process has still to send. -/
def Side.toSend (side : Side) : List UInt8 :=
  match side.sender with
  | .read => said side.typed
  | .send bytes => bytes ++ said side.typed
  | .shutdown | .ended | .undefined => []

/-- Where the parent process stands, if its input leaves by `exit` or does not. -/
def Side.Stands (side : Side) (exits : Bool) : Prop :=
  match side.sender with
  | .read | .send _ => leaves side.typed = exits ∧ side.shut = false
  | .shutdown => exits = false ∧ side.shut = false
  | .ended => side.shut = !exits
  | .undefined => False

/-- The invariant of a parent process. -/
structure Sending (typed : List Chunk) (side : Side) : Prop where
  buffer : side.sendBuffer.length = bufferSize
  room : ∀ chunk ∈ side.typed, chunk.bytes.length < bufferSize
  flow : side.outgoing.put ++ side.toSend = said typed
  stands : side.Stands (leaves typed)

/-- The invariant of a child process, `peer` being the side it listens to. -/
structure Receiving (side peer : Side) : Prop where
  buffer : side.recvBuffer.length = bufferSize
  defined : side.receiver ≠ .undefined
  ended : side.receiver = .ended → peer.sender = .ended ∧ peer.outgoing.items = []
  printed : 0 ∉ peer.outgoing.put → text side.printed = peer.outgoing.taken

/-- The invariant of a chat. -/
structure ChatInv (c : Setup) (s : Party → Side) : Prop where
  sending : ∀ p, Sending (c.typed p) (s p)
  receiving : ∀ p, Receiving (s p) (s p.peer)
  /-- As long as no side has called `shutdown`, the children wait for each other. -/
  waiting : (∀ p, (s p).shut = false) → ∀ p, (s p).receiver = .recv

/-- All that is typed leaves room in the buffers. -/
def Setup.Room (c : Setup) : Prop := ∀ p, ∀ chunk ∈ c.typed p, chunk.bytes.length < bufferSize

/-- `recv` leaves room in the buffer. -/
def RecvRoom : Move → (Party → Side) → Prop
  | .sender _, _ => True
  | .receiver _ readSize, _ => readSize < bufferSize

instance : ∀ (move : Move) (s : Party → Side), Decidable (RecvRoom move s)
  | .sender _, _ => instDecidableTrue
  | .receiver _ readSize, _ => Nat.decLt readSize bufferSize

theorem chatInv_init (hroom : c.Room) : ChatInv c (chat c).init where
  sending p :=
    { buffer := c.length_sendBuffer p
      room := hroom p
      flow := rfl
      stands := ⟨rfl, rfl⟩ }
  receiving p :=
    { buffer := c.length_recvBuffer p
      defined := nofun
      ended := nofun
      printed := fun _ => rfl }
  waiting _ _ := rfl

theorem sending_of_moves {typed : List Chunk} (h : SenderMoves side side')
    (hs : Sending typed side) : Sending typed side' := by
  obtain ⟨hbuffer, hroom, hflow, hstands⟩ := hs
  cases h with
  | inputEnds hpc htyped =>
    simp only [Side.toSend, hpc, htyped] at hflow
    simp only [Side.Stands, hpc, htyped] at hstands
    exact ⟨hbuffer, hroom, hflow, hstands.1.symm, hstands.2⟩
  | @leaves chunk typed' buffer hpc htyped hlen hexit =>
    rw [htyped, List.forall_mem_cons] at hroom
    simp only [Side.toSend, hpc, htyped, said_of_exit hexit] at hflow
    simp only [Side.Stands, hpc, htyped, leaves_of_exit hexit] at hstands
    refine ⟨hlen, hroom.2, hflow, ?_⟩
    simp only [Side.Stands]
    rw [hstands.2, ← hstands.1, Bool.not_true]
  | @reads chunk typed' buffer hpc htyped hlen hgo =>
    rw [htyped, List.forall_mem_cons] at hroom
    simp only [Side.toSend, hpc, htyped, said_cons hgo] at hflow
    simp only [Side.Stands, hpc, htyped, leaves_cons hgo] at hstands
    exact ⟨hlen, hroom.2, hflow, hstands⟩
  | @sends bytes hpc =>
    simp only [Side.toSend, hpc] at hflow
    simp only [Side.Stands, hpc] at hstands
    refine ⟨hbuffer, hroom, ?_, hstands⟩
    simp only [Side.toSend, Fifo.write_put]
    rw [List.append_assoc, hflow]
  | shuts hpc =>
    simp only [Side.toSend, hpc] at hflow
    simp only [Side.Stands, hpc] at hstands
    refine ⟨hbuffer, hroom, hflow, ?_⟩
    simp only [Side.Stands]
    rw [hstands.1, Bool.not_false]

/-- What a step of a parent process leaves alone. -/
theorem frame_of_moves (h : SenderMoves side side') : side.sender ≠ .ended ∧
    side'.recvBuffer = side.recvBuffer ∧ side'.receiver = side.receiver ∧
      side'.printed = side.printed ∧ side'.outgoing.taken = side.outgoing.taken ∧
      side.outgoing.put <+: side'.outgoing.put ∧ (side.shut = true → side'.shut = true) := by
  cases h with
  | inputEnds hpc _ | leaves hpc _ _ _ | reads hpc _ _ _ =>
    exact ⟨by simp [hpc], rfl, rfl, rfl, rfl, List.prefix_refl _, id⟩
  | sends hpc => exact ⟨by simp [hpc], rfl, rfl, rfl, rfl, List.prefix_append _ _, id⟩
  | shuts hpc => exact ⟨by simp [hpc], rfl, rfl, rfl, rfl, List.prefix_refl _, fun _ => rfl⟩

theorem chatInv_sender (hinv : ChatInv c s) (h : (s p).senderStep = some side) :
    ChatInv c (setSide s p side) := by
  have hmoves := senderMoves_of_step (hinv.sending p).buffer (hinv.sending p).room h
  obtain ⟨hpc, hrecvBuffer, hreceiver, hprinted, htaken, hput, hshut⟩ := frame_of_moves hmoves
  have hhere := hinv.receiving p
  have hthere := hinv.receiving p.peer
  rw [Party.peer_peer] at hthere
  constructor
  · rw [Party.forall_iff p, setSide_self, setSide_peer]
    exact ⟨sending_of_moves hmoves (hinv.sending p), hinv.sending p.peer⟩
  · rw [Party.forall_iff p, setSide_self, setSide_peer, Party.peer_peer, setSide_self]
    constructor
    · obtain ⟨hb, hd, he, ht⟩ := hhere
      exact ⟨hrecvBuffer ▸ hb, hreceiver ▸ hd, hreceiver ▸ he, hprinted ▸ ht⟩
    · refine ⟨hthere.buffer, hthere.defined, fun hended => ?_, fun h0 => ?_⟩
      · exact absurd (hthere.ended hended).1 hpc
      · rw [htaken]
        exact hthere.printed fun hmem => h0 (hput.subset hmem)
  · rw [Party.forall_iff p, setSide_self, setSide_peer, Party.forall_iff p, setSide_self,
      setSide_peer]
    rintro ⟨hp, hpeer⟩
    have hall : ∀ q, (s q).shut = false := by
      rw [Party.forall_iff p]
      refine ⟨?_, hpeer⟩
      by_contra hshut'
      rw [Bool.not_eq_false] at hshut'
      rw [hshut hshut'] at hp
      cases hp
    exact ⟨hreceiver ▸ hinv.waiting hall p, hinv.waiting hall p.peer⟩

theorem closed_sender (hinv : ChatInv c s) (h : (s p).Closed) : (s p).sender = .ended := by
  rcases h with hshut | ⟨hended, -⟩
  · have hstands := (hinv.sending p).stands
    unfold Side.Stands at hstands
    split at hstands
    · rw [hstands.2] at hshut
      cases hshut
    · rw [hstands.2] at hshut
      cases hshut
    · rw [hstands.2] at hshut
      cases hshut
    · assumption
    · exact hstands.elim
  · exact hended

theorem text_append (printed : List Printed) (last : Printed) :
    text (printed ++ [last]) = text printed ++ last.text := by
  simp [text]

theorem chatInv_receiver {argc : Party → ℕ} (hinv : ChatInv c s)
    (h : ReceiverMoves argc p s s') : ChatInv c s' := by
  have hhere := hinv.receiving p
  have hthere := hinv.receiving p.peer
  rw [Party.peer_peer] at hthere
  cases h with
  | endOfStream hpc hitems hclosed =>
    have hended := closed_sender hinv hclosed
    constructor
    · rw [Party.forall_iff p, setSide_self, setSide_peer]
      obtain ⟨hb, hr, hf, hs⟩ := hinv.sending p
      exact ⟨⟨hb, hr, hf, hs⟩, hinv.sending p.peer⟩
    · rw [Party.forall_iff p, setSide_self, setSide_peer, Party.peer_peer, setSide_self]
      constructor
      · exact ⟨hhere.buffer, nofun, fun _ => ⟨hended, hitems⟩, hhere.printed⟩
      · exact ⟨hthere.buffer, hthere.defined, hthere.ended, hthere.printed⟩
    · intro hopen
      rw [Party.forall_iff p, setSide_self, setSide_peer] at hopen
      have hall : ∀ q, (s q).shut = false := (Party.forall_iff p).mpr hopen
      rcases hclosed with hshut | ⟨-, hreceiver⟩
      · rw [hall p.peer] at hshut
        cases hshut
      · rw [hinv.waiting hall p.peer] at hreceiver
        cases hreceiver
  | @prints readSize bytes buffer outgoing hpc hread hbuffer =>
    obtain ⟨-, -, hitems, hput, htaken⟩ := Fifo.read_eq_some hread
    constructor
    · rw [Party.forall_iff p, setSide_self, setSide_peer, setSide_self]
      obtain ⟨hb, hr, hf, hs⟩ := hinv.sending p
      obtain ⟨hb', hr', hf', hs'⟩ := hinv.sending p.peer
      refine ⟨⟨hb, hr, hf, hs⟩, ⟨hb', hr', ?_, hs'⟩⟩
      rw [← hf', ← hput]
      rfl
    · rw [Party.forall_iff p, setSide_self, setSide_peer, setSide_self, Party.peer_peer,
        setSide_self]
      constructor
      · refine ⟨hbuffer, hhere.defined, fun hended => ?_, fun h0 => ?_⟩
        · rw [hpc] at hended
          cases hended
        · rw [hput] at h0
          have h0' : 0 ∉ bytes := by
            intro hmem
            apply h0
            rw [← (s p.peer).outgoing.balanced, hitems]
            simp [hmem]
          rw [htaken, text_append, hhere.printed h0, cString_of_zero_notMem h0']
      · exact ⟨hthere.buffer, hthere.defined, hthere.ended, hthere.printed⟩
    · intro hopen
      rw [Party.forall_iff p, setSide_self, setSide_peer, setSide_self] at hopen
      have hall : ∀ q, (s q).shut = false := (Party.forall_iff p).mpr hopen
      rw [Party.forall_iff p, setSide_self, setSide_peer, setSide_self]
      exact ⟨hpc, hinv.waiting hall p.peer⟩

theorem chatInv_reach (hroom : c.Room) (h : (chat c).Reach RecvRoom s) : ChatInv c s := by
  apply h.invariant (chatInv_init hroom)
  rintro move s s' hok hinv hstep
  cases move with
  | sender p =>
    obtain ⟨side, hside, rfl⟩ := Option.map_eq_some_iff.mp hstep
    exact chatInv_sender hinv hside
  | receiver p readSize =>
    exact chatInv_receiver hinv (receiverMoves_of_step (hinv.receiving p).buffer hok hstep)

end ChatOnC.Chat
