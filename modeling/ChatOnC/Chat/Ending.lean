import ChatOnC.Chat.Chunking
import ChatOnC.Chat.Session
import ChatOnC.Common.Termination

/-!
# How a chat ends

* `processes_end_iff`: all four processes end if and only if the input of one side does
  not leave by `exit`; otherwise the two children wait for each other for ever.
* `texts_arrive`: what is printed on both sides, at any time and at the end.
-/

namespace ChatOnC.Chat

open ChatOnC.Common

variable {c : Setup} {p : Party} {s s' : Party → Side} {side side' : Side}

/-! ## The end of a run -/

/-- The steps and bytes a parent process has in front of it. -/
def Side.senderWork (side : Side) : ℕ :=
  (stream side.typed).length + match side.sender with
    | .read => 2 * side.typed.length + 2
    | .send bytes => 2 * side.typed.length + 3 + bytes.length
    | .shutdown => 1
    | .ended | .undefined => 0

/-- The steps a side has in front of it, and the bytes on their way from it. -/
def Side.work (side : Side) : ℕ :=
  side.senderWork + side.outgoing.items.length + if side.receiver = .recv then 1 else 0

def work (s : Party → Side) : ℕ := (s .client).work + (s .server).work

theorem work_eq (s : Party → Side) (p : Party) : work s = (s p).work + (s p.peer).work := by
  cases p with
  | client => rfl
  | server => exact Nat.add_comm _ _

theorem stream_cons (chunk : Chunk) (chunks : List Chunk) :
    stream (chunk :: chunks) = chunk.bytes ++ stream chunks := rfl

theorem senderWork_lt (h : SenderMoves side side') :
    side'.senderWork + side'.outgoing.items.length <
      side.senderWork + side.outgoing.items.length := by
  cases h with
  | inputEnds hpc htyped =>
    simp only [Side.senderWork, hpc, htyped]
    simp
  | leaves hpc htyped _ _ =>
    simp only [Side.senderWork, hpc, htyped, stream_cons, List.length_append]
    omega
  | reads hpc htyped _ _ =>
    simp only [Side.senderWork, hpc, htyped, stream_cons, List.length_append, List.length_cons]
    omega
  | sends hpc =>
    simp only [Side.senderWork, hpc, Fifo.write_items, List.length_append]
    omega
  | shuts hpc =>
    simp only [Side.senderWork, hpc]
    omega

theorem work_lt {move : Move} (hinv : ChatInv c s) (hok : RecvRoom move s)
    (h : (chat c).step move s = some s') : work s' < work s := by
  cases move with
  | sender p =>
    obtain ⟨side, hside, rfl⟩ := Option.map_eq_some_iff.mp h
    have hmoves := senderMoves_of_step (hinv.sending p).buffer (hinv.sending p).room hside
    have hless := senderWork_lt hmoves
    obtain ⟨-, -, hreceiver, -⟩ := frame_of_moves hmoves
    rw [work_eq _ p, work_eq s p, setSide_self, setSide_peer]
    simp only [Side.work, hreceiver]
    omega
  | receiver p readSize =>
    rw [work_eq _ p, work_eq s p]
    cases receiverMoves_of_step (hinv.receiving p).buffer hok h with
    | endOfStream hpc _ _ =>
      rw [setSide_self, setSide_peer]
      simp [Side.work, Side.senderWork, hpc]
    | prints hpc hread _ =>
      obtain ⟨hpos, hlen, hitems, -⟩ := Fifo.read_eq_some hread
      rw [setSide_self, setSide_peer, setSide_self]
      simp only [Side.work, Side.senderWork, hitems, List.length_append]
      omega

/-- Both processes of both sides have ended. -/
def AllEnded (s : Party → Side) : Prop := ∀ p, (s p).sender = .ended ∧ (s p).receiver = .ended

theorem sender_ended_of_stuck (hinv : ChatInv c s) (h : (chat c).Stuck RecvRoom s) (p : Party) :
    (s p).sender = .ended := by
  by_contra hpc
  have hdefined : (s p).sender ≠ .undefined := by
    intro hpc'
    have hstands := (hinv.sending p).stands
    simp only [Side.Stands, hpc'] at hstands
  obtain ⟨side, hside⟩ := exists_senderStep hpc hdefined
  have hstep : (chat c).step (.sender p) s = some (setSide s p side) :=
    Option.map_eq_some_iff.mpr ⟨side, hside, rfl⟩
  exact System.not_stuck_of_step (a := .sender p) trivial hstep h

/-- A child process that waits where nothing moves listens to a side that is still open. -/
theorem not_closed_of_stuck (h : (chat c).Stuck RecvRoom s) (hpc : (s p).receiver = .recv) :
    ¬(s p.peer).Closed := by
  intro hclosed
  have hnot : ¬(s p).receiver ≠ .recv := not_not.mpr hpc
  by_cases hitems : (s p.peer).outgoing.items = []
  · have hstep : (chat c).step (.receiver p 0) s =
        some (setSide s p { s p with receiver := .ended }) := by
      simp only [chat, receiverStep, if_neg hnot, hitems, hclosed, and_self, if_true]
    exact System.not_stuck_of_step (a := .receiver p 0) (by simp [RecvRoom, bufferSize]) hstep h
  · obtain ⟨bytes, outgoing, hread⟩ := Fifo.exists_read (q := (s p.peer).outgoing) Nat.one_pos
      (List.length_pos_iff.mpr hitems)
    obtain ⟨-, hlen, -⟩ := Fifo.read_eq_some hread
    have hchunk : bytes ≠ [] ∧ bytes.length ≤ bufferSize := by
      refine ⟨List.ne_nil_of_length_eq_add_one hlen, ?_⟩
      rw [hlen]
      decide
    have hstep : (chat c).step (.receiver p 1) s =
        some (setSide (setSide s p.peer { s p.peer with outgoing := outgoing }) p
          ((s p).print (c.argc p) ⟨bytes, hchunk.1, hchunk.2⟩)) := by
      simp only [chat, receiverStep, if_neg hnot, hread, dif_pos hchunk, if_neg Nat.one_ne_zero]
    exact System.not_stuck_of_step (a := .receiver p 1) (by simp [RecvRoom, bufferSize]) hstep h

theorem receiver_ended_of_stuck (hinv : ChatInv c s) (h : (chat c).Stuck RecvRoom s)
    (hclosed : (s p.peer).Closed) : (s p).receiver = .ended := by
  cases hpc : (s p).receiver with
  | recv => exact absurd hclosed (not_closed_of_stuck h hpc)
  | ended => rfl
  | undefined => exact absurd hpc (hinv.receiving p).defined

/-- A side whose parent has ended has called `shutdown` if and only if its input does not
    leave by `exit`. -/
theorem shut_of_ended (hinv : ChatInv c s) (hpc : (s p).sender = .ended) :
    (s p).shut = !leaves (c.typed p) := by
  have hstands := (hinv.sending p).stands
  simp only [Side.Stands, hpc] at hstands
  exact hstands

/-- **How a chat ends.** Every chat whose chunks leave room in the buffers comes to an end.
    Both parents have ended then, and both children if and only if the input of one side
    did not leave by `exit`; otherwise both wait for ever. -/
theorem processes_end_iff (hroom : c.Room) : (chat c).AlwaysEnds RecvRoom fun s =>
    (∀ p, (s p).sender = .ended) ∧ (AllEnded s ↔ ∃ p, leaves (c.typed p) = false) ∧
      (¬AllEnded s → ∀ p, (s p).receiver = .recv) := by
  apply System.alwaysEnds_of_measure work (fun s hs => chatInv_reach hroom hs)
  · exact fun move s s' hok hinv hstep => work_lt hinv hok hstep
  · intro s hinv hstuck
    have hsender := sender_ended_of_stuck hinv hstuck
    have hshut := fun p => shut_of_ended hinv (hsender p)
    by_cases hall : ∀ p, leaves (c.typed p) = true
    · have hopen : ∀ p, (s p).shut = false := by
        intro p
        rw [hshut p, hall p]
        rfl
      have hwaiting := hinv.waiting hopen
      have hnot : ¬AllEnded s := by
        intro hended
        have hclient := (hended .client).2
        rw [hwaiting .client] at hclient
        cases hclient
      refine ⟨hsender, iff_of_false hnot ?_, fun _ => hwaiting⟩
      rintro ⟨p, hp⟩
      rw [hall p] at hp
      cases hp
    · obtain ⟨q, hq⟩ := not_forall.mp hall
      rw [Bool.not_eq_true] at hq
      have hclosed : (s q).Closed := .inl (by rw [hshut q, hq]; rfl)
      have hthere : (s q.peer).receiver = .ended :=
        receiver_ended_of_stuck hinv hstuck (by rwa [Party.peer_peer])
      have hhere : (s q).receiver = .ended :=
        receiver_ended_of_stuck hinv hstuck (.inr ⟨hsender q.peer, hthere⟩)
      have hreceiver : ∀ p, (s p).receiver = .ended := (Party.forall_iff q).mpr ⟨hhere, hthere⟩
      have hended : AllEnded s := fun p => ⟨hsender p, hreceiver p⟩
      exact ⟨hsender, iff_of_true hended ⟨q, hq⟩, fun hnot => absurd hended hnot⟩

/-- Two sides with the documented command lines and zeroed buffers. -/
def setup (typed : Party → List Chunk) : Setup where
  argc
    | .client => 4
    | .server => 3
  typed := typed
  sendBuffer _ := List.replicate bufferSize 0
  recvBuffer _ := List.replicate bufferSize 0
  length_sendBuffer _ := List.length_replicate
  length_recvBuffer _ := List.length_replicate

/-- Both users type `exit`: the parents end, and the children never do. -/
theorem processes_end_iff_bothExit :
    ∃ s, (chat (setup fun _ => [exitChunk])).Reach RecvRoom s ∧
      ∀ p, (s p).sender = .ended ∧ (s p).receiver = .recv := by
  have hroom : (setup fun _ => [exitChunk]).Room := by
    intro p
    cases p <;> decide
  obtain ⟨s, hs, hsender, hended, hwaiting⟩ := (processes_end_iff hroom).exists_final
  have hnot : ¬AllEnded s := by
    rw [hended]
    rintro ⟨p, hp⟩
    cases p <;> exact absurd hp (by decide)
  exact ⟨s, hs, fun p => ⟨hsender p, hwaiting hnot p⟩⟩

/-! ## What is printed -/

/-- What the two sides print, if no zero byte is typed. -/
structure TextsArrive (c : Setup) (s : Party → Side) : Prop where
  /-- Only what the other side has said, in order. -/
  inOrder : ∀ p, text (s p).printed <+: said (c.typed p.peer)
  /-- All of it, once the child has ended. -/
  complete : ∀ p, (s p).receiver = .ended → text (s p).printed = said (c.typed p.peer)
  /-- Nobody sends to a side whose child has ended. -/
  heard : ∀ p bytes, (s p).sender = .send bytes → (s p.peer).receiver = .recv

theorem ChatInv.put_isPrefix (hinv : ChatInv c s) (p : Party) :
    (s p).outgoing.put <+: said (c.typed p) := by
  rw [← (hinv.sending p).flow]
  exact List.prefix_append _ _

theorem said_isPrefix (chunks : List Chunk) : said chunks <+: stream chunks := by
  unfold said upTo
  split
  · exact List.prefix_refl _
  · exact List.take_prefix _ _

/-- **What the two sides read.** In every state of every chat whose chunks leave room in the
    buffers and hold no zero byte. -/
theorem texts_arrive (hroom : c.Room) (h0 : ∀ p, 0 ∉ stream (c.typed p))
    (h : (chat c).Reach RecvRoom s) : TextsArrive c s := by
  have hinv := chatInv_reach hroom h
  have hput : ∀ p, 0 ∉ (s p).outgoing.put := fun p hmem =>
    h0 p (((hinv.put_isPrefix p).trans (said_isPrefix _)).subset hmem)
  have hprinted : ∀ p, text (s p).printed = (s p.peer).outgoing.taken :=
    fun p => (hinv.receiving p).printed (hput p.peer)
  constructor
  · intro p
    rw [hprinted p]
    exact (s p.peer).outgoing.taken_isPrefix.trans (hinv.put_isPrefix p.peer)
  · intro p hended
    obtain ⟨hpc, hitems⟩ := (hinv.receiving p).ended hended
    have hbalanced := (s p.peer).outgoing.balanced
    have hflow := (hinv.sending p.peer).flow
    rw [hitems, List.append_nil] at hbalanced
    simp only [Side.toSend, hpc, List.append_nil] at hflow
    rw [hprinted p, hbalanced, hflow]
  · intro p bytes hpc
    have hthere := hinv.receiving p.peer
    rw [Party.peer_peer] at hthere
    cases hreceiver : (s p.peer).receiver with
    | recv => rfl
    | ended =>
      have hsender := (hthere.ended hreceiver).1
      rw [hpc] at hsender
      cases hsender
    | undefined => exact absurd hreceiver hthere.defined

def hiLine : Chunk := ⟨ascii "hi\n", by decide, by decide⟩

/-- The client says `hi`, and the server's child reads it in two pieces. -/
def hiRun : List Move :=
  [.sender .client, .sender .client, .receiver .server 1, .receiver .server 2]

theorem texts_arrive_hi :
    ∃ s, TextsArrive (setup fun _ => [hiLine]) s ∧ text (s .server).printed = ascii "hi\n" := by
  have hrun : (((chat (setup fun _ => [hiLine])).execIf RecvRoom hiRun
      (chat (setup fun _ => [hiLine])).init).map fun s => text (s .server).printed) =
      some (ascii "hi\n") := by
    decide +kernel
  obtain ⟨s, hs, htext⟩ := Option.map_eq_some_iff.mp hrun
  refine ⟨s, texts_arrive (fun p => ?_) (fun p => ?_) (.of_execIf .init hs), htext⟩
  · cases p <;> decide
  · cases p <;> decide

end ChatOnC.Chat
