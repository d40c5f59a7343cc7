import ChatOnC.Chat.Model

/-!
# Chat text arrives as typed

The loop of `main` and `handle_client` on the other side, where `recv` cuts what was
sent into chunks of its own.

* `senderLoop_exitAt`, `handleClient_eq`: the loops on chunks that leave room in the
  buffer.
* `senderLoop_of_eq_some`, `handleClient_of_eq_some`: what is known of a loop that has
  stayed within its buffer.
* `arrives_iff`: when both loops stay within their buffers and what is printed is what
  was typed.
* `overrun_fullChunk`: one chunk that fills the buffer.
-/

namespace ChatOnC.Chat

open ChatOnC.Common

/-- The stream that is cut into these chunks. -/
def stream (chunks : List Chunk) : List UInt8 := (chunks.map Chunk.bytes).flatten

/-- What is printed, without the labels. -/
def text (printed : List Printed) : List UInt8 := (printed.map Printed.text).flatten

/-- Where in the stream the first chunk begins that reads `exit\n`. -/
def exitAt : List Chunk → Option ℕ
  | [] => none
  | chunk :: chunks =>
    if cString chunk.bytes = ascii "exit\n" then some 0
    else (exitAt chunks).map (chunk.bytes.length + ·)

/-- The stream in front of this place. -/
def upTo (input : List UInt8) : Option ℕ → List UInt8
  | none => input
  | some n => input.take n

/-- One direction of a chat: the chunks on both sides, and what the two buffers held at
    first. -/
structure Direction where
  argc : ℕ
  sendBuffer : List UInt8
  recvBuffer : List UInt8
  reads : List Chunk
  recvs : List Chunk
  length_sendBuffer : sendBuffer.length = bufferSize
  length_recvBuffer : recvBuffer.length = bufferSize
  /-- `recv` gives what was sent. Of a sender that has left its buffer nothing is known. -/
  delivered : ∀ sent, senderLoop sendBuffer reads = some sent →
    stream recvs = sent.chunks.flatten

/-- Both loops stay within their buffers, and what is printed is what was typed. -/
def Direction.Arrives (d : Direction) : Prop :=
  ∃ sent printed, senderLoop d.sendBuffer d.reads = some sent ∧
    handleClient d.argc d.recvBuffer d.recvs = some printed ∧ text printed = stream d.reads

variable {buffer : List UInt8} {chunks : List Chunk} {argc : ℕ}

theorem mem_stream {chunk : Chunk} (hchunk : chunk ∈ chunks) {c : UInt8} (hc : c ∈ chunk.bytes) :
    c ∈ stream chunks :=
  List.mem_flatten_of_mem (List.mem_map_of_mem hchunk) hc

/-! ## The sending side -/

theorem exitAt_eq_none_iff :
    exitAt chunks = none ↔ ∀ chunk ∈ chunks, cString chunk.bytes ≠ ascii "exit\n" := by
  induction chunks with
  | nil => simp [exitAt]
  | cons chunk chunks ih =>
    by_cases hexit : cString chunk.bytes = ascii "exit\n"
    · simp [exitAt, hexit]
    · simp [exitAt, hexit, ih]

theorem append_upTo (xs ys : List UInt8) (place : Option ℕ) :
    xs ++ upTo ys place = upTo (xs ++ ys) (place.map (xs.length + ·)) := by
  cases place with
  | none => rfl
  | some n => simp [upTo, List.take_length_add_append]

/-- The loop sends what is in front of the first chunk that reads `exit\n`. -/
theorem senderLoop_exitAt (hbuffer : buffer.length = bufferSize)
    (hroom : ∀ chunk ∈ chunks, chunk.bytes.length < bufferSize) :
    ∃ sent, senderLoop buffer chunks = some sent ∧
      sent.chunks.flatten = upTo (stream chunks) (exitAt chunks) ∧
      sent.leaves = (exitAt chunks).isSome := by
  induction chunks generalizing buffer with
  | nil => exact ⟨_, rfl, rfl, rfl⟩
  | cons chunk chunks ih =>
    rw [List.forall_mem_cons] at hroom
    obtain ⟨buffer', hstore, hlen, hstring, htake⟩ := store_of_lt hbuffer hroom.1
    by_cases hexit : cString chunk.bytes = ascii "exit\n"
    · have hleave : cString buffer' = ascii "exit\n" := hstring.trans hexit
      refine ⟨⟨[], true⟩, ?_, ?_, ?_⟩
      · simp only [senderLoop, hstore, Option.bind_eq_bind, Option.bind_some, if_pos hleave]
        rfl
      · rw [exitAt, if_pos hexit, upTo, List.take_zero, List.flatten_nil]
      · rw [exitAt, if_pos hexit, Option.isSome_some]
    · have hgo : cString buffer' ≠ ascii "exit\n" := hstring ▸ hexit
      obtain ⟨rest, hrest, hsent, hleaves⟩ := ih hlen hroom.2
      refine ⟨⟨chunk.bytes :: rest.chunks, rest.leaves⟩, ?_, ?_, ?_⟩
      · simp only [senderLoop, hstore, Option.bind_eq_bind, Option.bind_some, if_neg hgo, hrest,
          htake]
        rfl
      · rw [List.flatten_cons, hsent, append_upTo, exitAt, if_neg hexit]
        rfl
      · rw [exitAt, if_neg hexit, Option.isSome_map, hleaves]

/-- Without such a chunk the loop sends everything. -/
theorem senderLoop_eq (hbuffer : buffer.length = bufferSize)
    (hroom : ∀ chunk ∈ chunks, chunk.bytes.length < bufferSize)
    (hexit : ∀ chunk ∈ chunks, cString chunk.bytes ≠ ascii "exit\n") :
    ∃ sent, senderLoop buffer chunks = some sent ∧ sent.chunks.flatten = stream chunks := by
  obtain ⟨sent, hsent, hflatten, -⟩ := senderLoop_exitAt hbuffer hroom
  rw [exitAt_eq_none_iff.mpr hexit, upTo] at hflatten
  exact ⟨sent, hsent, hflatten⟩

/-- A sender that has stayed within its buffer has left the chat on a chunk that reads
    `exit\n`, or all chunks have left room. -/
theorem senderLoop_of_eq_some {sent : Sent} (hbuffer : buffer.length = bufferSize)
    (h : senderLoop buffer chunks = some sent) :
    (∃ chunk ∈ chunks, cString chunk.bytes = ascii "exit\n") ∨
      ∀ chunk ∈ chunks, chunk.bytes.length < bufferSize := by
  induction chunks generalizing buffer sent with
  | nil => exact .inr nofun
  | cons chunk chunks ih =>
    by_cases hroom : chunk.bytes.length < bufferSize
    · obtain ⟨buffer', hstore, hlen, hstring, htake⟩ := store_of_lt hbuffer hroom
      by_cases hexit : cString chunk.bytes = ascii "exit\n"
      · exact .inl ⟨chunk, List.mem_cons_self, hexit⟩
      · have hgo : cString buffer' ≠ ascii "exit\n" := hstring ▸ hexit
        simp only [senderLoop, hstore, Option.bind_eq_bind, Option.bind_some, if_neg hgo] at h
        obtain ⟨rest, hrest, -⟩ := Option.bind_eq_some_iff.mp h
        rcases ih hlen hrest with ⟨c, hc, hleaves⟩ | hall
        · exact .inl ⟨c, List.mem_cons_of_mem _ hc, hleaves⟩
        · exact .inr (List.forall_mem_cons.mpr ⟨hroom, hall⟩)
    · simp only [senderLoop, store_eq_none hbuffer hroom] at h
      cases h

/-! ## The receiving side -/

theorem handleClient_eq (hbuffer : buffer.length = bufferSize)
    (hroom : ∀ chunk ∈ chunks, chunk.bytes.length < bufferSize) :
    ∃ printed, handleClient argc buffer chunks = some printed ∧
      text printed = (chunks.map fun chunk => cString chunk.bytes).flatten := by
  induction chunks generalizing buffer with
  | nil => exact ⟨[], rfl, rfl⟩
  | cons chunk chunks ih =>
    rw [List.forall_mem_cons] at hroom
    obtain ⟨buffer', hstore, hlen, hstring, htake⟩ := store_of_lt hbuffer hroom.1
    obtain ⟨rest, hrest, htext⟩ := ih hlen hroom.2
    refine ⟨⟨if argc = 4 then ascii "server: " else ascii "client: ", cString buffer'⟩ :: rest,
      ?_, ?_⟩
    · simp only [handleClient, hstore, hrest, Option.bind_eq_bind, Option.bind_some]
      rfl
    · rw [text, List.map_cons, List.flatten_cons, List.map_cons, List.flatten_cons, ← htext,
        hstring]
      rfl

theorem handleClient_of_eq_some {printed : List Printed} (hbuffer : buffer.length = bufferSize)
    (h : handleClient argc buffer chunks = some printed) :
    (∀ chunk ∈ chunks, chunk.bytes.length < bufferSize) ∧ 0 ∉ text printed := by
  induction chunks generalizing buffer printed with
  | nil =>
    cases h
    exact ⟨nofun, List.not_mem_nil⟩
  | cons chunk chunks ih =>
    by_cases hroom : chunk.bytes.length < bufferSize
    · obtain ⟨buffer', hstore, hlen, hstring, htake⟩ := store_of_lt hbuffer hroom
      simp only [handleClient, hstore, Option.bind_eq_bind, Option.bind_some] at h
      obtain ⟨rest, hrest, heq⟩ := Option.bind_eq_some_iff.mp h
      cases heq
      obtain ⟨hall, hzero⟩ := ih hlen hrest
      refine ⟨List.forall_mem_cons.mpr ⟨hroom, hall⟩, ?_⟩
      rw [text, List.map_cons, List.flatten_cons, List.mem_append, not_or]
      exact ⟨zero_notMem_cString buffer', hzero⟩
    · simp only [handleClient, store_eq_none hbuffer hroom] at h
      cases h

/-! ## Both sides -/

theorem stream_eq_of_zero_notMem (h : 0 ∉ stream chunks) :
    (chunks.map fun chunk => cString chunk.bytes).flatten = stream chunks := by
  have hstring : ∀ chunk ∈ chunks, cString chunk.bytes = chunk.bytes := by
    intro chunk hchunk
    exact cString_of_zero_notMem fun hzero => h (mem_stream hchunk hzero)
  rw [stream, List.map_congr_left hstring]

/-- **Chat.** If no chunk typed is `exit\n`, both loops stay within their buffers and what
    is printed is what was typed if and only if no chunk fills a buffer and no zero byte
    was typed. -/
theorem arrives_iff (d : Direction) (hexit : ∀ chunk ∈ d.reads, chunk.bytes ≠ ascii "exit\n") :
    d.Arrives ↔ (∀ chunk ∈ d.reads, chunk.bytes.length < bufferSize) ∧
      (∀ chunk ∈ d.recvs, chunk.bytes.length < bufferSize) ∧ 0 ∉ stream d.reads := by
  constructor
  · rintro ⟨sent, printed, hsent, hprinted, htext⟩
    obtain ⟨hrecvs, hzero⟩ := handleClient_of_eq_some d.length_recvBuffer hprinted
    rw [htext] at hzero
    refine ⟨?_, hrecvs, hzero⟩
    rcases senderLoop_of_eq_some d.length_sendBuffer hsent with ⟨chunk, hchunk, hleaves⟩ | hreads
    · have hall : cString chunk.bytes = chunk.bytes :=
        cString_of_zero_notMem fun h => hzero (mem_stream hchunk h)
      exact absurd (hall.symm.trans hleaves) (hexit chunk hchunk)
    · exact hreads
  · rintro ⟨hreads, hrecvs, hzero⟩
    have hgo : ∀ chunk ∈ d.reads, cString chunk.bytes ≠ ascii "exit\n" := by
      intro chunk hchunk
      rw [cString_of_zero_notMem fun h => hzero (mem_stream hchunk h)]
      exact hexit chunk hchunk
    obtain ⟨sent, hsent, hall⟩ := senderLoop_eq d.length_sendBuffer hreads hgo
    have hstream : stream d.recvs = stream d.reads := (d.delivered sent hsent).trans hall
    obtain ⟨printed, hprinted, htext⟩ := handleClient_eq d.length_recvBuffer hrecvs
    refine ⟨sent, printed, hsent, hprinted, ?_⟩
    rw [htext, stream_eq_of_zero_notMem (hstream ▸ hzero), hstream]

theorem arrives_iff_hi : ∃ d : Direction, d.reads.map Chunk.bytes = [ascii "hi\n"] ∧
    d.recvs.map Chunk.bytes = [ascii "h", ascii "i\n"] ∧ d.Arrives := by
  let reads : List Chunk := [⟨ascii "hi\n", by decide, by decide⟩]
  let recvs : List Chunk :=
    [⟨ascii "h", by decide, by decide⟩, ⟨ascii "i\n", by decide, by decide⟩]
  have hexit : ∀ chunk ∈ reads, chunk.bytes ≠ ascii "exit\n" := by decide
  have hreads : ∀ chunk ∈ reads, chunk.bytes.length < bufferSize := by decide
  have hrecvs : ∀ chunk ∈ recvs, chunk.bytes.length < bufferSize := by decide
  have hzero : 0 ∉ stream reads := by decide
  have hbuffer : (List.replicate bufferSize (0 : UInt8)).length = bufferSize :=
    List.length_replicate
  obtain ⟨sent, hsent, hall⟩ := senderLoop_eq hbuffer hreads (by decide)
  let d : Direction :=
    { argc := 3
      sendBuffer := List.replicate bufferSize 0
      recvBuffer := List.replicate bufferSize 0
      reads := reads
      recvs := recvs
      length_sendBuffer := hbuffer
      length_recvBuffer := hbuffer
      delivered := fun sent' h => by
        obtain rfl : sent = sent' := Option.some.inj (hsent.symm.trans h)
        rw [hall]
        decide }
  exact ⟨d, rfl, rfl, (arrives_iff d hexit).mpr ⟨hreads, hrecvs, hzero⟩⟩

/-- A chunk of `BUFFER_SIZE` letters: its terminator is behind the end of the buffer. -/
theorem overrun_fullChunk : ¬∀ d : Direction,
    (∀ chunk ∈ d.reads, chunk.bytes ≠ ascii "exit\n") → d.Arrives := by
  intro hall
  have hlen : (List.replicate bufferSize (97 : UInt8)).length = bufferSize :=
    List.length_replicate
  let full : Chunk := ⟨List.replicate bufferSize 97, List.cons_ne_nil _ _, hlen.le⟩
  have hexit : ∀ chunk ∈ [full], chunk.bytes ≠ ascii "exit\n" := by
    rw [List.forall_mem_singleton]
    intro h
    exact absurd (hlen.symm.trans (congrArg List.length h)) (by decide)
  have hnone : senderLoop (List.replicate bufferSize 0) [full] = none := by
    rw [senderLoop, store_eq_none List.length_replicate (hlen ▸ Nat.lt_irrefl _)]
    rfl
  let d : Direction :=
    { argc := 3
      sendBuffer := List.replicate bufferSize 0
      recvBuffer := List.replicate bufferSize 0
      reads := [full]
      recvs := [full]
      length_sendBuffer := List.length_replicate
      length_recvBuffer := List.length_replicate
      delivered := fun sent h => by
        rw [hnone] at h
        cases h }
  obtain ⟨sent, printed, hsent, -, -⟩ := hall d hexit
  cases hnone.symm.trans hsent

end ChatOnC.Chat
