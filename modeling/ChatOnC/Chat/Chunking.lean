import ChatOnC.Chat.Arrival
import ChatOnC.Common.Chunks

/-!
# What is typed and how it is read

The loop of `main` compares every chunk that `read` returns with `exit\n`, and a chunk
need not be a line.

* `agree_iff_exitAt`: two ways to cut it lead to the same if and only if they have the first
  `exit\n` that is a chunk at the same place.
* `chunking_iff`: all ways lead to the same if and only if `exit\n` is not typed at all.
-/

namespace ChatOnC.Chat

open ChatOnC.Common

/-- A way in which `read` returns what is typed, and what the buffer held at first. -/
structure Splitting (input : List UInt8) where
  buffer : List UInt8
  chunks : List Chunk
  length_buffer : buffer.length = bufferSize
  room : ∀ chunk ∈ chunks, chunk.bytes.length < bufferSize
  stream_eq : stream chunks = input

/-- The same bytes are sent, and the chat is left or not. -/
def Agree {input : List UInt8} (c c' : Splitting input) : Prop :=
  ∃ sent sent', senderLoop c.buffer c.chunks = some sent ∧
    senderLoop c'.buffer c'.chunks = some sent' ∧
    sent.chunks.flatten = sent'.chunks.flatten ∧ sent.leaves = sent'.leaves

variable {input : List UInt8} {chunks : List Chunk}

/-! ## Two ways to cut the stream -/

theorem exitAt_le {n : ℕ} (h : exitAt chunks = some n) : n ≤ (stream chunks).length := by
  induction chunks generalizing n with
  | nil => simp [exitAt] at h
  | cons chunk chunks ih =>
    rw [exitAt] at h
    split_ifs at h with hexit
    · simp [← Option.some.inj h]
    · obtain ⟨m, hm, rfl⟩ := Option.map_eq_some_iff.mp h
      rw [stream, List.map_cons, List.flatten_cons, List.length_append]
      exact Nat.add_le_add_left (ih hm) _

/-- The stream in front of a place tells the place. -/
theorem upTo_inj {place place' : Option ℕ} (h : ∀ n, place = some n → n ≤ input.length)
    (h' : ∀ n, place' = some n → n ≤ input.length) :
    upTo input place = upTo input place' ∧ place.isSome = place'.isSome ↔ place = place' := by
  constructor
  · rintro ⟨hupTo, hsome⟩
    cases place with
    | none =>
      have hnone : place' = none := by simpa using hsome.symm
      exact hnone.symm
    | some n =>
      obtain ⟨n', rfl⟩ := Option.isSome_iff_exists.mp hsome.symm
      have hlen := congrArg List.length hupTo
      have hn := h n rfl
      have hn' := h' n' rfl
      rw [upTo, upTo, List.length_take, List.length_take] at hlen
      rw [show n = n' by omega]
  · rintro rfl
    exact ⟨rfl, rfl⟩

theorem agree_iff_exitAt (c c' : Splitting input) :
    Agree c c' ↔ exitAt c.chunks = exitAt c'.chunks := by
  obtain ⟨sent, hrun, hsent, hleaves⟩ := senderLoop_exitAt c.length_buffer c.room
  obtain ⟨sent', hrun', hsent', hleaves'⟩ := senderLoop_exitAt c'.length_buffer c'.room
  have hle := fun n (h : exitAt c.chunks = some n) => c.stream_eq ▸ exitAt_le h
  have hle' := fun n (h : exitAt c'.chunks = some n) => c'.stream_eq ▸ exitAt_le h
  rw [c.stream_eq] at hsent
  rw [c'.stream_eq] at hsent'
  rw [← upTo_inj hle hle', ← hsent, ← hsent', ← hleaves, ← hleaves']
  unfold Agree
  simp [hrun, hrun']

/-! ## All ways to cut the stream -/

/-- Every byte a chunk of its own. -/
def byteChunks (input : List UInt8) : List Chunk :=
  input.map fun c => ⟨[c], List.cons_ne_nil c [], Nat.le_add_left 1 1023⟩

theorem stream_byteChunks (input : List UInt8) : stream (byteChunks input) = input := by
  induction input with
  | nil => rfl
  | cons c input ih =>
    rw [byteChunks, List.map_cons, stream, List.map_cons, List.flatten_cons]
    exact congrArg (c :: ·) ih

theorem length_of_mem_byteChunks {chunk : Chunk} (h : chunk ∈ byteChunks input) :
    chunk.bytes.length = 1 := by
  obtain ⟨c, -, rfl⟩ := List.mem_map.mp h
  rfl

/-- No single byte reads `exit\n`. -/
theorem cString_ne_of_mem_byteChunks {chunk : Chunk} (h : chunk ∈ byteChunks input) :
    cString chunk.bytes ≠ ascii "exit\n" := by
  intro hexit
  have hle : (cString chunk.bytes).length ≤ chunk.bytes.length :=
    (List.takeWhile_prefix _).length_le
  rw [hexit, length_of_mem_byteChunks h] at hle
  exact absurd hle (by decide)

/-- A chunk that reads `exit\n` starts with it. -/
theorem exitAt_of_not_isInfix (h : ¬ascii "exit\n" <:+: stream chunks) : exitAt chunks = none := by
  rw [exitAt_eq_none_iff]
  intro chunk hchunk hexit
  have hchars : cString chunk.bytes <+: chunk.bytes := List.takeWhile_prefix _
  have hpart : chunk.bytes <:+: stream chunks :=
    isInfix_flatten_of_mem (List.mem_map_of_mem hchunk)
  exact h (hexit ▸ hchars.isInfix.trans hpart)

theorem room_byteChunks : ∀ chunk ∈ byteChunks input, chunk.bytes.length < bufferSize := by
  intro chunk hchunk
  rw [length_of_mem_byteChunks hchunk]
  decide

theorem stream_append (chunks chunks' : List Chunk) :
    stream (chunks ++ chunks') = stream chunks ++ stream chunks' := by
  simp [stream]

/-- These chunks, read into a buffer of zeros. -/
def splitting (chunks : List Chunk) (hroom : ∀ chunk ∈ chunks, chunk.bytes.length < bufferSize)
    (hstream : stream chunks = input) : Splitting input where
  buffer := List.replicate bufferSize 0
  chunks := chunks
  length_buffer := List.length_replicate
  room := hroom
  stream_eq := hstream

/-- `exit\n` in one chunk. -/
def exitChunk : Chunk := ⟨ascii "exit\n", by decide, by decide⟩

/-- Where `exit\n` is typed, it can be read in one chunk or byte by byte. -/
theorem exists_not_agree (h : ascii "exit\n" <:+: input) :
    ∃ c c' : Splitting input, ¬Agree c c' := by
  obtain ⟨before, behind, rfl⟩ := h
  let line := byteChunks before ++ (exitChunk :: byteChunks behind)
  have hroom : ∀ chunk ∈ line, chunk.bytes.length < bufferSize := by
    simp only [line, List.forall_mem_append, List.forall_mem_cons]
    exact ⟨room_byteChunks, by decide, room_byteChunks⟩
  have hstream : stream line = before ++ ascii "exit\n" ++ behind := by
    rw [stream_append, stream_byteChunks, List.append_assoc, ← List.singleton_append,
      stream_append, stream_byteChunks]
    rfl
  refine ⟨splitting line hroom hstream, splitting _ room_byteChunks (stream_byteChunks _), ?_⟩
  rw [agree_iff_exitAt]
  intro heq
  have hnone : exitAt line = none :=
    heq.trans (exitAt_eq_none_iff.mpr fun chunk => cString_ne_of_mem_byteChunks)
  exact exitAt_eq_none_iff.mp hnone exitChunk (by simp [line]) (by decide)

/-- **Chunking.** Two ways to cut what is typed lead to the same if and only if they have
    the first `exit\n` that is a chunk at the same place, and all ways lead to the same if
    and only if `exit\n` is nowhere in it. -/
theorem chunking_iff (input : List UInt8) :
    (∀ c c' : Splitting input, Agree c c' ↔ exitAt c.chunks = exitAt c'.chunks) ∧
      ((∀ c c' : Splitting input, Agree c c') ↔ ¬ascii "exit\n" <:+: input) := by
  refine ⟨agree_iff_exitAt, fun hall hinfix => ?_, fun hinfix c c' => ?_⟩
  · obtain ⟨c, c', hnot⟩ := exists_not_agree hinfix
    exact hnot (hall c c')
  · have hnone (c : Splitting input) : exitAt c.chunks = none :=
      exitAt_of_not_isInfix (c.stream_eq.symm ▸ hinfix)
    rw [agree_iff_exitAt, hnone c, hnone c']

/-- Two lines in one chunk and in two. -/
theorem pasted_exit : ¬∀ (input : List UInt8) (c c' : Splitting input), Agree c c' := by
  intro hall
  let hi : Chunk := ⟨ascii "hi\n", by decide, by decide⟩
  let both : Chunk := ⟨ascii "hi\nexit\n", by decide, by decide⟩
  let pasted : Splitting both.bytes := splitting [both] (by decide) (by decide)
  let typed : Splitting both.bytes := splitting [hi, exitChunk] (by decide) (by decide)
  have heq : exitAt [both] = exitAt [hi, exitChunk] :=
    (agree_iff_exitAt pasted typed).mp (hall _ _ _)
  exact absurd heq (by decide)

end ChatOnC.Chat
