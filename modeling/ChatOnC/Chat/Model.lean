import ChatOnC.Common.CString

/-!
# The chat program

One direction of a chat (`stnc.c`): the loop of `main` that sends what is typed on one
side (lines 82–96), and `handle_client`, which prints it on the other side (lines
13–28). What `read` and `recv` return is the input of the two loops; `send` accepts
what it is given as a whole. Both loops end a chunk with a zero byte, and a zero byte
behind the end of the buffer is undefined: `none`.
-/

namespace ChatOnC.Chat

open ChatOnC.Common

/-- `BUFFER_SIZE`. -/
def bufferSize : ℕ := 1024

/-- What `read(STDIN_FILENO, buffer, BUFFER_SIZE)` and `recv(client_sock, buffer,
    BUFFER_SIZE, 0)` return when they return something. -/
structure Chunk where
  bytes : List UInt8
  ne_nil : bytes ≠ []
  length_le : bytes.length ≤ bufferSize

/-- `buffer[i] = '\0'`. -/
def terminate (buffer : List UInt8) (i : ℕ) : Option (List UInt8) :=
  if i < buffer.length then some (buffer.set i 0) else none

/-- The buffer with a chunk and its terminator. -/
def store (buffer : List UInt8) (chunk : Chunk) : Option (List UInt8) :=
  terminate (overwrite buffer 0 chunk.bytes) chunk.bytes.length

/-- What the loop of `main` has given to `send`, and whether it has left the chat. -/
structure Sent where
  chunks : List (List UInt8)
  leaves : Bool

/-- The loop of `main` (lines 82–92). -/
def senderLoop (buffer : List UInt8) : List Chunk → Option Sent
  | [] => some ⟨[], false⟩
  | chunk :: chunks => do
    let buffer ← store buffer chunk
    if cString buffer = ascii "exit\n" then return ⟨[], true⟩
    else
      let rest ← senderLoop buffer chunks
      return ⟨buffer.take chunk.bytes.length :: rest.chunks, rest.leaves⟩

/-- What `handle_client` prints for a chunk: a label and a text. -/
structure Printed where
  label : List UInt8
  text : List UInt8

/-- `handle_client(client_sock, argc)`. -/
def handleClient (argc : ℕ) (buffer : List UInt8) : List Chunk → Option (List Printed)
  | [] => some []
  | chunk :: chunks => do
    let buffer ← store buffer chunk
    let label := if argc = 4 then ascii "server: " else ascii "client: "
    let rest ← handleClient argc buffer chunks
    return ⟨label, cString buffer⟩ :: rest

/-! ## The buffer -/

variable {buffer buffer' : List UInt8} {chunk : Chunk}

/-- There is room for the terminator if and only if the chunk does not fill the
    buffer. -/
theorem store_eq_some_iff (hbuffer : buffer.length = bufferSize) :
    store buffer chunk = some buffer' ↔ chunk.bytes.length < bufferSize ∧
      buffer' = chunk.bytes ++ 0 :: buffer.drop (chunk.bytes.length + 1) := by
  have hle := chunk.length_le
  have hlen : (overwrite buffer 0 chunk.bytes).length = bufferSize := by
    rw [overwrite_zero, List.length_append, List.length_drop]
    omega
  unfold store terminate
  rw [hlen]
  split_ifs with hroom
  · have hset : (overwrite buffer 0 chunk.bytes).set chunk.bytes.length 0 =
        chunk.bytes ++ 0 :: buffer.drop (chunk.bytes.length + 1) := by
      rw [overwrite_zero, List.set_append_right _ _ (Nat.le_refl _), Nat.sub_self,
        List.drop_eq_getElem_cons (by omega), List.set_cons_zero]
    rw [hset]
    simp [hroom, eq_comm]
  · simp [hroom]

/-- What both loops do with a chunk that leaves room. -/
theorem store_of_lt (hbuffer : buffer.length = bufferSize)
    (hroom : chunk.bytes.length < bufferSize) :
    ∃ buffer', store buffer chunk = some buffer' ∧ buffer'.length = bufferSize ∧
      cString buffer' = cString chunk.bytes ∧ buffer'.take chunk.bytes.length = chunk.bytes := by
  refine ⟨_, (store_eq_some_iff hbuffer).mpr ⟨hroom, rfl⟩, ?_, cString_zero_cons _ _,
    List.take_left⟩
  rw [List.length_append, List.length_cons, List.length_drop]
  omega

theorem store_eq_none (hbuffer : buffer.length = bufferSize)
    (hfull : ¬chunk.bytes.length < bufferSize) : store buffer chunk = none := by
  rw [Option.eq_none_iff_forall_ne_some]
  intro buffer' h
  exact hfull ((store_eq_some_iff hbuffer).mp h).1

end ChatOnC.Chat
