import ChatOnC.Common.CString
import ChatOnC.Common.Loop

/-!
# The loop that receives a digest (`partb.c`)

Model of the loop of `ipv6_tcp` that collects the server's reply (lines 404–417) on
whatever `recv` returns. `recv` may fill its own buffer, which is larger than the digest,
and what it returns at the end of the stream is no failure to the loop.

* `complete_iff`, `recvFailed_iff`, `outOfBounds_iff`: the three ways in which the loop
  ends.
* `not_ends_iff`: the loop runs forever when the peer closes before the whole digest.
* `digestLoop_iff`: for which replies every copy is inside `checksum` and the loop ends.
* `reply_unbounded`: a reply that is a byte too long, and none.
-/

namespace ChatOnC.PartB

open ChatOnC.Common

/-- `BUFFER_SIZE`. -/
def bufferSize : ℕ := 1024

/-- `SHA256_DIGEST_LENGTH`. -/
def digestLength : ℕ := 32

/-- `unsigned char checksum[SHA256_DIGEST_LENGTH]`. -/
abbrev Digest := { bytes : List UInt8 // bytes.length = digestLength }

/-- What the calls of `recv(sockfd, recv_buffer, BUFFER_SIZE, 0)` return: `none` for `-1`,
    and nothing at the end of the stream and ever after. -/
structure Replies where
  recv : ℕ → Option (List UInt8)
  length_le : ∀ n bytes, recv n = some bytes → bytes.length ≤ bufferSize
  closed : ∀ n, recv n = some [] → recv (n + 1) = some []

/-- `memcpy(checksum + offset, src, n)` for the `n` bytes of `src`; `none` if they are not
    all inside. -/
def memcpy (checksum : Digest) (offset : ℕ) (src : List UInt8) : Option Digest :=
  if h : offset + src.length ≤ digestLength then
    some ⟨overwrite checksum.val offset src,
      (length_overwrite (checksum.property.symm ▸ h)).trans checksum.property⟩
  else none

/-- The variables of the loop, and the number of calls of `recv` so far. -/
structure DigestLoop where
  calls : ℕ
  checksum : Digest
  receivedBytes : ℕ

/-- How the loop is left: at its test, with `return` after a `recv` that failed, or with a
    copy that is not inside `checksum`. -/
inductive DigestEnd
  | complete (checksum : Digest)
  | recvFailed
  | outOfBounds

/-- One round of the loop (lines 406–417). -/
def digestRound (recv : ℕ → Option (List UInt8)) (s : DigestLoop) : DigestLoop ⊕ DigestEnd :=
  if s.receivedBytes < digestLength then
    match recv s.calls with
    | none => .inr .recvFailed
    | some bytes =>
      match memcpy s.checksum s.receivedBytes bytes with
      | none => .inr .outOfBounds
      | some checksum => .inl ⟨s.calls + 1, checksum, s.receivedBytes + bytes.length⟩
  else .inr (.complete s.checksum)

/-- `received_bytes = 0`. -/
def digestStart (checksum : Digest) : DigestLoop where
  calls := 0
  checksum := checksum
  receivedBytes := 0

/-- What the first calls of `recv` have given, if none of them has failed. -/
def received (recv : ℕ → Option (List UInt8)) : ℕ → Option (List UInt8)
  | 0 => some []
  | n + 1 => do
    let bytes ← received recv n
    let chunk ← recv n
    return bytes ++ chunk

/-- Every copy is inside `checksum`, and the loop ends. -/
def Bounded (replies : Replies) (checksum : Digest) : Prop :=
  ∃ e, LoopEnds (digestRound replies.recv) (digestStart checksum) e ∧ e ≠ .outOfBounds

variable {recv : ℕ → Option (List UInt8)} {s s' : DigestLoop} {n : ℕ}
  {bytes chunk : List UInt8} {checksum checksum' : Digest}

/-! ## One round -/

theorem round_done (h : ¬s.receivedBytes < digestLength) :
    digestRound recv s = .inr (.complete s.checksum) := by
  simp [digestRound, h]

theorem round_failed (h : s.receivedBytes < digestLength) (hrecv : recv s.calls = none) :
    digestRound recv s = .inr .recvFailed := by
  simp [digestRound, h, hrecv]

theorem round_overrun (h : s.receivedBytes < digestLength) (hrecv : recv s.calls = some chunk)
    (hlt : digestLength < s.receivedBytes + chunk.length) :
    digestRound recv s = .inr .outOfBounds := by
  simp [digestRound, memcpy, h, hrecv, Nat.not_le.mpr hlt]

theorem round_copied (h : s.receivedBytes < digestLength) (hrecv : recv s.calls = some chunk)
    (hle : s.receivedBytes + chunk.length ≤ digestLength) :
    ∃ checksum, digestRound recv s =
        .inl ⟨s.calls + 1, checksum, s.receivedBytes + chunk.length⟩ ∧
      checksum.val.take (s.receivedBytes + chunk.length) =
        s.checksum.val.take s.receivedBytes ++ chunk := by
  refine ⟨⟨overwrite s.checksum.val s.receivedBytes chunk, ?_⟩, ?_, ?_⟩
  · rw [length_overwrite (s.checksum.property.symm ▸ hle), s.checksum.property]
  · simp [digestRound, memcpy, h, hrecv, hle]
  · exact take_overwrite (s.checksum.property.symm ▸ h.le) chunk

/-- What a round does. -/
inductive DigestMove (recv : ℕ → Option (List UInt8)) (s : DigestLoop) :
    DigestLoop ⊕ DigestEnd → Prop
  | done (h : ¬s.receivedBytes < digestLength) : DigestMove recv s (.inr (.complete s.checksum))
  | failed (h : s.receivedBytes < digestLength) (hrecv : recv s.calls = none) :
    DigestMove recv s (.inr .recvFailed)
  | overrun (chunk : List UInt8) (h : s.receivedBytes < digestLength)
    (hrecv : recv s.calls = some chunk)
    (hlt : digestLength < s.receivedBytes + chunk.length) : DigestMove recv s (.inr .outOfBounds)
  | copied (chunk : List UInt8) (checksum : Digest) (h : s.receivedBytes < digestLength)
    (hrecv : recv s.calls = some chunk) (hle : s.receivedBytes + chunk.length ≤ digestLength)
    (hcopy : checksum.val.take (s.receivedBytes + chunk.length) =
      s.checksum.val.take s.receivedBytes ++ chunk) :
    DigestMove recv s (.inl ⟨s.calls + 1, checksum, s.receivedBytes + chunk.length⟩)

theorem digestRound_move (recv : ℕ → Option (List UInt8)) (s : DigestLoop) :
    DigestMove recv s (digestRound recv s) := by
  by_cases h : s.receivedBytes < digestLength
  · cases hrecv : recv s.calls with
    | none => exact round_failed h hrecv ▸ .failed h hrecv
    | some chunk =>
      by_cases hle : s.receivedBytes + chunk.length ≤ digestLength
      · obtain ⟨checksum, hround, hcopy⟩ := round_copied h hrecv hle
        exact hround ▸ .copied chunk checksum h hrecv hle hcopy
      · have hlt := Nat.not_le.mp hle
        exact round_overrun h hrecv hlt ▸ .overrun chunk h hrecv hlt
  · exact round_done h ▸ .done h

/-! ## What has been received -/

theorem received_succ_eq_some_iff : received recv (n + 1) = some bytes ↔
    ∃ front chunk, received recv n = some front ∧ recv n = some chunk ∧
      bytes = front ++ chunk := by
  simp only [received, Option.bind_eq_bind, Option.bind_eq_some_iff, Option.pure_def,
    Option.some.injEq]
  simp [eq_comm]

/-- The invariant: the front of `checksum` is what `recv` has given. -/
structure Collected (recv : ℕ → Option (List UInt8)) (s : DigestLoop) : Prop where
  received : received recv s.calls = some (s.checksum.val.take s.receivedBytes)
  le : s.receivedBytes ≤ digestLength

theorem Collected.length (h : Collected recv s) :
    (s.checksum.val.take s.receivedBytes).length = s.receivedBytes := by
  rw [List.length_take, s.checksum.property, Nat.min_eq_left h.le]

theorem Collected.start (checksum : Digest) : Collected recv (digestStart checksum) where
  received := by rfl
  le := Nat.zero_le _

theorem Collected.again (h : Collected recv s) (hround : digestRound recv s = .inl s') :
    Collected recv s' := by
  have hmove := hround ▸ digestRound_move recv s
  cases hmove with
  | copied chunk checksum _ hrecv hle hcopy =>
    refine ⟨received_succ_eq_some_iff.mpr ⟨_, chunk, h.received, hrecv, ?_⟩, hle⟩
    exact hcopy

theorem collected_of_heads (h : Heads (digestRound recv) (digestStart checksum) s) :
    Collected recv s :=
  h.invariant (Collected recv) (fun _ _ => Collected.again) (.start checksum)

/-- The loop comes as far as the calls of `recv` give no more than the digest, unless it
    has been full before. -/
theorem exists_head (checksum : Digest) (h : received recv n = some bytes)
    (hle : bytes.length ≤ digestLength) :
    ∃ s, Heads (digestRound recv) (digestStart checksum) s ∧
      s.checksum.val.take s.receivedBytes <+: bytes ∧
      (s.calls = n ∧ s.receivedBytes = bytes.length ∨ s.receivedBytes = digestLength) := by
  induction n generalizing bytes with
  | zero =>
    obtain rfl : [] = bytes := by simpa [received] using h
    exact ⟨_, .start, List.prefix_refl _, .inl ⟨rfl, rfl⟩⟩
  | succ n ih =>
    obtain ⟨front, chunk, hreceived, hrecv, rfl⟩ := received_succ_eq_some_iff.mp h
    rw [List.length_append] at hle
    obtain ⟨s, hs, hfront, ⟨hcalls, hlen⟩ | hfull⟩ := ih hreceived (by omega)
    · -- the test may end the loop in front of this call, when the rest of the calls are empty
      by_cases hlt : s.receivedBytes < digestLength
      · have hroom : s.receivedBytes + chunk.length ≤ digestLength := by omega
        obtain ⟨checksum', hround, hcopy⟩ := round_copied hlt (hcalls ▸ hrecv) hroom
        refine ⟨_, hs.again hround, ?_, .inl ⟨congrArg (· + 1) hcalls, ?_⟩⟩
        · have heq := hfront.eq_of_length ((collected_of_heads hs).length.trans hlen)
          exact ⟨[], by rw [List.append_nil, hcopy, heq]⟩
        · rw [List.length_append, hlen]
      · have hfull : s.receivedBytes = digestLength := by omega
        exact ⟨s, hs, hfront.trans (List.prefix_append front chunk), .inr hfull⟩
    · exact ⟨s, hs, hfront.trans (List.prefix_append front chunk), .inr hfull⟩

/-- The loop comes to every call of `recv` in front of which something is missing. -/
theorem exists_head_of_lt (checksum : Digest) (h : received recv n = some bytes)
    (hlt : bytes.length < digestLength) :
    ∃ s, Heads (digestRound recv) (digestStart checksum) s ∧ s.calls = n ∧
      s.receivedBytes = bytes.length := by
  obtain ⟨s, hs, hfront, ⟨hcalls, hlen⟩ | hfull⟩ := exists_head checksum h hlt.le
  · exact ⟨s, hs, hcalls, hlen⟩
  · have hle := hfront.length_le
    rw [(collected_of_heads hs).length, hfull] at hle
    exact absurd hlt (Nat.not_lt.mpr hle)

/-! ## How the loop ends -/

theorem exists_last {e : DigestEnd}
    (h : LoopEnds (digestRound recv) (digestStart checksum) e) :
    ∃ s, Collected recv s ∧ DigestMove recv s (.inr e) := by
  obtain ⟨s, hs, hround⟩ := loopEnds_iff_heads.mp h
  exact ⟨s, collected_of_heads hs, hround ▸ digestRound_move recv s⟩

/-- The digest that is left is the reply. -/
theorem complete_iff :
    LoopEnds (digestRound recv) (digestStart checksum) (.complete checksum') ↔
      ∃ n, received recv n = some checksum'.val := by
  constructor
  · intro hends
    obtain ⟨s, hcollected, hmove⟩ := exists_last hends
    cases hmove with
    | done h =>
      refine ⟨s.calls, hcollected.received.trans ?_⟩
      rw [List.take_of_length_le (s.checksum.property.trans_le (Nat.not_lt.mp h))]
  · rintro ⟨n, h⟩
    obtain ⟨s, hs, hfront, hend⟩ := exists_head checksum h checksum'.property.le
    have hfull : s.receivedBytes = digestLength :=
      hend.elim (fun h => h.2.trans checksum'.property) id
    rw [hfull, List.take_of_length_le s.checksum.property.le] at hfront
    have heq : s.checksum = checksum' := Subtype.ext
      (hfront.eq_of_length (s.checksum.property.trans checksum'.property.symm))
    exact loopEnds_iff_heads.mpr ⟨s, hs, heq ▸ round_done (hfull ▸ Nat.lt_irrefl _)⟩

theorem recvFailed_iff :
    LoopEnds (digestRound recv) (digestStart checksum) .recvFailed ↔
      ∃ n bytes, received recv n = some bytes ∧ bytes.length < digestLength ∧
        recv n = none := by
  constructor
  · intro hends
    obtain ⟨s, hcollected, hmove⟩ := exists_last hends
    cases hmove with
    | failed h hrecv =>
      exact ⟨s.calls, _, hcollected.received, hcollected.length.trans_lt h, hrecv⟩
  · rintro ⟨n, bytes, h, hlt, hrecv⟩
    obtain ⟨s, hs, rfl, hlen⟩ := exists_head_of_lt checksum h hlt
    exact loopEnds_iff_heads.mpr ⟨s, hs, round_failed (hlen.trans_lt hlt) hrecv⟩

theorem outOfBounds_iff :
    LoopEnds (digestRound recv) (digestStart checksum) .outOfBounds ↔
      ∃ n bytes chunk, received recv n = some bytes ∧ bytes.length < digestLength ∧
        recv n = some chunk ∧ digestLength < bytes.length + chunk.length := by
  constructor
  · intro hends
    obtain ⟨s, hcollected, hmove⟩ := exists_last hends
    cases hmove with
    | overrun chunk h hrecv hlt =>
      have hlen := hcollected.length
      exact ⟨s.calls, _, chunk, hcollected.received, by omega, hrecv, by omega⟩
  · rintro ⟨n, bytes, chunk, h, hlt, hrecv, hover⟩
    obtain ⟨s, hs, rfl, hlen⟩ := exists_head_of_lt checksum h hlt
    have hround := round_overrun (hlen.trans_lt hlt) hrecv (hlen ▸ hover)
    exact loopEnds_iff_heads.mpr ⟨s, hs, hround⟩

/-- The peer has closed before the whole digest: `recv` returns nothing again and again. -/
theorem not_ends_of_closed (replies : Replies) (h : s.receivedBytes < digestLength)
    (hclosed : replies.recv s.calls = some []) {e : DigestEnd} :
    ¬LoopEnds (digestRound replies.recv) s e := by
  apply not_loopEnds_of_invariant
    fun s => s.receivedBytes < digestLength ∧ replies.recv s.calls = some []
  · rintro s ⟨hlt, hrecv⟩
    obtain ⟨checksum, hround, -⟩ := round_copied hlt hrecv hlt.le
    exact ⟨_, hround, hlt, replies.closed _ hrecv⟩
  · exact ⟨h, hclosed⟩

/-- The loop runs forever if and only if the peer closes before the whole digest. -/
theorem not_ends_iff (replies : Replies) (checksum : Digest) :
    (¬∃ e, LoopEnds (digestRound replies.recv) (digestStart checksum) e) ↔
      ∃ n bytes, received replies.recv n = some bytes ∧ bytes.length < digestLength ∧
        replies.recv n = some [] := by
  constructor
  · intro hnot
    by_contra hopen
    have hends : ∃ e, LoopEnds (digestRound replies.recv) (digestStart checksum) e ∧ True := by
      apply loopEnds_of_variant (Collected replies.recv)
        (fun s => digestLength - s.receivedBytes) _ (.start checksum)
      intro s hcollected
      have hmove := digestRound_move replies.recv s
      cases hround : digestRound replies.recv s with
      | inr e => exact .inr ⟨e, rfl, trivial⟩
      | inl s' =>
        refine .inl ⟨s', rfl, hcollected.again hround, ?_⟩
        rw [hround] at hmove
        cases hmove with
        | copied chunk checksum' hlt hrecv hle hcopy =>
          have hpos : chunk ≠ [] := by
            rintro rfl
            exact hopen ⟨s.calls, _, hcollected.received, hcollected.length.trans_lt hlt, hrecv⟩
          have hlen := List.length_pos_iff.mpr hpos
          dsimp only
          omega
    exact hnot (hends.imp fun _ h => h.1)
  · rintro ⟨n, bytes, h, hlt, hclosed⟩ ⟨e, hends⟩
    obtain ⟨s, hs, rfl, hlen⟩ := exists_head_of_lt checksum h hlt
    exact not_ends_of_closed replies (hlen.trans_lt hlt) hclosed (hs.loopEnds_iff.mp hends)

/-- **The loop.** Every copy is inside `checksum` and the loop ends if and only if the first
    chunks of the reply are exactly a digest, or `recv` fails behind less than a digest. -/
theorem digestLoop_iff (replies : Replies) (checksum : Digest) :
    Bounded replies checksum ↔ ∃ n bytes, received replies.recv n = some bytes ∧
      (bytes.length = digestLength ∨ bytes.length < digestLength ∧ replies.recv n = none) := by
  constructor
  · rintro ⟨e, hends, hne⟩
    cases e with
    | complete checksum' =>
      obtain ⟨n, h⟩ := complete_iff.mp hends
      exact ⟨n, _, h, .inl checksum'.property⟩
    | recvFailed =>
      obtain ⟨n, bytes, h, hrest⟩ := recvFailed_iff.mp hends
      exact ⟨n, bytes, h, .inr hrest⟩
    | outOfBounds => exact absurd rfl hne
  · rintro ⟨n, bytes, h, hfull | hrest⟩
    · exact ⟨.complete ⟨bytes, hfull⟩, complete_iff.mpr ⟨n, h⟩, by simp⟩
    · exact ⟨.recvFailed, recvFailed_iff.mpr ⟨n, bytes, h, hrest⟩, by simp⟩

/-- A peer that sends this and then closes. -/
def reply (bytes : List UInt8) (h : bytes.length ≤ bufferSize) : Replies where
  recv
    | 0 => some bytes
    | _ + 1 => some []
  length_le
    | 0, _, heq => Option.some.inj heq ▸ h
    | _ + 1, _, heq => Option.some.inj heq ▸ Nat.zero_le _
  closed _ _ := rfl

/-- `checksum`, with zeros in it. -/
def zeros : Digest := ⟨List.replicate digestLength 0, List.length_replicate⟩

/-- A reply with one byte too many is copied behind the end of `checksum`, and without a
    reply the loop does not end. -/
theorem reply_unbounded : ¬Bounded (reply (List.replicate 33 0) (by decide)) zeros ∧
    ¬Bounded (reply [] (by decide)) zeros := by
  constructor
  · rintro ⟨e, hends, hne⟩
    exact hne (hends.unique (outOfBounds_iff.mpr
      ⟨0, [], List.replicate 33 0, rfl, by decide, rfl, by decide⟩))
  · rintro ⟨e, hends, -⟩
    exact not_ends_of_closed (reply [] (by decide)) (by decide) rfl hends

end ChatOnC.PartB
