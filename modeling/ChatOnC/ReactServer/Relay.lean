import ChatOnC.ReactServer.Steps

/-!
# The buffers of a relayed chunk

Between `recv` and the broadcast (`react_server.c` lines 283–305) three arrays are
written: the terminator into `buf`, the descriptor's digits into `num_c`, and three
strings behind the prefix in `msg`.

* `writes_in_bounds_iff`: which chunks keep all writes inside.
* `assembleMsg_isSome_iff`: the model of these lines goes on for exactly those.
* `relay_in_bounds_iff`: both, for a step of the server.
-/

namespace ChatOnC.ReactServer

open ChatOnC.Common

/-! ## The writes -/

/-- The arrays declared in line 283. -/
inductive RelayArray
  | buf
  | msg
  | numC
deriving DecidableEq, Repr

/-- Their sizes. -/
def RelayArray.size : RelayArray → ℕ
  | .buf => 256
  | .msg => 256
  | .numC => 5

/-- The bytes of `fd` in decimal. -/
def digits (fd : ℕ) : List UInt8 := ascii (toString fd)

/-- The string in `buf` behind the terminator of the chunk. -/
def chunkText (chunk : List UInt8) : List UInt8 := cString (chunk ++ [0])

/-- A string of `n` bytes and its zero, written from index `i` on. -/
def stringWrites (array : RelayArray) (i n : ℕ) : List (RelayArray × ℕ) :=
  (List.range (n + 1)).map fun t => (array, i + t)

/-- The writes for a chunk from `fd` (lines 300–305): `buf[nbytes] = '\0'`, `sprintf`, and
    `strcat` of the digits, of `": "` and of `buf`. The prefix has 14 bytes. -/
def relayWrites (fd : ℕ) (chunk : List UInt8) : List (RelayArray × ℕ) :=
  (.buf, chunk.length) :: stringWrites .numC 0 (digits fd).length ++
    stringWrites .msg 14 (digits fd).length ++
    stringWrites .msg (14 + (digits fd).length) 2 ++
    stringWrites .msg (14 + (digits fd).length + 2) (chunkText chunk).length

/-- The chunk leaves room for its terminator, and its text and the digits for theirs. -/
def Fits (fd : ℕ) (chunk : List UInt8) : Prop :=
  chunk.length < 256 ∧ (chunkText chunk).length + (digits fd).length ≤ 239

variable {fd : ℕ} {chunk : List UInt8}

theorem stringWrites_in_bounds_iff {array : RelayArray} {i n : ℕ} :
    (∀ w ∈ stringWrites array i n, w.2 < w.1.size) ↔ i + n < array.size := by
  unfold stringWrites
  rw [List.forall_mem_map]
  constructor
  · intro h
    exact h n (List.mem_range.mpr (Nat.lt_succ_self n))
  · intro h t ht
    have hle := List.mem_range.mp ht
    show i + t < array.size
    omega

/-- A descriptor below 10000 has at most four digits. -/
theorem length_digits_le (hfd : fd < 10000) : (digits fd).length ≤ 4 := by
  have hlen : (Nat.repr fd).length ≤ 4 := (Nat.length_repr_le_iff (by decide)).mpr hfd
  rwa [digits, ascii, List.length_map, String.length_toList]

/-- No digit is the zero byte. -/
theorem zero_notMem_digits (fd : ℕ) : 0 ∉ digits fd := by
  unfold digits ascii
  intro hmem
  obtain ⟨c, hc, hzero⟩ := List.mem_map.mp hmem
  have hdigit : c.isDigit := by
    apply Nat.isDigit_of_mem_toDigits (b := 10) (n := fd) (by decide) (by decide)
    rwa [← Nat.toList_repr]
  rw [Char.isDigit_iff_toNat] at hdigit
  obtain ⟨hlo, hhi⟩ : 48 ≤ c.toNat ∧ c.toNat ≤ 57 := hdigit
  have hmod : c.toNat % 256 = 0 := congrArg UInt8.toNat hzero
  omega

/-- **The writes.** All of them stay inside their arrays if and only if the chunk fits. -/
theorem writes_in_bounds_iff (hfd : fd < 10000) :
    (∀ w ∈ relayWrites fd chunk, w.2 < w.1.size) ↔ Fits fd chunk := by
  have hdigits := length_digits_le hfd
  rw [relayWrites, List.cons_append, List.cons_append, List.cons_append, List.forall_mem_cons,
    List.forall_mem_append, List.forall_mem_append, List.forall_mem_append,
    stringWrites_in_bounds_iff, stringWrites_in_bounds_iff, stringWrites_in_bounds_iff,
    stringWrites_in_bounds_iff]
  unfold Fits
  simp only [RelayArray.size]
  omega

/-! ## The model -/

/-- In front of the text `msg` holds the prefix, the digits and `": "`, and there is room
    for them. -/
theorem assembleMsg_eq (hfd : fd < 10000) (chunk : List UInt8) : ∃ msg,
    msg.length = 256 ∧ (cString msg).length = 14 + (digits fd).length + 2 ∧
      assembleMsg fd chunk =
        if chunk.length < 256 then strcat msg (chunkText chunk) else none := by
  have hdigits := length_digits_le hfd
  obtain ⟨msg₀, hmsg₀⟩ : ∃ msg₀,
      msg₀ = overwrite (List.replicate 256 0) 0 (ascii "Client socket ") := ⟨_, rfl⟩
  have hlen₀ : msg₀.length = 256 := by rw [hmsg₀]; decide +kernel
  have htext₀ : (cString msg₀).length = 14 := by rw [hmsg₀]; decide +kernel
  obtain ⟨msg₁, hmsg₁, hlen₁, htext₁⟩ := strcat_of_le (zero_notMem_digits fd)
    (show (cString msg₀).length + (digits fd).length + 1 ≤ msg₀.length by omega)
  have hcolon : (ascii ": ").length = 2 := by decide
  have hused₁ := congrArg List.length htext₁
  rw [List.length_append, htext₀] at hused₁
  obtain ⟨msg₂, hmsg₂, hlen₂, htext₂⟩ := strcat_of_le
    (show (0 : UInt8) ∉ ascii ": " by decide)
    (show (cString msg₁).length + (ascii ": ").length + 1 ≤ msg₁.length by omega)
  have hused₂ := congrArg List.length htext₂
  rw [List.length_append, hused₁, hcolon] at hused₂
  refine ⟨msg₂, by omega, hused₂, ?_⟩
  unfold assembleMsg
  show (if chunk.length < 256 ∧ (digits fd).length + 1 ≤ 5 then _ else none) = _
  by_cases hchunk : chunk.length < 256
  · rw [if_pos ⟨hchunk, by omega⟩, if_pos hchunk]
    show ((strcat _ (digits fd)).bind fun msg => (strcat msg (ascii ": ")).bind fun msg =>
      strcat msg (chunkText chunk)) = _
    rw [← hmsg₀, hmsg₁, Option.bind_some, hmsg₂, Option.bind_some]
  · rw [if_neg (fun h => hchunk h.1), if_neg hchunk]

/-- A message is assembled exactly for the chunks that fit. -/
theorem assembleMsg_isSome_iff (hfd : fd < 10000) :
    (assembleMsg fd chunk).isSome = true ↔ Fits fd chunk := by
  obtain ⟨msg, hlen, hused, hmodel⟩ := assembleMsg_eq hfd chunk
  rw [hmodel, Fits]
  by_cases hchunk : chunk.length < 256
  · rw [if_pos hchunk, strcat, Option.isSome_ite]
    omega
  · rw [if_neg hchunk]
    exact ⟨fun h => absurd h Bool.false_ne_true, fun h => absurd h.1 hchunk⟩

/-! ## The server -/

/-- A step with a received chunk stops for a write outside the arrays exactly if the
    message cannot be assembled. -/
theorem recvStep_message_iff (hp : s.reactor.pfds[i]? = some p) (hrecv : k.recv = some chunk)
    (hne : chunk ≠ []) :
    (recvStep k i s).pc ≠ .stopped .message ↔ (assembleMsg p.fd chunk).isSome = true := by
  have hlen := (List.getElem?_eq_some_iff.mp hp).1
  have hl : s.reactor.pfds[0]? = some s.reactor.pfds[0] :=
    List.getElem?_eq_getElem (show 0 < s.reactor.pfds.length by omega)
  obtain ⟨b, bs, rfl⟩ := List.exists_cons_of_ne_nil hne
  unfold recvStep
  simp only [hp, hl, hrecv]
  cases assembleMsg p.fd (b :: bs) with
  | none => exact ⟨fun h => absurd rfl h, fun h => absurd h Bool.false_ne_true⟩
  | some msg =>
    refine ⟨fun _ => rfl, fun _ => ?_⟩
    show (if _ then _ else _ : State).pc ≠ _
    split_ifs
    · exact nofun
    · exact nofun
    · exact nofun

/-- **Relaying a chunk.** When `recv` returns bytes from a client with a descriptor below
    10000, the writes that follow stay inside `buf`, `num_c` and `msg` if and only if the
    chunk fits, and the model goes on for exactly those chunks. -/
theorem relay_in_bounds_iff (hpc : s.pc = .recv i) (hp : s.reactor.pfds[i]? = some p)
    (hfd : p.fd < 10000) (hrecv : k.recv = some chunk) (hpos : 1 ≤ chunk.length)
    (h : (startReactor listener).step k s = some s') :
    ((∀ w ∈ relayWrites p.fd chunk, w.2 < w.1.size) ↔ Fits p.fd chunk) ∧
      (s'.pc ≠ .stopped .message ↔ Fits p.fd chunk) := by
  refine ⟨writes_in_bounds_iff hfd, ?_⟩
  simp only [startReactor, hpc, Option.some.injEq] at h
  rw [← h, recvStep_message_iff hp hrecv (List.length_pos_iff.mp hpos),
    assembleMsg_isSome_iff hfd]

/-- Client 5 joins, and a chunk of it is to be read. -/
def firstChunk : List Kernel := join 5 0 ++ [.ready 1 pollIn, .idle, .idle]

theorem firstChunk_exec : ∃ s,
    (startReactor 3).exec firstChunk (startReactor 3).init = some s ∧ s.pc = .recv 1 ∧
      s.reactor.pfds[1]? = some ⟨5, pollIn, pollIn⟩ := by
  have hrun : ((startReactor 3).exec firstChunk (startReactor 3).init).map
      (fun s => (s.pc, s.reactor.pfds[1]?)) = some (.recv 1, some ⟨5, pollIn, pollIn⟩) := by
    decide +kernel
  obtain ⟨s, hs, hat⟩ := Option.map_eq_some_iff.mp hrun
  simp only [Prod.mk.injEq] at hat
  exact ⟨s, hs, hat.1, hat.2⟩

theorem relay_in_bounds_iff_hi : ∃ s s',
    (startReactor 3).exec firstChunk (startReactor 3).init = some s ∧
      (startReactor 3).step (.receives (ascii "hi")) s = some s' ∧
      Fits 5 (ascii "hi") ∧
      ((∀ w ∈ relayWrites 5 (ascii "hi"), w.2 < w.1.size) ↔ Fits 5 (ascii "hi")) ∧
      (s'.pc ≠ .stopped .message ↔ Fits 5 (ascii "hi")) := by
  obtain ⟨s, hs, hpc, hp⟩ := firstChunk_exec
  have hstep : (startReactor 3).step (.receives (ascii "hi")) s =
      some (recvStep (.receives (ascii "hi")) 1 s) := by
    simp only [startReactor, hpc]
  have hboth := relay_in_bounds_iff hpc hp (show 5 < 10000 by decide)
    (show (Kernel.receives (ascii "hi")).recv = some (ascii "hi") from rfl) (by decide) hstep
  have hfits : Fits 5 (ascii "hi") := ⟨by decide, by decide +kernel⟩
  exact ⟨s, _, hs, hstep, hfits, hboth.1, hboth.2⟩

/-- A chunk as long as `buf`. -/
def fullChunk : List UInt8 := List.replicate 256 65

/-- A chunk that fills `buf` has its terminator behind the array, and one of 239 letters
    reaches the end of `msg`. -/
theorem longChunk_overflows :
    (∃ s s', (startReactor 3).exec firstChunk (startReactor 3).init = some s ∧
      (startReactor 3).step (.receives fullChunk) s = some s' ∧
      s'.pc = .stopped .message ∧
      ¬∀ w ∈ relayWrites 5 fullChunk, w.2 < w.1.size) ∧
    ∃ w ∈ relayWrites 5 (List.replicate 239 65), w.1 = .msg ∧ ¬w.2 < w.1.size := by
  obtain ⟨s, hs, hpc, hp⟩ := firstChunk_exec
  have hstep : (startReactor 3).step (.receives fullChunk) s =
      some (recvStep (.receives fullChunk) 1 s) := by
    simp only [startReactor, hpc]
  have hlength : fullChunk.length = 256 := List.length_replicate
  have hne : fullChunk ≠ [] := List.ne_nil_of_length_eq_add_one hlength
  have hlong : ¬Fits 5 fullChunk := by
    rintro ⟨hlt, -⟩
    omega
  refine ⟨⟨s, _, hs, hstep, ?_, ?_⟩, (.msg, 256), by decide +kernel, rfl, by decide⟩
  · by_contra hgoes
    have hsome := (recvStep_message_iff hp
      (show (Kernel.receives fullChunk).recv = some fullChunk from rfl) hne).mp hgoes
    exact hlong ((assembleMsg_isSome_iff (show 5 < 10000 by decide)).mp hsome)
  · intro hall
    exact hlong ((writes_in_bounds_iff (show 5 < 10000 by decide)).mp hall)

end ChatOnC.ReactServer
