import ChatOnC.Common.Chunks
import ChatOnC.FileTransfer.Model
import Mathlib.Data.Int.Notation

/-!
# The file clients over streams

Models of the loops of `c_ipv4_tcp`, `c_ipv6_tcp`, `c_uds_stream`, `c_mmap` and `c_pipe`
(`client.c`). Each reads the file in chunks and makes one call of `send` or `write` for
each of them, and each has its own test of what the call returns.

* `stream_eq_file_iff`: where the clients that read lines send the file unchanged.
* `delivers_iff`: the outcomes of the calls for which a normal return means that
  everything was delivered.
-/

namespace ChatOnC.FileTransfer

open ChatOnC.Common

/-! ## The clients -/

/-- How a client ends: `return 0;` or the end of its body, `return -1;`, `exit(1);`. -/
inductive Ending
  | success
  | minusOne
  | exited
deriving DecidableEq, Repr

/-- The loop of a client. -/
structure FileClient where
  /-- The chunks that are read from a file. -/
  read : List UInt8 → List (List UInt8)
  /-- Whether a chunk leads to a call. -/
  writes : List UInt8 → Bool
  /-- The bytes a chunk is sent as. -/
  argument : List UInt8 → List UInt8
  /-- The test of the value returned by the call. -/
  failed : ℤ → Bool
  /-- How the client ends if the test says so. -/
  onFailure : Ending

/-- The loop on chunks, each with the value that the call for it returns: the bytes
    accepted by the socket or pipe, and how the client ends. -/
def FileClient.run (c : FileClient) : List (List UInt8 × ℤ) → List UInt8 × Ending
  | [] => ([], .success)
  | (chunk, result) :: rest =>
    if c.writes chunk then
      let accepted := (c.argument chunk).take result.toNat
      if c.failed result then (accepted, c.onFailure)
      else (accepted ++ (c.run rest).1, (c.run rest).2)
    else c.run rest

/-- `while (fgets(buffer, sizeof(buffer), fp) != NULL)`. -/
def readLines (file : List UInt8) : List (List UInt8) := lines newline bufferSize file

/-- `while ((nbytes = fread(buffer, sizeof(char), sizeof(buffer), fp)) > 0)`, and the same
    with `read`. -/
def readChunks (file : List UInt8) : List (List UInt8) := chunks bufferSize file

/-- `while (!feof(file))`: the end of the file is noticed by the first `fread` that is not
    filled, which may read nothing. -/
def readUntilEof (file : List UInt8) : List (List UInt8) :=
  if file.length % bufferSize = 0 then chunks bufferSize file ++ [[]] else chunks bufferSize file

/-- `client.c`, lines 65–78. -/
def cIpv4Tcp : FileClient where
  read := readLines
  writes _ := true
  argument := lineDatagram
  failed result := result < 0
  onFailure := .exited

/-- `client.c`, lines 114–129. The value is tested as the `size_t` `nbytes2`. -/
def cIpv6Tcp : FileClient where
  read := readChunks
  writes _ := true
  argument chunk := chunk
  failed result := (BitVec.ofInt 64 result).ult 0
  onFailure := .exited

/-- `client.c`, lines 304–315. -/
def cUdsStream : FileClient where
  read := readLines
  writes _ := true
  argument := lineDatagram
  failed result := result = -1
  onFailure := .exited

/-- `client.c`, lines 355–368. -/
def cMmap : FileClient where
  read := readChunks
  writes _ := true
  argument chunk := chunk
  failed result := result < 0
  onFailure := .minusOne

/-- `client.c`, lines 387–402. -/
def cPipe : FileClient where
  read := readUntilEof
  writes chunk := chunk.length > 0
  argument chunk := chunk
  failed result := result = -1
  onFailure := .minusOne

/-! ## The loop -/

variable {c : FileClient} {calls : List (List UInt8 × ℤ)}

/-- What is accepted of a chunk. -/
def FileClient.accepted (c : FileClient) (call : List UInt8 × ℤ) : List UInt8 :=
  if c.writes call.1 then (c.argument call.1).take call.2.toNat else []

theorem accepted_of_not_writes {call : List UInt8 × ℤ} (h : ¬c.writes call.1 = true) :
    c.accepted call = [] := if_neg h

theorem run_cons (c : FileClient) (call : List UInt8 × ℤ) (rest : List (List UInt8 × ℤ)) :
    c.run (call :: rest) =
      if c.writes call.1 = true ∧ c.failed call.2 = true then (c.accepted call, c.onFailure)
      else (c.accepted call ++ (c.run rest).1, (c.run rest).2) := by
  by_cases hwrites : c.writes call.1 = true
  · rw [FileClient.accepted, if_pos hwrites, FileClient.run, if_pos hwrites]
    simp only [hwrites, true_and]
  · rw [accepted_of_not_writes hwrites, FileClient.run, if_neg hwrites,
      if_neg fun h => hwrites h.1, List.nil_append]

/-- A run without a failure. -/
theorem run_of_not_failed (h : ∀ call ∈ calls, c.writes call.1 = true → ¬c.failed call.2 = true) :
    c.run calls = ((calls.map c.accepted).flatten, .success) := by
  induction calls with
  | nil => rfl
  | cons call calls ih =>
    have hcall : ¬(c.writes call.1 = true ∧ c.failed call.2 = true) :=
      fun ⟨hwrites, hfailed⟩ => h call List.mem_cons_self hwrites hfailed
    rw [run_cons, if_neg hcall, ih fun x hx => h x (List.mem_cons_of_mem call hx), List.map_cons,
      List.flatten_cons]

/-- A run with a failure. -/
theorem run_of_failed (h : ∃ call ∈ calls, c.writes call.1 = true ∧ c.failed call.2 = true) :
    (c.run calls).2 = c.onFailure := by
  obtain ⟨x, hx, hfailed⟩ := h
  induction calls with
  | nil => exact absurd hx List.not_mem_nil
  | cons call calls ih =>
    rw [run_cons]
    split_ifs with hcall
    · rfl
    · apply ih
      rcases List.mem_cons.mp hx with rfl | hx
      · exact absurd hfailed hcall
      · exact hx

/-! ## The file unchanged -/

/-- The bytes a client sends for a file if each call accepts its whole argument. -/
def FileClient.stream (c : FileClient) (file : List UInt8) : List UInt8 :=
  (c.run ((c.read file).map fun chunk => (chunk, ((c.argument chunk).length : ℤ)))).1

/-- `send` accepting everything is not taken for a failure, and nothing is left out. -/
theorem stream_eq (hcount : ∀ n : ℕ, ¬c.failed n = true)
    (hskip : ∀ chunk, ¬c.writes chunk = true → c.argument chunk = []) (file : List UInt8) :
    c.stream file = ((c.read file).map c.argument).flatten := by
  unfold FileClient.stream
  rw [run_of_not_failed, List.map_map]
  · dsimp only
    congr 2
    funext chunk
    unfold FileClient.accepted
    dsimp only [Function.comp_apply]
    split_ifs with hwrites
    · rw [Int.toNat_natCast, List.take_length]
    · exact (hskip chunk hwrites).symm
  · intro call hcall _
    obtain ⟨chunk, -, rfl⟩ := List.mem_map.mp hcall
    exact hcount _

theorem lineDatagram_isPrefix (line : List UInt8) : lineDatagram line <+: line := by
  unfold lineDatagram
  rw [cString_zero_cons]
  exact List.takeWhile_prefix _

theorem lineDatagram_eq_iff (line : List UInt8) : lineDatagram line = line ↔ 0 ∉ line := by
  unfold lineDatagram
  rw [cString_zero_cons]
  constructor
  · intro h
    rw [← h]
    exact zero_notMem_cString line
  · exact cString_of_zero_notMem

/-- What `strlen` leaves of the lines of a file is the file if there is no zero in it. -/
theorem flatten_lineDatagrams_eq_iff (file : List UInt8) :
    ((readLines file).map lineDatagram).flatten = file ↔ 0 ∉ file := by
  have hall : (readLines file).flatten = file := flatten_lines newline (by decide) file
  have hprefix : ∀ line ∈ readLines file, lineDatagram line <+: id line :=
    fun line _ => lineDatagram_isPrefix line
  have hmem : (∀ line ∈ readLines file, lineDatagram line = id line) ↔ 0 ∉ file := by
    have hzero : 0 ∈ file ↔ ∃ line ∈ readLines file, 0 ∈ line := by
      rw [← List.mem_flatten, hall]
    rw [hzero, not_exists]
    apply forall_congr'
    intro line
    rw [not_and, id_eq, lineDatagram_eq_iff]
  rw [← hmem, ← flatten_map_eq_iff hprefix, List.map_id, hall]

theorem dropLast_sendLines (file : List UInt8) :
    (sendLines file).dropLast = (readLines file).map lineDatagram := by
  unfold sendLines
  rw [List.dropLast_concat]
  rfl

theorem stream_lines {argument : List UInt8 → List UInt8} {failed : ℤ → Bool}
    {onFailure : Ending} {read : List UInt8 → List (List UInt8)}
    (hcount : ∀ n : ℕ, ¬failed n = true) (file : List UInt8) :
    FileClient.stream ⟨read, fun _ => true, argument, failed, onFailure⟩ file =
      ((read file).map argument).flatten :=
  stream_eq hcount (fun _ h => absurd rfl h) file

theorem not_lt_zero (n : ℕ) : ¬decide ((n : ℤ) < 0) = true := by
  rw [decide_eq_true_iff]
  omega

theorem not_eq_minusOne (n : ℕ) : ¬decide ((n : ℤ) = -1) = true := by
  rw [decide_eq_true_iff]
  omega

/-- No `size_t` is negative. -/
theorem not_ult_zero (x : BitVec 64) : ¬x.ult 0 = true := by
  rw [BitVec.ult_iff_lt]
  exact BitVec.not_lt_zero

/-- The client that reads with `fread` sends the file. -/
theorem cIpv6Tcp_stream (file : List UInt8) : cIpv6Tcp.stream file = file := by
  unfold cIpv6Tcp
  rw [stream_lines fun n => not_ult_zero _, List.map_id']
  exact flatten_chunks (by decide) file

/-- **The file unchanged.** The clients that read lines send what the one that reads
    chunks sends, the file, exactly for the files without a zero byte. -/
theorem stream_eq_file_iff (file : List UInt8) :
    cIpv6Tcp.stream file = file ∧ (cIpv4Tcp.stream file = file ↔ 0 ∉ file) ∧
      (cUdsStream.stream file = file ↔ 0 ∉ file) ∧
      ((cIpv4Udp file).dropLast.flatten = file ↔ 0 ∉ file) ∧
      ((cIpv6Udp file).dropLast.flatten = file ↔ 0 ∉ file) := by
  have hlines := flatten_lineDatagrams_eq_iff file
  refine ⟨cIpv6Tcp_stream file, ?_, ?_, ?_, ?_⟩
  · unfold cIpv4Tcp
    rw [stream_lines not_lt_zero]
    exact hlines
  · unfold cUdsStream
    rw [stream_lines not_eq_minusOne]
    exact hlines
  · unfold cIpv4Udp
    rw [dropLast_sendLines]
    exact hlines
  · unfold cIpv6Udp
    rw [dropLast_sendLines]
    exact hlines

/-- A line with a zero in it is cut off there. -/
theorem stream_cut :
    cIpv4Tcp.stream [65, 0, 66, 10] ≠ [65, 0, 66, 10] ∧
      cUdsStream.stream [65, 0, 66, 10] ≠ [65, 0, 66, 10] ∧
      (cIpv4Udp [65, 0, 66, 10]).dropLast.flatten ≠ [65, 0, 66, 10] ∧
      (cIpv6Udp [65, 0, 66, 10]).dropLast.flatten ≠ [65, 0, 66, 10] ∧
      cIpv6Tcp.stream [65, 0, 66, 10] = [65, 0, 66, 10] := by
  decide +kernel

/-! ## What a normal return means -/

/-- What `send` or `write` can return for a request. -/
def ValidResult (requested : ℕ) (result : ℤ) : Prop :=
  result = -1 ∨ 0 ≤ result ∧ result ≤ requested ∧ (0 < requested → 0 < result)

/-- The calls, for chunks sent as `argument` says, return what they can return. -/
def Possible (argument : List UInt8 → List UInt8) (calls : List (List UInt8 × ℤ)) : Prop :=
  ∀ call ∈ calls, ValidResult (argument call.1).length call.2

/-- If the client returns normally, no call has failed, and everything that was read was
    accepted. -/
def Delivers (c : FileClient) (calls : List (List UInt8 × ℤ)) : Prop :=
  (c.run calls).2 = .success →
    (∀ call ∈ calls, c.writes call.1 = true → call.2 ≠ -1) ∧
      (c.run calls).1 = (calls.map Prod.fst).flatten

/-- A call has failed. -/
def SomeFails (c : FileClient) (calls : List (List UInt8 × ℤ)) : Prop :=
  ∃ call ∈ calls, c.writes call.1 = true ∧ call.2 = -1

/-- The chunk is sent unchanged and accepted as a whole. -/
def Whole (c : FileClient) (call : List UInt8 × ℤ) : Prop :=
  c.writes call.1 = true → call.2 = call.1.length ∧ c.argument call.1 = call.1

/-- A client sends no more of a chunk than it has read, and leaves out only empty ones. -/
structure FileClient.Honest (c : FileClient) : Prop where
  argument : ∀ chunk, c.argument chunk <+: chunk
  skipped : ∀ chunk, ¬c.writes chunk = true → chunk = []

theorem FileClient.Honest.accepted_isPrefix (h : c.Honest) (call : List UInt8 × ℤ) :
    c.accepted call <+: call.1 := by
  unfold FileClient.accepted
  split_ifs
  · exact (List.take_prefix _ _).trans (h.argument _)
  · exact List.nil_prefix

theorem FileClient.Honest.accepted_eq_iff (h : c.Honest) {call : List UInt8 × ℤ}
    (hvalid : ValidResult (c.argument call.1).length call.2)
    (hne : c.writes call.1 = true → call.2 ≠ -1) : c.accepted call = call.1 ↔ Whole c call := by
  unfold Whole
  by_cases hwrites : c.writes call.1 = true
  · rw [FileClient.accepted, if_pos hwrites]
    have hle := (h.argument call.1).length_le
    obtain ⟨hpos, hmax, -⟩ := hvalid.resolve_left (hne hwrites)
    constructor
    · intro heq _
      have hlen := congrArg List.length heq
      rw [List.length_take] at hlen
      exact ⟨by omega, (h.argument call.1).eq_of_length (by omega)⟩
    · intro hwhole
      obtain ⟨hresult, hargument⟩ := hwhole hwrites
      rw [hresult, hargument, Int.toNat_natCast, List.take_length]
  · rw [accepted_of_not_writes hwrites, h.skipped _ hwrites]
    exact iff_of_true rfl fun hw => absurd hw (h.skipped _ hwrites ▸ hwrites)

theorem FileClient.Honest.flatten_iff (h : c.Honest) (hvalid : Possible c.argument calls)
    (hnone : ¬SomeFails c calls) :
    (calls.map c.accepted).flatten = (calls.map Prod.fst).flatten ↔
      ∀ call ∈ calls, Whole c call := by
  rw [flatten_map_eq_iff fun call _ => h.accepted_isPrefix call]
  apply forall₂_congr
  intro call hcall
  exact h.accepted_eq_iff (hvalid call hcall) fun hw hfail => hnone ⟨call, hcall, hw, hfail⟩

/-- A client that takes `-1` for a failure, and nothing else. -/
theorem delivers_iff_of_checked (h : c.Honest) (hvalid : Possible c.argument calls)
    (hcheck : ∀ call ∈ calls, c.failed call.2 = true ↔ call.2 = -1)
    (hend : c.onFailure ≠ .success) :
    Delivers c calls ↔ SomeFails c calls ∨ ∀ call ∈ calls, Whole c call := by
  by_cases hsome : SomeFails c calls
  · rw [or_iff_left_of_imp fun _ => hsome]
    refine iff_of_true (fun hsuccess => absurd hsuccess ?_) hsome
    obtain ⟨call, hcall, hwrites, hfail⟩ := hsome
    rw [run_of_failed ⟨call, hcall, hwrites, (hcheck call hcall).mpr hfail⟩]
    exact hend
  · have hpass : ∀ call ∈ calls, c.writes call.1 = true → call.2 ≠ -1 :=
      fun call hcall hwrites hfail => hsome ⟨call, hcall, hwrites, hfail⟩
    have hrun := run_of_not_failed fun call hcall hwrites hfail =>
      hpass call hcall hwrites ((hcheck call hcall).mp hfail)
    rw [or_iff_right hsome, ← h.flatten_iff hvalid hsome, Delivers, hrun]
    exact ⟨fun hd => (hd rfl).2, fun heq _ => ⟨hpass, heq⟩⟩

/-- A client that never takes anything for a failure. -/
theorem delivers_iff_of_unchecked (h : c.Honest) (hvalid : Possible c.argument calls)
    (hcheck : ∀ result, ¬c.failed result = true) :
    Delivers c calls ↔ ∀ call ∈ calls, Whole c call := by
  have hrun : c.run calls = ((calls.map c.accepted).flatten, .success) :=
    run_of_not_failed fun call _ _ => hcheck call.2
  rw [Delivers, hrun, forall_prop_of_true rfl]
  constructor
  · rintro ⟨hpass, heq⟩
    rwa [h.flatten_iff hvalid fun ⟨call, hcall, hw, hfail⟩ => hpass call hcall hw hfail] at heq
  · intro hwhole
    have hpass : ∀ call ∈ calls, c.writes call.1 = true → call.2 ≠ -1 := by
      intro call hcall hwrites hfail
      have hresult := (hwhole call hcall hwrites).1
      omega
    refine ⟨hpass, ?_⟩
    rwa [h.flatten_iff hvalid fun ⟨call, hcall, hw, hfail⟩ => hpass call hcall hw hfail]

/-! ### The five clients -/

section EveryChunk

variable {read : List UInt8 → List (List UInt8)} {argument : List UInt8 → List UInt8}
  {failed : ℤ → Bool} {onFailure : Ending}

/-- A client that makes a call for every chunk. -/
theorem honest_of_argument (h : ∀ chunk, argument chunk <+: chunk) :
    FileClient.Honest ⟨read, fun _ => true, argument, failed, onFailure⟩ :=
  ⟨h, fun _ hskip => absurd rfl hskip⟩

theorem someFails_iff : SomeFails ⟨read, fun _ => true, argument, failed, onFailure⟩ calls ↔
    ∃ call ∈ calls, call.2 = -1 := by
  unfold SomeFails
  simp only [true_and]

theorem whole_iff (call : List UInt8 × ℤ) :
    Whole ⟨read, fun _ => true, argument, failed, onFailure⟩ call ↔
      call.2 = call.1.length ∧ argument call.1 = call.1 := by
  unfold Whole
  exact forall_prop_of_true rfl

theorem lines_delivers_iff (hvalid : Possible lineDatagram calls)
    (hcheck : ∀ call ∈ calls, failed call.2 = true ↔ call.2 = -1) (hend : onFailure ≠ .success) :
    Delivers ⟨read, fun _ => true, lineDatagram, failed, onFailure⟩ calls ↔
      (∃ call ∈ calls, call.2 = -1) ∨ ∀ call ∈ calls, call.2 = call.1.length ∧ 0 ∉ call.1 := by
  rw [delivers_iff_of_checked (honest_of_argument lineDatagram_isPrefix) hvalid hcheck hend,
    someFails_iff]
  simp only [whole_iff, lineDatagram_eq_iff]

theorem chunks_delivers_iff (hvalid : Possible (fun chunk => chunk) calls)
    (hcheck : ∀ call ∈ calls, failed call.2 = true ↔ call.2 = -1) (hend : onFailure ≠ .success) :
    Delivers ⟨read, fun _ => true, fun chunk => chunk, failed, onFailure⟩ calls ↔
      (∃ call ∈ calls, call.2 = -1) ∨ ∀ call ∈ calls, call.2 = call.1.length := by
  rw [delivers_iff_of_checked (honest_of_argument List.prefix_refl) hvalid hcheck hend,
    someFails_iff]
  simp only [whole_iff, and_true]

end EveryChunk

theorem honest_cPipe : cPipe.Honest where
  argument chunk := List.prefix_refl chunk
  skipped chunk hskip := by
    unfold cPipe at hskip
    dsimp only at hskip
    rw [decide_eq_true_iff, Nat.not_lt, Nat.le_zero] at hskip
    exact List.eq_nil_of_length_eq_zero hskip

/-- Of what a call can return only `-1` is negative. -/
theorem ValidResult.lt_zero_iff {requested : ℕ} {result : ℤ} (h : ValidResult requested result) :
    decide (result < 0) = true ↔ result = -1 := by
  rw [decide_eq_true_iff]
  rcases h with rfl | ⟨hpos, -, -⟩ <;> omega

theorem cPipe_writes_iff (chunk : List UInt8) : cPipe.writes chunk = true ↔ chunk ≠ [] := by
  unfold cPipe
  dsimp only
  rw [decide_eq_true_iff]
  exact List.length_pos_iff

/-- **What a normal return means.** -/
theorem delivers_iff {lineCalls chunkCalls : List (List UInt8 × ℤ)}
    (hlines : Possible lineDatagram lineCalls)
    (hchunks : Possible (fun chunk => chunk) chunkCalls) :
    (Delivers cIpv4Tcp lineCalls ↔ (∃ call ∈ lineCalls, call.2 = -1) ∨
      ∀ call ∈ lineCalls, call.2 = call.1.length ∧ 0 ∉ call.1) ∧
    (Delivers cUdsStream lineCalls ↔ (∃ call ∈ lineCalls, call.2 = -1) ∨
      ∀ call ∈ lineCalls, call.2 = call.1.length ∧ 0 ∉ call.1) ∧
    (Delivers cIpv6Tcp chunkCalls ↔ ∀ call ∈ chunkCalls, call.2 = call.1.length) ∧
    (Delivers cMmap chunkCalls ↔ (∃ call ∈ chunkCalls, call.2 = -1) ∨
      ∀ call ∈ chunkCalls, call.2 = call.1.length) ∧
    (Delivers cPipe chunkCalls ↔ (∃ call ∈ chunkCalls, call.1 ≠ [] ∧ call.2 = -1) ∨
      ∀ call ∈ chunkCalls, call.1 ≠ [] → call.2 = call.1.length) := by
  refine ⟨?_, ?_, ?_, ?_, ?_⟩
  · exact lines_delivers_iff hlines (fun call hcall => (hlines call hcall).lt_zero_iff) (by decide)
  · exact lines_delivers_iff hlines (fun call _ => decide_eq_true_iff) (by decide)
  · have hhonest : cIpv6Tcp.Honest := honest_of_argument List.prefix_refl
    rw [delivers_iff_of_unchecked hhonest hchunks
      fun result => not_ult_zero (BitVec.ofInt 64 result)]
    unfold cIpv6Tcp
    simp only [whole_iff, and_true]
  · exact chunks_delivers_iff hchunks (fun call hcall => (hchunks call hcall).lt_zero_iff)
      (by decide)
  · rw [delivers_iff_of_checked honest_cPipe hchunks (fun call _ => decide_eq_true_iff)
      (by decide), SomeFails]
    unfold Whole
    simp only [cPipe_writes_iff]
    unfold cPipe
    simp only [and_true]

/-- A line, and a chunk with a zero in it, accepted as a whole. -/
theorem delivers_iff_wholeCalls :
    (Delivers cIpv4Tcp [([65, 10], 2)] ↔ (∃ call ∈ [([(65 : UInt8), 10], (2 : ℤ))], call.2 = -1) ∨
      ∀ call ∈ [([(65 : UInt8), 10], (2 : ℤ))], call.2 = call.1.length ∧ 0 ∉ call.1) ∧
    (Delivers cUdsStream [([65, 10], 2)] ↔
      (∃ call ∈ [([(65 : UInt8), 10], (2 : ℤ))], call.2 = -1) ∨
        ∀ call ∈ [([(65 : UInt8), 10], (2 : ℤ))], call.2 = call.1.length ∧ 0 ∉ call.1) ∧
    (Delivers cIpv6Tcp [([65, 0], 2)] ↔
      ∀ call ∈ [([(65 : UInt8), 0], (2 : ℤ))], call.2 = call.1.length) ∧
    (Delivers cMmap [([65, 0], 2)] ↔ (∃ call ∈ [([(65 : UInt8), 0], (2 : ℤ))], call.2 = -1) ∨
      ∀ call ∈ [([(65 : UInt8), 0], (2 : ℤ))], call.2 = call.1.length) ∧
    (Delivers cPipe [([65, 0], 2)] ↔
      (∃ call ∈ [([(65 : UInt8), 0], (2 : ℤ))], call.1 ≠ [] ∧ call.2 = -1) ∨
        ∀ call ∈ [([(65 : UInt8), 0], (2 : ℤ))], call.1 ≠ [] → call.2 = call.1.length) := by
  apply delivers_iff
  · intro call hcall
    rw [List.mem_singleton] at hcall
    rw [hcall]
    exact .inr (by decide)
  · intro call hcall
    rw [List.mem_singleton] at hcall
    rw [hcall]
    exact .inr (by decide)

theorem not_delivers (hreturns : (c.run calls).2 = .success)
    (hlost : (c.run calls).1 ≠ (calls.map Prod.fst).flatten) : ¬Delivers c calls :=
  fun h => hlost (h hreturns).2

/-- A call that accepts one byte of two, and for `c_ipv6_tcp` also one that fails. -/
theorem shortCall_lost :
    ¬Delivers cIpv4Tcp [([65, 10], 1)] ∧ ¬Delivers cUdsStream [([65, 10], 1)] ∧
      ¬Delivers cIpv6Tcp [([65, 10], 1)] ∧ ¬Delivers cMmap [([65, 10], 1)] ∧
      ¬Delivers cPipe [([65, 10], 1)] ∧ ¬Delivers cIpv6Tcp [([65, 10], -1)] := by
  refine ⟨?_, ?_, ?_, ?_, ?_, ?_⟩
  all_goals exact not_delivers (by decide) (by decide)

end ChatOnC.FileTransfer
