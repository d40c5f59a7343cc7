import ChatOnC.Common.Loop
import ChatOnC.FileTransfer.StreamClients

/-!
# Where the loops over `fread` end

The loops of `c_pipe` and `c_ipv6_tcp` (`client.c`) on any stream: data, short and empty
results, and then the end of the file or an error that stays. One tests the end-of-file
indicator and the other what `fread` has read. An error sets another indicator, which
neither of them tests and which is left out.

* `runs_endOfFile`, `exists_runs`: at the end of the file the loop has done what the client
  does on the chunks it has read, and these are the chunks of the file.
* `cPipe_ends_iff`: on which streams and for which results of `write` the loop ends.
* `cPipe_unreadable`: the loop on a stream whose first `fread` fails.
* `cIpv6Tcp_ends`: the loop of `c_ipv6_tcp` ends on every stream.
-/

namespace ChatOnC.FileTransfer

open ChatOnC.Common

/-! ## The stream -/

/-- What one `fread` puts into `buffer`. -/
abbrev Block := { bytes : List UInt8 // bytes.length ≤ bufferSize }

/-- What becomes of a stream. -/
inductive StreamTail
  /-- The next `fread` reads this and meets the end of the file. -/
  | endOfFile (last : Block)
  /-- The next `fread` and all that follow read nothing, for an error. -/
  | readError

/-- A `FILE`: what calls of `fread` give before its tail, and its end-of-file indicator. -/
structure FileStream where
  pending : List Block
  tail : StreamTail
  eof : Bool

/-- `fopen("file.txt", "r")`. -/
def fopen (pending : List Block) (tail : StreamTail) : FileStream where
  pending := pending
  tail := tail
  eof := false

/-- `fread(buffer, 1, BUFFER_SIZE, file)`. -/
def FileStream.fread (file : FileStream) : List UInt8 × FileStream :=
  if file.eof then ([], file)
  else
    match file.pending, file.tail with
    | block :: rest, _ => (block.val, { file with pending := rest })
    | [], .endOfFile last => (last.val, { file with eof := true })
    | [], .readError => ([], file)

/-! ## The loops -/

/-- The file, the number of calls of `write` or `send` so far, and what they have
    accepted. -/
structure CopyLoop where
  file : FileStream
  calls : ℕ
  accepted : List UInt8

/-- One round of the loop of `c_pipe` (lines 387–398). The value of the call of `write`
    with this number is `writes calls`. -/
def cPipeRound (writes : ℕ → ℤ) (s : CopyLoop) : CopyLoop ⊕ (List UInt8 × Ending) :=
  if s.file.eof then .inr (s.accepted, .success)
  else
    let (bytesRead, file) := s.file.fread
    if bytesRead.length > 0 then
      let bytesWritten := writes s.calls
      let accepted := s.accepted ++ bytesRead.take bytesWritten.toNat
      if bytesWritten = -1 then .inr (accepted, .minusOne)
      else .inl ⟨file, s.calls + 1, accepted⟩
    else .inl { s with file := file }

/-- One round of the loop of `c_ipv6_tcp` (lines 118–124). -/
def cIpv6TcpRound (sends : ℕ → ℤ) (s : CopyLoop) : CopyLoop ⊕ (List UInt8 × Ending) :=
  let (nbytes, fp) := s.file.fread
  if nbytes.length > 0 then
    let nbytes2 := sends s.calls
    let accepted := s.accepted ++ nbytes.take nbytes2.toNat
    if cIpv6Tcp.failed nbytes2 then .inr (accepted, cIpv6Tcp.onFailure)
    else .inl ⟨fp, s.calls + 1, accepted⟩
  else .inr (s.accepted, .success)

/-- The calls of `write` that may fail: those for data. -/
def dataReads (pending : List Block) : ℕ := pending.countP fun block => block.val ≠ []

variable {writes : ℕ → ℤ} {file file' : FileStream} {bytes : List UInt8} {calls : ℕ}
  {accepted : List UInt8} {chunks : List (List UInt8)} {pending : List Block}
  {tail : StreamTail} {block last : Block}

/-! ## One round -/

@[simp] theorem fread_cons : (fopen (block :: pending) tail).fread =
    (block.val, fopen pending tail) := by
  simp [FileStream.fread, fopen]

@[simp] theorem fread_endOfFile : (fopen [] (.endOfFile last)).fread =
    (last.val, { fopen [] (.endOfFile last) with eof := true }) := by
  simp [FileStream.fread, fopen]

@[simp] theorem fread_readError : (fopen [] .readError).fread = ([], fopen [] .readError) := by
  simp [FileStream.fread, fopen]

theorem round_eof (h : file.eof = true) :
    cPipeRound writes ⟨file, calls, accepted⟩ = .inr (accepted, .success) := by
  simp [cPipeRound, h]

theorem round_empty (heof : file.eof = false) (h : file.fread = ([], file')) :
    cPipeRound writes ⟨file, calls, accepted⟩ = .inl ⟨file', calls, accepted⟩ := by
  simp [cPipeRound, heof, h]

theorem round_failed (heof : file.eof = false) (h : file.fread = (bytes, file'))
    (hdata : bytes ≠ []) (hfail : writes calls = -1) :
    cPipeRound writes ⟨file, calls, accepted⟩ = .inr (accepted, .minusOne) := by
  have hpos := List.length_pos_iff.mpr hdata
  simp [cPipeRound, heof, h, hpos, hfail]

theorem round_written (heof : file.eof = false) (h : file.fread = (bytes, file'))
    (hdata : bytes ≠ []) (hgo : writes calls ≠ -1) :
    cPipeRound writes ⟨file, calls, accepted⟩ =
      .inl ⟨file', calls + 1, accepted ++ bytes.take (writes calls).toNat⟩ := by
  have hpos := List.length_pos_iff.mpr hdata
  simp [cPipeRound, heof, h, hpos, hgo]

/-! ## The client on the chunks -/

/-- The chunks with the values of the calls of `write` for them. -/
def callsOf (writes : ℕ → ℤ) : ℕ → List (List UInt8) → List (List UInt8 × ℤ)
  | _, [] => []
  | calls, bytes :: rest =>
    (bytes, writes calls) :: callsOf writes (if bytes.length > 0 then calls + 1 else calls) rest

/-- From this file on the loop does what the client does on these chunks. -/
def Runs (writes : ℕ → ℤ) (file : FileStream) (chunks : List (List UInt8)) : Prop :=
  ∀ calls accepted, LoopEnds (cPipeRound writes) ⟨file, calls, accepted⟩
    (accepted ++ (cPipe.run (callsOf writes calls chunks)).1,
      (cPipe.run (callsOf writes calls chunks)).2)

theorem Runs.nil (h : file.eof = true) : Runs writes file [] := by
  intro calls accepted
  rw [callsOf, FileClient.run, List.append_nil]
  exact .stop (round_eof h)

/-- One round, and the client on one chunk. -/
theorem Runs.cons (heof : file.eof = false) (h : file.fread = (bytes, file'))
    (hrest : Runs writes file' chunks) : Runs writes file (bytes :: chunks) := by
  intro calls accepted
  by_cases hdata : bytes = []
  · rw [hdata] at h ⊢
    have hclient : cPipe.run (callsOf writes calls ([] :: chunks)) =
        cPipe.run (callsOf writes calls chunks) := by
      simp [callsOf, FileClient.run, cPipe]
    rw [hclient]
    exact (hrest calls accepted).again (round_empty heof h)
  · have hpos := List.length_pos_iff.mpr hdata
    by_cases hfail : writes calls = -1
    · have hclient : cPipe.run (callsOf writes calls (bytes :: chunks)) = ([], .minusOne) := by
        simp [callsOf, FileClient.run, cPipe, hpos, hfail]
      rw [hclient, List.append_nil]
      exact .stop (round_failed heof h hdata hfail)
    · have hclient : cPipe.run (callsOf writes calls (bytes :: chunks)) =
          (bytes.take (writes calls).toNat ++ (cPipe.run (callsOf writes (calls + 1) chunks)).1,
            (cPipe.run (callsOf writes (calls + 1) chunks)).2) := by
        simp [callsOf, FileClient.run, cPipe, hpos, hfail]
      rw [hclient, ← List.append_assoc]
      exact (hrest _ _).again (round_written heof h hdata hfail)

/-- At the end of the file the loop is the client on what was read. -/
theorem runs_endOfFile (writes : ℕ → ℤ) (pending : List Block) (last : Block) :
    Runs writes (fopen pending (.endOfFile last)) (pending.map (·.val) ++ [last.val]) := by
  induction pending with
  | nil => exact .cons rfl fread_endOfFile (.nil rfl)
  | cons block pending ih => exact .cons rfl fread_cons ih

theorem readUntilEof_of_lt {file : List UInt8} (h : file.length < bufferSize) :
    readUntilEof file = [file] := by
  unfold readUntilEof
  by_cases hfile : file = []
  · simp [hfile, chunks]
  · have hlen := List.length_pos_iff.mpr hfile
    have hmod : ¬file.length % bufferSize = 0 := by
      rw [Nat.mod_eq_of_lt h]
      omega
    rw [if_neg hmod, chunks_of_ne_nil (by decide) hfile, List.take_of_length_le h.le,
      List.drop_of_length_le h.le]
    simp [chunks]

theorem readUntilEof_of_le {file : List UInt8} (h : bufferSize ≤ file.length) :
    readUntilEof file = file.take bufferSize :: readUntilEof (file.drop bufferSize) := by
  have hfile : file ≠ [] := by
    rintro rfl
    exact absurd h (by decide)
  unfold readUntilEof
  rw [chunks_of_ne_nil (by decide) hfile, List.length_drop, ← Nat.mod_eq_sub_mod h]
  split_ifs
  · rfl
  · rfl

/-- What is read from a file are the blocks of such a stream. -/
theorem exists_blocks (file : List UInt8) : ∃ (pending : List Block) (last : Block),
    pending.map (·.val) ++ [last.val] = readUntilEof file := by
  induction h : file.length using Nat.strongRecOn generalizing file with
  | _ n ih =>
    rcases Nat.lt_or_ge file.length bufferSize with hlt | hle
    · exact ⟨[], ⟨file, hlt.le⟩, (readUntilEof_of_lt hlt).symm⟩
    · have hpos : 0 < bufferSize := by decide
      have hdrop : (file.drop bufferSize).length < n := by
        rw [List.length_drop]
        omega
      obtain ⟨pending, last, hblocks⟩ := ih _ hdrop _ rfl
      refine ⟨⟨file.take bufferSize, List.length_take_le _ _⟩ :: pending, last, ?_⟩
      rw [readUntilEof_of_le hle, ← hblocks, List.map_cons, List.cons_append]

/-- For a file that can be read the loop is the client on the file. -/
theorem exists_runs (file : List UInt8) : ∃ pending last,
    ∀ writes, Runs writes (fopen pending (.endOfFile last)) (cPipe.read file) := by
  obtain ⟨pending, last, hblocks⟩ := exists_blocks file
  have hread : pending.map (·.val) ++ [last.val] = cPipe.read file := hblocks
  exact ⟨pending, last, fun writes => hread ▸ runs_endOfFile writes pending last⟩

/-! ## An error that stays -/

/-- An error at the first `fread`: the next round is the same. -/
theorem not_loopEnds_readError {b : List UInt8 × Ending} :
    ¬LoopEnds (cPipeRound writes) ⟨fopen [] .readError, calls, accepted⟩ b := by
  apply not_loopEnds_of_invariant fun s => s = ⟨fopen [] .readError, calls, accepted⟩
  · rintro s rfl
    exact ⟨_, round_empty rfl fread_readError, rfl⟩
  · rfl

/-- Before an error that stays only a `write` that fails ends the loop. -/
theorem readError_ends_iff :
    (∃ b, LoopEnds (cPipeRound writes) ⟨fopen pending .readError, calls, accepted⟩ b) ↔
      ∃ n < dataReads pending, writes (calls + n) = -1 := by
  induction pending generalizing calls accepted with
  | nil => simp [not_loopEnds_readError, dataReads]
  | cons block pending ih =>
    have hread : (fopen (block :: pending) .readError).fread =
      (block.val, fopen pending .readError) := fread_cons
    by_cases hdata : block.val = []
    · have hcount : dataReads (block :: pending) = dataReads pending := by
        simp [dataReads, hdata]
      rw [hdata] at hread
      simp only [loopEnds_iff_of_again (round_empty rfl hread), ih, hcount]
    · have hcount : dataReads (block :: pending) = dataReads pending + 1 := by
        simp [dataReads, hdata]
      have hfirst : (∃ n < dataReads pending + 1, writes (calls + n) = -1) ↔
          writes calls = -1 ∨ ∃ n < dataReads pending, writes (calls + 1 + n) = -1 := by
        simp only [Nat.exists_lt_succ_left, Nat.add_zero, Nat.add_assoc, Nat.add_comm 1]
      rw [hcount, hfirst]
      by_cases hfail : writes calls = -1
      · have hround : cPipeRound writes ⟨fopen (block :: pending) .readError, calls, accepted⟩ =
            .inr (accepted, .minusOne) := round_failed rfl hread hdata hfail
        exact iff_of_true ⟨_, .stop hround⟩ (.inl hfail)
      · simp only [loopEnds_iff_of_again (round_written rfl hread hdata hfail), ih, hfail,
          false_or]

/-- **The loop of `c_pipe`.** It ends if and only if the stream comes to the end of the
    file, or the `write` for some data in front of the error fails. -/
theorem cPipe_ends_iff (pending : List Block) (tail : StreamTail) (writes : ℕ → ℤ) :
    (∃ b, LoopEnds (cPipeRound writes) ⟨fopen pending tail, 0, []⟩ b) ↔
      (∃ last, tail = .endOfFile last) ∨ ∃ n < dataReads pending, writes n = -1 := by
  cases tail with
  | endOfFile last =>
    have hends := runs_endOfFile writes pending last 0 []
    exact iff_of_true ⟨_, hends⟩ (.inl ⟨last, rfl⟩)
  | readError =>
    rw [readError_ends_iff]
    simp

/-- A directory under the name `file.txt` can be opened, and no `fread` of it succeeds. -/
theorem cPipe_unreadable : ¬∀ pending tail writes,
    ∃ b, LoopEnds (cPipeRound writes) ⟨fopen pending tail, 0, []⟩ b := by
  intro hall
  obtain ⟨b, hb⟩ := hall [] .readError fun _ => 0
  exact not_loopEnds_readError hb

/-! ## The other loop -/

/-- What `fread` can still read. -/
def FileStream.left (file : FileStream) : ℕ :=
  file.pending.length + if file.eof then 0 else 1

/-- An `fread` that reads something brings the stream closer to its end. -/
theorem left_fread (h : file.fread = (bytes, file')) (hdata : bytes ≠ []) :
    file'.left < file.left := by
  unfold FileStream.fread at h
  split_ifs at h with heof
  · exact absurd (Prod.mk.inj h).1.symm hdata
  · split at h <;> obtain ⟨hbytes, hfile⟩ := Prod.mk.inj h
    · rename_i block rest hpending
      simp [← hfile, FileStream.left, hpending, heof]
    · rename_i last hpending htail
      simp [← hfile, FileStream.left, hpending, heof]
    · exact absurd hbytes.symm hdata

theorem cIpv6TcpRound_cases (sends : ℕ → ℤ) (s : CopyLoop) :
    (∃ s', cIpv6TcpRound sends s = .inl s' ∧ s'.file.left < s.file.left) ∨
      ∃ b, cIpv6TcpRound sends s = .inr b := by
  unfold cIpv6TcpRound
  dsimp only
  split_ifs with hpos hfail
  · exact .inr ⟨_, rfl⟩
  · exact .inl ⟨_, rfl, left_fread rfl (List.length_pos_iff.mp hpos)⟩
  · exact .inr ⟨_, rfl⟩

/-- The loop of `c_ipv6_tcp` ends on every stream. -/
theorem cIpv6Tcp_ends (sends : ℕ → ℤ) (s : CopyLoop) :
    ∃ b, LoopEnds (cIpv6TcpRound sends) s b := by
  have hends : ∃ b, LoopEnds (cIpv6TcpRound sends) s b ∧ True := by
    apply loopEnds_of_variant (fun _ => True) (fun s => s.file.left) _ trivial
    simpa using cIpv6TcpRound_cases sends
  simpa using hends

end ChatOnC.FileTransfer
