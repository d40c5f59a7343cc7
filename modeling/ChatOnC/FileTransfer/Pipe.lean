import ChatOnC.Common.System
import ChatOnC.FileTransfer.Model

/-!
# The named pipe

Models of the loops of `c_pipe` (`client.c`, lines 387–401) and of `s_pipe`
(`server.c`, lines 561–582), from the moment both have opened the pipe. The pipe is a
stream of bytes: `write` appends a chunk as a whole, `read` takes what the outside
world lets it take of what is there, and nothing only when the pipe is empty and its
writer has closed it. No call fails.

* `pipe_round_trip`: when both functions have returned, the file received is the file.
* `exists_both_returned`: for every file there are such runs.
-/

namespace ChatOnC.FileTransfer

open ChatOnC.Common

/-- Where `c_pipe` stands: at the test of `feof(file)`, or behind `fread`. -/
inductive ClientPc
  | test
  | write (buffer : List UInt8)
  | returned
  deriving DecidableEq

/-- Both functions and the pipe between them. -/
structure Pipe where
  /-- What `fread` has not read yet, and the end-of-file indicator. -/
  unread : List UInt8
  eof : Bool
  client : ClientPc
  pipe : List UInt8
  /-- What `fwrite` has written to `received_file.txt`. -/
  receivedFile : List UInt8
  serverReturned : Bool
  deriving DecidableEq

/-- Who takes the next step. For the server the label says what `read` returns. -/
inductive PipeMove
  | client
  | server (bytesRead : ℕ)

/-- A step of `c_pipe`: the test and `fread`, or `write` of what was read. An `fread`
    that gives less than it was asked for has met the end of the file. -/
def Pipe.clientStep (s : Pipe) : Option Pipe :=
  match s.client with
  | .test =>
    if s.eof then some { s with client := .returned }
    else
      some { s with
        client := .write (s.unread.take bufferSize)
        unread := s.unread.drop bufferSize
        eof := (s.unread.take bufferSize).length < bufferSize }
  | .write buffer =>
    if buffer.length > 0 then some { s with client := .test, pipe := s.pipe ++ buffer }
    else some { s with client := .test }
  | .returned => none

/-- A step of `s_pipe`: `read`, and `fwrite` of what it has read. -/
def Pipe.serverStep (bytesRead : ℕ) (s : Pipe) : Option Pipe :=
  if s.serverReturned then none
  else if bytesRead = 0 then
    if s.pipe = [] ∧ s.client = .returned then some { s with serverReturned := true } else none
  else if bytesRead ≤ bufferSize ∧ bytesRead ≤ s.pipe.length then
    some { s with
      pipe := s.pipe.drop bytesRead
      receivedFile := s.receivedFile ++ s.pipe.take bytesRead }
  else none

/-- `c_pipe` and `s_pipe` on this file. -/
def pipeSystem (file : List UInt8) : System Pipe PipeMove where
  init :=
    { unread := file
      eof := false
      client := .test
      pipe := []
      receivedFile := []
      serverReturned := false }
  step
    | .client, s => s.clientStep
    | .server bytesRead, s => s.serverStep bytesRead

/-- What the client has read and not written yet. -/
def ClientPc.held : ClientPc → List UInt8
  | .write buffer => buffer
  | _ => []

/-- The invariant: no byte of the file is lost or moved, and who has returned has
    nothing left to do. -/
structure PipeInv (file : List UInt8) (s : Pipe) : Prop where
  flow : s.receivedFile ++ s.pipe ++ s.client.held ++ s.unread = file
  eof : s.eof = true → s.unread = []
  closed : s.client = .returned → s.eof = true
  drained : s.serverReturned = true → s.pipe = [] ∧ s.client = .returned

variable {file : List UInt8} {s s' : Pipe}

/-! ## What a step does -/

theorem clientStep_cases (h : s.clientStep = some s') :
    (s.client = .test ∧ s.eof = true ∧ s' = { s with client := .returned }) ∨
    (s.client = .test ∧ s.eof = false ∧
      s' = { s with
        client := .write (s.unread.take bufferSize)
        unread := s.unread.drop bufferSize
        eof := (s.unread.take bufferSize).length < bufferSize }) ∨
    ∃ buffer, s.client = .write buffer ∧
      s' = { s with client := .test, pipe := s.pipe ++ buffer } := by
  unfold Pipe.clientStep at h
  split at h
  · rename_i hclient
    split_ifs at h with heof
    · cases h
      exact .inl ⟨hclient, heof, rfl⟩
    · cases h
      exact .inr (.inl ⟨hclient, by simpa using heof, rfl⟩)
  · rename_i buffer hclient
    refine .inr (.inr ⟨buffer, hclient, ?_⟩)
    split_ifs at h with hlen
    · exact (Option.some.inj h).symm
    · rw [List.eq_nil_of_length_eq_zero (Nat.eq_zero_of_not_pos hlen), List.append_nil]
      exact (Option.some.inj h).symm
  · cases h

theorem serverStep_cases {bytesRead : ℕ} (h : s.serverStep bytesRead = some s') :
    s.serverReturned = false ∧
      ((s.pipe = [] ∧ s.client = .returned ∧ s' = { s with serverReturned := true }) ∨
      s' = { s with
        pipe := s.pipe.drop bytesRead
        receivedFile := s.receivedFile ++ s.pipe.take bytesRead }) := by
  unfold Pipe.serverStep at h
  split_ifs at h with hreturned hzero hend hread
  · cases h
    exact ⟨by simpa using hreturned, .inl ⟨hend.1, hend.2, rfl⟩⟩
  · cases h
    exact ⟨by simpa using hreturned, .inr rfl⟩

/-! ## The invariant -/

theorem pipeInv_client (hinv : PipeInv file s) (h : s.clientStep = some s') :
    PipeInv file s' := by
  obtain ⟨hflow, heof, hclosed, hdrained⟩ := hinv
  have hrunning : s.client ≠ .returned → s.serverReturned = false := by
    intro hne
    by_contra hreturned
    exact hne (hdrained (by simpa using hreturned)).2
  rcases clientStep_cases h with ⟨hclient, hend, rfl⟩ | ⟨hclient, hend, rfl⟩ |
    ⟨buffer, hclient, rfl⟩
  · rw [hclient] at hflow
    exact ⟨hflow, heof, fun _ => hend, fun hreturned => by
      simp [hrunning (by simp [hclient])] at hreturned⟩
  · rw [hclient] at hflow
    refine ⟨?_, ?_, by simp, fun hreturned => by
      simp [hrunning (by simp [hclient])] at hreturned⟩
    · rw [← hflow]
      simp [ClientPc.held]
    · -- a short `fread` leaves nothing
      intro hshort
      simp only [decide_eq_true_eq, List.length_take] at hshort
      exact List.drop_eq_nil_of_le (by omega)
  · rw [hclient] at hflow
    refine ⟨?_, heof, by simp, fun hreturned => by
      simp [hrunning (by simp [hclient])] at hreturned⟩
    rw [← hflow]
    simp [ClientPc.held]

theorem pipeInv_server {bytesRead : ℕ} (hinv : PipeInv file s)
    (h : s.serverStep bytesRead = some s') : PipeInv file s' := by
  obtain ⟨hflow, heof, hclosed, hdrained⟩ := hinv
  obtain ⟨hrunning, ⟨hpipe, hclient, rfl⟩ | rfl⟩ := serverStep_cases h
  · exact ⟨hflow, heof, hclosed, fun _ => ⟨hpipe, hclient⟩⟩
  · refine ⟨?_, heof, hclosed, fun hreturned => ?_⟩
    · have hsplit : s.receivedFile ++ s.pipe.take bytesRead ++ s.pipe.drop bytesRead =
          s.receivedFile ++ s.pipe := by rw [List.append_assoc, List.take_append_drop]
      rw [← hflow, ← hsplit]
    · simp [hrunning] at hreturned

theorem pipeInv_reach (hs : (pipeSystem file).Reachable s) : PipeInv file s := by
  apply hs.invariant
  · exact ⟨rfl, nofun, nofun, nofun⟩
  · rintro (_ | bytesRead) s s' - hinv hstep
    · exact pipeInv_client hinv hstep
    · exact pipeInv_server hinv hstep

/-- **The named pipe.** Whatever pieces `read` gives and in whatever order the two
    functions take their steps, when both have returned the file received is the file
    sent. -/
theorem pipe_round_trip (hs : (pipeSystem file).Reachable s) (hclient : s.client = .returned)
    (hserver : s.serverReturned = true) : s.receivedFile = file := by
  obtain ⟨hflow, heof, hclosed, hdrained⟩ := pipeInv_reach hs
  rw [(hdrained hserver).1, hclient, heof (hclosed hclient)] at hflow
  simpa [ClientPc.held] using hflow

theorem pipe_round_trip_threeBytes : ∃ s, (pipeSystem [1, 2, 3]).Reachable s ∧
    s.client = .returned ∧ s.serverReturned = true ∧ s.receivedFile = [1, 2, 3] := by
  have hrun : (pipeSystem [1, 2, 3]).exec
      [.client, .client, .server 2, .client, .server 1, .server 0]
      (pipeSystem [1, 2, 3]).init =
      some ⟨[], true, .returned, [], [1, 2, 3], true⟩ := by decide
  have hs := System.Reach.of_exec hrun
  exact ⟨_, hs, rfl, rfl, pipe_round_trip hs rfl rfl⟩

/-! ## Both functions return -/

/-- What is left of the way of the bytes, and of the tests. -/
def Pipe.work (s : Pipe) : ℕ :=
  4 * s.unread.length + 3 * s.client.held.length + 2 * s.pipe.length +
    (if s.eof then 0 else 3) + (if s.serverReturned then 0 else 1) +
    match s.client with
    | .test => 1
    | .write _ => 2
    | .returned => 0

theorem clientStep_work (h : s.client ≠ .returned) :
    ∃ s', s.clientStep = some s' ∧ s'.work < s.work := by
  cases hclient : s.client with
  | test =>
    by_cases heof : s.eof = true
    · refine ⟨_, by rw [Pipe.clientStep, hclient]; exact if_pos heof, ?_⟩
      simp [Pipe.work, hclient, ClientPc.held]
    · have hsize : bufferSize = 1024 := rfl
      refine ⟨_, by rw [Pipe.clientStep, hclient]; exact if_neg heof, ?_⟩
      simp only [Pipe.work, hclient, ClientPc.held, heof, List.length_take, List.length_drop,
        List.length_nil, decide_eq_true_eq, Bool.false_eq_true, if_false]
      split_ifs <;> omega
  | write buffer =>
    by_cases hlen : buffer.length > 0
    · refine ⟨_, by rw [Pipe.clientStep, hclient]; exact if_pos hlen, ?_⟩
      simp only [Pipe.work, hclient, ClientPc.held, List.length_append, List.length_nil]
      omega
    · refine ⟨_, by rw [Pipe.clientStep, hclient]; exact if_neg hlen, ?_⟩
      simp only [Pipe.work, hclient, ClientPc.held, List.length_nil]
      omega
  | returned => exact absurd hclient h

theorem serverStep_work (hclient : s.client = .returned) (h : s.serverReturned = false) :
    ∃ bytesRead s', s.serverStep bytesRead = some s' ∧ s'.work < s.work := by
  by_cases hpipe : s.pipe = []
  · refine ⟨0, { s with serverReturned := true }, ?_, ?_⟩
    · simp [Pipe.serverStep, h, hpipe, hclient]
    · simp [Pipe.work, h]
  · have hlen : 0 < s.pipe.length := List.length_pos_iff.mpr hpipe
    have hone : 1 ≤ bufferSize ∧ 1 ≤ s.pipe.length := ⟨by decide, hlen⟩
    refine ⟨1, _, by
      rw [Pipe.serverStep, if_neg (by simp [h]), if_neg Nat.one_ne_zero, if_pos hone], ?_⟩
    · simp only [Pipe.work, List.length_drop]
      omega

theorem exists_both_returned (file : List UInt8) :
    ∃ s, (pipeSystem file).Reachable s ∧ s.client = .returned ∧ s.serverReturned = true := by
  refine System.Reach.exists_final Pipe.work ?_ System.Reach.init
  intro s _ hnot
  by_cases hclient : s.client = .returned
  · have hrunning : s.serverReturned = false := by
      by_contra hreturned
      exact hnot ⟨hclient, by simpa using hreturned⟩
    obtain ⟨bytesRead, s', hstep, hwork⟩ := serverStep_work hclient hrunning
    exact ⟨.server bytesRead, s', trivial, hstep, hwork⟩
  · obtain ⟨s', hstep, hwork⟩ := clientStep_work hclient
    exact ⟨.client, s', trivial, hstep, hwork⟩

end ChatOnC.FileTransfer
