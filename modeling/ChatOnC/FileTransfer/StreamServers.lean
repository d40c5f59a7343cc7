import Mathlib.Data.Int.Notation
import Mathlib.Data.List.Basic
import Mathlib.Tactic.Common

/-!
# The file servers over streams

Models of the loops of `s_ipv4_tcp`, `s_ipv6_tcp`, `s_uds_stream` and `s_pipe`
(`server.c`), from the first `gettimeofday` to the end of the function, on what `recv`
or `read` return. `totalBytesRead` and `checksum` are left out, as nothing reads them.

* `judges_iff`: two of them tell a failed read from the end of the stream, and the
  other two report a time for both.
* `error_timed`: the four of them on a read that fails behind one that does not.
-/

namespace ChatOnC.FileTransfer

/-! ## The servers -/

/-- `struct timeval`. -/
structure Timeval where
  sec : ℤ
  usec : ℤ
deriving DecidableEq, Repr

/-- `time`: the microseconds between the two calls of `gettimeofday`. -/
def elapsed (start stop : Timeval) : ℤ :=
  (stop.sec * 1000000 + stop.usec) - (start.sec * 1000000 + start.usec)

/-- How a server ends: `return time;` or `exit(EXIT_FAILURE);`. -/
inductive Report
  | time (micros : ℤ)
  | failure
deriving DecidableEq, Repr

/-- What a loop does with `bytesRead`. -/
inductive Round
  | again
  | leave
  | fail
deriving DecidableEq, Repr

/-- A server: its loop, and whether it gives up behind the loop. -/
structure StreamServer where
  round : ℤ → Round
  failsBehind : ℤ → Bool

/-- The server on the values that its calls return; `none` while it waits for the next. -/
def StreamServer.run (server : StreamServer) (start stop : Timeval) : List ℤ → Option Report
  | [] => none
  | bytesRead :: rest =>
    match server.round bytesRead with
    | .again => server.run start stop rest
    | .fail => some .failure
    | .leave =>
      if server.failsBehind bytesRead then some .failure else some (.time (elapsed start stop))

/-- `server.c`, lines 100–125. -/
def sIpv4Tcp : StreamServer where
  round bytesRead := if bytesRead = 0 then .leave else if bytesRead = -1 then .fail else .again
  failsBehind _ := false

/-- `server.c`, lines 173–192. -/
def sIpv6Tcp : StreamServer where
  round bytesRead := if bytesRead ≤ 0 then .leave else .again
  failsBehind _ := false

/-- `server.c`, lines 439–462. -/
def sUdsStream : StreamServer where
  round bytesRead := if bytesRead > 0 then .again else .leave
  failsBehind bytesRead := bytesRead = -1

/-- `server.c`, lines 561–581. -/
def sPipe : StreamServer where
  round bytesRead := if bytesRead > 0 then .again else .leave
  failsBehind _ := false

/-! ## The end of a transfer -/

variable {server : StreamServer} {start stop : Timeval} {counts : List ℤ} {last : ℤ}

/-- The server returns a time exactly if the last value is 0, and fails without one if it
    is `-1`. -/
def Judges (server : StreamServer) (start stop : Timeval) (reads : List ℤ) (last : ℤ) : Prop :=
  ((∃ micros, server.run start stop reads = some (.time micros)) ↔ last = 0) ∧
    (last = -1 → server.run start stop reads = some .failure)

/-- The counts in front of the last value do not matter. -/
theorem run_counts (hagain : ∀ n > 0, server.round n = .again) (hcounts : ∀ n ∈ counts, n > 0)
    (rest : List ℤ) : server.run start stop (counts ++ rest) = server.run start stop rest := by
  induction counts with
  | nil => rfl
  | cons n counts ih =>
    rw [List.forall_mem_cons] at hcounts
    rw [List.cons_append, StreamServer.run, hagain n hcounts.1]
    exact ih hcounts.2

theorem sIpv4Tcp_again (n : ℤ) (hn : n > 0) : sIpv4Tcp.round n = .again := by
  unfold sIpv4Tcp
  dsimp only
  rw [if_neg (by omega), if_neg (by omega)]

theorem sIpv6Tcp_again (n : ℤ) (hn : n > 0) : sIpv6Tcp.round n = .again := by
  unfold sIpv6Tcp
  exact if_neg (by omega)

theorem sUdsStream_again (n : ℤ) (hn : n > 0) : sUdsStream.round n = .again := if_pos hn

theorem sPipe_again (n : ℤ) (hn : n > 0) : sPipe.round n = .again := if_pos hn

theorem judges_counts (hagain : ∀ n > 0, server.round n = .again) (hcounts : ∀ n ∈ counts, n > 0) :
    Judges server start stop (counts ++ [last]) last ↔ Judges server start stop [last] last := by
  unfold Judges
  rw [run_counts hagain hcounts]

/-- At the end of the stream a server that returns a time is right. -/
theorem judges_of_time (hrun : server.run start stop [0] = some (.time (elapsed start stop))) :
    Judges server start stop [0] 0 :=
  ⟨iff_of_true ⟨_, hrun⟩ rfl, nofun⟩

/-- At an error a server that fails is right. -/
theorem judges_of_failure (hrun : server.run start stop [-1] = some .failure) :
    Judges server start stop [-1] (-1) := by
  refine ⟨iff_of_false ?_ nofun, fun _ => hrun⟩
  rintro ⟨micros, htime⟩
  rw [hrun] at htime
  exact nomatch htime

/-- At an error a server that returns a time is wrong. -/
theorem not_judges_of_time (hrun : server.run start stop [-1] =
    some (.time (elapsed start stop))) : ¬Judges server start stop [-1] (-1) := by
  rintro ⟨-, hfailure⟩
  rw [hfailure rfl] at hrun
  exact nomatch hrun

/-- A server that reports a time in both cases is right about the end of the stream. -/
theorem judges_iff_of_time (hend : server.run start stop [0] = some (.time (elapsed start stop)))
    (herror : server.run start stop [-1] = some (.time (elapsed start stop)))
    (hlast : last = 0 ∨ last = -1) : Judges server start stop [last] last ↔ last = 0 := by
  rcases hlast with rfl | rfl
  · exact iff_of_true (judges_of_time hend) rfl
  · exact iff_of_false (not_judges_of_time herror) nofun

/-- **The end of a transfer.** After any reads, the end of the stream or a failed read:
    `s_ipv4_tcp` and `s_uds_stream` report a time exactly for the first and fail on the
    second, and `s_ipv6_tcp` and `s_pipe` do if it is the first. -/
theorem judges_iff (hcounts : ∀ n ∈ counts, n > 0) (hlast : last = 0 ∨ last = -1) :
    Judges sIpv4Tcp start stop (counts ++ [last]) last ∧
      Judges sUdsStream start stop (counts ++ [last]) last ∧
      (Judges sIpv6Tcp start stop (counts ++ [last]) last ↔ last = 0) ∧
      (Judges sPipe start stop (counts ++ [last]) last ↔ last = 0) := by
  rw [judges_counts sIpv4Tcp_again hcounts, judges_counts sUdsStream_again hcounts,
    judges_counts sIpv6Tcp_again hcounts, judges_counts sPipe_again hcounts]
  refine ⟨?_, ?_, judges_iff_of_time rfl rfl hlast, judges_iff_of_time rfl rfl hlast⟩
  · rcases hlast with rfl | rfl
    · exact judges_of_time rfl
    · exact judges_of_failure rfl
  · rcases hlast with rfl | rfl
    · exact judges_of_time rfl
    · exact judges_of_failure rfl

theorem judges_iff_threeReads :
    Judges sIpv4Tcp ⟨5, 0⟩ ⟨5, 900⟩ ([1024, 1024, 7] ++ [0]) 0 ∧
      Judges sUdsStream ⟨5, 0⟩ ⟨5, 900⟩ ([1024, 1024, 7] ++ [0]) 0 ∧
      (Judges sIpv6Tcp ⟨5, 0⟩ ⟨5, 900⟩ ([1024, 1024, 7] ++ [0]) 0 ↔ (0 : ℤ) = 0) ∧
      (Judges sPipe ⟨5, 0⟩ ⟨5, 900⟩ ([1024, 1024, 7] ++ [0]) 0 ↔ (0 : ℤ) = 0) :=
  judges_iff (by decide) (.inl rfl)

/-- One read and an error: two of the servers report 900 microseconds. -/
theorem error_timed :
    sIpv4Tcp.run ⟨5, 0⟩ ⟨5, 900⟩ [1024, -1] = some .failure ∧
      sUdsStream.run ⟨5, 0⟩ ⟨5, 900⟩ [1024, -1] = some .failure ∧
      sIpv6Tcp.run ⟨5, 0⟩ ⟨5, 900⟩ [1024, -1] = some (.time 900) ∧
      sPipe.run ⟨5, 0⟩ ⟨5, 900⟩ [1024, -1] = some (.time 900) := by
  decide

end ChatOnC.FileTransfer
