import ChatOnC.PerformanceTest.Model

/-!
# The sending loops

The two counters of `perform_uds_stream_client_test` and
`perform_server_performance_test` always add up to the size, and
`perform_pipe_client_test` computes the second one from the first.

* `write_loops_faithful`: none of the three loops skips or repeats a byte, whatever
  the calls return.
-/

namespace ChatOnC.PerformanceTest

open ChatOnC.Common

theorem udsStreamLoop_tracks (N : ℕ) :
    Tracks (udsStreamLoop N) N fun n => ⟨n, N - n⟩ where
  start := by
    change Counters.mk 0 N = ⟨(0 : ℕ), N - (0 : ℕ)⟩
    rw [Counters.mk.injEq]
    omega
  more n hn := by
    unfold udsStreamLoop
    dsimp only
    rw [decide_eq_true_iff]
    omega
  offset n _ := rfl
  request n _ := rfl
  advance n k _ := by
    change Counters.mk (n + k) (N - n - k) = ⟨(n + k : ℕ), N - (n + k : ℕ)⟩
    rw [Counters.mk.injEq]
    omega

theorem pipeLoop_tracks (N : ℕ) : Tracks (pipeLoop N) N fun n => n where
  start := rfl
  more n _ := by
    unfold pipeLoop
    rw [decide_eq_true_iff]
    omega
  offset n _ := rfl
  request n _ := rfl
  advance n k _ := (Int.natCast_add n k).symm

/-- The loop of the server is that of the stream client, over two bytes more. -/
theorem serverLoop_eq (dataSize : ℕ) : serverLoop dataSize = udsStreamLoop (dataSize + 2) := by
  unfold serverLoop udsStreamLoop
  rw [Int.natCast_add]
  rfl

/-- **The sending loops.** In front of each call the bytes sent are those of the buffer
    up to the offset, and the others are requested; the loops end, and without a failed
    call not before all is sent. -/
theorem write_loops_faithful (buffer checksummed : List UInt8) (dataSize : ℕ)
    (hsize : checksummed.length = dataSize + 2) :
    Faithful (udsStreamLoop buffer.length) buffer ∧ Faithful (pipeLoop buffer.length) buffer ∧
      Faithful (serverLoop dataSize) checksummed := by
  refine ⟨(udsStreamLoop_tracks _).faithful, (pipeLoop_tracks _).faithful, ?_⟩
  rw [serverLoop_eq, ← hsize]
  exact (udsStreamLoop_tracks _).faithful

theorem write_loops_faithful_threeBytes :
    Faithful (udsStreamLoop 3) [(1 : UInt8), 2, 3] ∧ Faithful (pipeLoop 3) [(1 : UInt8), 2, 3] ∧
      Faithful (serverLoop 1) [(1 : UInt8), 2, 3] :=
  write_loops_faithful [1, 2, 3] [1, 2, 3] 1 rfl

end ChatOnC.PerformanceTest
