import ChatOnC.Checksum.Model
import ChatOnC.Common.PartialWrite

/-!
# The performance tests

The senders of `prartb_2.c`: the messages of those that send a checksum along with
their data, and the loops of those that send in parts. The data and its size
(`DATA_SIZE`, `CHUNK_SIZE`, `100 * 1024 * 1024`) are parameters, and the machine is
little-endian. The timers, the reports and the connection set-up are left out.
-/

namespace ChatOnC.PerformanceTest

open ChatOnC.Checksum ChatOnC.Common

/-! ## The messages -/

/-- `htons(x)`. -/
def htons (x : BitVec 16) : BitVec 16 := x.extractLsb' 0 8 ++ x.extractLsb' 8 8

/-- `memcpy` of `src` over the last bytes of `dst`. -/
def memcpyTail (dst src : List UInt8) : Except Fault (List UInt8) :=
  if dst.length < src.length then throw .outOfBounds
  else return dst.take (dst.length - src.length) ++ src

/-- `perform_ipv6_tcp_client_test`, lines 287–294: the checksum of the data goes over
    their last two bytes. -/
def performIpv6TcpClientTest (testData : List UInt8) : Except Fault (List UInt8) := do
  let checksum ← calculateChecksum testData testData.length
  memcpyTail testData (shortBytes checksum)

/-- The message of the other three: the data, and behind them the checksum that
    `calculate_checksum` returns for half their size, in a byte order. -/
def appendChecksum (order : BitVec 16 → BitVec 16) (data : List UInt8) :
    Except Fault (List UInt8) := do
  let checksum ← calculateChecksum data (data.length / 2)
  return data ++ shortBytes (order checksum)

/-- `perform_mmap_client_test`, lines 582–603. -/
def performMmapClientTest (data : List UInt8) : Except Fault (List UInt8) :=
  appendChecksum htons data

/-- `perform_pipe_client_test`, lines 633–674. -/
def performPipeClientTest (data : List UInt8) : Except Fault (List UInt8) :=
  appendChecksum id data

/-- `perform_server_performance_test`, lines 748–780. -/
def performServerPerformanceTest (buffer : List UInt8) : Except Fault (List UInt8) :=
  appendChecksum id buffer

/-! ## The loops -/

/-- The two variables of a loop that counts up and down. -/
structure Counters where
  sent : ℤ
  remaining : ℤ
deriving DecidableEq, Repr

/-- `perform_uds_stream_client_test`, lines 499–511: `total_sent` and `remaining`. -/
def udsStreamLoop (dataSize : ℕ) : WriteLoop Counters where
  start := ⟨0, dataSize⟩
  more v := v.remaining > 0
  offset v := v.sent
  request v := v.remaining
  advance v sent := ⟨v.sent + sent, v.remaining - sent⟩

/-- `perform_pipe_client_test`, lines 653–665: `total_written`. -/
def pipeLoop (chunkSize : ℕ) : WriteLoop ℤ where
  start := 0
  more totalWritten := totalWritten < chunkSize
  offset totalWritten := totalWritten
  request totalWritten := chunkSize - totalWritten
  advance totalWritten written := totalWritten + written

/-- `perform_server_performance_test`, lines 768–780: `sent_size` and `remaining_size`,
    over the data and the checksum. -/
def serverLoop (dataSize : ℕ) : WriteLoop Counters where
  start := ⟨0, dataSize + 2⟩
  more v := v.remaining > 0
  offset v := v.sent
  request v := v.remaining
  advance v writeSize := ⟨v.sent + writeSize, v.remaining - writeSize⟩

end ChatOnC.PerformanceTest
