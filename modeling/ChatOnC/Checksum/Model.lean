import ChatOnC.Common.Loop
import Mathlib.Algebra.Group.Nat.Defs
import Mathlib.Data.List.Basic
import Mathlib.Tactic.Common

/-!
# The two checksum functions

`compute_checksum` (`server.c` lines 37–51) and `calculate_checksum`
(`prartb_2.c` lines 24–49), on a little-endian machine with `int` of 32 and
`unsigned long` of 64 bits. Both add the 16-bit words of a buffer and the odd
byte behind them, and add what exceeds 16 bits of the sum back to its low half.

An `unsigned long` wraps, and `ULong.wrapped` notes that it has. The overflow of
an `int` is undefined, and so is a read behind the end of the buffer: `Fault`.
-/

namespace ChatOnC.Checksum

open ChatOnC.Common

/-- What C leaves undefined. -/
inductive Fault
  | outOfBounds
  | signedOverflow
deriving DecidableEq, Repr

/-- The 16-bit word at a pointer to these two bytes. -/
def word (lo hi : UInt8) : BitVec 16 := hi.toBitVec ++ lo.toBitVec

/-- The loops `while (left > 1) { sum += *w++; left -= 2; }` of both functions
    (`server.c` lines 40–43, `prartb_2.c` lines 31–35), for the bytes from `w`
    on and the `+=` of the sum's type. -/
def sumWords {σ : Type*} (add : σ → BitVec 16 → Except Fault σ) :
    σ → List UInt8 → ℕ → Except Fault (σ × List UInt8 × ℕ)
  | sum, lo :: hi :: w, left + 2 => do
    let sum ← add sum (word lo hi)
    sumWords add sum w left
  | _, _, _ + 2 => throw .outOfBounds
  | sum, w, left => return (sum, w, left)

/-- `*((unsigned char *)w)`. -/
def readByte : List UInt8 → Except Fault UInt8
  | [] => throw .outOfBounds
  | c :: _ => return c

/-! ## `compute_checksum` -/

/-- An `unsigned long` sum, and whether an addition to it has wrapped. -/
structure ULong where
  val : BitVec 64
  wrapped : Bool

/-- `sum + x`. -/
def ULong.add (sum : ULong) (x : BitVec 64) : ULong where
  val := sum.val + x
  wrapped := sum.wrapped || sum.val.uaddOverflow x

/-- The sum over the buffer (lines 38–46). -/
def computeSum (buffer : List UInt8) (length : ℕ) : Except Fault ULong := do
  let (sum, buf, length) ←
    sumWords (fun sum x => pure (sum.add (x.setWidth 64))) ⟨0, false⟩ buffer length
  if length > 0 then
    let c ← readByte buf
    return sum.add (c.toBitVec.setWidth 64)
  else
    return sum

/-- One round of `while (sum >> 16)` (lines 47–49). -/
def foldRound (sum : ULong) : ULong ⊕ ULong :=
  if sum.val >>> 16 ≠ 0 then
    .inl (ULong.add ⟨sum.val &&& 0xFFFF, sum.wrapped⟩ (sum.val >>> 16))
  else
    .inr sum

/-- `compute_checksum(buffer, length)`: the answer, and whether the sum has
    wrapped. `fuel` bounds the rounds of the second loop. -/
def computeChecksum (fuel : ℕ) (buffer : List UInt8) (length : ℕ) :
    Option (Except Fault (BitVec 16 × Bool)) :=
  match computeSum buffer length with
  | .error e => some (.error e)
  | .ok sum =>
    (loop foldRound fuel sum).map fun sum => .ok ((~~~sum.val).setWidth 16, sum.wrapped)

/-- `compute_checksum(buffer, length)` returns. -/
def ComputeChecksumReturns (buffer : List UInt8) (length : ℕ)
    (result : Except Fault (BitVec 16 × Bool)) : Prop :=
  ∃ fuel, computeChecksum fuel buffer length = some result

/-! ## `calculate_checksum` -/

/-- `sum + x` for operands of type `int`. -/
def addInt (sum x : BitVec 32) : Except Fault (BitVec 32) :=
  if sum.saddOverflow x then throw .signedOverflow else return sum + x

/-- The low byte of an `unsigned short` is set through a pointer to it. -/
def setLowByte (answer : BitVec 16) (c : UInt8) : BitVec 16 :=
  answer.extractLsb' 8 8 ++ c.toBitVec

/-- The sum over the buffer (lines 26–41). -/
def calculateSum (paddress : List UInt8) (len : ℕ) : Except Fault (BitVec 32) := do
  let (sum, w, nleft) ← sumWords (fun sum x => addInt sum (x.setWidth 32)) 0 paddress len
  if nleft = 1 then
    let c ← readByte w
    addInt sum ((setLowByte 0 c).setWidth 32)
  else
    return sum

/-- The two folds and the complement (lines 44–48). -/
def foldTwice (sum : BitVec 32) : Except Fault (BitVec 16) := do
  let sum ← addInt (sum.sshiftRight 16) (sum &&& 0xffff)
  let sum ← addInt sum (sum.sshiftRight 16)
  return (~~~sum).setWidth 16

/-- `calculate_checksum(paddress, len)`. -/
def calculateChecksum (paddress : List UInt8) (len : ℕ) : Except Fault (BitVec 16) := do
  let sum ← calculateSum paddress len
  foldTwice sum

/-- The two bytes `memcpy` takes from an `unsigned short`. -/
def shortBytes (x : BitVec 16) : List UInt8 :=
  [.ofBitVec (x.extractLsb' 0 8), .ofBitVec (x.extractLsb' 8 8)]

/-! ## What is summed -/

/-- The words of a buffer, the odd byte as one of them. -/
def words : List UInt8 → List (BitVec 16)
  | lo :: hi :: buf => word lo hi :: words buf
  | [c] => [c.toBitVec.setWidth 16]
  | [] => []

/-- The sum of the little-endian words of a buffer and of its odd byte. -/
def wordSum : List UInt8 → ℕ
  | lo :: hi :: buf => lo.toNat + 256 * hi.toNat + wordSum buf
  | [c] => c.toNat
  | [] => 0

end ChatOnC.Checksum
