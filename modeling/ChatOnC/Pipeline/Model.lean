import ChatOnC.ActiveObject.Model
import Mathlib.Tactic.Common

/-!
# The number pipeline (`task5_designPattren/st_pipeline.c`)

Model of `isPrime`, of the four stage functions and of the chain that `main`
builds from them. A task is a pointer; what it points to, and what each stage
has printed, is the memory of the chain. Both `partD_b` and `partD_c` read and
write through the pointer they were handed, and `partD_a` hands out the address
of a variable of its loop body.
-/

namespace ChatOnC.Pipeline

open ChatOnC.ActiveObject

/-! ## `isPrime` -/

/-- While `i * i` is at most `num`, `i += 2` does not wrap. -/
theorem toNat_add_two {num i : UInt32} (h : i.toNat * i.toNat ≤ num.toNat) :
    (i + 2).toNat = i.toNat + 2 := by
  have hnum : num.toNat < 2 ^ 32 := num.toNat_lt
  have hi : i.toNat < 2 ^ 16 := by
    by_contra hge
    have hsq : 2 ^ 16 * 2 ^ 16 ≤ i.toNat * i.toNat := Nat.mul_le_mul (by omega) (by omega)
    omega
  rw [UInt32.toNat_add, show (2 : UInt32).toNat = 2 by rfl]
  omega

/-- The loop of `isPrime` from `i` on (lines 16–22). `i <= sqrt(num)` compares
    in `double`, where it is exact for 32-bit operands. -/
def isPrimeLoop (num i : UInt32) : ℤ :=
  if i.toNat * i.toNat ≤ num.toNat then
    if num % i = 0 then 0 else isPrimeLoop num (i + 2)
  else 1
termination_by num.toNat + 1 - i.toNat
decreasing_by
  rename_i h _
  have hle : i.toNat ≤ i.toNat * i.toNat := Nat.le_mul_self _
  rw [toNat_add_two h]
  omega

/-- `isPrime` (lines 10–24). -/
def isPrime (num : UInt32) : ℤ :=
  if num = 2 then 1
  else if num < 2 ∨ num % 2 = 0 then 0
  else isPrimeLoop num 3

/-! ## The stages -/

/-- The pointers that are tasks: `arr` of `main` and `&num` of `partD_a`. -/
inductive Ptr
  | arr
  | num
  deriving DecidableEq

/-- What one `printf` prints. -/
inductive Output
  /-- `"%d\n%s\n"` -/
  | verdict (num : ℤ) (text : String)
  /-- `"%d\n"` -/
  | number (num : ℤ)
  deriving DecidableEq

/-- `printf("%d\n%s\n", num, isPrime(num) ? "true" : "false")`. -/
def verdictOf (num : ℤ) : Output :=
  .verdict num (if isPrime (UInt32.ofInt num) ≠ 0 then "true" else "false")

/-- `cell p` is `none` while the object `p` points to is outside its lifetime;
    what is printed from there is `none`. `printed i` is the part of the output
    that comes from stage `i`. -/
structure Memory where
  cell : Ptr → Option ℤ
  printed : ℕ → List (Option Output)

/-- One access to the memory. -/
inductive Access
  /-- `int num = n;` (line 38) -/
  | declare (p : Ptr) (n : ℤ)
  /-- the end of the block that declares the variable (line 42) -/
  | leaveBlock (p : Ptr)
  /-- `*num += k` -/
  | add (p : Ptr) (k : ℤ)
  | printVerdict (stage : ℕ) (p : Ptr)
  | printNumber (stage : ℕ) (p : Ptr)
  deriving DecidableEq

def Memory.print (m : Memory) (stage : ℕ) (out : Option Output) : Memory :=
  { m with printed := Function.update m.printed stage (m.printed stage ++ [out]) }

def Access.exec : Access → Memory → Memory
  | .declare p n, m => { m with cell := Function.update m.cell p (some n) }
  | .leaveBlock p, m => { m with cell := Function.update m.cell p none }
  | .add p k, m => { m with cell := Function.update m.cell p ((m.cell p).map (· + k)) }
  | .printVerdict i p, m => m.print i ((m.cell p).map verdictOf)
  | .printNumber i p, m => m.print i ((m.cell p).map .number)

/-- The number the generator draws in iteration `i` (line 38). -/
def drawn (rand : ℕ → ℕ) (i : ℕ) : ℤ := (rand i % 900000 + 100000 : ℕ)

/-- The loop body of `partD_a` in iteration `i` (lines 37–42). -/
def partDABody (rand : ℕ → ℕ) (i : ℕ) : List (Effect Ptr Access) :=
  [.act (.declare .num (drawn rand i)), .enqueueNext (some .num), .act (.leaveBlock .num)]

/-- The loop of `partD_a` from iteration `i` on, with this many left. -/
def partDALoop (rand : ℕ → ℕ) (i : ℕ) : ℕ → List (Effect Ptr Access)
  | 0 => []
  | left + 1 => partDABody rand i ++ partDALoop rand (i + 1) left

/-- `partD_a` (lines 28–44): `arr` holds `size`, the seed of `rand` and the
    object itself. -/
def partDA (size : ℤ) (rand : ℕ → ℕ) : List (Effect Ptr Access) :=
  partDALoop rand 0 size.toNat ++ [.enqueueOwn none]

/-- `partD_b` (lines 47–52). -/
def partDB (arg : Ptr) : List (Effect Ptr Access) :=
  [.act (.add arg 11), .act (.printVerdict 1 arg)]

/-- `partD_c` (lines 55–60). -/
def partDC (arg : Ptr) : List (Effect Ptr Access) :=
  [.act (.add arg (-13)), .act (.printVerdict 2 arg)]

/-- `partD_d` (lines 63–69). -/
def partDD (arg : Ptr) : List (Effect Ptr Access) :=
  [.act (.printVerdict 3 arg), .act (.add arg 2), .act (.printNumber 3 arg)]

/-- The chain of `main` (lines 89–93), which assigns `flag` on `ao_1` only: on
    the other objects it is what `malloc` left there. -/
def chain (size : ℤ) (rand : ℕ → ℕ) (flag : ℕ → ℤ) : Chain Ptr Access Memory where
  last := 3
  flag := fun i => if i = 0 then 1 else flag i
  func := fun i p => match i with
    | 0 => partDA size rand
    | 1 => partDB p
    | 2 => partDC p
    | _ => partDD p
  exec := Access.exec

/-- The memory before `partD_a` runs. -/
def Memory.empty : Memory := ⟨fun _ => none, fun _ => []⟩

/-- The threads of the pipeline after `main` has handed `arr` to `ao_1` (line
    95). -/
def pipeline (size : ℤ) (rand : ℕ → ℕ) (flag : ℕ → ℤ) :
    Common.System (State Ptr Access Memory) Actor :=
  system (chain size rand flag) [some .arr] .empty

end ChatOnC.Pipeline
