import Mathlib.Data.Int.Log
import Mathlib.Data.Rat.Floor
import Mathlib.Order.Monotone.Defs
import TransferQueue.Trajectory
import TransferQueue.Library.UnorderedMap

/-! The configuration of a shard and what the process around it decides: clock
readings, spill ids, device failures, hashing and the sizes protobuf computes. -/

namespace TransferQueue

/-- The fields of the configuration that the buffer reads or a configuration request
sets. -/
structure TransferQueueConfig where
  groupSize : ℤ := 16
  groupTimeoutSeconds : ℤ := 300
  uidDedup : Bool := true
  maxMemoryBytes : ℤ := 8 * 1024 * 1024 * 1024
  spillToDiskThreshold : ℚ := 4 / 5
  taskType : String := "math"
  deriving DecidableEq

/-- Why a future resolves with an error. Reading through a null `group_ptr` and reading on in
a container that is gone are undefined behaviour; they are recorded as outcomes of their
own. -/
inductive Failure where
  | runtimeError (what : String)
  | deviceError
  | noSuchFile
  | unreadableFile
  | nullDereference
  | useAfterFree
  deriving DecidableEq

/-- What a spill that fails leaves in its directory: the file is created before its buffer is
allocated, written and closed, each of which can fail. -/
inductive Leftover where
  | nothing
  | unreadable
  | whole
  deriving DecidableEq

def Leftover.files (id : ℕ) (group : TrajectoryGroup) : Leftover → List (ℕ × Option TrajectoryGroup)
  | nothing => []
  | unreadable => [(id, none)]
  | whole => [(id, some group)]

/-- `size_t` arithmetic is modulo `2 ^ 64`. -/
def sizeT (n : ℕ) : ℕ := n % 2 ^ 64

section Doubles

/-- The nearest integer, the even one of two. -/
def nearest (q : ℚ) : ℤ :=
  let below := ⌊q⌋
  if q - below < 1 / 2 then below
  else if 1 / 2 < q - below then below + 1
  else if below % 2 = 0 then below else below + 1

/-- The distance of the numbers with 53 significant bits around `q`. -/
def ulp (q : ℚ) : ℚ := 2 ^ (Int.log 2 |q| - 52)

/-- The nearest double. Exponents are not bounded: what is too large for a double is too large
for a `size_t`, and what is too small is rounded down to 0 there. -/
def roundDouble (q : ℚ) : ℚ := nearest (q / ulp q) * ulp q

/-- `static_cast<size_t>(max_memory_bytes * fraction)`. A product out of range is undefined
behaviour; here it gives 0. -/
def doubleBytes (maxMemoryBytes : ℤ) (fraction : ℚ) : ℕ :=
  let product := roundDouble (roundDouble maxMemoryBytes * roundDouble fraction)
  if product < 2 ^ 64 then ⌊product⌋.toNat else 0

theorem doubleBytes_lt (maxMemoryBytes : ℤ) (fraction : ℚ) :
    doubleBytes maxMemoryBytes fraction < 2 ^ 64 := by
  simp only [doubleBytes]
  split
  case isTrue h =>
    have hfloor : ⌊roundDouble (roundDouble maxMemoryBytes * roundDouble fraction)⌋ < 2 ^ 64 :=
      Int.floor_lt.mpr (by exact_mod_cast h)
    omega
  case isFalse => exact Nat.two_pow_pos 64

-- 0.7 is not a double: seven tenths of 90 come out below 63
example : doubleBytes 90 (7 / 10) = 62 := by decide +kernel

end Doubles

/-- Clock readings are in nanoseconds, and the `k`-th reading, the `k`-th spill id
and the outcome of the `k`-th device call, with what it leaves behind if it is a spill and
fails, are given by the environment. Spill ids
are the steady clock plus a process-wide counter: positive and increasing.
`memoryBytes` is `static_cast<size_t>(max_memory_bytes * fraction)` as the machine
computes it, whatever it makes of a product out of range. -/
structure Env where
  now : ℕ → ℤ
  spillId : ℕ → ℕ
  spillId_pos : ∀ k, 0 < spillId k
  spillId_strictMono : StrictMono spillId
  fault : ℕ → Bool
  leftover : ℕ → Leftover
  place : Placement String
  stdHash : String → ℕ
  byteSizeLong : TrajectoryGroup → ℕ
  byteSizeLong_pos : ∀ g, g.isComplete = true → 0 < byteSizeLong g
  memoryBytes : ℤ → ℚ → ℕ
  memoryBytes_lt : ∀ maxMemoryBytes fraction, memoryBytes maxMemoryBytes fraction < 2 ^ 64

def Env.Reliable (env : Env) : Prop := ∀ k, env.fault k = false

def Env.repaired (env : Env) : Env := { env with fault := fun _ => false }

/-- An environment with a clock that stands still, consecutive spill ids, a disk
whose failing calls are listed, and protobuf's own sizes. -/
def Env.sample (failing : List ℕ) : Env where
  now _ := 0
  spillId k := k + 1
  spillId_pos k := k.succ_pos
  spillId_strictMono _ _ h := Nat.succ_lt_succ h
  fault k := decide (k ∈ failing)
  leftover _ := .nothing
  place _ _ := 0
  stdHash _ := 0
  byteSizeLong := TrajectoryGroup.wireSize
  byteSizeLong_pos := TrajectoryGroup.wireSize_pos
  memoryBytes := doubleBytes
  memoryBytes_lt := doubleBytes_lt

/-- Groups of `groupSize`, memory for a few bytes, no dedup check. -/
def TransferQueueConfig.tight (groupSize : ℤ) : TransferQueueConfig :=
  { groupSize, uidDedup := false, maxMemoryBytes := 8 }

theorem Env.sample_reliable : (Env.sample []).Reliable := fun _ => rfl

end TransferQueue
