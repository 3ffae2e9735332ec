import Mathlib.Algebra.Order.Field.Rat
import Mathlib.Algebra.Ring.Int.Defs

/-! The protobuf messages the buffer stores, and the sizes they have on the wire.
Rewards are exact rationals. -/

namespace TransferQueue

structure ChatMessage where
  role : String
  content : String
  deriving DecidableEq

/-- One complete interaction. `uid` identifies it; trajectories of one prompt
share their `instanceId`. -/
structure Trajectory where
  uid : String
  instanceId : String
  messages : List ChatMessage
  reward : ℚ
  extraInfo : List (String × String)
  deriving DecidableEq

def Trajectory.bare (uid instanceId : String) : Trajectory := ⟨uid, instanceId, [], 0, []⟩

structure TrajectoryGroup where
  instanceId : String
  trajectories : List Trajectory
  groupSize : ℤ
  isComplete : Bool
  deriving DecidableEq

namespace TrajectoryGroup

/-- A group as `write` creates it: no trajectories, not complete. -/
def create (instanceId : String) (groupSize : ℤ) : TrajectoryGroup :=
  ⟨instanceId, [], groupSize, false⟩

/-- `add_trajectories` followed by the check that marks a full group ready. -/
def add (g : TrajectoryGroup) (t : Trajectory) : TrajectoryGroup :=
  let trajectories := g.trajectories ++ [t]
  { g with
    trajectories
    isComplete := if g.groupSize ≤ trajectories.length then true else g.isComplete }

@[simp] theorem add_instanceId (g : TrajectoryGroup) (t : Trajectory) :
    (g.add t).instanceId = g.instanceId := rfl

@[simp] theorem add_trajectories (g : TrajectoryGroup) (t : Trajectory) :
    (g.add t).trajectories = g.trajectories ++ [t] := rfl

end TrajectoryGroup

section WireSize

def varintSize (n : ℕ) : ℕ := n.log2 / 7 + 1

/-- A field with a one-byte tag, a length and a body. -/
def lengthDelimited (n : ℕ) : ℕ := 1 + varintSize n + n

/-- Absent when empty, as proto3 scalar fields are. -/
def stringField (s : String) : ℕ :=
  if s.utf8ByteSize = 0 then 0 else lengthDelimited s.utf8ByteSize

def int32Field (n : ℤ) : ℕ :=
  if n = 0 then 0 else if n < 0 then 11 else 1 + varintSize n.toNat

def ChatMessage.wireSize (m : ChatMessage) : ℕ := stringField m.role + stringField m.content

/-- Map entries carry both their fields, empty or not. -/
def mapEntrySize (p : String × String) : ℕ :=
  lengthDelimited p.1.utf8ByteSize + lengthDelimited p.2.utf8ByteSize

def Trajectory.wireSize (t : Trajectory) : ℕ :=
  stringField t.uid + stringField t.instanceId +
    (t.messages.map fun m => lengthDelimited m.wireSize).sum +
    (if t.reward = 0 then 0 else 9) +
    (t.extraInfo.map fun p => lengthDelimited (mapEntrySize p)).sum

def TrajectoryGroup.wireSize (g : TrajectoryGroup) : ℕ :=
  stringField g.instanceId +
    (g.trajectories.map fun t => lengthDelimited t.wireSize).sum +
    int32Field g.groupSize + (if g.isComplete then 2 else 0)

theorem TrajectoryGroup.wireSize_pos (g : TrajectoryGroup) (h : g.isComplete = true) :
    0 < g.wireSize := by
  simp [wireSize, h]

end WireSize
end TransferQueue
