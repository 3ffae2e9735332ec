import TransferQueue.Library.Machine
import TransferQueue.BufferShard

/-! The shard with operations in flight. An operation runs without interruption up to
its next disk call; while the call is pending, other operations start and go on. A
suspended operation is a task. Resuming a task lets its next disk call take effect
or, when no call is left, runs its continuation. -/

namespace TransferQueue

inductive Event where
  | appended (t : Trajectory)
  | ignored (t : Trajectory)
  | duplicate (t : Trajectory)
  | taken (ids : List String) (offsets : List ℕ)
  | committed (id : String)
  | delivered (groups : List TrajectoryGroup)
  | readFailed (failure : Failure)
  deriving DecidableEq

namespace Event

/-- A write resolved to true: its trajectory was appended or, its group being on disk,
silently dropped. -/
def accepts (id : String) : Event → Bool
  | appended t => t.instanceId = id
  | ignored t => t.instanceId = id
  | _ => false

def appends (id : String) : Event → Bool
  | appended t => t.instanceId = id
  | _ => false

def takes (id : String) : Event → Bool
  | taken ids _ => id ∈ ids
  | _ => false

def commits (id : String) : Event → Bool
  | committed id' => id' = id
  | _ => false

end Event

section History
variable {kind : Event → Bool} {n : ℕ} {log : List Event}

/-- The events since the log, which is newest first, had `n` entries. -/
def since (n : ℕ) (log : List Event) : List Event := log.take (log.length - n)

/-- An event of a kind has happened since the log had `n` entries. -/
def Since (kind : Event → Bool) (n : ℕ) (log : List Event) : Prop :=
  ∃ event ∈ since n log, kind event = true

instance : Decidable (Since kind n log) :=
  inferInstanceAs (Decidable (∃ event ∈ since n log, kind event = true))

theorem since_length (log : List Event) : since log.length log = [] := by
  rw [since, Nat.sub_self, List.take_zero]

theorem since_append (h : n ≤ log.length) (events : List Event) :
    since n (events ++ log) = events ++ since n log := by
  rw [since, since, List.length_append, Nat.add_sub_assoc h, List.take_length_add_append]

theorem Since_append (h : n ≤ log.length) (events : List Event) :
    Since kind n (events ++ log) ↔ (∃ event ∈ events, kind event = true) ∨ Since kind n log := by
  simp only [Since, since_append h, List.mem_append, or_and_right, exists_or]

theorem Since_cons (h : n ≤ log.length) (event : Event) :
    Since kind n (event :: log) ↔ kind event = true ∨ Since kind n log := by
  simpa using Since_append h [event]

theorem Since.mono (h : n ≤ log.length) (hs : Since kind n log) (events : List Event) :
    Since kind n (events ++ log) :=
  (Since_append h events).mpr (.inr hs)

theorem Since.head {event : Event} {log' : List Event} (h : n ≤ log.length)
    (hlog : log' = event :: log) (hkind : kind event = true) : Since kind n log' :=
  hlog ▸ (Since_cons h event).mpr (.inl hkind)

theorem not_Since_length (kind : Event → Bool) (log : List Event) :
    ¬Since kind log.length log := by
  simp [Since, since_length]

end History

/-- What a read keeps from its scan: when it took its groups, the ids it will erase and
the groups it moved out of memory. -/
structure PendingRead where
  startedAt : ℕ
  ids : List String
  result : List TrajectoryGroup

/-- A suspended operation: copies still to be written and written already, files still to
be loaded or removed and loaded or removed already. -/
inductive Task where
  | spill (startedAt : ℕ) (todo : List (String × TrajectoryGroup))
      (written : List ((String × TrajectoryGroup) × ℕ))
  | load (read : PendingRead) (todo : List ℕ) (loaded : List (ℕ × TrajectoryGroup))
  | unlink (read : PendingRead) (todo removed : List (ℕ × TrajectoryGroup))
  | remove (todo : List ℕ)

/-- The operations that can be started, and the resumption of a task. -/
inductive Action where
  | write (t : Trajectory)
  | readReadyGroups (maxGroups : Int32)
  | checkGroupTimeouts
  | deleteInstance (id : String)
  | reset
  | updateConfig (config : TransferQueueConfig)
  | resume (i : ℕ)

/-- The log is newest first. Nothing happens after a crash. -/
structure System where
  shard : BufferShard
  tasks : List Task
  log : List Event
  crashed : Bool

namespace System
variable (env : Env)

def create (config : TransferQueueConfig) (bitCount numHashes : ℕ) : System :=
  ⟨.create config bitCount numHashes, [], [], false⟩

def spawn (task : Task) (s : System) : System := { s with tasks := s.tasks ++ [task] }

def setDisk (d : DiskStorage) (s : System) : System :=
  { s with shard := { s.shard with diskStorage := d } }

def note (event : Event) (s : System) : System := { s with log := event :: s.log }

/-- `write` up to the first file of its spill, if it spills. -/
def startWrite (t : Trajectory) (s : System) : System :=
  match s.shard.writeStart env t with
  | (.duplicate, shard) => { s with shard, log := .duplicate t :: s.log }
  | (.onDisk, shard) => { s with shard, log := .ignored t :: s.log }
  | (.appended, shard) =>
    let s := { s with shard, log := .appended t :: s.log }
    match shard.spillSelection env with
    | none => s
    | some selection => s.spawn (.spill s.log.length (selection.keys.zip selection.groups) [])

/-- The last continuation of `read_ready_groups`. -/
def finishRead (read : PendingRead) (loaded : List TrajectoryGroup) (s : System) : System :=
  { s with
    shard := s.shard.eraseIds read.ids
    log := .delivered (read.result ++ loaded) :: s.log }

/-- `read_ready_groups` up to its first load; without files it is not suspended at all. -/
def startRead (maxGroups : Int32) (s : System) : System :=
  match s.shard.readScan maxGroups with
  | none => { s with crashed := true }
  | some (scan, shard) =>
    let s := { s with shard, log := .taken scan.idsToRemove scan.offsetsToLoad :: s.log }
    let read : PendingRead := ⟨s.log.length, scan.idsToRemove, scan.result⟩
    if scan.offsetsToLoad = [] then s.finishRead read []
    else s.spawn (.load read scan.offsetsToLoad [])

/-- The removal of the file is not waited for. -/
def startDelete (id : String) (s : System) : System :=
  match s.shard.deleteEntry id with
  | (none, shard) => { s with shard }
  | (some offset, shard) => { s with shard }.spawn (.remove [offset])

/-- The vector of the files is gone when `reset` returns. -/
def startReset (s : System) : System :=
  let cleared := { s with shard := s.shard.clearAll }
  if s.shard.diskOffsets = [] ∨ s.shard.diskStorage.initialized = false then cleared
  else cleared.spawn (.remove s.shard.diskOffsets)

/-- The events of a commit: the ids still in the map. -/
def noteCommits (shard : BufferShard) (ids : List String) (log : List Event) : List Event :=
  (ids.reverse.filter fun id => decide (id ∈ shard.groups.keys)).map .committed ++ log

/-- One resumption of a task that has been taken off the list. -/
def resumeTask (s : System) : Task → System
  | .spill startedAt ((id, group) :: todo) written =>
    match s.shard.diskStorage.spill env group with
    | (.error _, d) => s.setDisk d
    | (.ok offset, d) =>
      (s.setDisk d).spawn (.spill startedAt todo (written ++ [((id, group), offset)]))
  | .spill _ [] written =>
    let ids := written.map fun w => w.1.1
    { s with
      shard := (BufferShard.commitSpill env ids (written.map Prod.snd) s.shard).2
      log := noteCommits s.shard ids s.log }
  | .load read (offset :: todo) loaded =>
    match s.shard.diskStorage.load env offset with
    | (.error e, d) => (s.setDisk d).note (.readFailed e)
    | (.ok group, d) => (s.setDisk d).spawn (.load read todo (loaded ++ [(offset, group)]))
  | .load read [] loaded =>
    { s with shard := s.shard.mergeLoaded (loaded.map Prod.snd) }.spawn (.unlink read loaded [])
  | .unlink read ((offset, group) :: todo) removed =>
    match s.shard.diskStorage.remove env offset with
    | (.error e, d) => (s.setDisk d).note (.readFailed e)
    | (.ok _, d) => (s.setDisk d).spawn (.unlink read todo (removed ++ [(offset, group)]))
  | .unlink read [] removed => s.finishRead read (removed.map Prod.snd)
  | .remove (offset :: todo) =>
    match s.shard.diskStorage.remove env offset with
    | (.error _, d) => s.setDisk d
    | (.ok _, d) => if todo = [] then (s.setDisk d).spawn (.remove []) else s.setDisk d
  | .remove [] => s

/-- A step of a shard that has not crashed. A resumed task that is not complete goes to
the end of the list. -/
def act (s : System) : Action → System
  | .write t => s.startWrite env t
  | .readReadyGroups maxGroups => s.startRead maxGroups
  | .checkGroupTimeouts => { s with shard := s.shard.checkGroupTimeouts env }
  | .deleteInstance id => s.startDelete id
  | .reset => s.startReset
  | .updateConfig config => { s with shard := s.shard.updateConfig config }
  | .resume i =>
    match s.tasks[i]? with
    | none => s
    | some task => { s with tasks := s.tasks.eraseIdx i }.resumeTask env task

def step (s : System) (a : Action) : Unit × System := ((), if s.crashed then s else s.act env a)

def run (s : System) (actions : List Action) : System := Machine.final (step env) s actions

/-- The commit an action brings about: when the groups were copied, and what was written. -/
def committing (s : System) : Action → Option (ℕ × List ((String × TrajectoryGroup) × ℕ))
  | .resume i =>
    match s.crashed, s.tasks[i]? with
    | false, some (.spill startedAt [] written) => some (startedAt, written)
    | _, _ => none
  | _ => none

theorem committing_eq_some {s : System} {a : Action} {startedAt : ℕ}
    {written : List ((String × TrajectoryGroup) × ℕ)} :
    s.committing a = some (startedAt, written) ↔
      s.crashed = false ∧
        ∃ i, a = .resume i ∧ s.tasks[i]? = some (.spill startedAt [] written) := by
  cases a with
  | resume i =>
    rw [committing]
    split <;> simp_all
  | _ => simp [committing]

end System
end TransferQueue
