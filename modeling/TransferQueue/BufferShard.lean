import TransferQueue.DedupFilter
import TransferQueue.DiskStorage

/-! One shard of the buffer. Each operation is cut at its suspension points: the
part before a disk call, the continuation after it. The sequential operations
compose these parts; the interleaved semantics runs them as separate steps. -/

namespace TransferQueue

structure GroupEntry where
  groupPtr : Option TrajectoryGroup := none
  diskOffset : ℕ := 0
  createdTime : ℤ := 0
  cachedSize : ℤ := 0
  cachedBytes : ℤ := 0
  deriving DecidableEq

namespace GroupEntry

def isOnDisk (e : GroupEntry) : Bool := decide (0 < e.diskOffset) && e.groupPtr.isNone

/-- A null pointer counts as complete. -/
def isComplete (e : GroupEntry) : Bool :=
  match e.groupPtr with
  | some g => g.isComplete
  | none => true

def trajectoriesSize (e : GroupEntry) : ℤ :=
  match e.groupPtr with
  | some g => g.trajectories.length
  | none => 0

end GroupEntry

/-- `clockReads` counts the readings of the steady clock so far. -/
structure BufferShard where
  config : TransferQueueConfig
  dedupFilter : DedupFilter
  diskStorage : DiskStorage
  groups : UnorderedMap String GroupEntry
  totalTrajectories : ℤ
  totalConsumed : ℤ
  diskUsageBytes : ℤ
  clockReads : ℕ

namespace BufferShard

/-- A constructed and started shard. Its filter holds 100000 uids; `bitCount` and
`numHashes` are what the filter computes from the false positive rate 0.01. -/
def create (config : TransferQueueConfig) (bitCount numHashes : ℕ) : BufferShard where
  config
  dedupFilter := .create 100000 bitCount numHashes
  diskStorage := .fresh
  groups := .empty
  totalTrajectories := 0
  totalConsumed := 0
  diskUsageBytes := 0
  clockReads := 0

section Memory
variable (env : Env)

def estimateMemoryUsage (s : BufferShard) : ℕ :=
  let usage := s.groups.entries.foldl
    (fun usage p =>
      match p.2.groupPtr with
      | some g => sizeT (usage + env.byteSizeLong g)
      | none => usage) 0
  if s.config.uidDedup then
    sizeT (usage + s.dedupFilter.bloomBitCount / 8 + s.dedupFilter.size * 64)
  else usage

/-- `static_cast<size_t>(max_memory_bytes * fraction)`. -/
def memoryFraction (s : BufferShard) (fraction : ℚ) : ℕ :=
  env.memoryBytes s.config.maxMemoryBytes fraction

structure SpillSelection where
  keys : List String
  groups : List TrajectoryGroup
  spilledBytes : ℕ
  deriving DecidableEq

/-- The selection loop: complete groups in memory, until `target` bytes. -/
def selectGroups (target : ℕ) :
    SpillSelection → List (String × GroupEntry) → SpillSelection
  | acc, [] => acc
  | acc, (id, entry) :: rest =>
    match entry.groupPtr with
    | some g =>
      if g.isComplete then
        let acc : SpillSelection :=
          ⟨acc.keys ++ [id], acc.groups ++ [g], sizeT (acc.spilledBytes + env.byteSizeLong g)⟩
        if target ≤ acc.spilledBytes then acc else selectGroups target acc rest
      else selectGroups target acc rest
    | none => selectGroups target acc rest

/-- The synchronous part of `try_spill_groups`: the copies handed to the disk, if
the usage is over the threshold and some group is complete. -/
def spillSelection (s : BufferShard) : Option SpillSelection :=
  let currentMem := s.estimateMemoryUsage env
  if currentMem ≤ s.memoryFraction env s.config.spillToDiskThreshold then none
  else
    let targetSpill := sizeT (currentMem + 2 ^ 64 - s.memoryFraction env (7 / 10))
    let selection := selectGroups env targetSpill ⟨[], [], 0⟩ s.groups.entries
    if selection.groups = [] then none else some selection

/-- The commit of one key: the entry found under it, whatever it holds by now,
points to the file and loses its group. -/
def commitEntry (s : BufferShard) (id : String) (offset : ℕ) : BufferShard :=
  match s.groups.get? id with
  | none => s
  | some entry =>
    let size := (entry.groupPtr.map env.byteSizeLong).getD 0
    { s with
      groups := s.groups.set id { entry with
        groupPtr := none
        diskOffset := offset
        cachedSize := entry.trajectoriesSize
        cachedBytes := size }
      diskUsageBytes := s.diskUsageBytes + size }

/-- The continuation of `try_spill_groups`. -/
def commitSpill (keys : List String) (offsets : List ℕ) (s : BufferShard) :
    Except Failure Unit × BufferShard :=
  if keys.length ≠ offsets.length then (.error (.runtimeError "Spill count mismatch"), s)
  else (.ok (), (keys.zip offsets).foldl (fun s p => s.commitEntry env p.1 p.2) s)

def trySpillGroups (s : BufferShard) : Except Failure ℕ × BufferShard :=
  match s.spillSelection env with
  | none => (.ok 0, s)
  | some selection =>
    match s.diskStorage.spillBatch env selection.groups with
    | (.error e, d) => (.error e, { s with diskStorage := d })
    | (.ok offsets, d) =>
      match commitSpill env selection.keys offsets { s with diskStorage := d } with
      | (.error e, s) => (.error e, s)
      | (.ok _, s) => (.ok selection.spilledBytes, s)

end Memory

section Write
variable (env : Env)

/-- How the part of `write` before the spill check ends. -/
inductive WriteStart where
  | duplicate
  | onDisk
  | appended
  deriving DecidableEq

def dedup (uid : String) (s : BufferShard) : Bool × BufferShard :=
  if s.config.uidDedup then
    let r := s.dedupFilter.insert (DedupFilter.doubleHash env.stdHash) uid
    (r.1, { s with dedupFilter := r.2 })
  else (true, s)

/-- Find or create the group of the instance and append. Nothing is appended to a
group on disk. -/
def addTrajectory (t : Trajectory) (s : BufferShard) : WriteStart × BufferShard :=
  let groups := s.groups.insert env.place t.instanceId {}
  let entry := (groups.get? t.instanceId).getD {}
  if entry.isOnDisk then (.onDisk, { s with groups })
  else
    match entry.groupPtr with
    | some g =>
      (.appended, { s with
        groups := groups.set t.instanceId { entry with groupPtr := some (g.add t) }
        totalTrajectories := s.totalTrajectories + 1 })
    | none =>
      (.appended, { s with
        groups := groups.set t.instanceId { entry with
          groupPtr := some ((TrajectoryGroup.create t.instanceId s.config.groupSize).add t)
          createdTime := env.now s.clockReads }
        totalTrajectories := s.totalTrajectories + 1
        clockReads := s.clockReads + 1 })

/-- `write` up to the spill check. -/
def writeStart (t : Trajectory) (s : BufferShard) : WriteStart × BufferShard :=
  match s.dedup env t.uid with
  | (true, s) => s.addTrajectory env t
  | (false, s) => (.duplicate, s)

def write (t : Trajectory) (s : BufferShard) : Except Failure Bool × BufferShard :=
  match s.writeStart env t with
  | (.duplicate, s) => (.ok false, s)
  | (.onDisk, s) => (.ok true, s)
  | (.appended, s) =>
    match s.trySpillGroups env with
    | (.error e, s) => (.error e, s)
    | (.ok _, s) => (.ok true, s)

/-- The loop of `batch_write`, with the count so far; an exception leaves it. -/
def batchWriteLoop : ℕ → List Trajectory → BufferShard → Except Failure ℕ × BufferShard
  | written, [], s => (.ok written, s)
  | written, t :: ts, s =>
    match s.write env t with
    | (.ok true, s) => batchWriteLoop (written + 1) ts s
    | (.ok false, s) => batchWriteLoop written ts s
    | (.error e, s) => (.error e, s)

def batchWrite (ts : List Trajectory) (s : BufferShard) : Except Failure ℕ × BufferShard :=
  batchWriteLoop env 0 ts s

end Write

section Read

/-- The three vectors of `read_ready_groups` and the counters its scan adjusts. -/
structure ReadScan where
  result : List TrajectoryGroup
  offsetsToLoad : List ℕ
  idsToRemove : List String
  totalConsumed : ℤ
  diskUsageBytes : ℤ

/-- The body of the scan: a group in memory is moved out of its entry. -/
def scanEntry (maxGroups : Int32) (acc : ReadScan) (id : String) (entry : GroupEntry) :
    UnorderedMap.LoopStep ReadScan GroupEntry :=
  if !entry.isComplete then .next acc entry
  else if 0 < maxGroups ∧
      maxGroups ≤ Int32.ofNat (acc.result.length + acc.offsetsToLoad.length) then .stop
  else
    let acc := { acc with idsToRemove := acc.idsToRemove ++ [id] }
    if entry.isOnDisk then
      .next { acc with
        offsetsToLoad := acc.offsetsToLoad ++ [entry.diskOffset]
        diskUsageBytes := acc.diskUsageBytes - entry.cachedBytes } entry
    else
      match entry.groupPtr with
      | some g =>
        .next { acc with
          totalConsumed := acc.totalConsumed + g.trajectories.length
          result := acc.result ++ [g] } { entry with groupPtr := none }
      | none => .fail

def readScan (maxGroups : Int32) (s : BufferShard) : Option (ReadScan × BufferShard) :=
  (s.groups.forEach (scanEntry maxGroups)
    ⟨[], [], [], s.totalConsumed, s.diskUsageBytes⟩).map fun r =>
      (r.1, { s with
        groups := r.2
        totalConsumed := r.1.totalConsumed
        diskUsageBytes := r.1.diskUsageBytes })

/-- The continuation of `load_batch`: loaded groups are counted as consumed. -/
def mergeLoaded (loaded : List TrajectoryGroup) (s : BufferShard) : BufferShard :=
  { s with
    totalConsumed := loaded.foldl (fun n g => n + (g.trajectories.length : ℤ)) s.totalConsumed }

/-- The last continuation: the scanned ids leave the map, whatever they hold by now. -/
def eraseIds (ids : List String) (s : BufferShard) : BufferShard :=
  { s with groups := s.groups.eraseAll ids }

def readReadyGroups (env : Env) (maxGroups : Int32) (s : BufferShard) :
    Except Failure (List TrajectoryGroup) × BufferShard :=
  match s.readScan maxGroups with
  | none => (.error .nullDereference, s)
  | some (scan, s) =>
    match s.diskStorage.loadBatch env scan.offsetsToLoad with
    | (.error e, d) => (.error e, { s with diskStorage := d })
    | (.ok loaded, d) =>
      let s := mergeLoaded loaded { s with diskStorage := d }
      match s.diskStorage.removeAll env scan.offsetsToLoad with
      | (.error e, d) => (.error e, { s with diskStorage := d })
      | (.ok _, d) =>
        (.ok (scan.result ++ loaded), eraseIds scan.idsToRemove { s with diskStorage := d })

def hasReadyGroups (s : BufferShard) : Bool := s.groups.entries.any fun p => p.2.isComplete

end Read

section Manage

/-- The synchronous part of `delete_instance`, and the file it asks to remove. -/
def deleteEntry (id : String) (s : BufferShard) : Option ℕ × BufferShard :=
  match s.groups.get? id with
  | none => (none, s)
  | some entry =>
    if entry.isOnDisk then
      (some entry.diskOffset, { s with
        diskUsageBytes := s.diskUsageBytes - entry.cachedBytes
        groups := s.groups.erase id })
    else (none, { s with groups := s.groups.erase id })

/-- The removal is detached; run alone, nothing else happens before it is done. -/
def deleteInstance (env : Env) (id : String) (s : BufferShard) : BufferShard :=
  match s.deleteEntry id with
  | (none, s) => s
  | (some offset, s) => { s with diskStorage := (s.diskStorage.remove env offset).2 }

def diskOffsets (s : BufferShard) : List ℕ :=
  (s.groups.entries.filter fun p => p.2.isOnDisk).map fun p => p.2.diskOffset

/-- `reset` without the removal of the files. -/
def clearAll (s : BufferShard) : BufferShard :=
  { s with
    groups := s.groups.clear
    dedupFilter := s.dedupFilter.clear
    totalTrajectories := 0
    totalConsumed := 0
    diskUsageBytes := 0 }

/-- The vector of the files to remove is a local variable of `reset`. -/
def reset (env : Env) (s : BufferShard) : Except Failure Unit × BufferShard :=
  let r := s.clearAll.diskStorage.removeFreed env s.diskOffsets
  (r.1, { s.clearAll with diskStorage := r.2 })

def updateConfig (config : TransferQueueConfig) (s : BufferShard) : BufferShard := { s with config }

/-- Nanoseconds in the configured timeout. -/
def timeout (config : TransferQueueConfig) : ℤ := config.groupTimeoutSeconds * 1000000000

def checkGroupTimeouts (env : Env) (s : BufferShard) : BufferShard :=
  { s with
    groups := s.groups.mapValues fun _ entry =>
      if !entry.isComplete && decide (timeout s.config ≤ env.now s.clockReads - entry.createdTime)
      then { entry with groupPtr := entry.groupPtr.map fun g => { g with isComplete := true } }
      else entry
    clockReads := s.clockReads + 1 }

end Manage

section Status

structure BufferStatus where
  totalTrajectories : ℤ
  totalConsumed : ℤ
  pendingGroups : ℕ
  incompleteGroups : ℕ
  memoryUsageBytes : Int64
  diskUsageBytes : ℤ

structure MetaInfo where
  totalSamples : ℤ
  numGroups : ℕ
  avgGroupSize : ℚ
  avgReward : ℚ
  finishedGroupIds : List String

def getStatus (env : Env) (s : BufferShard) : BufferStatus where
  totalTrajectories := s.totalTrajectories
  totalConsumed := s.totalConsumed
  pendingGroups := s.groups.entries.countP fun p => p.2.isComplete
  incompleteGroups := s.groups.entries.countP fun p => !p.2.isComplete
  memoryUsageBytes := Int64.ofNat (s.estimateMemoryUsage env)
  diskUsageBytes := s.diskUsageBytes

/-- What the meta information counts for an entry: the cached size when on disk. -/
def sampleCount (entry : GroupEntry) : ℤ :=
  if entry.isOnDisk then entry.cachedSize else entry.trajectoriesSize

/-- Rewards are counted for groups in memory only. -/
def rewardSum (entry : GroupEntry) : ℚ :=
  match entry.groupPtr with
  | some g => (g.trajectories.map Trajectory.reward).sum
  | none => 0

def getMetaInfo (s : BufferShard) : MetaInfo :=
  let entries := s.groups.entries
  let totalSamples := (entries.map fun p => sampleCount p.2).sum
  let totalReward := (entries.map fun p => rewardSum p.2).sum
  { totalSamples
    numGroups := entries.length
    avgGroupSize := if entries = [] then 0 else totalSamples / entries.length
    avgReward := if totalSamples = 0 then 0 else totalReward / totalSamples
    finishedGroupIds := (entries.filter fun p => p.2.isComplete).map Prod.fst }

end Status

end BufferShard
end TransferQueue
