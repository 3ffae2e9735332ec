import TransferQueue.Library.Machine
import TransferQueue.SpillFile

/-! The calls on one storage directory, interleaved. A call runs from one suspension
point to the next: the draw of an id, the open, the write, the close; the open, the
read of the header, the read of the body, the close; the removal. Between any two of
them other calls may run, the clock may advance and other shards may draw ids. -/

namespace TransferQueue.StorageCalls

open SpillFile

/-- `spill` and `load` are batches of one. -/
inductive Call where
  | spill (group : TrajectoryGroup)
  | spillBatch (groups : List TrajectoryGroup)
  | load (offset : ℕ)
  | loadBatch (offsets : List ℕ)
  | remove (offset : ℕ)

/-- How far the spill of one group has come. -/
inductive SpillPhase where
  | next
  | opening (id : ℕ) (group : TrajectoryGroup) (data : List UInt8)
  | writing (id : ℕ) (group : TrajectoryGroup) (data : List UInt8) (file : ℕ)
  | closing (id : ℕ) (group : TrajectoryGroup)

structure SpillTask where
  /-- Groups spilled, with their ids. -/
  passed : List (TrajectoryGroup × ℕ)
  phase : SpillPhase
  left : List TrajectoryGroup

/-- How far the load of one file has come. The stream may have read `ahead` of the
header. -/
inductive LoadPhase where
  | next
  | header (offset file : ℕ)
  | body (offset file : ℕ) (len : UInt32) (ahead : List UInt8)
  | closing (offset : ℕ) (group : TrajectoryGroup)

structure LoadTask where
  passed : List (ℕ × TrajectoryGroup)
  phase : LoadPhase
  left : List ℕ

/-- A call in progress and its argument. `known` is history: the spills that had
resolved when the load started. -/
inductive Task where
  | spilling (groups : List TrajectoryGroup) (t : SpillTask)
  | loading (known : List (ℕ × TrajectoryGroup)) (offsets : List ℕ) (t : LoadTask)
  | removing (offset : ℕ)

inductive Ended where
  | spilled (passed : List (TrajectoryGroup × ℕ))
  | loaded (passed : List (ℕ × TrajectoryGroup))
  | removed
  | failed (reason : Failure)

/-- What the device does at a suspension point. A write that is reported done may be
`short`; a read may read `ahead`. -/
inductive DeviceOutcome where
  | fails (kept : ℕ)
  | noMemory
  | short (written : ℕ)
  | done (ahead : ℕ)

def DeviceOutcome.error? : DeviceOutcome → Option Failure
  | .fails _ => some .deviceError
  | .noMemory => some (.runtimeError "std::bad_alloc")
  | _ => none

/-- `counter` counts the ids drawn in the process. The last four fields are history:
the ids this storage has drawn, the spills that have resolved, the ids handed to
callers, and the names removed since they were last created. -/
structure Storage where
  initialized : Bool
  files : FileSystem ℕ UInt8
  clock : ℕ
  counter : ℕ
  issued : List ℕ
  stored : List (ℕ × TrajectoryGroup)
  returned : List ℕ
  gone : List ℕ

/-- A storage and the calls in progress on it. -/
structure Store where
  storage : Storage
  tasks : ℕ → Option Task

inductive Action where
  | tick (nanoseconds : ℕ)
  | others (draws : ℕ)
  | start (c : ℕ) (call : Call)
  | proceed (c : ℕ) (outcome : DeviceOutcome)

def Call.task (stored : List (ℕ × TrajectoryGroup)) : Call → Task
  | .spill group => .spilling [group] ⟨[], .next, [group]⟩
  | .spillBatch groups => .spilling groups ⟨[], .next, groups⟩
  | .load offset => .loading stored [offset] ⟨[], .next, [offset]⟩
  | .loadBatch offsets => .loading stored offsets ⟨[], .next, offsets⟩
  | .remove offset => .removing offset

section Steps
variable (codec : Codec TrajectoryGroup)

/-- The spill of a batch from one suspension point to the next. -/
def spillStep (o : DeviceOutcome) (t : SpillTask) (s : Storage) : (Ended ⊕ SpillTask) × Storage :=
  match t.phase with
  | .next =>
    match t.left with
    | [] => (.inl (.spilled t.passed), { s with returned := s.returned ++ t.passed.map Prod.snd })
    | group :: left =>
      if !s.initialized then (.inl (.failed (.runtimeError "Not initialized")), s)
      else
        match codec.serialize group with
        | none => (.inl (.failed (.runtimeError "Failed to serialize group")), s)
        | some data =>
          let id := (s.clock + s.counter) % 2 ^ 64
          (.inr { t with phase := .opening id group data, left },
            { s with counter := s.counter + 1, issued := s.issued ++ [id] })
  | .opening id group data =>
    match o.error? with
    | some e => (.inl (.failed e), s)
    | none =>
      let r := s.files.openCreate id
      (.inr { t with phase := .writing id group data r.1 },
        { s with files := r.2, gone := s.gone.filter (· ≠ id) })
  | .writing id group data file =>
    match o with
    | .fails kept => (.inl (.failed .deviceError),
        { s with files := s.files.write file ((frame data).take kept) })
    | .noMemory => (.inl (.failed (.runtimeError "std::bad_alloc")), s)
    | .short written => (.inr { t with phase := .closing id group },
        { s with files := s.files.write file ((frame data).take written) })
    | .done _ => (.inr { t with phase := .closing id group },
        { s with files := s.files.write file (frame data) })
  | .closing id group =>
    match o.error? with
    | some e => (.inl (.failed e), s)
    | none => (.inr { t with passed := t.passed ++ [(group, id)], phase := .next },
        { s with stored := s.stored ++ [(id, group)] })

/-- Loads change nothing but their task. -/
def loadStep (o : DeviceOutcome) (t : LoadTask) (s : Storage) : Ended ⊕ LoadTask :=
  match t.phase with
  | .next =>
    match t.left with
    | [] => .inl (.loaded t.passed)
    | offset :: left =>
      if !s.initialized then .inl (.failed (.runtimeError "Not initialized"))
      else
        match o.error? with
        | some e => .inl (.failed e)
        | none =>
          match s.files.directory offset with
          | none => .inl (.failed .noSuchFile)
          | some file => .inr { t with phase := .header offset file, left }
  | .header offset file =>
    match o with
    | .fails _ => .inl (.failed .deviceError)
    | .noMemory => .inl (.failed (.runtimeError "std::bad_alloc"))
    | .short ahead | .done ahead =>
      let buffered := (s.files.contents file).take (4 + ahead)
      match readHeader (buffered.take 4) with
      | .error e => .inl (.failed e)
      | .ok len => .inr { t with phase := .body offset file len (buffered.drop 4) }
  | .body offset file len ahead =>
    match o.error? with
    | some e => .inl (.failed e)
    | none =>
      let rest := (s.files.contents file).drop (4 + ahead.length)
      match readBody codec len ((ahead ++ rest).take len.toNat) with
      | .error e => .inl (.failed e)
      | .ok group => .inr { t with phase := .closing offset group }
  | .closing offset group =>
    match o.error? with
    | some e => .inl (.failed e)
    | none => .inr { t with passed := t.passed ++ [(offset, group)], phase := .next }

def removeStep (o : DeviceOutcome) (offset : ℕ) (s : Storage) : Ended × Storage :=
  if !s.initialized then (.removed, s)
  else
    match o.error? with
    | some e => (.failed e, s)
    | none =>
      match s.files.directory offset with
      | none => (.failed .noSuchFile, s)
      | some _ => (.removed,
          { s with files := s.files.unlink offset, gone := s.gone ++ [offset] })

def taskStep (o : DeviceOutcome) (task : Task) (s : Storage) : (Ended ⊕ Task) × Storage :=
  match task with
  | .spilling groups t =>
    let r := spillStep codec o t s
    (r.1.map id (.spilling groups), r.2)
  | .loading known offsets t => ((loadStep codec o t s).map id (.loading known offsets), s)
  | .removing offset =>
    let r := removeStep o offset s
    (.inl r.1, r.2)

/-- The outcome of a step is what the call ends with, if it ends. -/
def step (s : Store) : Action → Option Ended × Store
  | .tick nanoseconds =>
    (none, { s with storage := { s.storage with clock := s.storage.clock + nanoseconds } })
  | .others draws =>
    (none, { s with storage := { s.storage with counter := s.storage.counter + draws } })
  | .start c call =>
    match s.tasks c with
    | some _ => (none, s)
    | none =>
      (none, { s with tasks := Function.update s.tasks c (some (call.task s.storage.stored)) })
  | .proceed c o =>
    match s.tasks c with
    | none => (none, s)
    | some task =>
      match taskStep codec o task s.storage with
      | (.inl ended, storage) => (some ended, ⟨storage, Function.update s.tasks c none⟩)
      | (.inr task', storage) => (none, ⟨storage, Function.update s.tasks c (some task')⟩)

end Steps

def Store.fresh : Store where
  storage := ⟨true, .empty, 0, 0, [], [], [], []⟩
  tasks _ := none

/-- A spill that runs alone is the one of the directory of bytes. -/
theorem spill_alone {codec : Codec TrajectoryGroup} {store : Store} {c : ℕ}
    (hc : store.tasks c = none) (hi : store.storage.initialized = true) {group : TrajectoryGroup}
    {data : List UInt8} (hs : codec.serialize group = some data) (written : ℕ) :
    let id := (store.storage.clock + store.storage.counter) % 2 ^ 64
    let actions : List Action := [.start c (.spill group), .proceed c (.done 0),
      .proceed c (.done 0), .proceed c (.short written), .proceed c (.done 0), .proceed c (.done 0)]
    (Machine.final (step codec) store actions).storage.files =
        ByteStorage.writeFile id data written store.storage.files ∧
      (Machine.outputs (step codec) store actions).getLast? =
        some (some (.spilled [(group, id)])) := by
  simp [Machine.final, Machine.outputs, step, taskStep, spillStep, Call.task,
    DeviceOutcome.error?, ByteStorage.writeFile, hc, hi, hs]

end TransferQueue.StorageCalls
