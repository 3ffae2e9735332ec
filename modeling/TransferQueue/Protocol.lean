import Mathlib.Data.Multiset.AddSub
import Mathlib.Logic.Relation
import TransferQueue.Interleaving
import TransferQueue.ShardSteps

/-! What the parties to one shard can do to each other. The shard is seen as a slot for
each instance and the files of its directory; suspended operations and the log
complete the view. A change is one atomic effect on the view. Every step of the
shard is a sequence of changes, so what all changes keep holds in every run. -/

namespace TransferQueue

/-- What an entry holds: a group, a pointer to a file, or nothing any more. -/
inductive Slot where
  | memory (group : TrajectoryGroup)
  | disk (offset : ℕ)
  | hollow

namespace Slot

def group? : Slot → Option TrajectoryGroup
  | memory group => some group
  | _ => none

def offset? : Slot → Option ℕ
  | disk offset => some offset
  | _ => none

/-- The slot a scan leaves behind. -/
def moveOut : Slot → Slot
  | memory _ => hollow
  | slot => slot

def map (f : TrajectoryGroup → TrajectoryGroup) : Slot → Slot
  | memory group => memory (f group)
  | slot => slot

def groups (taken : List (String × Slot)) : List TrajectoryGroup :=
  taken.filterMap fun p => p.2.group?

def offsets (taken : List (String × Slot)) : List ℕ := taken.filterMap fun p => p.2.offset?

@[simp] theorem group?_eq_some {slot : Slot} {group : TrajectoryGroup} :
    slot.group? = some group ↔ slot = memory group := by
  cases slot <;> simp [group?]

@[simp] theorem offset?_eq_some {slot : Slot} {offset : ℕ} :
    slot.offset? = some offset ↔ slot = disk offset := by
  cases slot <;> simp [offset?]

@[simp] theorem moveOut_eq_disk {slot : Slot} {offset : ℕ} :
    slot.moveOut = disk offset ↔ slot = disk offset := by
  cases slot <;> simp [moveOut]

@[simp] theorem map_eq_disk {f : TrajectoryGroup → TrajectoryGroup} {slot : Slot} {offset : ℕ} :
    slot.map f = disk offset ↔ slot = disk offset := by
  cases slot <;> simp [map]

theorem mem_groups {taken : List (String × Slot)} {group : TrajectoryGroup} :
    group ∈ groups taken ↔ ∃ p ∈ taken, p.2 = memory group := by
  simp [groups]

theorem mem_offsets {taken : List (String × Slot)} {offset : ℕ} :
    offset ∈ offsets taken ↔ ∃ p ∈ taken, p.2 = disk offset := by
  simp [offsets]

def content (file : ℕ → Option TrajectoryGroup) : Slot → List Trajectory
  | memory group => group.trajectories
  | disk offset => ((file offset).map TrajectoryGroup.trajectories).getD []
  | hollow => []

end Slot

def GroupEntry.slot (e : GroupEntry) : Slot :=
  match e.groupPtr with
  | some group => .memory group
  | none => if 0 < e.diskOffset then .disk e.diskOffset else .hollow

/-- `drawn` is the next spill id. -/
@[ext]
structure View where
  look : String → Option Slot
  file : ℕ → Option TrajectoryGroup
  drawn : ℕ
  tasks : Multiset Task
  log : List Event

namespace View

def content (v : View) (id : String) : List Trajectory :=
  ((v.look id).map (Slot.content v.file)).getD []

end View

namespace Task

def read? : Task → Option PendingRead
  | load read _ _ => some read
  | unlink read _ _ => some read
  | _ => none

/-- The instances that a suspended read has taken. -/
def ids (task : Task) : List String := (task.read?.map PendingRead.ids).getD []

def drafts : Task → List ℕ
  | spill _ _ written => written.map Prod.snd
  | _ => []

/-- Files that a task has loaded or removed, or still may. -/
def exposed : Task → List ℕ
  | load _ todo loaded => todo ++ loaded.map Prod.fst
  | unlink _ todo removed => todo.map Prod.fst ++ removed.map Prod.fst
  | remove todo => todo
  | spill _ _ _ => []

/-- Files that a read has loaded and not removed yet, with what was in them. -/
def loaded : Task → List (ℕ × TrajectoryGroup)
  | load _ _ loaded => loaded
  | unlink _ todo _ => todo
  | _ => []

/-- Files that a read cannot do without. -/
def needs : Task → List ℕ
  | load _ todo loaded => todo ++ loaded.map Prod.fst
  | unlink _ todo _ => todo.map Prod.fst
  | _ => []

end Task

/-- Conditions on the changes of a run: on what a read may take, when a spill may commit,
which files may be removed behind the back of the reads, whether reads may fail. -/
structure Guard where
  take : View → List (String × Slot) → Prop
  commit : View → ℕ → String → Prop
  remove : View → ℕ → Prop
  fail : Prop

def Guard.none : Guard := ⟨fun _ _ => True, fun _ _ _ => True, fun _ _ => True, True⟩

inductive Change (G : Guard) : View → View → Prop where
  | note {v : View} {event : Event}
      (event_eq : (∃ t, event = .ignored t) ∨ ∃ t, event = .duplicate t) :
      Change G v { v with log := event :: v.log }
  | append {v : View} {t : Trajectory} {group group' : TrajectoryGroup}
      (look : v.look t.instanceId = some (.memory group) ∨
        (group.trajectories = [] ∧
          (v.look t.instanceId = none ∨ v.look t.instanceId = some .hollow)))
      (grown : group'.trajectories = group.trajectories ++ [t]) :
      Change G v { v with
        look := Function.update v.look t.instanceId (some (.memory group'))
        log := .appended t :: v.log }
  | copy {v : View} {chosen : List (String × TrajectoryGroup)}
      (nodup : (chosen.map Prod.fst).Nodup)
      (look : ∀ p ∈ chosen, v.look p.1 = some (.memory p.2) ∧ p.2.isComplete = true) :
      Change G v { v with tasks := .spill v.log.length chosen [] ::ₘ v.tasks }
  | write {v : View} {rest : Multiset Task} {startedAt drawn : ℕ} {id : String}
      {group : TrajectoryGroup} {todo : List (String × TrajectoryGroup)}
      {written : List ((String × TrajectoryGroup) × ℕ)}
      (task : v.tasks = .spill startedAt ((id, group) :: todo) written ::ₘ rest)
      (fresh : v.drawn < drawn) :
      Change G v { v with
        file := Function.update v.file v.drawn (some group)
        drawn
        tasks := .spill startedAt todo (written ++ [((id, group), v.drawn)]) ::ₘ rest }
  | abandon {v : View} {rest : Multiset Task} {startedAt drawn : ℕ}
      {todo : List (String × TrajectoryGroup)}
      {written : List ((String × TrajectoryGroup) × ℕ)} {file : ℕ → Option TrajectoryGroup}
      (task : v.tasks = .spill startedAt todo written ::ₘ rest) (fresh : v.drawn < drawn)
      (kept : ∀ offset, offset ≠ v.drawn → file offset = v.file offset) :
      Change G v { v with file, drawn, tasks := rest }
  | commit {v : View} {rest : Multiset Task} {startedAt : ℕ}
      {written : List ((String × TrajectoryGroup) × ℕ)} {look : String → Option Slot}
      {ids : List String} (task : v.tasks = .spill startedAt [] written ::ₘ rest)
      (nodup : (written.map fun w => w.1.1).Nodup)
      (pointed : ∀ w ∈ written, look w.1.1 = (v.look w.1.1).map fun _ => .disk w.2)
      (kept : ∀ id, id ∉ written.map (fun w => w.1.1) → look id = v.look id)
      (mem_ids : ∀ id, id ∈ ids ↔ id ∈ written.map (fun w => w.1.1) ∧ v.look id ≠ none)
      (permitted : ∀ w ∈ written, v.look w.1.1 ≠ none → G.commit v startedAt w.1.1) :
      Change G v { v with look, tasks := rest, log := ids.map .committed ++ v.log }
  | take {v : View} {taken : List (String × Slot)} (nodup : (taken.map Prod.fst).Nodup)
      (look : ∀ p ∈ taken, v.look p.1 = some p.2) (readable : ∀ p ∈ taken, p.2 ≠ .hollow)
      (permitted : G.take v taken) :
      Change G v { v with
        look := fun id =>
          if id ∈ taken.map Prod.fst then (v.look id).map Slot.moveOut else v.look id
        log := .taken (taken.map Prod.fst) (Slot.offsets taken) :: v.log
        tasks := .load ⟨v.log.length + 1, taken.map Prod.fst, Slot.groups taken⟩
          (Slot.offsets taken) [] ::ₘ v.tasks }
  | load {v : View} {rest : Multiset Task} {read : PendingRead} {offset : ℕ}
      {group : TrajectoryGroup} {todo : List ℕ} {loaded : List (ℕ × TrajectoryGroup)}
      (task : v.tasks = .load read (offset :: todo) loaded ::ₘ rest)
      (file : v.file offset = some group) :
      Change G v { v with tasks := .load read todo (loaded ++ [(offset, group)]) ::ₘ rest }
  | merge {v : View} {rest : Multiset Task} {read : PendingRead}
      {loaded : List (ℕ × TrajectoryGroup)} (task : v.tasks = .load read [] loaded ::ₘ rest) :
      Change G v { v with tasks := .unlink read loaded [] ::ₘ rest }
  | unlink {v : View} {rest : Multiset Task} {read : PendingRead} {offset : ℕ}
      {group : TrajectoryGroup} {todo removed : List (ℕ × TrajectoryGroup)}
      (task : v.tasks = .unlink read ((offset, group) :: todo) removed ::ₘ rest)
      (file : v.file offset ≠ none) :
      Change G v { v with
        file := Function.update v.file offset none
        tasks := .unlink read todo (removed ++ [(offset, group)]) ::ₘ rest }
  | finish {v : View} {rest : Multiset Task} {read : PendingRead}
      {removed : List (ℕ × TrajectoryGroup)} (task : v.tasks = .unlink read [] removed ::ₘ rest) :
      Change G v { v with
        look := fun id => if id ∈ read.ids then none else v.look id
        log := .delivered (read.result ++ removed.map Prod.snd) :: v.log
        tasks := rest }
  | failLoad {v : View} {rest : Multiset Task} {read : PendingRead} {todo : List ℕ}
      {loaded : List (ℕ × TrajectoryGroup)} {failure : Failure}
      (task : v.tasks = .load read todo loaded ::ₘ rest) (permitted : G.fail) :
      Change G v { v with tasks := rest, log := .readFailed failure :: v.log }
  | failUnlink {v : View} {rest : Multiset Task} {read : PendingRead}
      {todo removed : List (ℕ × TrajectoryGroup)} {failure : Failure}
      (task : v.tasks = .unlink read todo removed ::ₘ rest) (permitted : G.fail) :
      Change G v { v with tasks := rest, log := .readFailed failure :: v.log }
  | expire {v : View} {f : String → TrajectoryGroup → TrajectoryGroup}
      (trajectories : ∀ id group, (f id group).trajectories = group.trajectories)
      (complete : ∀ id group, group.isComplete = true → f id group = group) :
      Change G v { v with look := fun id => (v.look id).map (Slot.map (f id)) }
  | discard {v : View} (gone : String → Prop) [DecidablePred gone] (files : List ℕ)
      (look : ∀ offset ∈ files, ∃ id, gone id ∧ v.look id = some (.disk offset)) :
      Change G v { v with
        look := fun id => if gone id then none else v.look id
        tasks := if files = [] then v.tasks else .remove files ::ₘ v.tasks }
  | remove {v : View} {rest : Multiset Task} {offset : ℕ} {todo : List ℕ}
      (task : v.tasks = .remove (offset :: todo) ::ₘ rest) (permitted : G.remove v offset) :
      Change G v { v with
        file := Function.update v.file offset none
        tasks := .remove todo ::ₘ rest }
  | forget {v : View} {rest : Multiset Task} {todo : List ℕ}
      (task : v.tasks = .remove todo ::ₘ rest) : Change G v { v with tasks := rest }

/-- A read without files is not suspended between its scan and its end. -/
theorem Change.finish_at_once {G : Guard} {v : View} {rest : Multiset Task} {read : PendingRead}
    (task : v.tasks = .load read [] [] ::ₘ rest) :
    Relation.ReflTransGen (Change G) v { v with
      look := fun id => if id ∈ read.ids then none else v.look id
      log := .delivered (read.result ++ []) :: v.log
      tasks := rest } :=
  .head (.merge task) (.single (@Change.finish G _ rest read [] rfl))

namespace BufferShard

def look (s : BufferShard) (id : String) : Option Slot := (s.groups.get? id).map GroupEntry.slot

def Clean (s : BufferShard) : Prop :=
  ∀ id e, (id, e) ∈ s.groups.entries → e.groupPtr ≠ none → e.diskOffset = 0

end BufferShard

def System.view (env : Env) (s : System) : View where
  look := s.shard.look
  file := s.shard.diskStorage.find
  drawn := env.spillId s.shard.diskStorage.spills
  tasks := s.tasks
  log := s.log

end TransferQueue
