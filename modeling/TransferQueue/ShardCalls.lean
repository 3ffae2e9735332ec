import TransferQueue.Interleaving
import TransferQueue.ManagerOps

/-! Requests on one core with operations in flight. A request is answered at once, or when
the operation that it has left suspended ends; the core keeps for every suspended operation
the call that waits for it. -/

namespace TransferQueue

/-- A shard, its suspended operations, each with the call that waits for it, and what has
happened. Nobody waits for the removal of a deleted file. -/
structure Core where
  shard : BufferShard
  tasks : List (Option ℕ × Task)
  log : List Event
  crashed : Bool

inductive Kind where
  | written
  | counted
  | groups
  | ready
  | done
  | status
  deriving DecidableEq

def Request.kind : Request → Kind
  | write _ => .written
  | batchWrite _ => .counted
  | readReadyGroups _ => .groups
  | hasReadyGroups => .ready
  | deleteInstance _ => .done
  | reset => .done
  | getStatus => .status

def Request.trajectories : Request → List Trajectory
  | write t => [t]
  | batchWrite ts => ts
  | _ => []

def Response.kind : Response → Kind
  | written _ => .written
  | counted _ => .counted
  | groups _ => .groups
  | ready _ => .ready
  | done _ => .done
  | status _ => .status

def Task.kind : Task → Kind
  | spill _ _ _ => .written
  | load _ _ _ => .groups
  | unlink _ _ _ => .groups
  | remove _ => .done

/-- The answers to an operation of a kind; a batch does not fail. -/
def Kind.Admits (kind : Kind) (response : Response) : Prop :=
  response.kind = kind ∧ ∀ e, response ≠ .counted (.error e)

/-- What answers an operation or carries it on is of its kind. -/
def Kind.Fits (kind : Kind) (answer : Option Response) (after : Option Task) : Prop :=
  (∀ response ∈ answer, kind.Admits response) ∧ ∀ task ∈ after, task.kind = kind

namespace System
variable (env : Env)

/-- What `write` resolves to at once, if it does not spill. -/
def writeAnswer (t : Trajectory) (s : System) : Option Bool :=
  match s.shard.writeStart env t with
  | (.duplicate, _) => some false
  | (.onDisk, _) => some true
  | (.appended, shard) =>
    match shard.spillSelection env with
    | none => some true
    | some _ => none

/-- The loop of `batch_write`. The storage of a started shard is initialised, so the future
of a write that spills is not resolved: to ask for it outside a thread is the end of the
process. -/
def batchWriteLoop : ℕ → List Trajectory → System → Option ℕ × System
  | written, [], s => (some written, s)
  | written, t :: ts, s =>
    match s.writeAnswer env t with
    | some true => batchWriteLoop (written + 1) ts (s.startWrite env t)
    | some false => batchWriteLoop written ts (s.startWrite env t)
    | none => (none, { s.startWrite env t with crashed := true })

/-- What `read_ready_groups` resolves to at once, if it has no file to load. -/
def readAnswer (maxGroups : Int32) (s : System) : Option (List TrajectoryGroup) :=
  (s.shard.readScan maxGroups).bind fun r =>
    if r.1.offsetsToLoad = [] then some r.1.result else none

/-- A request up to its first suspension point, and its answer if it has none. -/
def start (s : System) : Request → Option Response × System
  | .write t => ((s.writeAnswer env t).map fun b => .written (.ok b), s.startWrite env t)
  | .batchWrite ts =>
    ((batchWriteLoop env 0 ts s).1.map fun n => .counted (.ok n), (batchWriteLoop env 0 ts s).2)
  | .readReadyGroups maxGroups =>
    ((s.readAnswer maxGroups).map fun groups => .groups (.ok groups), s.startRead maxGroups)
  | .hasReadyGroups => (some (.ready s.shard.hasReadyGroups), s)
  | .deleteInstance id => (some (.done (.ok ())), s.startDelete id)
  | .reset =>
    (if s.shard.diskOffsets = [] ∨ s.shard.diskStorage.initialized = false then
      some (.done (.ok ())) else none, s.startReset)
  | .getStatus => (some (.status (s.shard.getStatus env)), s)

/-- What an operation resolves to if its next resumption ends it. -/
def answer (s : System) : Task → Option Response
  | .spill _ ((_, group) :: _) _ =>
    match (s.shard.diskStorage.spill env group).1 with
    | .error e => some (.written (.error e))
    | .ok _ => none
  | .spill _ [] written =>
    some (.written ((BufferShard.commitSpill env (written.map fun w => w.1.1)
      (written.map Prod.snd) s.shard).1.map fun _ => true))
  | .load _ (offset :: _) _ =>
    match (s.shard.diskStorage.load env offset).1 with
    | .error e => some (.groups (.error e))
    | .ok _ => none
  | .load _ [] _ => none
  | .unlink _ ((offset, _) :: _) _ =>
    match (s.shard.diskStorage.remove env offset).1 with
    | .error e => some (.groups (.error e))
    | .ok _ => none
  | .unlink read [] removed => some (.groups (.ok (read.result ++ removed.map Prod.snd)))
  | .remove (offset :: todo) =>
    match (s.shard.diskStorage.remove env offset).1 with
    | .error e => some (.done (.error e))
    | .ok _ => if todo = [] then none else some (.done (.error .useAfterFree))
  | .remove [] => some (.done (.ok ()))

end System

namespace Core
variable (env : Env)

def create (config : TransferQueueConfig) (bitCount numHashes : ℕ) : Core :=
  ⟨.create config bitCount numHashes, [], [], false⟩

def system (s : Core) : System := ⟨s.shard, s.tasks.map Prod.snd, s.log, s.crashed⟩

/-- A core whose system has moved on: `kept` are the operations suspended before, and what
has been suspended since has this caller. -/
def adopt (caller : Option ℕ) (kept : List (Option ℕ × Task)) (s : System) : Core :=
  ⟨s.shard, kept ++ (s.tasks.drop kept.length).map fun task => (caller, task), s.log, s.crashed⟩

def callerOf (call : ℕ) : Request → Option ℕ
  | .deleteInstance _ => none
  | _ => some call

/-- What a core is asked to do next: a request of a call, the resumption of a suspended
operation, or to look at another configuration. -/
inductive Input where
  | ask (call : ℕ) (request : Request)
  | resume (i : ℕ)
  | configure (config : TransferQueueConfig)

/-- A step of a core that has not crashed; its output is an answer and the call it is for. -/
def act (s : Core) : Input → Option (ℕ × Response) × Core
  | .ask call request =>
    let r := s.system.start env request
    (r.1.map fun response => (call, response), adopt (callerOf call request) s.tasks r.2)
  | .resume i =>
    match s.tasks[i]? with
    | none => (none, s)
    | some (caller, task) =>
      let kept := s.tasks.eraseIdx i
      let system := { s.system with tasks := kept.map Prod.snd }
      (caller.bind fun call => (system.answer env task).map fun response => (call, response),
        adopt caller kept (system.resumeTask env task))
  | .configure config => (none, { s with shard := s.shard.updateConfig config })

def step (s : Core) (input : Input) : Option (ℕ × Response) × Core :=
  if s.crashed then (none, s) else s.act env input

end Core

namespace Event

/-- What a write resolves to that makes this event. -/
def written? : Event → Option Bool
  | appended _ => some true
  | ignored _ => some true
  | duplicate _ => some false
  | _ => none

end Event

/-- What a step makes of an operation: of the suspended one that it resumes, if any, its
answer, what happens, and what it leaves suspended. -/
inductive Outcome : Option Task → Option Response → List Event → Option Task → Prop where
  | written (b : Bool) (event : Event) (event_eq : event.written? = some b) :
      Outcome none (some (.written (.ok b))) [event] none
  | spilling (t : Trajectory) (startedAt : ℕ) (todo : List (String × TrajectoryGroup)) :
      Outcome none none [.appended t] (some (.spill startedAt todo []))
  | counted (events : List Event) (writes : ∀ event ∈ events, event.written? ≠ none) :
      Outcome none (some (.counted (.ok (events.countP fun event => event.written? = some true))))
        events none
  | read (groups : List TrajectoryGroup) (ids : List String) :
      Outcome none (some (.groups (.ok groups))) [.delivered groups, .taken ids []] none
  | reading (read : PendingRead) (offsets : List ℕ) :
      Outcome none none [.taken read.ids offsets] (some (.load read offsets []))
  | told (response : Response)
      (plain : (∃ b, response = .ready b) ∨ (∃ status, response = .status status) ∨
        response = .done (.ok ())) :
      Outcome none (some response) [] none
  | removing (answer : Option Response) (plain : answer = none ∨ answer = some (.done (.ok ())))
      (todo : List ℕ) : Outcome none answer [] (some (.remove todo))
  | spilled (startedAt : ℕ) (copy : String × TrajectoryGroup)
      (todo : List (String × TrajectoryGroup)) (written : List ((String × TrajectoryGroup) × ℕ))
      (offset : ℕ) :
      Outcome (some (.spill startedAt (copy :: todo) written)) none []
        (some (.spill startedAt todo (written ++ [(copy, offset)])))
  | spillFailed (startedAt : ℕ) (copy : String × TrajectoryGroup)
      (todo : List (String × TrajectoryGroup)) (written : List ((String × TrajectoryGroup) × ℕ))
      (e : Failure) :
      Outcome (some (.spill startedAt (copy :: todo) written)) (some (.written (.error e))) [] none
  | committed (startedAt : ℕ) (written : List ((String × TrajectoryGroup) × ℕ))
      (ids : List String) :
      Outcome (some (.spill startedAt [] written)) (some (.written (.ok true)))
        (ids.map .committed) none
  | loaded (read : PendingRead) (offset : ℕ) (todo : List ℕ)
      (loaded : List (ℕ × TrajectoryGroup)) (group : TrajectoryGroup) :
      Outcome (some (.load read (offset :: todo) loaded)) none []
        (some (.load read todo (loaded ++ [(offset, group)])))
  | loadFailed (read : PendingRead) (offset : ℕ) (todo : List ℕ)
      (loaded : List (ℕ × TrajectoryGroup)) (e : Failure) :
      Outcome (some (.load read (offset :: todo) loaded)) (some (.groups (.error e)))
        [.readFailed e] none
  | merged (read : PendingRead) (loaded : List (ℕ × TrajectoryGroup)) :
      Outcome (some (.load read [] loaded)) none [] (some (.unlink read loaded []))
  | unlinked (read : PendingRead) (file : ℕ × TrajectoryGroup)
      (todo removed : List (ℕ × TrajectoryGroup)) :
      Outcome (some (.unlink read (file :: todo) removed)) none []
        (some (.unlink read todo (removed ++ [file])))
  | unlinkFailed (read : PendingRead) (file : ℕ × TrajectoryGroup)
      (todo removed : List (ℕ × TrajectoryGroup)) (e : Failure) :
      Outcome (some (.unlink read (file :: todo) removed)) (some (.groups (.error e)))
        [.readFailed e] none
  | finished (read : PendingRead) (removed : List (ℕ × TrajectoryGroup)) :
      Outcome (some (.unlink read [] removed))
        (some (.groups (.ok (read.result ++ removed.map Prod.snd))))
        [.delivered (read.result ++ removed.map Prod.snd)] none
  | removed (offset : ℕ) : Outcome (some (.remove [offset])) none [] (some (.remove []))
  | removeFailed (offset : ℕ) (todo : List ℕ) (e : Failure) :
      Outcome (some (.remove (offset :: todo))) (some (.done (.error e))) [] none
  | gone : Outcome (some (.remove [])) (some (.done (.ok ()))) [] none

namespace Outcome
variable {before after : Option Task} {answer : Option Response} {events : List Event}

theorem suspends (h : Outcome before answer events after) (hanswer : answer = none) :
    after ≠ none := by
  cases h <;> simp_all

theorem of_task {task : Task} (h : Outcome (some task) answer events after) :
    (answer ≠ none → after = none) ∧ task.kind.Fits answer after := by
  cases h <;> simp [Kind.Fits, Kind.Admits, Task.kind, Response.kind]

theorem appends_nothing {task : Task} (h : Outcome (some task) answer events after)
    (t : Trajectory) : .appended t ∉ events := by
  cases h <;> simp

theorem of_remove {todo : List ℕ} (h : Outcome (some (.remove todo)) answer events after) :
    (∀ task ∈ after, ∃ todo', task = .remove todo') ∧
      ∀ response ∈ answer, ∃ r, response = .done r := by
  cases h <;> simp

end Outcome

section Outcomes
variable (env : Env)

namespace System

/-- A step goes from `s` to `s'` with this outcome; what it answers or leaves suspended is of
this kind. -/
def Steps (s : System) (kind : Kind) (before : Option Task) (answer : Option Response)
    (s' : System) : Prop :=
  ∃ events after, Outcome before answer events after ∧ kind.Fits answer after ∧
    s'.log = events ++ s.log ∧ s'.tasks = s.tasks ++ after.toList ∧ s'.crashed = s.crashed

/-- The process comes down in a step that only writes. -/
def Aborts (s : System) (answer : Option Response) (s' : System) : Prop :=
  s'.crashed = true ∧ answer = none ∧ ∃ events after, (∀ event ∈ events, event.written? ≠ none) ∧
    s'.log = events ++ s.log ∧ s'.tasks = s.tasks ++ (after : Option Task).toList

theorem startWrite_crashed (t : Trajectory) (s : System) :
    (s.startWrite env t).crashed = s.crashed := by
  rw [startWrite]
  rcases s.shard.writeStart env t with ⟨_ | _ | _, shard⟩
  · rfl
  · rfl
  · simp only
    cases shard.spillSelection env <;> rfl

theorem startWrite_steps (t : Trajectory) (s : System) :
    (∃ b event, s.writeAnswer env t = some b ∧ event.written? = some b ∧
        (s.startWrite env t).log = event :: s.log ∧ (s.startWrite env t).tasks = s.tasks) ∨
      ∃ startedAt todo, s.writeAnswer env t = none ∧
        (s.startWrite env t).log = .appended t :: s.log ∧
        (s.startWrite env t).tasks = s.tasks ++ [.spill startedAt todo []] := by
  rw [writeAnswer, startWrite]
  rcases s.shard.writeStart env t with ⟨_ | _ | _, shard⟩
  · exact .inl ⟨false, .duplicate t, rfl, rfl, rfl, rfl⟩
  · exact .inl ⟨true, .ignored t, rfl, rfl, rfl, rfl⟩
  · simp only
    cases shard.spillSelection env with
    | none => exact .inl ⟨true, .appended t, rfl, rfl, rfl, rfl⟩
    | some selection => exact .inr ⟨_, _, rfl, rfl, rfl⟩

theorem batchWriteLoop_steps (written : ℕ) (ts : List Trajectory) (s : System) :
    ∃ events, (∀ event ∈ events, event.written? ≠ none) ∧
      (batchWriteLoop env written ts s).2.log = events ++ s.log ∧
      (((batchWriteLoop env written ts s).1 =
            some (written + events.countP fun event => event.written? = some true) ∧
          (batchWriteLoop env written ts s).2.tasks = s.tasks ∧
          (batchWriteLoop env written ts s).2.crashed = s.crashed) ∨
        ((batchWriteLoop env written ts s).1 = none ∧
          (batchWriteLoop env written ts s).2.crashed = true ∧
          ∃ task, (batchWriteLoop env written ts s).2.tasks = s.tasks ++ [task])) := by
  induction ts generalizing s written with
  | nil => exact ⟨[], fun _ h => absurd h List.not_mem_nil, rfl, .inl ⟨rfl, rfl, rfl⟩⟩
  | cons t ts ih =>
    rcases s.startWrite_steps env t with
      ⟨b, event, hanswer, hevent, hlog, htasks⟩ | ⟨startedAt, todo, hanswer, hlog, htasks⟩
    · have hloop : batchWriteLoop env written (t :: ts) s =
          batchWriteLoop env (written + b.toNat) ts (s.startWrite env t) := by
        rw [batchWriteLoop, hanswer]
        cases b <;> rfl
      obtain ⟨events, hwrites, hlog', hend⟩ := ih (written + b.toNat) (s.startWrite env t)
      rw [hloop]
      refine ⟨events ++ [event], ?_, by rw [hlog', hlog, List.append_assoc]; rfl, ?_⟩
      · intro e he
        rcases List.mem_append.mp he with hold | hnew
        · exact hwrites e hold
        · rw [List.mem_singleton.mp hnew, hevent]
          exact Option.some_ne_none _
      · have hcount : ∀ n, written + (events ++ [event]).countP n =
            written + [event].countP n + events.countP n := fun n => by
          rw [List.countP_append, Nat.add_comm (events.countP n), Nat.add_assoc]
        rw [htasks, startWrite_crashed] at hend
        rw [hcount, List.countP_singleton, hevent]
        cases b <;> simpa using hend
    · rw [batchWriteLoop, hanswer]
      refine ⟨[.appended t], fun e he => ?_, hlog, .inr ⟨rfl, rfl, _, htasks⟩⟩
      rw [List.mem_singleton.mp he]
      exact Option.some_ne_none _

/-- What a request does up to its first suspension point. -/
theorem start_steps (s : System) (request : Request) :
    s.Steps request.kind none (s.start env request).1 (s.start env request).2 ∨
      s.Aborts (s.start env request).1 (s.start env request).2 := by
  cases request with
  | write t =>
    refine .inl ?_
    have hcrashed := s.startWrite_crashed env t
    rcases s.startWrite_steps env t with
      ⟨b, event, hanswer, hevent, hlog, htasks⟩ | ⟨startedAt, todo, hanswer, hlog, htasks⟩
    · refine ⟨[event], none, ?_, ?_, hlog, by rw [start, htasks]; simp, hcrashed⟩ <;>
        rw [start, hanswer]
      · exact .written b event hevent
      · exact ⟨by simp [Kind.Admits, Response.kind, Request.kind], by simp⟩
    · refine ⟨[.appended t], some (.spill startedAt todo []), ?_, ?_, hlog, htasks, hcrashed⟩ <;>
        rw [start, hanswer]
      · exact .spilling t startedAt todo
      · exact ⟨by simp, by simp [Task.kind, Request.kind]⟩
  | batchWrite ts =>
    obtain ⟨events, hwrites, hlog,
      ⟨hanswer, htasks, hcrashed⟩ | ⟨hanswer, hcrashed, task, htasks⟩⟩ :=
      batchWriteLoop_steps env 0 ts s
    · refine .inl ⟨events, none, ?_, ?_, hlog, by rw [start, htasks]; simp, hcrashed⟩ <;>
        rw [start, hanswer, Nat.zero_add]
      · exact .counted events hwrites
      · exact ⟨by simp [Kind.Admits, Response.kind, Request.kind], by simp⟩
    · refine .inr ⟨hcrashed, by rw [start, hanswer]; rfl, events, some task, hwrites, hlog, htasks⟩
  | readReadyGroups maxGroups =>
    rw [start, readAnswer, startRead]
    rcases s.shard.readScan maxGroups with _ | ⟨scan, shard⟩
    · exact .inr ⟨rfl, rfl, [], none, fun _ h => absurd h List.not_mem_nil, rfl, by simp⟩
    · simp only [Option.bind_some]
      by_cases hoffsets : scan.offsetsToLoad = []
      · rw [if_pos hoffsets, if_pos hoffsets]
        refine .inl ⟨[.delivered scan.result, .taken scan.idsToRemove []], none, .read _ _,
          ⟨by simp [Kind.Admits, Response.kind, Request.kind], by simp⟩, ?_,
          by simp [finishRead], rfl⟩
        simp [finishRead, hoffsets]
      · rw [if_neg hoffsets, if_neg hoffsets]
        exact .inl ⟨[.taken scan.idsToRemove scan.offsetsToLoad],
          some (.load ⟨_, scan.idsToRemove, scan.result⟩ scan.offsetsToLoad []),
          .reading ⟨_, scan.idsToRemove, scan.result⟩ _,
          ⟨by simp, by simp [Task.kind, Request.kind]⟩, rfl, rfl, rfl⟩
  | hasReadyGroups =>
    exact .inl ⟨[], none, .told _ (.inl ⟨_, rfl⟩),
      ⟨by simp [start, Kind.Admits, Response.kind, Request.kind], by simp⟩, rfl,
      by simp [start], rfl⟩
  | getStatus =>
    exact .inl ⟨[], none, .told _ (.inr (.inl ⟨_, rfl⟩)),
      ⟨by simp [start, Kind.Admits, Response.kind, Request.kind], by simp⟩, rfl,
      by simp [start], rfl⟩
  | deleteInstance id =>
    rw [start, startDelete]
    rcases s.shard.deleteEntry id with ⟨_ | offset, shard⟩
    · exact .inl ⟨[], none, .told _ (.inr (.inr rfl)),
        ⟨by simp [Kind.Admits, Response.kind, Request.kind], by simp⟩, rfl, by simp, rfl⟩
    · exact .inl ⟨[], some (.remove [offset]), .removing _ (.inr rfl) _,
        ⟨by simp [Kind.Admits, Response.kind, Request.kind], by simp [Task.kind, Request.kind]⟩,
        rfl, rfl, rfl⟩
  | reset =>
    rw [start, startReset]
    by_cases hoffsets : s.shard.diskOffsets = [] ∨ s.shard.diskStorage.initialized = false
    · rw [if_pos hoffsets, if_pos hoffsets]
      exact .inl ⟨[], none, .told _ (.inr (.inr rfl)),
        ⟨by simp [Kind.Admits, Response.kind, Request.kind], by simp⟩, rfl, by simp, rfl⟩
    · rw [if_neg hoffsets, if_neg hoffsets]
      exact .inl ⟨[], some (.remove s.shard.diskOffsets), .removing _ (.inl rfl) _,
        ⟨by simp, by simp [Task.kind, Request.kind]⟩, rfl, rfl, rfl⟩

theorem start_suspends (s : System) (request : Request) (h : (s.start env request).1 ≠ none) :
    (s.start env request).2.tasks = s.tasks ∨ ∃ id, request = .deleteInstance id := by
  cases request with
  | write t =>
    rcases s.startWrite_steps env t with
      ⟨b, event, hanswer, hevent, hlog, htasks⟩ | ⟨startedAt, todo, hanswer, hlog, htasks⟩
    · exact .inl htasks
    · exact absurd (by rw [start, hanswer]; rfl) h
  | batchWrite ts =>
    obtain ⟨events, -, -, ⟨-, htasks, -⟩ | ⟨hanswer, -⟩⟩ :=
      batchWriteLoop_steps env 0 ts s
    · exact .inl htasks
    · exact absurd (by rw [start, hanswer]; rfl) h
  | readReadyGroups maxGroups =>
    rcases hscan : s.shard.readScan maxGroups with _ | ⟨scan, shard⟩
    · simp [start, readAnswer, hscan] at h
    · by_cases hoffsets : scan.offsetsToLoad = []
      · exact .inl (by simp [start, startRead, hscan, hoffsets, finishRead])
      · simp [start, readAnswer, hscan, hoffsets] at h
  | reset =>
    by_cases hoffsets : s.shard.diskOffsets = [] ∨ s.shard.diskStorage.initialized = false
    · refine .inl ?_
      rw [start, startReset, if_pos hoffsets, if_pos hoffsets]
    · rw [start, if_neg hoffsets] at h
      exact absurd rfl h
  | deleteInstance id => exact .inr ⟨id, rfl⟩
  | hasReadyGroups => exact .inl rfl
  | getStatus => exact .inl rfl

theorem startWrite_appended (t : Trajectory) (s : System) {t' : Trajectory}
    (h : .appended t' ∈ (s.startWrite env t).log) : .appended t' ∈ s.log ∨ t' = t := by
  rw [startWrite] at h
  rcases hstart : s.shard.writeStart env t with ⟨_ | _ | _, shard⟩ <;> rw [hstart] at h
  · exact .inl (by simpa using h)
  · exact .inl (by simpa using h)
  · simp only at h
    cases hspill : shard.spillSelection env <;> rw [hspill] at h <;>
      simpa [spawn, or_comm] using h

theorem batchWriteLoop_appended (written : ℕ) (ts : List Trajectory) (s : System) {t : Trajectory}
    (h : .appended t ∈ (batchWriteLoop env written ts s).2.log) :
    .appended t ∈ s.log ∨ t ∈ ts := by
  induction ts generalizing s written with
  | nil => exact .inl h
  | cons t' ts ih =>
    have hstart : .appended t ∈ (s.startWrite env t').log → .appended t ∈ s.log ∨ t ∈ t' :: ts :=
      fun hmem => (startWrite_appended env t' s hmem).imp_right fun heq : t = t' =>
        heq ▸ List.mem_cons_self
    have hrest : .appended t ∈ (s.startWrite env t').log ∨ t ∈ ts →
        .appended t ∈ s.log ∨ t ∈ t' :: ts :=
      fun hmem => hmem.elim hstart fun hin => .inr (List.mem_cons_of_mem _ hin)
    rw [batchWriteLoop] at h
    cases hanswer : s.writeAnswer env t' with
    | none =>
      rw [hanswer] at h
      exact hstart h
    | some b =>
      rw [hanswer] at h
      cases b with
      | true => exact hrest (ih (written + 1) _ h)
      | false => exact hrest (ih written _ h)

theorem start_appended (s : System) (request : Request) {t : Trajectory}
    (h : .appended t ∈ (s.start env request).2.log) :
    .appended t ∈ s.log ∨ t ∈ request.trajectories := by
  cases request with
  | write t' => exact (startWrite_appended env t' s h).imp_right List.mem_singleton.mpr
  | batchWrite ts => exact batchWriteLoop_appended env 0 ts s h
  | readReadyGroups maxGroups =>
    rw [start, startRead] at h
    rcases hscan : s.shard.readScan maxGroups with _ | ⟨scan, shard⟩ <;> rw [hscan] at h
    · exact .inl h
    · simp only at h
      by_cases hoffsets : scan.offsetsToLoad = [] <;>
        simp only [hoffsets, if_true, if_false, finishRead, spawn] at h <;>
        exact .inl (by simpa using h)
  | deleteInstance id =>
    rw [start, startDelete] at h
    rcases hd : s.shard.deleteEntry id with ⟨_ | offset, shard⟩ <;> rw [hd] at h <;> exact .inl h
  | reset =>
    rw [start, startReset] at h
    split at h <;> exact .inl h
  | hasReadyGroups => exact .inl h
  | getStatus => exact .inl h

theorem startDelete_task (s : System) (id : String) {task : Task}
    (h : (s.startDelete id).tasks = s.tasks ++ [task]) : ∃ todo, task = .remove todo := by
  rcases hd : s.shard.deleteEntry id with ⟨_ | offset, shard⟩ <;>
    simp only [startDelete, hd, spawn] at h
  · simp at h
  · exact ⟨[offset], (List.singleton_inj.mp (List.append_cancel_left h)).symm⟩

/-- What one resumption does. -/
theorem resumeTask_steps (s : System) (task : Task) :
    s.Steps task.kind (some task) (s.answer env task) (s.resumeTask env task) := by
  suffices ∃ events after, Outcome (some task) (s.answer env task) events after ∧
      (s.resumeTask env task).log = events ++ s.log ∧
      (s.resumeTask env task).tasks = s.tasks ++ after.toList ∧
      (s.resumeTask env task).crashed = s.crashed by
    obtain ⟨events, after, houtcome, hrest⟩ := this
    exact ⟨events, after, houtcome, houtcome.of_task.2, hrest⟩
  cases task with
  | spill startedAt todo written =>
    cases todo with
    | nil =>
      refine ⟨_, none, ?_, rfl, by simp [resumeTask], rfl⟩
      rw [answer, BufferShard.commitSpill, if_neg (by simp)]
      exact .committed startedAt written _
    | cons copy todo =>
      rw [answer, resumeTask]
      rcases s.shard.diskStorage.spill env copy.2 with ⟨e | offset, d⟩
      · exact ⟨[], none, .spillFailed _ _ _ _ e, rfl, by simp [setDisk], rfl⟩
      · exact ⟨[], some _, .spilled _ _ _ _ offset, rfl, rfl, rfl⟩
  | load read todo loaded =>
    cases todo with
    | nil => exact ⟨[], some _, .merged read loaded, rfl, rfl, rfl⟩
    | cons offset todo =>
      rw [answer, resumeTask]
      rcases s.shard.diskStorage.load env offset with ⟨e | group, d⟩
      · exact ⟨[.readFailed e], none, .loadFailed _ _ _ _ e, rfl, by simp [setDisk, note], rfl⟩
      · exact ⟨[], some _, .loaded _ _ _ _ group, rfl, rfl, rfl⟩
  | unlink read todo removed =>
    cases todo with
    | nil => exact ⟨_, none, .finished read removed, rfl, by simp [resumeTask, finishRead], rfl⟩
    | cons file todo =>
      rw [answer, resumeTask]
      rcases s.shard.diskStorage.remove env file.1 with ⟨e | _, d⟩
      · exact ⟨[.readFailed e], none, .unlinkFailed _ _ _ _ e, rfl, by simp [setDisk, note], rfl⟩
      · exact ⟨[], some _, .unlinked _ _ _ _, rfl, rfl, rfl⟩
  | remove todo =>
    cases todo with
    | nil => exact ⟨[], none, .gone, rfl, by simp [resumeTask], rfl⟩
    | cons offset todo =>
      rw [answer, resumeTask]
      rcases s.shard.diskStorage.remove env offset with ⟨e | _, d⟩
      · exact ⟨[], none, .removeFailed _ _ e, rfl, by simp [setDisk], rfl⟩
      · by_cases hlast : todo = []
        · simp only [hlast, if_true]
          exact ⟨[], some _, .removed _, rfl, rfl, rfl⟩
        · simp only [hlast, if_false]
          exact ⟨[], none, .removeFailed _ _ .useAfterFree, rfl, by simp [setDisk], rfl⟩

end System

end Outcomes
end TransferQueue
