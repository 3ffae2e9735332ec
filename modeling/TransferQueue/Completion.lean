import TransferQueue.ShardCalls

/-! What a suspended operation comes to if nothing else happens. A resumption does not change
it, and a request that is left alone comes to what the sequential operation answers. -/

namespace TransferQueue
open DoForEach

namespace BufferShard

/-- The end of a read: its files are removed and its ids erased. -/
def finishFiles (env : Env) (offsets : List ℕ) (ids : List String) (result : List TrajectoryGroup)
    (s : BufferShard) : Response × BufferShard :=
  match s.diskStorage.removeAll env offsets with
  | (.error e, d) => (.groups (.error e), { s with diskStorage := d })
  | (.ok _, d) => (.groups (.ok result), eraseIds ids { s with diskStorage := d })

end BufferShard

def Task.complete (env : Env) (s : BufferShard) : Task → Response × BufferShard
  | .spill _ todo written =>
    match s.diskStorage.spillBatch env (todo.map Prod.snd) with
    | (.error e, d) => (.written (.error e), { s with diskStorage := d })
    | (.ok offsets, d) =>
      (BufferShard.commitSpill env ((written.map fun w => w.1.1) ++ todo.map Prod.fst)
        (written.map Prod.snd ++ offsets) { s with diskStorage := d }).map
          (fun r => .written (r.map fun _ => true)) id
  | .load read todo loaded =>
    match s.diskStorage.loadBatch env todo with
    | (.error e, d) => (.groups (.error e), { s with diskStorage := d })
    | (.ok groups, d) =>
      (({ s with diskStorage := d } : BufferShard).mergeLoaded
        (loaded.map Prod.snd ++ groups)).finishFiles env (loaded.map Prod.fst ++ todo) read.ids
          (read.result ++ (loaded.map Prod.snd ++ groups))
  | .unlink read todo removed =>
    s.finishFiles env (todo.map Prod.fst) read.ids
      (read.result ++ (removed.map Prod.snd ++ todo.map Prod.snd))
  | .remove [] => (.done (.ok ()), s)
  | .remove (offset :: todo) =>
    match s.diskStorage.remove env offset with
    | (.error e, d) => (.done (.error e), { s with diskStorage := d })
    | (.ok _, d) =>
      (.done (if todo = [] then .ok () else .error .useAfterFree), { s with diskStorage := d })

namespace System
variable (env : Env)

/-- A resumption brings an operation closer to what it comes to, or ends it with that. -/
def Nears (s : System) (task : Task) : Prop :=
  (s.answer env task = none ∧ ∃ task', (s.resumeTask env task).tasks = s.tasks ++ [task'] ∧
      task'.complete env (s.resumeTask env task).shard = task.complete env s.shard) ∨
    ∃ response, s.answer env task = some response ∧ (s.resumeTask env task).tasks = s.tasks ∧
      task.complete env s.shard = (response, (s.resumeTask env task).shard)

theorem resumeSpill_nears (s : System) (startedAt : ℕ) (todo : List (String × TrajectoryGroup))
    (written : List ((String × TrajectoryGroup) × ℕ)) :
    s.Nears env (.spill startedAt todo written) := by
  cases todo with
  | nil =>
    refine .inr ⟨_, rfl, rfl, ?_⟩
    simp only [Task.complete, List.map_nil, DiskStorage.spillBatch, doForEach, List.append_nil]
    rfl
  | cons copy todo =>
    rw [Nears, answer, resumeTask]
    rcases hs : s.shard.diskStorage.spill env copy.2 with ⟨e | offset, d⟩
    · refine .inr ⟨_, rfl, rfl, ?_⟩
      simp only [Task.complete, List.map_cons, DiskStorage.spillBatch, doForEach_cons_error hs]
      rfl
    · refine .inl ⟨rfl, _, rfl, ?_⟩
      simp only [Task.complete, List.map_cons, DiskStorage.spillBatch, doForEach_cons_ok hs,
        List.map_append, List.map_nil, List.append_assoc, List.cons_append, List.nil_append]
      rcases h : doForEach (DiskStorage.spill env) (todo.map Prod.snd) d with ⟨e | offsets, d'⟩
      · simp only [setDisk, spawn, h]
        rfl
      · simp only [setDisk, spawn, h]
        rfl

theorem resumeLoad_nears (s : System) (read : PendingRead) (todo : List ℕ)
    (loaded : List (ℕ × TrajectoryGroup)) : s.Nears env (.load read todo loaded) := by
  cases todo with
  | nil =>
    refine .inl ⟨rfl, _, rfl, ?_⟩
    simp only [Task.complete, DiskStorage.loadBatch, doForEach, List.append_nil, List.map_nil,
      List.nil_append]
    rfl
  | cons offset todo =>
    rw [Nears, answer, resumeTask]
    rcases hs : s.shard.diskStorage.load env offset with ⟨e | group, d⟩
    · refine .inr ⟨_, rfl, by simp [setDisk, note], ?_⟩
      simp only [Task.complete, DiskStorage.loadBatch, doForEach_cons_error hs]
      rfl
    · refine .inl ⟨rfl, _, rfl, ?_⟩
      simp only [Task.complete, DiskStorage.loadBatch, doForEach_cons_ok hs, List.map_append,
        List.map_cons, List.map_nil, List.append_assoc, List.cons_append, List.nil_append]
      rcases h : doForEach (DiskStorage.load env) todo d with ⟨e | groups, d'⟩
      · simp only [setDisk, spawn, h]
        rfl
      · simp only [setDisk, spawn, h]
        rfl

theorem resumeUnlink_nears (s : System) (read : PendingRead)
    (todo removed : List (ℕ × TrajectoryGroup)) : s.Nears env (.unlink read todo removed) := by
  cases todo with
  | nil =>
    refine .inr ⟨_, rfl, by simp [resumeTask, finishRead], ?_⟩
    simp only [Task.complete, BufferShard.finishFiles, List.map_nil, DiskStorage.removeAll,
      doForEach, List.append_nil]
    rfl
  | cons file todo =>
    rw [Nears, answer, resumeTask]
    rcases hs : s.shard.diskStorage.remove env file.1 with ⟨e | _, d⟩
    · refine .inr ⟨_, rfl, by simp [setDisk, note], ?_⟩
      simp only [Task.complete, BufferShard.finishFiles, List.map_cons, DiskStorage.removeAll,
        doForEach_cons_error hs]
      rfl
    · refine .inl ⟨rfl, _, rfl, ?_⟩
      simp only [Task.complete, BufferShard.finishFiles, List.map_cons, DiskStorage.removeAll,
        doForEach_cons_ok hs, List.map_append, List.map_nil, List.append_assoc,
        List.cons_append, List.nil_append]
      rcases h : doForEach (DiskStorage.remove env) (todo.map Prod.fst) d with ⟨e | _, d'⟩
      · simp only [setDisk, spawn, h]
        rfl
      · simp only [setDisk, spawn, h]
        rfl

theorem resumeRemove_nears (s : System) (todo : List ℕ) : s.Nears env (.remove todo) := by
  cases todo with
  | nil => exact .inr ⟨_, rfl, rfl, rfl⟩
  | cons offset todo =>
    rw [Nears, answer, resumeTask, Task.complete]
    rcases s.shard.diskStorage.remove env offset with ⟨e | _, d⟩
    · exact .inr ⟨_, rfl, rfl, rfl⟩
    · by_cases hlast : todo = []
      · simp only [hlast, if_true]
        exact .inl ⟨trivial, _, rfl, rfl⟩
      · simp only [hlast, if_false]
        exact .inr ⟨_, rfl, rfl, rfl⟩

theorem resumeTask_nears (s : System) (task : Task) : s.Nears env task := by
  cases task with
  | spill startedAt todo written => exact s.resumeSpill_nears env startedAt todo written
  | load read todo loaded => exact s.resumeLoad_nears env read todo loaded
  | unlink read todo removed => exact s.resumeUnlink_nears env read todo removed
  | remove todo => exact s.resumeRemove_nears env todo

theorem startWrite_complete (t : Trajectory) (s : System) :
    (∃ b, s.writeAnswer env t = some b ∧ (s.startWrite env t).tasks = s.tasks ∧
        s.shard.write env t = (.ok b, (s.startWrite env t).shard)) ∨
      (s.writeAnswer env t = none ∧ ∃ task, (s.startWrite env t).tasks = s.tasks ++ [task] ∧
        task.complete env (s.startWrite env t).shard =
          (s.shard.write env t).map Response.written id) := by
  rw [writeAnswer, startWrite, BufferShard.write]
  rcases s.shard.writeStart env t with ⟨_ | _ | _, shard⟩
  · exact .inl ⟨false, rfl, rfl, rfl⟩
  · exact .inl ⟨true, rfl, rfl, rfl⟩
  · simp only [BufferShard.trySpillGroups]
    cases hselection : shard.spillSelection env with
    | none => exact .inl ⟨true, rfl, rfl, rfl⟩
    | some selection =>
      refine .inr ⟨rfl, _, rfl, ?_⟩
      obtain ⟨chosen, hkeys, hgroups, -⟩ := BufferShard.spillSelection_spec hselection
      have hzip : selection.keys.zip selection.groups = chosen :=
        (List.zip_of_prod hkeys.symm hgroups.symm).symm
      simp only [Task.complete, spawn, hzip, List.map_nil, List.nil_append, ← hkeys, ← hgroups]
      rcases shard.diskStorage.spillBatch env selection.groups with ⟨e | offsets, d⟩
      · rfl
      · rcases h : BufferShard.commitSpill env selection.keys offsets
          { shard with diskStorage := d } with ⟨e | _, shard'⟩ <;> simp only [h] <;> rfl

theorem batchWriteLoop_complete (written : ℕ) (ts : List Trajectory) {s : System}
    (hc : s.crashed = false) (hup : (batchWriteLoop env written ts s).2.crashed = false) :
    ∃ n, (batchWriteLoop env written ts s).1 = some n ∧
      (batchWriteLoop env written ts s).2.tasks = s.tasks ∧
      s.shard.batchWriteLoop env written ts =
        (.ok n, (batchWriteLoop env written ts s).2.shard) := by
  induction ts generalizing s written with
  | nil => exact ⟨written, rfl, rfl, rfl⟩
  | cons t ts ih =>
    rw [batchWriteLoop] at hup ⊢
    rw [BufferShard.batchWriteLoop]
    have hc' : (s.startWrite env t).crashed = false := (startWrite_crashed env t s).trans hc
    rcases startWrite_complete env t s with ⟨b, hanswer, htasks, hwrite⟩ | ⟨hanswer, -⟩
    · rw [hanswer] at hup ⊢
      rw [hwrite]
      cases b with
      | true =>
        obtain ⟨n, hn, hrest, hloop⟩ := ih (written + 1) hc' hup
        exact ⟨n, hn, hrest.trans htasks, hloop⟩
      | false =>
        obtain ⟨n, hn, hrest, hloop⟩ := ih written hc' hup
        exact ⟨n, hn, hrest.trans htasks, hloop⟩
    · rw [hanswer] at hup
      cases hup

/-- A request answers at once what the sequential operation answers, or leaves suspended what
comes to it; of a deletion, only what becomes of the shard. -/
def Starts (env : Env) (s : System) (request : Request) : Prop :=
  (∃ response, (s.start env request).1 = some response ∧
      (s.start env request).2.tasks = s.tasks ∧
      s.shard.respond env request = (response, (s.start env request).2.shard)) ∨
    (∃ task, (s.start env request).1 = none ∧
      (s.start env request).2.tasks = s.tasks ++ [task] ∧
      task.complete env (s.start env request).2.shard = s.shard.respond env request) ∨
    ∃ id task, request = .deleteInstance id ∧
      (s.start env request).1 = some (.done (.ok ())) ∧
      (s.start env request).2.tasks = s.tasks ++ [task] ∧
      s.shard.respond env request =
        (.done (.ok ()), (task.complete env (s.start env request).2.shard).2)

theorem write_starts (s : System) (t : Trajectory) : s.Starts env (.write t) := by
  rcases startWrite_complete env t s with ⟨b, hanswer, htasks, hwrite⟩ | ⟨hanswer, task, hrest⟩
  · refine .inl ⟨_, by rw [start, hanswer]; rfl, htasks, ?_⟩
    rw [BufferShard.respond, hwrite]
    rfl
  · exact .inr (.inl ⟨task, by rw [start, hanswer]; rfl, hrest⟩)

theorem batchWrite_starts (s : System) (ts : List Trajectory) (hc : s.crashed = false)
    (hup : (s.start env (.batchWrite ts)).2.crashed = false) : s.Starts env (.batchWrite ts) := by
  obtain ⟨n, hn, htasks, hloop⟩ := batchWriteLoop_complete env 0 ts hc hup
  refine .inl ⟨_, by rw [start, hn]; rfl, htasks, ?_⟩
  rw [BufferShard.respond, BufferShard.batchWrite, hloop]
  rfl

theorem read_starts (s : System) (maxGroups : Int32)
    (hup : (s.start env (.readReadyGroups maxGroups)).2.crashed = false) :
    s.Starts env (.readReadyGroups maxGroups) := by
  rw [Starts, start, readAnswer, startRead, BufferShard.respond, BufferShard.readReadyGroups]
  rcases hscan : s.shard.readScan maxGroups with _ | ⟨scan, shard⟩
  · simp [start, startRead, hscan] at hup
  · simp only [Option.bind_some]
    by_cases hoffsets : scan.offsetsToLoad = []
    · rw [if_pos hoffsets, if_pos hoffsets]
      refine .inl ⟨_, rfl, rfl, ?_⟩
      simp only [hoffsets, DiskStorage.loadBatch, DiskStorage.removeAll, doForEach,
        List.append_nil]
      rfl
    · rw [if_neg hoffsets, if_neg hoffsets]
      refine .inr (.inl ⟨_, rfl, rfl, ?_⟩)
      simp only [Task.complete, spawn, List.map_nil, List.nil_append]
      rcases shard.diskStorage.loadBatch env scan.offsetsToLoad with ⟨e | groups, d⟩
      · rfl
      · simp only [BufferShard.finishFiles]
        rcases DiskStorage.removeAll env scan.offsetsToLoad
          (BufferShard.mergeLoaded groups { shard with diskStorage := d }).diskStorage with
          ⟨e | _, d'⟩ <;> rfl

theorem delete_starts (s : System) (id : String) : s.Starts env (.deleteInstance id) := by
  rw [Starts, start, startDelete, BufferShard.respond, BufferShard.deleteInstance]
  rcases s.shard.deleteEntry id with ⟨_ | offset, shard⟩
  · exact .inl ⟨_, rfl, rfl, rfl⟩
  · refine .inr (.inr ⟨id, _, rfl, rfl, rfl, ?_⟩)
    simp only [Task.complete, spawn]
    rcases shard.diskStorage.remove env offset with ⟨e | _, d⟩ <;> rfl

theorem reset_starts (s : System) : s.Starts env .reset := by
  rw [Starts, start, startReset, BufferShard.respond, BufferShard.reset]
  by_cases hnone : s.shard.diskOffsets = [] ∨ s.shard.diskStorage.initialized = false
  · rw [if_pos hnone, if_pos hnone]
    refine .inl ⟨_, rfl, rfl, ?_⟩
    rcases hnone with hnone | hinit
    · rw [hnone]
      rfl
    · rw [DiskStorage.removeFreed_uninitialized env (d := s.shard.clearAll.diskStorage) hinit]
      rfl
  · rw [if_neg hnone, if_neg hnone]
    refine .inr (.inl ⟨_, rfl, rfl, ?_⟩)
    rw [not_or, Bool.not_eq_false] at hnone
    obtain ⟨offset, rest, hoffsets⟩ := List.exists_cons_of_ne_nil hnone.1
    have hinit : s.shard.clearAll.diskStorage.initialized = true := hnone.2
    simp only [hoffsets, Task.complete, spawn, DiskStorage.removeFreed_cons env hinit]
    obtain ⟨d, -, -, -, ⟨e, hremove, -⟩ | ⟨hremove, -⟩⟩ :=
      DiskStorage.remove_cases env hinit offset
    · rw [hremove]
      rfl
    · rw [hremove]
      by_cases hlast : rest = [] <;> simp [hlast]

theorem start_complete (s : System) (request : Request)
    (hc : s.crashed = false) (hup : (s.start env request).2.crashed = false) :
    s.Starts env request := by
  cases request with
  | write t => exact s.write_starts env t
  | batchWrite ts => exact s.batchWrite_starts env ts hc hup
  | readReadyGroups maxGroups => exact s.read_starts env maxGroups hup
  | hasReadyGroups => exact .inl ⟨_, rfl, rfl, rfl⟩
  | deleteInstance id => exact s.delete_starts env id
  | reset => exact s.reset_starts env
  | getStatus => exact .inl ⟨_, rfl, rfl, rfl⟩

end System
end TransferQueue
