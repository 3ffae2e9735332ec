import TransferQueue.BufferManager

/-! The other operations of the buffer over all cores. What concerns one instance goes to
the shard that the hash of its id selects; what concerns all goes to every shard, and
the answers are put together. -/

namespace TransferQueue
namespace BufferManager

variable {k : ℕ} [NeZero k]

section Routing
variable (stdHash : String → ℕ)

/-- `std::hash(instance_id) % smp::count`. -/
def shardFor (instanceId : String) : Fin k := Fin.ofNat k (stdHash instanceId)

/-- The part of a batch for one shard, in the order of the batch. -/
def batchFor (ts : List Trajectory) (i : Fin k) : List Trajectory :=
  ts.filter fun t => shardFor stdHash t.instanceId = i

end Routing

section Operations
variable (env : Fin k → Env) (stdHash : String → ℕ)

def write (t : Trajectory) (m : BufferManager k) : Except Failure Bool × BufferManager k :=
  let i := shardFor stdHash t.instanceId
  let r := (m.shards i).write (env i) t
  (r.1, { m with shards := Function.update m.shards i r.2 })

/-- The batch is split by shard; shards without a part are not called. -/
def batchWrite (ts : List Trajectory) (m : BufferManager k) :
    Except Failure ℕ × BufferManager k :=
  let r := Sharded.map (fun i shard =>
    match batchFor stdHash ts i with
    | [] => (.ok 0, shard)
    | batch => shard.batchWrite (env i) batch) m.shards
  (r.1.map List.sum, { m with shards := r.2 })

/-- A shard without a part could as well be called with none. -/
theorem batchWrite_eq (ts : List Trajectory) (m : BufferManager k) :
    m.batchWrite env stdHash ts =
      ((Sharded.map (fun i shard => shard.batchWrite (env i) (batchFor stdHash ts i))
          m.shards).1.map List.sum,
        { m with
          shards := (Sharded.map (fun i shard => shard.batchWrite (env i) (batchFor stdHash ts i))
            m.shards).2 }) := by
  have hpart : (fun i (shard : BufferShard) =>
      match batchFor stdHash ts i with
      | [] => (.ok 0, shard)
      | batch => shard.batchWrite (env i) batch) =
        fun i shard => shard.batchWrite (env i) (batchFor stdHash ts i) := by
    funext i shard
    cases batchFor stdHash ts i <;> rfl
  rw [← hpart]
  rfl

omit [NeZero k] in
def hasReadyGroups (m : BufferManager k) : Bool :=
  (List.finRange k).foldl (fun acc i => acc || (m.shards i).hasReadyGroups) false

omit [NeZero k] in
theorem foldl_or (f : Fin k → Bool) (cores : List (Fin k)) (acc : Bool) :
    cores.foldl (fun acc i => acc || f i) acc = (acc || cores.any f) := by
  induction cores generalizing acc with
  | nil => simp
  | cons i cores ih => rw [List.foldl_cons, ih, List.any_cons, Bool.or_assoc]

omit [NeZero k] in
theorem hasReadyGroups_iff {m : BufferManager k} :
    m.hasReadyGroups = true ↔ ∃ i, (m.shards i).hasReadyGroups = true := by
  rw [hasReadyGroups, foldl_or, Bool.false_or, List.any_eq_true]
  simp

def deleteInstance (instanceId : String) (m : BufferManager k) : BufferManager k :=
  let i := shardFor stdHash instanceId
  { m with shards := Function.update m.shards i ((m.shards i).deleteInstance (env i) instanceId) }

omit [NeZero k] in
def reset (m : BufferManager k) : Except Failure Unit × BufferManager k :=
  let r := Sharded.map (fun i shard => shard.reset (env i)) m.shards
  (r.1.map fun _ => (), { m with shards := r.2 })

def addStatus (acc status : BufferShard.BufferStatus) : BufferShard.BufferStatus where
  totalTrajectories := acc.totalTrajectories + status.totalTrajectories
  pendingGroups := acc.pendingGroups + status.pendingGroups
  incompleteGroups := acc.incompleteGroups + status.incompleteGroups
  totalConsumed := acc.totalConsumed + status.totalConsumed
  memoryUsageBytes := acc.memoryUsageBytes + status.memoryUsageBytes
  diskUsageBytes := acc.diskUsageBytes + status.diskUsageBytes

omit [NeZero k] in
def getStatus (m : BufferManager k) : BufferShard.BufferStatus :=
  (List.finRange k).foldl (fun acc i => addStatus acc ((m.shards i).getStatus (env i)))
    ⟨0, 0, 0, 0, 0, 0⟩

end Operations

end BufferManager

inductive Request where
  | write (t : Trajectory)
  | batchWrite (ts : List Trajectory)
  | readReadyGroups (maxGroups : Int32)
  | hasReadyGroups
  | deleteInstance (id : String)
  | reset
  | getStatus
  deriving DecidableEq

inductive Response where
  | written (r : Except Failure Bool)
  | counted (r : Except Failure ℕ)
  | groups (r : Except Failure (List TrajectoryGroup))
  | ready (b : Bool)
  | done (r : Except Failure Unit)
  | status (status : BufferShard.BufferStatus)

def BufferShard.respond (env : Env) (s : BufferShard) : Request → Response × BufferShard
  | .write t => (s.write env t).map .written id
  | .batchWrite ts => (s.batchWrite env ts).map .counted id
  | .readReadyGroups maxGroups => (s.readReadyGroups env maxGroups).map .groups id
  | .hasReadyGroups => (.ready s.hasReadyGroups, s)
  | .deleteInstance id => (.done (.ok ()), s.deleteInstance env id)
  | .reset => (s.reset env).map .done id
  | .getStatus => (.status (s.getStatus env), s)

def BufferManager.respond {k : ℕ} [NeZero k] (env : Fin k → Env) (stdHash : String → ℕ)
    (m : BufferManager k) : Request → Response × BufferManager k
  | .write t => (m.write env stdHash t).map .written id
  | .batchWrite ts => (m.batchWrite env stdHash ts).map .counted id
  | .readReadyGroups maxGroups => (m.readReadyGroups env maxGroups).map .groups id
  | .hasReadyGroups => (.ready m.hasReadyGroups, m)
  | .deleteInstance id => (.done (.ok ()), m.deleteInstance env stdHash id)
  | .reset => (m.reset env).map .done id
  | .getStatus => (.status (m.getStatus env), m)

namespace BufferManager

variable {k : ℕ} [NeZero k] {env : Fin k → Env} {stdHash : String → ℕ}

/-- What a request does to one shard is a run of its operations. The timeout check is none
of them. -/
theorem respond_shard (m : BufferManager k) (env : Fin k → Env) (stdHash : String → ℕ)
    (request : Request) (i : Fin k) :
    ∃ ops, .checkGroupTimeouts ∉ ops ∧
      (m.respond env stdHash request).2.shards i = (m.shards i).run (env i) ops := by
  have hupdate : ∀ (j : Fin k) (s : BufferShard) op, op ≠ .checkGroupTimeouts →
      s = ((m.shards j).exec (env j) op).2 → ∃ ops, .checkGroupTimeouts ∉ ops ∧
        Function.update m.shards j s i = (m.shards i).run (env i) ops := by
    rintro j s op hop rfl
    by_cases hi : i = j
    · subst hi
      exact ⟨[op], by simpa using hop.symm, by rw [Function.update_self]; rfl⟩
    · exact ⟨[], List.not_mem_nil, by rw [Function.update_of_ne hi]; rfl⟩
  cases request with
  | write t => exact hupdate _ _ (.write t) (by simp) rfl
  | batchWrite ts =>
    rw [respond, batchWrite_eq]
    exact ⟨[.batchWrite (batchFor stdHash ts i)], by simp, rfl⟩
  | readReadyGroups maxGroups => exact ⟨[.readReadyGroups maxGroups], by simp, rfl⟩
  | hasReadyGroups => exact ⟨[], List.not_mem_nil, rfl⟩
  | deleteInstance id => exact hupdate _ _ (.deleteInstance id) (by simp) rfl
  | reset => exact ⟨[.reset], by simp, rfl⟩
  | getStatus => exact ⟨[], List.not_mem_nil, rfl⟩

theorem Coherent.respond {m : BufferManager k} (h : m.Coherent env) (request : Request) :
    (m.respond env stdHash request).2.Coherent env := by
  intro i
  obtain ⟨ops, -, hops⟩ := m.respond_shard env stdHash request i
  rw [hops]
  exact (h i).run ops

end BufferManager
end TransferQueue
