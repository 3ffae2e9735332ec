import TransferQueue.SpillTarget
import TransferQueue.ShardRuns

/-! What `batch_write` takes for granted: it asks the future of each write with `get`,
which outside a thread must be resolved by then. A write whose spill reaches the disk
is not. -/

namespace TransferQueue
namespace BufferShard

section Futures
variable (env : Env)

/-- `write` returns a resolved future: its spill, if any, made no device call. -/
def Resolved (t : Trajectory) (s : BufferShard) : Prop :=
  (s.write env t).2.diskStorage.calls = s.diskStorage.calls

/-- Every future that the loop of `batch_write` asks is resolved; an exception, asked
for, ends the loop. -/
def GetsResolved : List Trajectory → BufferShard → Prop
  | [], _ => True
  | t :: ts, s => Resolved env t s ∧
    match s.write env t with
    | (.ok _, s) => GetsResolved ts s
    | (.error _, _) => True

/-- Appending leaves the usage under the threshold, or no complete group in memory. -/
def Unpressed (t : Trajectory) (s : BufferShard) : Prop :=
  (s.writeStart env t).1 = .appended →
    (s.writeStart env t).2.estimateMemoryUsage env ≤
        s.memoryFraction env s.config.spillToDiskThreshold ∨
      (s.writeStart env t).2.Drained

def appendAll (s : BufferShard) (ts : List Trajectory) : BufferShard :=
  Machine.final (fun s t => s.writeStart env t) s ts

/-- No prefix of the batch, appended alone, is enough to make the shard spill. -/
def BatchFits (ts : List Trajectory) (s : BufferShard) : Prop :=
  ∀ init t, init ++ [t] <+: ts → Unpressed env t (appendAll env s init)

end Futures

variable {env : Env}

section Waiting

theorem trySpillGroups_diskStorage {s : BufferShard} {selection : SpillSelection}
    (hsel : s.spillSelection env = some selection) :
    (s.trySpillGroups env).2.diskStorage = (s.diskStorage.spillBatch env selection.groups).2 := by
  rw [trySpillGroups, hsel]
  simp only
  rcases s.diskStorage.spillBatch env selection.groups with ⟨e | offsets, d⟩
  · rfl
  · by_cases hlen : selection.keys.length = offsets.length
    · simp only [commitSpill, hlen, ne_eq, not_true, if_false]
      exact (commits_frame env _ _).2
    · simp only [commitSpill, hlen, ne_eq, not_false_eq_true, if_true]

theorem unpressed_iff (t : Trajectory) (s : BufferShard) :
    Unpressed env t s ↔ ((s.writeStart env t).1 = .appended →
      (s.writeStart env t).2.spillSelection env = none) := by
  have hconfig := (writeStart_frame env t s).2
  have hthreshold : (s.writeStart env t).2.memoryFraction env
      (s.writeStart env t).2.config.spillToDiskThreshold =
        s.memoryFraction env s.config.spillToDiskThreshold := by
    rw [memoryFraction, memoryFraction, hconfig]
  rw [Unpressed, spillSelection_eq_none_iff, hthreshold]

theorem Unpressed.write {t : Trajectory} {s : BufferShard} (h : Unpressed env t s) :
    ∃ accepted, s.write env t = (.ok accepted, (s.writeStart env t).2) := by
  rw [unpressed_iff] at h
  rcases write_cases env t s with ⟨-, hwrite⟩ | ⟨happended, hwrite⟩
  · exact ⟨_, hwrite⟩
  · refine ⟨true, ?_⟩
    rw [hwrite, trySpillGroups, h happended]
    rfl

theorem write_pressed {t : Trajectory} {s : BufferShard} (h : ¬Unpressed env t s) :
    if s.diskStorage.initialized = true
      then s.diskStorage.calls < (s.write env t).2.diskStorage.calls
      else s.write env t = (.error (.runtimeError "Not initialized"), (s.writeStart env t).2) := by
  rw [unpressed_iff, Classical.not_imp] at h
  obtain ⟨happended, hsome⟩ := h
  have hwrite := ((write_cases env t s).resolve_left fun h => h.1 happended).2
  rw [hwrite, ← writeStart_diskStorage env t s]
  obtain ⟨selection, hsel⟩ := Option.ne_none_iff_exists'.mp hsome
  obtain ⟨chosen, rest, -, hne, rfl, -⟩ := spillSelection_some hsel
  obtain ⟨p, chosen, rfl⟩ := List.exists_cons_of_ne_nil hne
  cases hi : (s.writeStart env t).2.diskStorage.initialized with
  | false =>
    simp [trySpillGroups, hsel, DiskStorage.spillBatch_uninitialized _ hi, Except.map]
  | true =>
    rw [if_pos rfl, trySpillGroups_diskStorage hsel]
    obtain ⟨r, d', hbatch, hr⟩ :=
      DiskStorage.spillBatch_calls env ((p :: chosen).map Prod.snd) hi
    rw [hbatch]
    rcases hr with ⟨offsets, -, hcalls, -⟩ | ⟨j, -, -, hcalls, -⟩
    · rw [hcalls]
      exact Nat.lt_add_of_pos_right (Nat.succ_pos _)
    · rw [hcalls]
      omega

theorem resolved_iff (t : Trajectory) (s : BufferShard) :
    Resolved env t s ↔ (s.diskStorage.initialized = true → Unpressed env t s) := by
  by_cases h : Unpressed env t s
  · obtain ⟨accepted, hwrite⟩ := h.write
    simp only [Resolved, hwrite, writeStart_diskStorage, h, implies_true]
  · have hpressed := write_pressed h
    simp only [h, imp_false]
    rw [Resolved]
    split at hpressed
    next hi => exact iff_of_false hpressed.ne' (not_not.mpr hi)
    next hi =>
      rw [hpressed]
      exact iff_of_true (by rw [writeStart_diskStorage]) hi

theorem batchFits_cons (t : Trajectory) (ts : List Trajectory) (s : BufferShard) :
    BatchFits env (t :: ts) s ↔
      Unpressed env t s ∧ BatchFits env ts (s.writeStart env t).2 := by
  constructor
  · intro h
    refine ⟨h [] t ⟨ts, rfl⟩, fun init t' hprefix => ?_⟩
    exact h (t :: init) t' ((List.prefix_cons_inj t).mpr hprefix)
  · rintro ⟨hhead, htail⟩ init t' hprefix
    cases init with
    | nil =>
      obtain ⟨rfl, -⟩ := List.cons_prefix_cons.mp hprefix
      exact hhead
    | cons t₀ init =>
      obtain ⟨rfl, hrest⟩ := List.cons_prefix_cons.mp hprefix
      exact htail init t' hrest

theorem getsResolved_uninitialized (ts : List Trajectory) {s : BufferShard}
    (hi : s.diskStorage.initialized ≠ true) : GetsResolved env ts s := by
  induction ts generalizing s with
  | nil => trivial
  | cons t ts ih =>
    refine ⟨(resolved_iff t s).mpr fun h => absurd h hi, ?_⟩
    by_cases h : Unpressed env t s
    · obtain ⟨accepted, hwrite⟩ := h.write
      rw [hwrite]
      exact ih (by rwa [writeStart_diskStorage])
    · have hpressed := write_pressed h
      rw [if_neg hi] at hpressed
      rw [hpressed]
      trivial

/-- With a disk, all futures of a batch are resolved when none of its writes is pressed. -/
theorem getsResolved_initialized (ts : List Trajectory) {s : BufferShard}
    (hi : s.diskStorage.initialized = true) : GetsResolved env ts s ↔ BatchFits env ts s := by
  induction ts generalizing s with
  | nil => exact iff_of_true trivial fun init t hprefix => by simp at hprefix
  | cons t ts ih =>
    rw [GetsResolved, resolved_iff, batchFits_cons]
    by_cases h : Unpressed env t s
    · obtain ⟨accepted, hwrite⟩ := h.write
      rw [hwrite]
      simp only [h, implies_true, true_and]
      exact ih (by rwa [writeStart_diskStorage])
    · simp [h, hi]

/-- A batch never waits exactly when, on a shard with a disk, no prefix of it makes the
shard spill; and so for the batches of a run. -/
theorem batch_resolved_iff (env : Env) :
    (∀ (ts : List Trajectory) (s : BufferShard), GetsResolved env ts s ↔
      (s.diskStorage.initialized = true → BatchFits env ts s)) ∧
      ∀ (config : TransferQueueConfig) (bitCount numHashes : ℕ) (ops : List Op),
        Machine.Along (exec env) (fun s op => ∀ ts, op = .batchWrite ts → GetsResolved env ts s)
            (create config bitCount numHashes) ops ↔
          Machine.Along (exec env) (fun s op => ∀ ts, op = .batchWrite ts →
            s.diskStorage.initialized = true → BatchFits env ts s)
            (create config bitCount numHashes) ops := by
  have hbatch : ∀ (ts : List Trajectory) (s : BufferShard), GetsResolved env ts s ↔
      (s.diskStorage.initialized = true → BatchFits env ts s) := by
    intro ts s
    by_cases hi : s.diskStorage.initialized = true
    · rw [getsResolved_initialized ts hi]
      simp only [hi, forall_true_left]
    · exact iff_of_true (getsResolved_uninitialized ts hi) fun h => absurd h hi
  refine ⟨hbatch, fun config bitCount numHashes ops => ?_⟩
  exact Machine.along_iff_of_inv (fun _ => True) (fun _ _ _ => trivial)
    (fun s op _ => forall₂_congr fun ts _ => hbatch ts s) ops trivial

/-- The first batch of a shard with eight bytes of memory asks a future that waits for the
disk. -/
theorem batch_waits :
    ¬GetsResolved (.sample []) [.bare "u" "a"] (create (.tight 1) 0 0) := by
  rintro ⟨hresolved, -⟩
  revert hresolved
  unfold Resolved
  decide +kernel

end Waiting

end BufferShard
end TransferQueue
