import TransferQueue.SpillTransparency

/-! What the counters of a shard count. Trajectories appended are consumed, stored or
discarded by a deletion; the bytes on disk are those of the groups spilled; and the
scans for status, meta information and readiness see what a read would take. -/

namespace TransferQueue
open UnorderedMap

namespace Buffer

variable {env : Env} {b : Buffer}

def samples (b : Buffer) : ℤ := b.groups.sum fun _ stored => (stored.group.trajectories.length : ℤ)

/-- The trajectories appended that are neither consumed nor stored. -/
def missing (b : Buffer) : ℤ := b.totalTrajectories - b.totalConsumed - b.samples

theorem samples_append (env : Env) (t : Trajectory) (b : Buffer) :
    (b.append env t).samples = b.samples + 1 ∧
      (b.append env t).totalConsumed = b.totalConsumed := by
  rw [append]
  cases hg : b.groups.get? t.instanceId with
  | some stored =>
    refine ⟨?_, rfl⟩
    have hsum := sum_set (fun _ (stored : Stored) => (stored.group.trajectories.length : ℤ))
      { stored with group := stored.group.add t } hg
    simp only [TrajectoryGroup.add_trajectories, List.length_append, List.length_singleton,
      Int.natCast_add, Int.natCast_one] at hsum
    simp only [samples]
    omega
  | none =>
    refine ⟨?_, rfl⟩
    simp only [samples, sum_insert _ _ _ (get?_eq_none_iff.mp hg)]
    simp [TrajectoryGroup.create, add_comm]

theorem missing_dedup (env : Env) (uid : String) (b : Buffer) :
    (b.dedup env uid).2.missing = b.missing := by
  rw [dedup]
  split <;> rfl

theorem missing_append (t : Trajectory) (b : Buffer) : (b.append env t).missing = b.missing := by
  obtain ⟨hsamples, hconsumed⟩ := samples_append env t b
  rw [missing, missing, append_totalTrajectories, hsamples, hconsumed]
  omega

theorem missing_write (ignored : Bool) (t : Trajectory) (b : Buffer) :
    (b.write env ignored t).2.missing = b.missing := by
  have hdedup := missing_dedup env t.uid b
  rw [write]
  rcases hb : b.dedup env t.uid with ⟨fresh, b'⟩
  rw [hb] at hdedup
  cases fresh with
  | false => exact hdedup
  | true =>
    cases ignored with
    | true => exact hdedup
    | false => exact (missing_append t b').trans hdedup

theorem missing_take (maxGroups : Int32) (b : Buffer) :
    (b.take maxGroups).2.missing = b.missing := by
  have hsub : (b.selected maxGroups).Sublist b.groups.entries :=
    (BufferShard.limitTo_sublist _ _ _).trans List.filter_sublist
  have hsum := sum_eraseAll (fun _ (stored : Stored) => (stored.group.trajectories.length : ℤ)) hsub
  simp only [missing, take, samples, hsum]
  omega

theorem missing_delete (id : String) (b : Buffer) :
    (b.delete id).missing = b.missing + (b.content id).length := by
  rw [missing, missing, samples, samples, delete]
  cases hg : b.groups.get? id with
  | none =>
    simp only [erase_of_not_mem (get?_eq_none_iff.mp hg), content, hg]
    simp
  | some stored =>
    simp only [content_of_mem (get?_eq_some_iff.mp hg), sum_erase _ hg]
    omega

theorem missing_reset (b : Buffer) : b.reset.missing = 0 := rfl

theorem missing_expire (b : Buffer) : (b.expire env).missing = b.missing := by
  have hsame : (b.expire env).samples = b.samples := by
    rw [samples, samples, expire, sum_mapValues]
    refine sum_congr fun id stored _ => ?_
    split <;> rfl
  rw [missing, missing, hsame]
  rfl

end Buffer

namespace BufferShard

section Statement
variable (env : Env)

/-- The trajectories discarded by deletions since the last reset, after one more operation. -/
def discardedBy (s : BufferShard) (discarded : ℕ) : Op → ℕ
  | .deleteInstance id => discarded + (s.content id).length
  | .reset => 0
  | _ => discarded

def discarded : ℕ → BufferShard → List Op → ℕ
  | n, _, [] => n
  | n, s, op :: ops => discarded (s.discardedBy n op) (s.exec env op).2 ops

def storedTrajectories (s : BufferShard) : ℤ :=
  s.groups.sum fun _ e => ((e.group? s.diskStorage).map fun g => (g.trajectories.length : ℤ)).getD 0

def spilledBytes (s : BufferShard) : ℤ :=
  s.groups.sum fun _ e =>
    if e.isOnDisk then (((e.group? s.diskStorage).map env.byteSizeLong).getD 0 : ℕ) else 0

/-- What status, meta information and readiness say is what the shard holds, of which
`discarded` trajectories have been deleted. -/
structure StatisticsAgree (s : BufferShard) (discarded : ℕ) : Prop where
  total : s.totalTrajectories = s.totalConsumed + s.storedTrajectories + discarded
  samples : s.getMetaInfo.totalSamples = s.storedTrajectories
  groups : s.getMetaInfo.numGroups =
    (s.getStatus env).pendingGroups + (s.getStatus env).incompleteGroups
  finished : ∀ maxGroups, ¬0 < maxGroups →
    ∃ result, (s.readReadyGroups env maxGroups).1 = .ok result ∧
      (result.map TrajectoryGroup.instanceId).Perm s.getMetaInfo.finishedGroupIds
  distinct : s.getMetaInfo.finishedGroupIds.Nodup
  pending : (s.getStatus env).pendingGroups = s.getMetaInfo.finishedGroupIds.length
  ready : s.hasReadyGroups = true ↔ s.getMetaInfo.finishedGroupIds ≠ []
  diskUsage : s.diskUsageBytes = s.spilledBytes env

end Statement

variable {env : Env} {s : BufferShard}

section Trajectories

theorem missing_exec (hr : env.Reliable) (hs : s.Steady env) {n : ℕ} (h : s.buffer.missing = n)
    (op : Op) : (s.exec env op).2.buffer.missing = s.discardedBy n op := by
  rw [(exec_refines hr hs.settled op).2.2]
  cases op with
  | write t => exact (Buffer.missing_write _ t _).trans h
  | batchWrite ts =>
    exact Machine.final_inv (fun b => Buffer.missing b = n)
      (fun b p hb => (Buffer.missing_write p.1 p.2 b).trans hb) (s.batchInput env ts) h
  | readReadyGroups maxGroups => exact (Buffer.missing_take maxGroups _).trans h
  | checkGroupTimeouts => exact (Buffer.missing_expire _).trans h
  | deleteInstance id =>
    refine (Buffer.missing_delete id _).trans ?_
    rw [h, buffer_content, discardedBy, Int.natCast_add]
  | reset => exact Buffer.missing_reset _
  | updateConfig config => exact h

theorem missing_run (hr : env.Reliable) (hs : s.Steady env) {n : ℕ} (h : s.buffer.missing = n)
    (ops : List Op) : (s.run env ops).buffer.missing = discarded env n s ops := by
  induction ops generalizing s n with
  | nil => exact h
  | cons op ops ih => exact ih (hs.exec hr op) (missing_exec hr hs h op)

theorem storedTrajectories_eq (s : BufferShard) : s.storedTrajectories = s.buffer.samples := by
  rw [storedTrajectories, Buffer.samples, buffer_groups, sum_mapValues]
  refine sum_congr fun id e _ => ?_
  rw [storedOf]
  cases e.group? s.diskStorage <;> rfl

end Trajectories

section Bytes

def diskBytes (e : GroupEntry) : ℤ := if e.isOnDisk then e.cachedBytes else 0

/-- The counter of bytes is the sum of the cached sizes of the entries on disk. -/
def DiskCounted (s : BufferShard) : Prop := s.diskUsageBytes = s.groups.sum fun _ e => diskBytes e

theorem diskBytes_memory {e : GroupEntry} (h : e.groupPtr ≠ none) : diskBytes e = 0 := by
  rw [diskBytes, GroupEntry.not_isOnDisk_of_some h, if_neg Bool.false_ne_true]

theorem sum_diskBytes (taken : List (String × GroupEntry)) :
    (taken.map fun p => diskBytes p.2).sum =
      ((taken.filter fun p => p.2.isOnDisk).map fun p => p.2.cachedBytes).sum := by
  induction taken with
  | nil => rfl
  | cons p taken ih =>
    rw [List.map_cons, List.sum_cons, ih, diskBytes]
    cases hon : p.2.isOnDisk <;> simp [hon]

namespace DiskCounted

theorem addTrajectory (h : s.DiskCounted) (env : Env) (t : Trajectory) :
    (s.addTrajectory env t).2.DiskCounted := by
  have hset : ∀ {e e' : GroupEntry}, s.groups.get? t.instanceId = some e → diskBytes e = 0 →
      e'.groupPtr ≠ none → (s.groups.set t.instanceId e').sum (fun _ e => diskBytes e) =
        s.groups.sum fun _ e => diskBytes e := by
    intro e e' he hzero hptr
    have hsum := sum_set (fun _ e => diskBytes e) e' he
    rwa [hzero, diskBytes_memory hptr, add_zero, add_zero] at hsum
  cases he : s.groups.get? t.instanceId with
  | none =>
    rw [addTrajectory_new he, DiskCounted]
    simp only [sum_insert _ _ _ (get?_eq_none_iff.mp he)]
    rw [diskBytes_memory (by simp [newEntry]), zero_add]
    exact h
  | some e =>
    cases hp : e.groupPtr with
    | some g =>
      rw [addTrajectory_memory he hp]
      exact h.trans (hset he (diskBytes_memory (by simp [hp])) (by simp)).symm
    | none =>
      by_cases ho : e.diskOffset = 0
      · rw [addTrajectory_empty he hp ho]
        have hoff : diskBytes e = 0 := by simp [diskBytes, GroupEntry.isOnDisk, ho]
        exact h.trans (hset he hoff (by simp [newEntry])).symm
      · rw [addTrajectory_onDisk he (GroupEntry.isOnDisk_iff.mpr ⟨Nat.pos_of_ne_zero ho, hp⟩)]
        exact h

theorem commitEntry (h : s.DiskCounted) {id : String} {g : TrajectoryGroup} {offset : ℕ}
    (hc : s.Copied env id g offset) : (s.commitEntry env id offset).DiskCounted := by
  obtain ⟨e, hmem, hp⟩ := hc.held
  have he := get?_eq_some_iff.mpr hmem
  have hsum := sum_set (fun _ e => diskBytes e) (committed env e offset) he
  have hon : (committed env e offset).isOnDisk = true :=
    GroupEntry.isOnDisk_iff.mpr ⟨hc.positive, rfl⟩
  rw [diskBytes_memory (by simp [hp]), add_zero, diskBytes, hon, if_pos rfl] at hsum
  rw [commitEntry_present he, DiskCounted, hsum, ← h]

theorem trySpillGroups (h : s.DiskCounted) {env : Env} (hi : s.diskStorage.initialized = true)
    (hdrawn : ∀ id e, (id, e) ∈ s.groups.entries →
      e.diskOffset < env.spillId s.diskStorage.spills) :
    (s.trySpillGroups env).2.DiskCounted := by
  exact trySpillGroups_keeps hi hdrawn h (fun _ _ _ _ => h) fun h hc => h.commitEntry hc

theorem write (h : s.DiskCounted) (hs : s.Settled env) (t : Trajectory) :
    (s.write env t).2.DiskCounted := by
  have hdedup : (s.dedup env t.uid).2.DiskCounted := by
    rw [dedup]
    split <;> exact h
  have hstart : (s.writeStart env t).2.DiskCounted :=
    writeStart_keeps hdedup fun h => h.addTrajectory env t
  have hsettled := hs.writeStart t
  exact write_keeps hstart fun h => h.trySpillGroups hsettled.initialized hsettled.drawn

theorem read (h : s.DiskCounted) (hr : env.Reliable) (hs : s.Settled env) (maxGroups : Int32) :
    (s.readReadyGroups env maxGroups).2.DiskCounted := by
  obtain ⟨loaded, d', hok, -⟩ := readReadyGroups_ok hr hs maxGroups
  have hsum := sum_eraseAll (fun _ e => diskBytes e)
    (selectedOf_sublist maxGroups 0 s.groups.entries)
  rw [hok, DiskCounted]
  change (s.scanOf maxGroups).diskUsageBytes = ((s.afterScan maxGroups).groups.eraseAll _).sum _
  rw [afterScan_erased]
  change s.diskUsageBytes - _ = _
  rw [h, hsum, ← sum_diskBytes]
  exact add_sub_cancel_left _ _

theorem delete (h : s.DiskCounted) (id : String) : (s.deleteInstance env id).DiskCounted := by
  rw [deleteInstance, deleteEntry]
  cases he : s.groups.get? id with
  | none => exact h
  | some e =>
    have hsum := sum_erase (fun _ e => diskBytes e) he
    cases hon : e.isOnDisk with
    | false =>
      simp only [hon, Bool.false_eq_true, if_false]
      rw [diskBytes, hon, if_neg Bool.false_ne_true, zero_add] at hsum
      exact h.trans hsum
    | true =>
      simp only [hon, if_true]
      rw [diskBytes, hon, if_pos rfl] at hsum
      change s.diskUsageBytes - e.cachedBytes = _
      rw [h, hsum]
      exact add_sub_cancel_left _ _

theorem expire (h : s.DiskCounted) : (s.checkGroupTimeouts env).DiskCounted := by
  refine h.trans ?_
  change _ = (s.groups.mapValues fun _ e => s.expireEntry env e).sum _
  rw [sum_mapValues]
  refine sum_congr fun id e _ => ?_
  have hbytes : (s.expireEntry env e).cachedBytes = e.cachedBytes := by
    rw [expireEntry]
    split <;> rfl
  rw [diskBytes, diskBytes, expireEntry_isOnDisk, hbytes]

theorem exec (h : s.DiskCounted) (hr : env.Reliable) (hs : s.Steady env) (op : Op) :
    (s.exec env op).2.DiskCounted := by
  cases op with
  | write t => exact h.write hs.settled t
  | batchWrite ts =>
    exact (batchWriteLoop_keeps (P := fun s => s.Steady env ∧ s.DiskCounted)
      (fun t _ h => ⟨h.1.write hr t, h.2.write h.1.settled t⟩) 0 ts ⟨hs, h⟩).2
  | readReadyGroups maxGroups => exact h.read hr hs.settled maxGroups
  | checkGroupTimeouts => exact h.expire
  | deleteInstance id => exact h.delete id
  | reset =>
    obtain ⟨d', hreset⟩ := reset_state env s
    simp only [BufferShard.exec, Prod.map, hreset]
    rfl
  | updateConfig config => exact h

theorem spilledBytes_eq (h : s.DiskCounted) (hs : s.Settled env) :
    s.diskUsageBytes = s.spilledBytes env := by
  refine h.trans (sum_congr fun id e hmem => ?_)
  obtain ⟨g, hg⟩ := hs.holds id e hmem
  rw [diskBytes, hg.group?_eq]
  cases hg with
  | memory ptr => simp [GroupEntry.isOnDisk, ptr]
  | disk _ _ _ _ _ bytes => rw [bytes]; rfl

end DiskCounted

end Bytes

theorem read_finished (hr : env.Reliable) (hs : s.Steady env) {maxGroups : Int32}
    (hunlimited : ¬0 < maxGroups) :
    ∃ result, (s.readReadyGroups env maxGroups).1 = .ok result ∧
      (result.map TrajectoryGroup.instanceId).Perm s.getMetaInfo.finishedGroupIds := by
  obtain ⟨result, s', hread, -, -, hperm, -⟩ := readReadyGroups_refines hr hs.settled maxGroups
  have hfinished : s.getMetaInfo.finishedGroupIds = s.buffer.ready.map Prod.fst :=
    congrArg Observation.finishedGroupIds (observation_refines hs.settled)
  refine ⟨result, by rw [hread], (hperm.map _).trans (.of_eq ?_)⟩
  rw [hfinished, Buffer.take, Buffer.selected, limitTo, if_neg hunlimited, List.map_map]
  exact List.map_congr_left fun p hp => (hs.sound p.1 p.2 (List.mem_of_mem_filter hp)).1

theorem Steady.statisticsAgree (hr : env.Reliable) (hs : s.Steady env) (hcounted : s.DiskCounted)
    {n : ℕ} (hmissing : s.buffer.missing = n) : s.StatisticsAgree env n where
  total := by
    rw [storedTrajectories_eq]
    have htotal : s.totalTrajectories - s.totalConsumed - s.buffer.samples = n := hmissing
    omega
  samples := by
    rw [storedTrajectories_eq]
    exact congrArg Observation.totalSamples (observation_refines hs.settled)
  groups := by
    have hsplit := List.length_eq_countP_add_countP (fun p : String × GroupEntry => p.2.isComplete)
      (l := s.groups.entries)
    simpa [getMetaInfo, getStatus] using hsplit
  finished _ hunlimited := read_finished hr hs hunlimited
  distinct := s.groups.nodup.sublist (List.filter_sublist.map Prod.fst)
  pending := by
    simp only [getStatus, getMetaInfo, List.length_map, List.countP_eq_length_filter]
  ready := by
    simp [hasReadyGroups, getMetaInfo, List.filter_eq_nil_iff]
  diskUsage := hcounted.spilledBytes_eq hs.settled

/-- In every state of a sequential run on a working disk, counters, status, meta
information and readiness agree with what the shard holds and what has been deleted. -/
theorem statistics_agree (hr : env.Reliable) (config : TransferQueueConfig)
    (bitCount numHashes : ℕ) (ops : List Op) :
    StatisticsAgree env ((create config bitCount numHashes).run env ops)
      (discarded env 0 (create config bitCount numHashes) ops) := by
  have hs : (create config bitCount numHashes).Steady env := .create ..
  obtain ⟨hsteady, hcounted⟩ := Machine.final_inv
    (fun s : BufferShard => s.Steady env ∧ s.DiskCounted)
    (fun s op hs => ⟨hs.1.exec hr op, hs.2.exec hr hs.1 op⟩) ops ⟨hs, rfl⟩
  exact hsteady.statisticsAgree hr hcounted (missing_run hr hs rfl ops)

/-- A run that spills two groups, deletes one and reads the other. -/
theorem statistics_agree_tight :
    let ops : List Op := [.write (.bare "u" "a"), .write (.bare "v" "b"), .deleteInstance "a",
      .readReadyGroups 1, .write (.bare "w" "c")]
    StatisticsAgree (.sample []) ((create (.tight 1) 0 0).run (.sample []) ops) 1 := by
  intro ops
  have hone : discarded (.sample []) 0 (create (.tight 1) 0 0) ops = 1 := by decide +kernel
  exact hone ▸ statistics_agree Env.sample_reliable (.tight 1) 0 0 ops

end BufferShard
end TransferQueue
