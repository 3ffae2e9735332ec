import TransferQueue.BatchWaiting
import TransferQueue.DedupWindow

/-! A write that resolves with an error. By then the uid is registered and the trajectory
appended: the error comes from spilling other groups, and nothing is taken back. -/

namespace TransferQueue
namespace BufferShard
open UnorderedMap

section Statement
variable (env : Env)

/-- The device calls of the spill work, one for each group selected. -/
def Spillable (s : BufferShard) : Prop :=
  ∀ selection, s.spillSelection env = some selection → s.diskStorage.initialized = true ∧
    ∀ j < selection.groups.length, env.fault (s.diskStorage.calls + j) = false

/-- The shard with a disk that works from now on. -/
def serviced (s : BufferShard) : BufferShard :=
  { s with diskStorage := { s.diskStorage with initialized := true } }

/-- Nothing has changed from `s` to `s'` but on the disk, and the same write, retried once
the disk works, is accepted and stores its trajectory once. -/
structure RolledBack (t : Trajectory) (s s' : BufferShard) : Prop where
  groups : s'.groups = s.groups
  dedupFilter : s'.dedupFilter = s.dedupFilter
  totalTrajectories : s'.totalTrajectories = s.totalTrajectories
  totalConsumed : s'.totalConsumed = s.totalConsumed
  diskUsageBytes : s'.diskUsageBytes = s.diskUsageBytes
  accepted : (s'.serviced.write env.repaired t).1 = .ok true
  stored : (s'.serviced.write env.repaired t).2.content t.instanceId =
    s.content t.instanceId ++ [t]

/-- If the write resolves with an error, it has been rolled back. -/
def FailsCleanly (t : Trajectory) (s : BufferShard) : Prop :=
  ∀ e s', s.write env t = (.error e, s') → RolledBack env t s s'

/-- What a failed write leaves: its trajectory counted and stored, so that with the dedup
check a retry is refused, and without it a retry stores the trajectory again. -/
structure LeftBehind (t : Trajectory) (s s' : BufferShard) : Prop where
  counted : s'.totalTrajectories = s.totalTrajectories + 1
  stored : s'.content t.instanceId = s.content t.instanceId ++ [t]
  refused : s.config.uidDedup = true → s.dedupFilter.Linked → 0 < s.dedupFilter.maxSize →
    ∀ env', (s'.write env' t).1 = .ok false
  doubled : s.config.uidDedup = false → ∀ env', (s'.writeStart env' t).1 = .appended ∧
    (s'.writeStart env' t).2.content t.instanceId = s.content t.instanceId ++ [t, t]

end Statement

variable {env : Env}

section Append

/-- The entry of an instance holds a group in memory, with these trajectories. -/
def HasGroup (s : BufferShard) (id : String) (ts : List Trajectory) : Prop :=
  ∃ e g, s.groups.get? id = some e ∧ e.groupPtr = some g ∧ g.trajectories = ts

theorem HasGroup.content {s : BufferShard} {id : String} {ts : List Trajectory}
    (h : s.HasGroup id ts) : s.content id = ts := by
  obtain ⟨e, g, he, hp, rfl⟩ := h
  simp [BufferShard.content, he, GroupEntry.group?, hp]

theorem addTrajectory_appended {t : Trajectory} {s s' : BufferShard}
    (h : s.addTrajectory env t = (.appended, s')) :
    s'.totalTrajectories = s.totalTrajectories + 1 ∧
      s'.HasGroup t.instanceId (s.content t.instanceId ++ [t]) := by
  cases he : s.groups.get? t.instanceId with
  | none =>
    rw [addTrajectory_new he] at h
    cases h
    refine ⟨rfl, s.newEntry env t, _, get?_insert_self env.place _ (get?_eq_none_iff.mp he),
      rfl, ?_⟩
    simp [content, he, TrajectoryGroup.create]
  | some e =>
    have hkey := mem_keys.mpr ⟨e, get?_eq_some_iff.mp he⟩
    cases hp : e.groupPtr with
    | some g =>
      rw [addTrajectory_memory he hp] at h
      cases h
      refine ⟨rfl, _, _, get?_set_self _ hkey, rfl, ?_⟩
      simp [content, he, GroupEntry.group?, hp]
    | none =>
      by_cases ho : e.diskOffset = 0
      · rw [addTrajectory_empty he hp ho] at h
        cases h
        refine ⟨rfl, _, _, get?_set_self _ hkey, rfl, ?_⟩
        simp [content, he, GroupEntry.group?, hp, ho, TrajectoryGroup.create]
      · have hon : e.isOnDisk = true := by
          simp [GroupEntry.isOnDisk, hp, Nat.pos_of_ne_zero ho]
        rw [addTrajectory_onDisk he hon] at h
        cases h

theorem dedup_content (env : Env) (uid : String) (s : BufferShard) (id : String) :
    (s.dedup env uid).2.content id = s.content id := by
  rw [content, content, dedup_groups, dedup_diskStorage]

theorem dedup_totalTrajectories (env : Env) (uid : String) (s : BufferShard) :
    (s.dedup env uid).2.totalTrajectories = s.totalTrajectories := by
  rw [dedup]
  split <;> rfl

theorem writeStart_appended {t : Trajectory} {s s' : BufferShard}
    (h : s.writeStart env t = (.appended, s')) :
    s'.totalTrajectories = s.totalTrajectories + 1 ∧
      s'.HasGroup t.instanceId (s.content t.instanceId ++ [t]) ∧
      s'.dedupFilter = (s.dedup env t.uid).2.dedupFilter ∧ (s.dedup env t.uid).1 = true := by
  have hfilter := (writeStart_frame env t s).1
  rw [h] at hfilter
  rcases writeStart_cases env t s with ⟨-, hstart⟩ | ⟨hfresh, hstart⟩ <;> rw [h] at hstart
  · cases hstart
  · obtain ⟨hcount, hgroup⟩ := addTrajectory_appended hstart.symm
    rw [dedup_totalTrajectories] at hcount
    rw [dedup_content] at hgroup
    exact ⟨hcount, hgroup, hfilter, hfresh⟩

end Append

section Failure

/-- A spill fails exactly when a device call for one of its groups does, and then it has
touched the disk only. -/
theorem trySpillGroups_outcome (env : Env) (s : BufferShard) :
    (s.Spillable env ∧ ∃ bytes, (s.trySpillGroups env).1 = .ok bytes) ∨
      (¬s.Spillable env ∧ ∃ e d, s.trySpillGroups env =
        (.error e, { s with diskStorage := d })) := by
  cases hsel : s.spillSelection env with
  | none =>
    refine .inl ⟨fun selection h => ?_, 0, by rw [trySpillGroups, hsel]⟩
    rw [hsel] at h
    cases h
  | some selection =>
    have hspillable : s.Spillable env ↔ s.diskStorage.initialized = true ∧
        ∀ j < selection.groups.length, env.fault (s.diskStorage.calls + j) = false := by
      simp only [Spillable, hsel, Option.some.injEq, forall_eq']
    obtain ⟨chosen, rest, -, hne, rfl, -⟩ := spillSelection_some hsel
    rw [hspillable]
    by_cases hi : s.diskStorage.initialized = true
    · obtain ⟨r, d', hbatch, hr⟩ := DiskStorage.spillBatch_calls env (chosen.map Prod.snd) hi
      rcases hr with ⟨offsets, rfl, -, hworks⟩ | ⟨j, hj, rfl, -, -, hfail⟩
      · obtain ⟨r', d'', hbatch', -, -, -, hok⟩ :=
          DiskStorage.spillBatch_cases env (chosen.map Prod.snd) hi
        rw [hbatch] at hbatch'
        cases hbatch'
        have hlength := (hok offsets rfl).1.length_eq
        rw [List.length_map] at hlength
        refine .inl ⟨⟨hi, hworks⟩, sizeT (chosenBytes env chosen), ?_⟩
        rw [trySpillGroups_commits hsel hbatch (by rw [List.length_map, hlength])]
      · refine .inr ⟨fun h => ?_, .deviceError, d', ?_⟩
        · rw [h.2 j hj] at hfail
          cases hfail
        · simp only [trySpillGroups, hsel, hbatch]
    · refine .inr ⟨fun h => hi h.1, .runtimeError "Not initialized", s.diskStorage, ?_⟩
      obtain ⟨p, chosen, rfl⟩ := List.exists_cons_of_ne_nil hne
      simp only [trySpillGroups, hsel, List.map_cons,
        DiskStorage.spillBatch_uninitialized _ (Bool.eq_false_iff.mpr hi)]

/-- A write resolves with an error exactly when it appends and its spill fails. -/
theorem write_outcome (env : Env) (t : Trajectory) (s : BufferShard) :
    (((s.writeStart env t).1 = .appended → (s.writeStart env t).2.Spillable env) ∧
        ∃ accepted, (s.write env t).1 = .ok accepted) ∨
      (∃ s₁ e d, s.writeStart env t = (.appended, s₁) ∧ ¬s₁.Spillable env ∧
        s.write env t = (.error e, { s₁ with diskStorage := d })) := by
  rcases write_cases env t s with ⟨hne, hwrite⟩ | ⟨happended, hwrite⟩
  · exact .inl ⟨fun h => absurd h hne, _, congrArg Prod.fst hwrite⟩
  · rw [hwrite]
    rcases trySpillGroups_outcome env (s.writeStart env t).2 with
      ⟨hspillable, bytes, hok⟩ | ⟨hnot, e, d, herror⟩
    · exact .inl ⟨fun _ => hspillable, true, by rw [hok]; rfl⟩
    · exact .inr ⟨(s.writeStart env t).2, e, d, Prod.ext happended rfl, hnot, by rw [herror]; rfl⟩

theorem write_refused {t : Trajectory} {s : BufferShard} (hon : s.config.uidDedup = true)
    (hlinked : s.dedupFilter.Linked) (hheld : t.uid ∈ s.dedupFilter.uids) (env : Env) :
    (s.write env t).1 = .ok false := by
  obtain ⟨hfst, -, -⟩ := hlinked.insert (DedupFilter.doubleHash env.stdHash) t.uid
  have hdedup : (s.dedup env t.uid).1 = false := by
    rw [dedup, if_pos hon]
    simpa [hheld] using hfst
  rw [write_duplicate hdedup]

theorem HasGroup.writeStart {t : Trajectory} {s : BufferShard} {ts : List Trajectory}
    (h : s.HasGroup t.instanceId ts) (hoff : s.config.uidDedup = false) (env : Env) :
    (s.writeStart env t).1 = .appended ∧
      (s.writeStart env t).2.content t.instanceId = ts ++ [t] := by
  obtain ⟨e, g, he, hp, rfl⟩ := h
  have hdedup : s.dedup env t.uid = (true, s) := by simp [dedup, hoff]
  have hstart : s.writeStart env t = s.addTrajectory env t := by
    rw [BufferShard.writeStart, hdedup]
  rw [hstart, addTrajectory_memory he hp]
  refine ⟨rfl, HasGroup.content ⟨_, _, get?_set_self _ ?_, rfl, rfl⟩⟩
  exact mem_keys.mpr ⟨e, get?_eq_some_iff.mp he⟩

/-- Nothing of a failed write is taken back. -/
theorem write_leftBehind {t : Trajectory} {s s' : BufferShard} {e : Failure}
    (h : s.write env t = (.error e, s')) : LeftBehind t s s' := by
  rcases write_outcome env t s with ⟨-, accepted, hok⟩ | ⟨s₁, e', d, hstart, -, hwrite⟩
  · rw [h] at hok
    cases hok
  rw [h] at hwrite
  cases hwrite
  obtain ⟨hcount, hgroup, hfilter, hfresh⟩ := writeStart_appended hstart
  have hconfig : s₁.config = s.config := by rw [← (writeStart_frame env t s).2, hstart]
  have hgroup' : ({ s₁ with diskStorage := d } : BufferShard).HasGroup t.instanceId
    (s.content t.instanceId ++ [t]) := hgroup
  refine ⟨hcount, hgroup'.content, fun hon hlinked hmax env' => ?_, fun hoff env' => ?_⟩
  · obtain ⟨-, huids, hlinked'⟩ :=
      hlinked.insert (DedupFilter.doubleHash env.stdHash) t.uid
    have hinsert : s₁.dedupFilter =
        (s.dedupFilter.insert (DedupFilter.doubleHash env.stdHash) t.uid).2 := by
      rw [hfilter, dedup, if_pos hon]
    refine write_refused (by simpa only [hconfig] using hon)
      (by simpa only [hinsert] using hlinked') ?_ env'
    simp only [hinsert, huids]
    exact Recency.mem_touch hmax _ _
  · have hretry := hgroup'.writeStart (by simpa only [hconfig] using hoff) env'
    rwa [List.append_assoc] at hretry

/-- A write that may fail is never rolled back: it fails cleanly only where it cannot fail. -/
theorem failed_write_iff (env : Env) (t : Trajectory) (s : BufferShard) :
    (FailsCleanly env t s ↔ ((s.writeStart env t).1 = .appended →
      (s.writeStart env t).2.Spillable env)) ∧
      ∀ e s', s.write env t = (.error e, s') → LeftBehind t s s' := by
  refine ⟨?_, fun e s' h => write_leftBehind h⟩
  rcases write_outcome env t s with
    ⟨hspillable, accepted, hok⟩ | ⟨s₁, e, d, hstart, hnot, hwrite⟩
  · refine iff_of_true (fun e s' h => ?_) hspillable
    rw [h] at hok
    cases hok
  · refine iff_of_false (fun h => ?_) (fun h => hnot ?_)
    · have hsame := (h e _ hwrite).totalTrajectories
      have hcount := (write_leftBehind hwrite).counted
      omega
    · rw [hstart] at h
      exact h rfl

theorem FailsCleanly.rolledBack {t : Trajectory} {s : BufferShard} {e : Failure}
    (h : FailsCleanly env t s) (he : (s.write env t).1 = .error e) :
    RolledBack env t s (s.write env t).2 := h e _ (Prod.ext he rfl)

/-- A disk whose first call fails, met by the first write of a shard without dedup check. -/
theorem failed_write_counted :
    let s := create (.tight 1) 0 0
    let t := Trajectory.bare "u" "a"
    LeftBehind t s (s.write (.sample [0]) t).2 := by
  intro s t
  have hfailed : (s.write (.sample [0]) t).1 = .error .deviceError := by decide +kernel
  exact (failed_write_iff (.sample [0]) t s).2 .deviceError _ (Prod.ext hfailed rfl)

/-- The disk fails once. With the dedup check the retry is refused although the first
attempt resolved with an error; without it the trajectory is stored twice. -/
theorem failed_write_kept :
    let t := Trajectory.bare "u" "a"
    let s := create { groupSize := 1, maxMemoryBytes := 8 } 8 1
    let s' := create (.tight 1) 0 0
    let retry := fun s : BufferShard =>
      (s.write (.sample [0]) t).2.serviced.write (Env.sample [0]).repaired t
    ¬FailsCleanly (.sample [0]) t s ∧ ¬FailsCleanly (.sample [0]) t s' ∧
      (s.write (.sample [0]) t).1 = .error .deviceError ∧ (retry s).1 = .ok false ∧
      (s'.write (.sample [0]) t).1 = .error .deviceError ∧ (retry s').1 = .ok true ∧
      (retry s').2.content "a" = [t, t] := by
  intro t s s' retry
  have hfailed : (s.write (.sample [0]) t).1 = .error .deviceError := by decide +kernel
  have hfailed' : (s'.write (.sample [0]) t).1 = .error .deviceError := by decide +kernel
  have hrefused : (retry s).1 = .ok false := by decide +kernel
  have hstored : (retry s').1 = .ok true := by decide +kernel
  have htwice : (retry s').2.content "a" = [t, t] := by decide +kernel
  have hcount : (s'.write (.sample [0]) t).2.totalTrajectories = 1 := by decide +kernel
  have hdirty : ¬FailsCleanly (.sample [0]) t s := by
    intro h
    have haccepted := (h.rolledBack hfailed).accepted
    exact nomatch hrefused.symm.trans haccepted
  have hdirty' : ¬FailsCleanly (.sample [0]) t s' := by
    intro h
    have hsame := (h.rolledBack hfailed').totalTrajectories
    exact nomatch hcount.symm.trans hsame
  exact ⟨hdirty, hdirty', hfailed, hrefused, hfailed', hstored, htwice⟩

end Failure

end BufferShard
end TransferQueue
