import TransferQueue.CoreRuns
import TransferQueue.ProtocolSimulation

/-! The groups of a shard that expires none. Whatever overlaps and whatever fails, a group
holds trajectories of its instance that were appended, and it is complete when it has as
many as its size; in files, in suspended operations and in deliveries there are complete
groups only. -/

namespace TransferQueue
open UnorderedMap

/-- A group of appended trajectories of its instance, complete when it has its size. -/
structure TrajectoryGroup.Sound (log : List Event) (g : TrajectoryGroup) : Prop where
  nonempty : g.trajectories ≠ []
  members : ∀ t ∈ g.trajectories, t.instanceId = g.instanceId ∧ .appended t ∈ log
  complete : g.isComplete = decide (g.groupSize ≤ g.trajectories.length)

structure TrajectoryGroup.Full (log : List Event) (g : TrajectoryGroup) : Prop where
  sound : g.Sound log
  isComplete : g.isComplete = true

namespace TrajectoryGroup
variable {log : List Event} {g : TrajectoryGroup}

theorem Sound.mono (h : g.Sound log) (events : List Event) : g.Sound (events ++ log) where
  nonempty := h.nonempty
  members t ht := ⟨(h.members t ht).1, List.mem_append_right _ (h.members t ht).2⟩
  complete := h.complete

theorem Full.mono (h : g.Full log) (events : List Event) : g.Full (events ++ log) :=
  ⟨h.sound.mono events, h.isComplete⟩

theorem Full.size_le (h : g.Full log) : g.groupSize ≤ g.trajectories.length := by
  have hcomplete := h.sound.complete
  rw [h.isComplete] at hcomplete
  exact of_decide_eq_true hcomplete.symm

theorem Sound.create (log : List Event) (t : Trajectory) (groupSize : ℤ) :
    ((create t.instanceId groupSize).add t).Sound (.appended t :: log) where
  nonempty := by simp
  members t' ht' := by
    obtain rfl : t' = t := by simpa [TrajectoryGroup.create] using ht'
    exact ⟨rfl, List.mem_cons_self⟩
  complete := by
    by_cases hsize : groupSize ≤ 1 <;> simp [add, TrajectoryGroup.create, hsize]

theorem Sound.add {t : Trajectory} (h : g.Sound log) (ht : g.instanceId = t.instanceId) :
    (g.add t).Sound (.appended t :: log) where
  nonempty := by simp
  members t' ht' := by
    rcases List.mem_append.mp ht' with hold | hnew
    · exact ⟨(h.members t' hold).1, List.mem_cons_of_mem _ (h.members t' hold).2⟩
    · obtain rfl : t' = t := List.mem_singleton.mp hnew
      exact ⟨ht.symm, List.mem_cons_self⟩
  complete := by
    have hlength : (g.trajectories ++ [t]).length = g.trajectories.length + 1 := by simp
    rw [TrajectoryGroup.add, hlength, h.complete]
    split
    case isTrue hsize => exact (decide_eq_true hsize).symm
    case isFalse hsize =>
      rw [decide_eq_false hsize]
      exact decide_eq_false fun hbefore => hsize (by omega)

end TrajectoryGroup

def Task.groups : Task → List TrajectoryGroup
  | .spill _ todo written => todo.map Prod.snd ++ written.map fun w => w.1.2
  | .load read _ loaded => read.result ++ loaded.map Prod.snd
  | .unlink read todo removed => read.result ++ (todo.map Prod.snd ++ removed.map Prod.snd)
  | .remove _ => []

namespace BufferShard

/-- What the entries hold in memory is sound and belongs to them. -/
def SoundIn (log : List Event) (s : BufferShard) : Prop :=
  ∀ id e, (id, e) ∈ s.groups.entries → ∀ g ∈ e.groupPtr, g.instanceId = id ∧ g.Sound log

def FullOnDisk (log : List Event) (d : DiskStorage) : Prop :=
  ∀ offset g, d.find offset = some g → g.Full log

variable {log : List Event} {s s' : BufferShard} {env : Env}

theorem SoundIn.mono (h : s.SoundIn log) (events : List Event) : s.SoundIn (events ++ log) :=
  fun id e hmem g hg => ⟨(h id e hmem g hg).1, (h id e hmem g hg).2.mono events⟩

theorem FullOnDisk.mono {d : DiskStorage} (h : FullOnDisk log d) (events : List Event) :
    FullOnDisk (events ++ log) d := fun offset g hg => (h offset g hg).mono events

theorem SoundIn.shrink (h : s.SoundIn log)
    (hshrink : ∀ id e', (id, e') ∈ s'.groups.entries →
      ∃ e, (id, e) ∈ s.groups.entries ∧ (e'.groupPtr = e.groupPtr ∨ e'.groupPtr = none)) :
    s'.SoundIn log := by
  intro id e' hmem g hg
  obtain ⟨e, hold, hsame | hnone⟩ := hshrink id e' hmem
  · exact h id e hold g (hsame ▸ hg)
  · rw [hnone] at hg
    cases hg

theorem SoundIn.set (h : s.SoundIn log) {id : String} {e' : GroupEntry}
    (hgroups : s'.groups = s.groups.set id e')
    (he : ∀ g ∈ e'.groupPtr, g.instanceId = id ∧ g.Sound log) : s'.SoundIn log := by
  intro id' e hmem
  rw [hgroups] at hmem
  rcases mem_set.mp hmem with ⟨rfl, rfl, -⟩ | ⟨-, hold⟩
  · exact he
  · exact h id' e hold

variable (env) in
theorem SoundIn.addTrajectory (h : s.SoundIn log) (t : Trajectory) :
    (s.addTrajectory env t).2.diskStorage = s.diskStorage ∧
      (s.addTrajectory env t = (.onDisk, s) ∨
        ((s.addTrajectory env t).1 = .appended ∧
          (s.addTrajectory env t).2.SoundIn (.appended t :: log))) := by
  have hlog : s.SoundIn (.appended t :: log) := h.mono [.appended t]
  have hnew : ∀ g ∈ (s.newEntry env t).groupPtr,
      g.instanceId = t.instanceId ∧ g.Sound (.appended t :: log) := by
    rintro g hg
    obtain rfl := Option.some.inj hg
    exact ⟨rfl, .create log t s.config.groupSize⟩
  cases he : s.groups.get? t.instanceId with
  | none =>
    rw [addTrajectory_new he]
    refine ⟨rfl, .inr ⟨rfl, fun id e hmem => ?_⟩⟩
    rcases (mem_insert _ (get?_eq_none_iff.mp he) _).mp hmem with heq | hold
    · cases heq
      exact hnew
    · exact hlog id e hold
  | some e =>
    have hmem := get?_eq_some_iff.mp he
    cases hp : e.groupPtr with
    | some g =>
      obtain ⟨hinstance, hsound⟩ := h _ _ hmem g hp
      rw [addTrajectory_memory he hp]
      refine ⟨rfl, .inr ⟨rfl, hlog.set rfl ?_⟩⟩
      rintro g' hg'
      obtain rfl := Option.some.inj hg'
      exact ⟨hinstance, hsound.add hinstance⟩
    | none =>
      by_cases ho : e.diskOffset = 0
      · rw [addTrajectory_empty he hp ho]
        exact ⟨rfl, .inr ⟨rfl, hlog.set rfl hnew⟩⟩
      · rw [addTrajectory_onDisk he (GroupEntry.isOnDisk_iff.mpr ⟨Nat.pos_of_ne_zero ho, hp⟩)]
        exact ⟨rfl, .inl rfl⟩

theorem SoundIn.commitEntry (h : s.SoundIn log) (id : String) (offset : ℕ) :
    (s.commitEntry env id offset).SoundIn log := by
  cases he : s.groups.get? id with
  | none => rwa [commitEntry_absent he]
  | some e =>
    rw [commitEntry_present he]
    exact h.set rfl fun g hg => by cases hg

variable (env) in
theorem SoundIn.commitSpill (h : s.SoundIn log)
    (written : List ((String × TrajectoryGroup) × ℕ)) :
    let s' := (BufferShard.commitSpill env (written.map fun w => w.1.1) (written.map Prod.snd) s).2
    s'.diskStorage = s.diskStorage ∧ s'.SoundIn log := by
  intro s'
  have hs' : s' = written.foldl (fun s w => s.commitEntry env w.1.1 w.2) s :=
    System.commitSpill_eq written s
  clear_value s'
  subst hs'
  induction written generalizing s with
  | nil => exact ⟨rfl, h⟩
  | cons w written ih =>
    obtain ⟨-, -, hdisk, -⟩ := commitEntry_frame env s w.1.1 w.2
    obtain ⟨hdisks, hsound⟩ := ih (h.commitEntry w.1.1 w.2)
    exact ⟨hdisks.trans hdisk, hsound⟩

end BufferShard

namespace System
open BufferShard

structure WellFormed (s : System) : Prop where
  initialized : s.shard.diskStorage.initialized = true
  memory : s.shard.SoundIn s.log
  files : FullOnDisk s.log s.shard.diskStorage
  tasks : ∀ task ∈ s.tasks, ∀ g ∈ task.groups, g.Full s.log
  delivered : ∀ groups, .delivered groups ∈ s.log → ∀ g ∈ groups, g.Full s.log

namespace WellFormed
variable {env : Env} {s s' : System}

theorem create (config : TransferQueueConfig) (bitCount numHashes : ℕ) :
    (System.create config bitCount numHashes).WellFormed where
  initialized := rfl
  memory _ _ hmem := absurd hmem List.not_mem_nil
  files _ _ hfind := by cases hfind
  tasks _ hmem := absurd hmem List.not_mem_nil
  delivered _ hmem := absurd hmem List.not_mem_nil

theorem keep (h : s.WellFormed) (events : List Event) (log : s'.log = events ++ s.log)
    (initialized : s'.shard.diskStorage.initialized = true) (memory : s'.shard.SoundIn s'.log)
    (files : ∀ offset g, s'.shard.diskStorage.find offset = some g →
      s.shard.diskStorage.find offset = some g ∨ g.Full s.log)
    (tasks : ∀ task ∈ s'.tasks, task ∈ s.tasks ∨ ∀ g ∈ task.groups, g.Full s'.log)
    (delivered : ∀ groups, .delivered groups ∈ events → ∀ g ∈ groups, g.Full s.log) :
    s'.WellFormed where
  initialized := initialized
  memory := memory
  files offset g hfind := by
    rw [log]
    rcases files offset g hfind with hold | hfull
    · exact (h.files offset g hold).mono events
    · exact hfull.mono events
  tasks task hmem g hg := by
    rcases tasks task hmem with hold | hfull
    · exact log ▸ (h.tasks task hold g hg).mono events
    · exact hfull g hg
  delivered groups hmem g hg := by
    rw [log] at hmem ⊢
    rcases List.mem_append.mp hmem with hnew | hold
    · exact (delivered groups hnew g hg).mono events
    · exact (h.delivered groups hold g hg).mono events

theorem setDisk (h : s.WellFormed) {d : DiskStorage} (initialized : d.initialized = true)
    (files : ∀ offset g, d.find offset = some g →
      s.shard.diskStorage.find offset = some g ∨ g.Full s.log) : (s.setDisk d).WellFormed :=
  h.keep [] rfl initialized h.memory files (fun _ hmem => .inl hmem)
    fun _ hmem => absurd hmem List.not_mem_nil

theorem spawn (h : s.WellFormed) {task : Task} (hfull : ∀ g ∈ task.groups, g.Full s.log) :
    (s.spawn task).WellFormed := by
  refine h.keep [] rfl h.initialized h.memory (fun _ _ hfind => .inl hfind) ?_
    fun _ hmem => absurd hmem List.not_mem_nil
  intro task' hmem
  rcases List.mem_append.mp hmem with hold | hnew
  · exact .inl hold
  · rw [List.mem_singleton.mp hnew]
    exact .inr hfull

theorem note (h : s.WellFormed) (failure : Failure) :
    (s.note (.readFailed failure)).WellFormed :=
  h.keep [.readFailed failure] rfl h.initialized (h.memory.mono [_])
    (fun _ _ hfind => .inl hfind) (fun _ hmem => .inl hmem) (by simp)

theorem shrink (h : s.WellFormed) {shard : BufferShard}
    (disk : shard.diskStorage = s.shard.diskStorage) (memory : shard.SoundIn s.log) :
    ({ s with shard } : System).WellFormed :=
  h.keep [] rfl (disk ▸ h.initialized) memory (fun _ _ hfind => .inl (disk ▸ hfind))
    (fun _ hmem => .inl hmem) fun _ hmem => absurd hmem List.not_mem_nil

theorem crash (h : s.WellFormed) : ({ s with crashed := true } : System).WellFormed :=
  ⟨h.initialized, h.memory, h.files, h.tasks, h.delivered⟩

variable (env) in
theorem startWrite (h : s.WellFormed) (t : Trajectory) : (s.startWrite env t).WellFormed := by
  have hdisk : (s.shard.dedup env t.uid).2.diskStorage = s.shard.diskStorage :=
    dedup_diskStorage ..
  have hmemory : (s.shard.dedup env t.uid).2.SoundIn s.log := fun id e hmem =>
    h.memory id e (by simpa using hmem)
  have hsame : ∀ (shard : BufferShard) (event : Event), shard.diskStorage = s.shard.diskStorage →
      shard.SoundIn (event :: s.log) → (∀ groups, event ≠ .delivered groups) →
      ({ s with shard, log := event :: s.log } : System).WellFormed := fun shard event hd hm hne =>
    h.keep [event] rfl (hd ▸ h.initialized) hm (fun _ _ hfind => .inl (hd ▸ hfind))
      (fun _ hmem => .inl hmem)
      fun groups hmem => absurd (List.mem_singleton.mp hmem).symm (hne groups)
  rw [System.startWrite]
  rcases writeStart_cases env t s.shard with ⟨-, hstart⟩ | ⟨-, hstart⟩
  · rw [hstart]
    exact hsame _ (.duplicate t) hdisk (hmemory.mono [_]) (by simp)
  · obtain ⟨hadd, hcases⟩ := hmemory.addTrajectory env t
    rw [hstart]
    rcases hw : (s.shard.dedup env t.uid).2.addTrajectory env t with ⟨started, shard⟩
    rw [hw] at hadd hcases
    rcases hcases with heq | ⟨happended, hsound⟩
    · cases heq
      exact hsame _ (.ignored t) hdisk (hmemory.mono [_]) (by simp)
    · obtain rfl : started = .appended := happended
      have hwritten := hsame shard (.appended t) (hadd.trans hdisk) hsound (by simp)
      simp only
      cases hselection : shard.spillSelection env with
      | none => exact hwritten
      | some selection =>
        obtain ⟨chosen, hkeys, hgroups, -, -, hchosen⟩ := spillSelection_spec hselection
        refine hwritten.spawn fun g hg => ?_
        rw [hkeys, hgroups, List.zip_map', Task.groups, List.map_map, List.map_nil,
          List.append_nil] at hg
        obtain ⟨p, hp, rfl⟩ := List.mem_map.mp hg
        obtain ⟨e, hmem, hptr, hcomplete⟩ := hchosen p hp
        exact ⟨(hsound p.1 e hmem p.2 hptr).2, hcomplete⟩

theorem finishRead (h : s.WellFormed) {read : PendingRead} {loaded : List TrajectoryGroup}
    (hfull : ∀ g ∈ read.result ++ loaded, g.Full s.log) :
    (s.finishRead read loaded).WellFormed := by
  have hmemory : (s.shard.eraseIds read.ids).SoundIn s.log := h.memory.shrink fun id e hmem =>
    ⟨e, ((mem_eraseAll _).mp hmem).1, .inl rfl⟩
  refine h.keep [.delivered (read.result ++ loaded)] rfl h.initialized
    (hmemory.mono [_]) (fun _ _ hfind => .inl hfind) (fun _ hmem => .inl hmem) ?_
  intro groups hmem
  obtain rfl := Event.delivered.inj (List.mem_singleton.mp hmem)
  exact hfull

theorem startRead (h : s.WellFormed) (maxGroups : Int32) : (s.startRead maxGroups).WellFormed := by
  rw [System.startRead, readScan_eq]
  by_cases hread : ∀ p ∈ s.shard.selected maxGroups, p.2.Readable
  · rw [if_pos hread]
    have hresult : ∀ g ∈ (s.shard.scanOf maxGroups).result,
        g.Full (.taken (s.shard.scanOf maxGroups).idsToRemove
          (s.shard.scanOf maxGroups).offsetsToLoad :: s.log) := by
      intro g hg
      have hcollected : g ∈ (s.shard.selected maxGroups).filterMap fun p => p.2.groupPtr := by
        simpa only [scanOf, ReadScan.collect, List.nil_append] using hg
      obtain ⟨p, hp, hptr⟩ := List.mem_filterMap.mp hcollected
      obtain ⟨hmem, hcomplete⟩ := mem_of_selected hp
      refine TrajectoryGroup.Full.mono ⟨(h.memory p.1 p.2 hmem g hptr).2, ?_⟩ [_]
      rwa [GroupEntry.isComplete, hptr] at hcomplete
    have hmemory : (s.shard.afterScan maxGroups).SoundIn s.log :=
      h.memory.shrink fun id e' hmem => by
        obtain ⟨e, hold, rfl | rfl⟩ := mem_afterScan hmem
        · exact ⟨e, hold, .inr rfl⟩
        · exact ⟨e', hold, .inl rfl⟩
    have hscanned : ({ s with
        shard := s.shard.afterScan maxGroups
        log := .taken (s.shard.scanOf maxGroups).idsToRemove
          (s.shard.scanOf maxGroups).offsetsToLoad :: s.log } : System).WellFormed :=
      h.keep [_] rfl h.initialized (hmemory.mono [_]) (fun _ _ hfind => .inl hfind)
        (fun _ hmem => .inl hmem) (by simp)
    simp only
    split
    · exact hscanned.finishRead (by simpa using hresult)
    · exact hscanned.spawn (by simpa [Task.groups] using hresult)
  · rw [if_neg hread]
    exact h.crash

theorem startDelete (h : s.WellFormed) (id : String) : (s.startDelete id).WellFormed := by
  have hdelete : (s.shard.deleteEntry id).2.diskStorage = s.shard.diskStorage ∧
      (s.shard.deleteEntry id).2.SoundIn s.log := by
    have hshrink : ∀ shard : BufferShard, shard.groups = s.shard.groups.erase id →
        shard.SoundIn s.log := fun shard hgroups => h.memory.shrink fun id' e hmem =>
      ⟨e, ((mem_erase _).mp (hgroups ▸ hmem)).1, .inl rfl⟩
    rw [deleteEntry]
    split
    · exact ⟨rfl, h.memory⟩
    · split
      · exact ⟨rfl, hshrink _ rfl⟩
      · exact ⟨rfl, hshrink _ rfl⟩
  rw [System.startDelete]
  rcases hd : s.shard.deleteEntry id with ⟨_ | offset, shard⟩
  · rw [hd] at hdelete
    exact h.shrink hdelete.1 hdelete.2
  · rw [hd] at hdelete
    exact (h.shrink hdelete.1 hdelete.2).spawn fun g hg => by cases hg

theorem startReset (h : s.WellFormed) : s.startReset.WellFormed := by
  have hcleared : ({ s with shard := s.shard.clearAll } : System).WellFormed :=
    h.shrink rfl fun id e hmem => absurd hmem List.not_mem_nil
  rw [System.startReset]
  split
  · exact hcleared
  · exact hcleared.spawn fun g hg => by cases hg

theorem fewer (h : s.WellFormed) {d : DiskStorage} (initialized : d.initialized = true)
    (files : ∀ offset g, d.find offset = some g → s.shard.diskStorage.find offset = some g) :
    (s.setDisk d).WellFormed :=
  h.setDisk initialized fun offset g hfind => .inl (files offset g hfind)

variable (env) in
theorem remove (h : s.WellFormed) (offset : ℕ) :
    (s.setDisk (s.shard.diskStorage.remove env offset).2).WellFormed := by
  obtain ⟨d, hd, -, -, ⟨e, hremove, -, hfiles⟩ | ⟨hremove, -, hfiles⟩⟩ :=
    DiskStorage.remove_cases env h.initialized offset
  · rw [hremove]
    exact h.fewer hd fun o g hfind => DiskStorage.find_congr hfiles o ▸ hfind
  · rw [hremove]
    refine h.fewer hd fun o g hfind => ?_
    rw [DiskStorage.find_delete _ _ _ hfiles] at hfind
    split at hfind
    · cases hfind
    · exact hfind

theorem resumeSpill (h : s.WellFormed) {startedAt : ℕ} {todo : List (String × TrajectoryGroup)}
    {written : List ((String × TrajectoryGroup) × ℕ)}
    (hfull : ∀ g ∈ (Task.spill startedAt todo written).groups, g.Full s.log) :
    (s.resumeTask env (.spill startedAt todo written)).WellFormed := by
  cases todo with
  | nil =>
    obtain ⟨hdisk, hmemory⟩ := h.memory.commitSpill env written
    exact h.keep ((List.filter _ _).map .committed) rfl (hdisk ▸ h.initialized)
      (hmemory.mono _) (fun _ _ hfind => .inl (hdisk ▸ hfind)) (fun _ hmem => .inl hmem) (by simp)
  | cons p todo =>
    obtain ⟨id, group⟩ := p
    have hgroup : group.Full s.log := hfull group (by simp [Task.groups])
    obtain ⟨d, hd, -, ⟨hspill, hfiles⟩ | ⟨hspill, hfiles⟩⟩ :=
      DiskStorage.spill_cases env h.initialized group
    · rw [System.resumeTask, hspill]
      refine h.setDisk hd fun offset g hfind => ?_
      exact (DiskStorage.find_leftover_some hfiles hfind).imp_right fun (heq : g = group) =>
        heq ▸ hgroup
    · rw [System.resumeTask, hspill]
      have hwritten : (s.setDisk d).WellFormed := h.setDisk hd fun offset g hfind => by
        rw [DiskStorage.find_write _ _ _ _ hfiles] at hfind
        split at hfind
        · exact .inr (Option.some.inj hfind ▸ hgroup)
        · exact .inl hfind
      exact hwritten.spawn fun g hg => hfull g (by grind [Task.groups])

theorem resumeLoad (h : s.WellFormed) {read : PendingRead} {todo : List ℕ}
    {loaded : List (ℕ × TrajectoryGroup)}
    (hfull : ∀ g ∈ (Task.load read todo loaded).groups, g.Full s.log) :
    (s.resumeTask env (.load read todo loaded)).WellFormed := by
  cases todo with
  | nil =>
    have hmerged : ({ s with shard := s.shard.mergeLoaded (loaded.map Prod.snd) } :
        System).WellFormed := h.shrink rfl h.memory
    exact hmerged.spawn fun g hg => hfull g (by grind [Task.groups])
  | cons offset todo =>
    obtain ⟨d, hd, -, -, hfiles, ⟨e, hload, -⟩ | ⟨group, hload, -, hfound⟩⟩ :=
      DiskStorage.load_cases env h.initialized offset
    · rw [System.resumeTask, hload]
      exact (h.fewer hd fun o g hfind => DiskStorage.find_congr hfiles o ▸ hfind).note e
    · rw [System.resumeTask, hload]
      have hgroup : group.Full s.log := h.files offset group hfound
      refine (h.fewer hd fun o g hfind => DiskStorage.find_congr hfiles o ▸ hfind).spawn ?_
      intro g hg
      rcases List.mem_append.mp hg with hresult | hloaded
      · exact hfull g (List.mem_append_left _ hresult)
      · obtain ⟨file, hfile, rfl⟩ := List.mem_map.mp hloaded
        rcases List.mem_append.mp hfile with hold | hnew
        · exact hfull _ (List.mem_append_right _ (List.mem_map_of_mem hold))
        · rw [List.mem_singleton.mp hnew]
          exact hgroup

theorem resumeUnlink (h : s.WellFormed) {read : PendingRead}
    {todo removed : List (ℕ × TrajectoryGroup)}
    (hfull : ∀ g ∈ (Task.unlink read todo removed).groups, g.Full s.log) :
    (s.resumeTask env (.unlink read todo removed)).WellFormed := by
  cases todo with
  | nil => exact h.finishRead hfull
  | cons file todo =>
    have hremoved := h.remove env file.1
    rw [System.resumeTask]
    rcases hd : s.shard.diskStorage.remove env file.1 with ⟨e | _, d⟩
    · rw [hd] at hremoved
      exact hremoved.note e
    · rw [hd] at hremoved
      exact hremoved.spawn fun g hg => hfull g (by grind [Task.groups])

variable (env) in
theorem resumeTask (h : s.WellFormed) {task : Task} (hfull : ∀ g ∈ task.groups, g.Full s.log) :
    (s.resumeTask env task).WellFormed := by
  cases task with
  | spill startedAt todo written => exact h.resumeSpill hfull
  | load read todo loaded => exact h.resumeLoad hfull
  | unlink read todo removed => exact h.resumeUnlink hfull
  | remove todo =>
    cases todo with
    | nil => exact h
    | cons offset todo =>
      have hremoved := h.remove env offset
      rw [System.resumeTask]
      rcases hd : s.shard.diskStorage.remove env offset with ⟨e | _, d⟩
      · rwa [hd] at hremoved
      · rw [hd] at hremoved
        simp only
        split
        · exact hremoved.spawn fun g hg => absurd hg List.not_mem_nil
        · exact hremoved

variable (env) in
/-- Every step but an expiry keeps the invariant. -/
theorem step (h : s.WellFormed) {a : Action} (ha : a ≠ .checkGroupTimeouts) :
    (s.step env a).2.WellFormed := by
  rw [System.step]
  split
  · exact h
  · cases a with
    | write t => exact h.startWrite env t
    | readReadyGroups maxGroups => exact h.startRead maxGroups
    | checkGroupTimeouts => exact absurd rfl ha
    | deleteInstance id => exact h.startDelete id
    | reset => exact h.startReset
    | updateConfig config => exact h.shrink rfl h.memory
    | resume i =>
      rw [System.act]
      cases htask : s.tasks[i]? with
      | none => exact h
      | some task =>
        have hrest : ({ s with tasks := s.tasks.eraseIdx i } : System).WellFormed :=
          h.keep [] rfl h.initialized h.memory (fun _ _ hfind => .inl hfind)
            (fun _ hmem => .inl (List.mem_of_mem_eraseIdx hmem)) (by simp)
        exact hrest.resumeTask env (h.tasks task (List.mem_of_getElem? htask))

/-- In every interleaving without expiries the groups are well formed. -/
theorem run (env : Env) (config : TransferQueueConfig) (bitCount numHashes : ℕ)
    {actions : List Action} (hactions : .checkGroupTimeouts ∉ actions) :
    ((System.create config bitCount numHashes).run env actions).WellFormed := by
  have hne : ∀ a ∈ actions, a ≠ .checkGroupTimeouts := fun a ha heq => hactions (heq ▸ ha)
  exact (Machine.along_of_inv (P := fun _ _ => True) WellFormed
    (fun s a h ha => ⟨trivial, h.step env ha⟩) actions (.create config bitCount numHashes)
    (Machine.along_of_mem hne _)).2

end WellFormed
end System
end TransferQueue
