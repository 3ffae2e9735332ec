import TransferQueue.ProtocolSteps

/-! The simulation: a step of the shard with operations in flight is a sequence of
changes of its view, each meeting a guard if the step does. An invariant of all
changes is therefore an invariant of every interleaving. -/

namespace TransferQueue
open UnorderedMap Relation

variable {env : Env} {G : Guard}

/-- A spill writes the files of distinct instances, under positive offsets. -/
def Task.Clean : Task → Prop
  | .spill _ todo written =>
    (∀ w ∈ written, 0 < w.2) ∧ ((written.map fun w => w.1.1) ++ todo.map Prod.fst).Nodup
  | _ => True

namespace System

/-- What every interleaving keeps of the entries, of the tasks and of the directory. A file
that a read has loaded is, while it exists, the file it was. -/
structure Clean (env : Env) (s : System) : Prop where
  shard : s.shard.Clean
  initialized : s.shard.diskStorage.initialized = true
  named : s.shard.diskStorage.Named env
  tasks : ∀ task ∈ s.tasks, task.Clean
  readable : ∀ task ∈ s.tasks, ∀ p ∈ task.loaded, s.shard.diskStorage.Readable env p.1

theorem Clean.create (config : TransferQueueConfig) (bitCount numHashes : ℕ) :
    (System.create config bitCount numHashes).Clean env :=
  ⟨fun _ _ h => (nomatch h), rfl, fun _ h => (nomatch h), fun _ h => (nomatch h),
    fun _ h => (nomatch h)⟩

theorem Clean.keep {s s' : System} (hs : s.Clean env) (hshard : s'.shard.Clean)
    (hdisk : s'.shard.diskStorage = s.shard.diskStorage)
    (htasks : ∀ task ∈ s'.tasks, task ∈ s.tasks) : s'.Clean env where
  shard := hshard
  initialized := hdisk ▸ hs.initialized
  named := hdisk ▸ hs.named
  tasks task hmem := hs.tasks task (htasks task hmem)
  readable task hmem := hdisk ▸ hs.readable task (htasks task hmem)

theorem Clean.spawn {s : System} (hs : s.Clean env) {task : Task} (h : task.Clean)
    (hloaded : ∀ p ∈ task.loaded, s.shard.diskStorage.Readable env p.1) :
    (s.spawn task).Clean env := by
  refine ⟨hs.shard, hs.initialized, hs.named, fun task' hmem => ?_, fun task' hmem => ?_⟩
  · rcases List.mem_append.mp hmem with hold | hnew
    · exact hs.tasks task' hold
    · rwa [List.mem_singleton.mp hnew]
  · rcases List.mem_append.mp hmem with hold | hnew
    · exact hs.readable task' hold
    · rwa [List.mem_singleton.mp hnew]

theorem view_spawn (task : Task) (s : System) :
    (s.spawn task).view env = { s.view env with tasks := task ::ₘ (s.view env).tasks } :=
  View.ext rfl rfl rfl (Multiset.coe_eq_coe.mpr (List.perm_append_singleton task s.tasks)) rfl

def PermitsResume (env : Env) (G : Guard) (shard : BufferShard) (v : View) : Task → Prop
  | .spill startedAt [] written =>
    ∀ w ∈ written, w.1.1 ∈ shard.groups.keys → G.commit v startedAt w.1.1
  | .load _ (offset :: _) _ =>
    (∀ group, (shard.diskStorage.load env offset).1 ≠ .ok group) → G.fail
  | .unlink _ ((offset, _) :: _) _ =>
    (shard.diskStorage.remove env offset).1 ≠ .ok () → G.fail
  | .remove (offset :: _) => G.remove v offset
  | _ => True

def Permits (env : Env) (G : Guard) (s : System) : Action → Prop
  | .readReadyGroups maxGroups =>
    G.take (s.view env) (BufferShard.slotsOf (s.shard.selected maxGroups))
  | .resume i => ∀ task, s.tasks[i]? = some task → PermitsResume env G s.shard (s.view env) task
  | _ => True

section Starts

theorem startWrite_simulates {s : System} (hs : s.Clean env) (t : Trajectory) :
    ReflTransGen (Change G) (s.view env) ((s.startWrite env t).view env) ∧
      (s.startWrite env t).Clean env := by
  have hdedup : (s.shard.dedup env t.uid).2.Clean := hs.shard.shrink fun p hp => by
    rwa [BufferShard.dedup_groups] at hp
  have hlook : (s.shard.dedup env t.uid).2.look = s.shard.look :=
    BufferShard.look_congr (BufferShard.dedup_groups ..)
  have hdisk : (s.shard.dedup env t.uid).2.diskStorage = s.shard.diskStorage :=
    BufferShard.dedup_diskStorage ..
  have hnoted : ∀ event, ((∃ t, event = Event.ignored t) ∨ ∃ t, event = .duplicate t) →
      ReflTransGen (Change G) (s.view env)
        (({ s with shard := (s.shard.dedup env t.uid).2, log := event :: s.log } : System).view
          env) := by
    intro event hevent
    refine .single ?_
    have hview : (({ s with
          shard := (s.shard.dedup env t.uid).2, log := event :: s.log } : System).view env) =
        { s.view env with log := event :: (s.view env).log } :=
      View.ext hlook (by rw [view, hdisk]; rfl) (by rw [view, hdisk]; rfl) rfl rfl
    rw [hview]
    exact .note hevent
  have hkept : ∀ event : Event, ({ s with
      shard := (s.shard.dedup env t.uid).2, log := event :: s.log } : System).Clean env :=
    fun _ => hs.keep hdedup hdisk fun _ h => h
  rw [startWrite, BufferShard.writeStart]
  rcases hd : s.shard.dedup env t.uid with ⟨fresh, s₁⟩
  rw [hd] at hdedup hlook hdisk hnoted hkept
  simp only at hdedup hlook hdisk hnoted hkept
  cases fresh with
  | false => exact ⟨hnoted _ (.inr ⟨t, rfl⟩), hkept _⟩
  | true =>
    rcases BufferShard.addTrajectory_look env hdedup t with
      hadd | ⟨s₂, group, group', hadd, hdisk₂, hclean, hslot, hgrown, hlook₂⟩
    · simp only [hadd]
      exact ⟨hnoted _ (.inl ⟨t, rfl⟩), hkept _⟩
    · simp only [hadd]
      have hview : (({ s with shard := s₂, log := .appended t :: s.log } : System).view env) =
          { s.view env with
            look := Function.update (s.view env).look t.instanceId (some (.memory group'))
            log := .appended t :: (s.view env).log } :=
        View.ext (hlook₂.trans (by rw [hlook]; rfl)) (by rw [view, hdisk₂, hdisk]; rfl)
          (by rw [view, hdisk₂, hdisk]; rfl) rfl rfl
      have happend : ReflTransGen (Change G) (s.view env)
          (({ s with shard := s₂, log := .appended t :: s.log } : System).view env) := by
        rw [hview]
        exact .single (.append (by rw [hlook] at hslot; exact hslot) hgrown)
      have hkept₂ : ({ s with shard := s₂, log := .appended t :: s.log } : System).Clean env :=
        hs.keep hclean (hdisk₂.trans hdisk) fun _ h => h
      cases hsel : s₂.spillSelection env with
      | none => exact ⟨happend, hkept₂⟩
      | some selection =>
        obtain ⟨chosen, hkeys, hgroups, -, hids, hheld⟩ := BufferShard.spillSelection_spec hsel
        have hzip : selection.keys.zip selection.groups = chosen :=
          (List.zip_of_prod hkeys.symm hgroups.symm).symm
        refine ⟨happend.tail ?_, hkept₂.spawn ⟨by simp, ?_⟩ (by simp [Task.loaded])⟩
        · simp only [hzip]
          rw [view_spawn]
          refine .copy hids fun p hp => ?_
          obtain ⟨e, hmem, hptr, hc⟩ := hheld p hp
          exact ⟨(BufferShard.look_of_mem hmem).trans (by rw [GroupEntry.slot_of_some hptr]), hc⟩
        · simpa only [hzip, List.map_nil, List.nil_append] using hids

theorem startRead_simulates {s : System} (hs : s.Clean env) {maxGroups : Int32}
    (hp : G.take (s.view env) (BufferShard.slotsOf (s.shard.selected maxGroups))) :
    ReflTransGen (Change G) (s.view env) ((s.startRead maxGroups).view env) ∧
      (s.startRead maxGroups).Clean env := by
  rw [startRead, BufferShard.readScan_eq]
  by_cases hread : ∀ p ∈ s.shard.selected maxGroups, p.2.Readable
  · rw [if_pos hread]
    let taken := BufferShard.slotsOf (s.shard.selected maxGroups)
    have hids : (s.shard.scanOf maxGroups).idsToRemove = taken.map Prod.fst :=
      (BufferShard.slotsOf_fst _).symm
    have hoffsets : (s.shard.scanOf maxGroups).offsetsToLoad = Slot.offsets taken :=
      (BufferShard.slotsOf_offsets _).symm
    have hresult : (s.shard.scanOf maxGroups).result = Slot.groups taken :=
      (BufferShard.slotsOf_groups _).symm
    have hlook : (s.shard.afterScan maxGroups).look = fun id =>
        if id ∈ taken.map Prod.fst then (s.shard.look id).map Slot.moveOut
        else s.shard.look id := by
      rw [BufferShard.afterScan_look hs.shard, BufferShard.slotsOf_fst]
    have hnodup : (taken.map Prod.fst).Nodup := by
      rw [BufferShard.slotsOf_fst]
      exact BufferShard.selected_ids_nodup maxGroups s.shard
    have hslots : ∀ p ∈ taken, (s.view env).look p.1 = some p.2 := by
      intro p hp
      obtain ⟨q, hq, rfl⟩ := List.mem_map.mp hp
      exact BufferShard.look_of_mem (BufferShard.mem_of_selected hq).1
    have hreadable : ∀ p ∈ taken, p.2 ≠ .hollow := by
      intro p hp
      obtain ⟨q, hq, rfl⟩ := List.mem_map.mp hp
      exact GroupEntry.slot_ne_hollow (hread q hq)
    let read : PendingRead := ⟨s.log.length + 1, taken.map Prod.fst, Slot.groups taken⟩
    let s₁ : System := { s with
      shard := s.shard.afterScan maxGroups
      log := .taken (taken.map Prod.fst) (Slot.offsets taken) :: s.log }
    have hs₁ : s₁.Clean env := hs.keep (hs.shard.afterScan maxGroups) rfl fun _ h => h
    have hspawned : (s₁.spawn (.load read (Slot.offsets taken) [])).view env =
        { s.view env with
          look := fun id => if id ∈ taken.map Prod.fst then ((s.view env).look id).map Slot.moveOut
            else (s.view env).look id
          log := .taken (taken.map Prod.fst) (Slot.offsets taken) :: (s.view env).log
          tasks := .load read (Slot.offsets taken) [] ::ₘ (s.view env).tasks } := by
      rw [view_spawn]
      exact View.ext hlook rfl rfl rfl rfl
    have htake : Change G (s.view env) ((s₁.spawn (.load read (Slot.offsets taken) [])).view env) :=
      hspawned ▸ Change.take hnodup hslots hreadable hp
    simp only [hids, hoffsets, hresult]
    split
    · -- without files the groups are erased at once
      rename_i hnone
      rw [hnone, view_spawn] at htake
      refine ⟨?_, hs₁.keep (hs₁.shard.eraseIds read.ids) rfl fun _ h => h⟩
      have hend : (s₁.finishRead read []).view env = { s₁.view env with
          look := fun id => if id ∈ read.ids then none else s₁.shard.look id
          log := .delivered (read.result ++ []) :: s₁.log } :=
        View.ext (BufferShard.eraseIds_look read.ids s₁.shard) rfl rfl rfl rfl
      exact hend ▸ ReflTransGen.head htake (@Change.finish_at_once G _ _ read rfl)
    · exact ⟨.single htake, hs₁.spawn trivial (by simp [Task.loaded])⟩
  · rw [if_neg hread]
    exact ⟨.refl, hs.keep hs.shard rfl fun _ h => h⟩

theorem startDelete_simulates {s : System} (hs : s.Clean env) (id : String) :
    ReflTransGen (Change G) (s.view env) ((s.startDelete id).view env) ∧
      (s.startDelete id).Clean env := by
  obtain ⟨hlook, hdisk, hclean, hfile⟩ := BufferShard.deleteEntry_look hs.shard id
  rw [startDelete]
  rcases hd : s.shard.deleteEntry id with ⟨file, shard⟩
  rw [hd] at hlook hdisk hclean hfile
  simp only at hlook hdisk hclean hfile
  have hs₁ : ({ s with shard } : System).Clean env := hs.keep hclean hdisk fun _ h => h
  cases file with
  | none =>
    refine ⟨.single ?_, hs₁⟩
    have hview : ({ s with shard } : System).view env = { s.view env with
        look := fun id' => if id' = id then none else (s.view env).look id'
        tasks := if ([] : List ℕ) = [] then (s.view env).tasks
          else .remove [] ::ₘ (s.view env).tasks } :=
      View.ext hlook (by rw [view, hdisk]; rfl) (by rw [view, hdisk]; rfl) rfl rfl
    simp only [hview]
    exact .discard (· = id) [] (by simp)
  | some offset =>
    refine ⟨.single ?_, hs₁.spawn trivial (by simp [Task.loaded])⟩
    have hview : (({ s with shard } : System).spawn (.remove [offset])).view env =
        { s.view env with
          look := fun id' => if id' = id then none else (s.view env).look id'
          tasks := if [offset] = [] then (s.view env).tasks
            else .remove [offset] ::ₘ (s.view env).tasks } := by
      rw [view_spawn]
      exact View.ext hlook (by rw [view, hdisk]; rfl) (by rw [view, hdisk]; rfl) (by simp; rfl) rfl
    simp only [hview]
    refine .discard (· = id) [offset] fun o ho => ⟨id, rfl, ?_⟩
    rw [List.mem_singleton.mp ho]
    exact hfile offset rfl

theorem startReset_simulates {s : System} (hs : s.Clean env) :
    ReflTransGen (Change G) (s.view env) (s.startReset.view env) ∧ s.startReset.Clean env := by
  have hs₁ : ({ s with shard := s.shard.clearAll } : System).Clean env :=
    hs.keep (fun _ _ h => nomatch h) rfl fun _ h => h
  have hview : s.startReset.view env = { s.view env with
      look := fun id => if True then none else (s.view env).look id
      tasks := if s.shard.diskOffsets = [] then (s.view env).tasks
        else .remove s.shard.diskOffsets ::ₘ (s.view env).tasks } := by
    rw [startReset]
    by_cases hnone : s.shard.diskOffsets = []
    · rw [if_pos (.inl hnone), if_pos hnone]
      exact View.ext (funext fun _ => rfl) rfl rfl rfl rfl
    · have hspawn : ¬(s.shard.diskOffsets = [] ∨
          s.shard.diskStorage.initialized = false) :=
        not_or.mpr ⟨hnone, (Bool.not_eq_false _).mpr hs.initialized⟩
      rw [if_neg hspawn, if_neg hnone, view_spawn]
      exact View.ext (funext fun _ => rfl) rfl rfl rfl rfl
  refine ⟨.single ?_, ?_⟩
  · rw [hview]
    refine .discard (fun _ => True) s.shard.diskOffsets fun offset hoff => ?_
    obtain ⟨id, hid⟩ := BufferShard.look_of_mem_diskOffsets hoff
    exact ⟨id, trivial, hid⟩
  · rw [startReset]
    split
    · exact hs₁
    · exact hs₁.spawn trivial (by simp [Task.loaded])

theorem checkGroupTimeouts_simulates {s : System} (hs : s.Clean env) :
    ReflTransGen (Change G) (s.view env)
        (({ s with shard := s.shard.checkGroupTimeouts env } : System).view env) ∧
      ({ s with shard := s.shard.checkGroupTimeouts env } : System).Clean env := by
  obtain ⟨f, htrajectories, hcomplete, hlook⟩ :=
    BufferShard.checkGroupTimeouts_look env s.shard
  refine ⟨.single ?_, hs.keep hs.shard.checkGroupTimeouts rfl fun _ h => h⟩
  have hview : ({ s with shard := s.shard.checkGroupTimeouts env } : System).view env =
      { s.view env with look := fun id => ((s.view env).look id).map (Slot.map (f id)) } :=
    View.ext hlook rfl rfl rfl rfl
  rw [hview]
  exact .expire htrajectories hcomplete

end Starts

section Resume

/-- The shard with a task put back on the list. -/
def put (task : Task) (s : System) : System := { s with tasks := task :: s.tasks }

theorem put_eraseIdx_perm {s : System} {i : ℕ} {task : Task} (h : s.tasks[i]? = some task) :
    (({ s with tasks := s.tasks.eraseIdx i } : System).put task).tasks.Perm s.tasks := by
  obtain ⟨hlt, rfl⟩ := List.getElem?_eq_some_iff.mp h
  exact List.getElem_cons_eraseIdx_perm hlt

theorem put_eraseIdx_view {s : System} {i : ℕ} {task : Task} (h : s.tasks[i]? = some task) :
    (({ s with tasks := s.tasks.eraseIdx i } : System).put task).view env = s.view env :=
  View.ext rfl rfl rfl (Multiset.coe_eq_coe.mpr (put_eraseIdx_perm h)) rfl

theorem view_tasks_of_getElem? {s : System} {i : ℕ} {task : Task} (h : s.tasks[i]? = some task) :
    (s.view env).tasks = task ::ₘ (s.tasks.eraseIdx i : Multiset Task) :=
  Multiset.coe_eq_coe.mpr (put_eraseIdx_perm h).symm

theorem view_note (event : Event) (s : System) :
    (s.note event).view env = { s.view env with log := event :: (s.view env).log } := rfl

theorem view_setDisk {s : System} {d : DiskStorage} {file : ℕ → Option TrajectoryGroup}
    (hfile : d.find = file) : (s.setDisk d).view env = { s.view env with
      file
      drawn := env.spillId d.spills } := View.ext rfl hfile rfl rfl rfl

theorem Clean.setDisk {s : System} (hs : s.Clean env) {d : DiskStorage}
    (hd : s.shard.diskStorage.Keeps env d) : (s.setDisk d).Clean env where
  shard := hs.shard
  initialized := hd.initialized
  named := hd.named hs.named
  tasks := hs.tasks
  readable task hmem p hp := hd.readable p.1 (hs.readable task hmem p hp)

theorem find_spilled {d d' : DiskStorage} {offset : ℕ} {group : TrajectoryGroup}
    (h : d'.files = (offset, some group) :: d.files) :
    d'.find = Function.update d.find offset (some group) := by
  funext o
  rw [DiskStorage.find_write d d' offset (some group) h, Function.update_apply]

theorem find_removed {d d' : DiskStorage} {offset : ℕ}
    (h : d'.files = d.files.filter fun f => f.1 ≠ offset) :
    d'.find = Function.update d.find offset none := by
  funext o
  rw [DiskStorage.find_delete d d' offset h, Function.update_apply]

theorem find_kept {d d' : DiskStorage} (h : d'.files = d.files) : d'.find = d.find :=
  funext fun o => DiskStorage.find_congr h o

theorem commitSpill_eq (written : List ((String × TrajectoryGroup) × ℕ)) (s : BufferShard) :
    (BufferShard.commitSpill env (written.map fun w => w.1.1) (written.map Prod.snd) s).2 =
      written.foldl (fun s w => s.commitEntry env w.1.1 w.2) s := by
  simp only [BufferShard.commitSpill, List.length_map, ne_eq, not_true, if_false, List.zip_map',
    List.foldl_map]

theorem commit_view (env : Env) {s : System} (hs : s.Clean env) {startedAt : ℕ}
    {written : List ((String × TrajectoryGroup) × ℕ)}
    (hclean : (Task.spill startedAt [] written).Clean) :
    ∃ (look : String → Option Slot) (ids : List String),
      (s.resumeTask env (.spill startedAt [] written)).view env =
        { s.view env with look, log := ids.map .committed ++ s.log } ∧
      (written.map fun w => w.1.1).Nodup ∧
      (∀ w ∈ written, look w.1.1 = (s.shard.look w.1.1).map fun _ => .disk w.2) ∧
      (∀ id, id ∉ written.map (fun w => w.1.1) → look id = s.shard.look id) ∧
      (∀ id, id ∈ ids ↔ id ∈ written.map (fun w => w.1.1) ∧ s.shard.look id ≠ none) ∧
      (s.resumeTask env (.spill startedAt [] written)).Clean env := by
  obtain ⟨hpos, hnodup⟩ := hclean
  rw [List.map_nil, List.append_nil] at hnodup
  obtain ⟨hpointed, hkept, hclean, hdisk⟩ :=
    BufferShard.commit_look env hs.shard hpos hnodup
  refine ⟨_, (written.map fun w => w.1.1).reverse.filter
    fun id => decide (id ∈ s.shard.groups.keys), ?_, hnodup, hpointed, hkept, fun id => ?_, ?_⟩
  · rw [resumeTask, commitSpill_eq]
    refine View.ext rfl ?_ ?_ rfl rfl <;> rw [view, view, ← hdisk]
  · rw [List.mem_filter, List.mem_reverse, decide_eq_true_iff, ne_eq,
      BufferShard.look_eq_none_iff, not_not]
  · rw [resumeTask, commitSpill_eq]
    exact hs.keep hclean hdisk fun _ h => h

theorem resumeSpill_simulates {s : System} (hs : s.Clean env) {startedAt : ℕ}
    {todo : List (String × TrajectoryGroup)} {written : List ((String × TrajectoryGroup) × ℕ)}
    (hclean : (Task.spill startedAt todo written).Clean)
    (hp : PermitsResume env G s.shard ((s.put (.spill startedAt todo written)).view env)
      (.spill startedAt todo written)) :
    ReflTransGen (Change G) ((s.put (.spill startedAt todo written)).view env)
        ((s.resumeTask env (.spill startedAt todo written)).view env) ∧
      (s.resumeTask env (.spill startedAt todo written)).Clean env := by
  cases todo with
  | nil =>
    obtain ⟨look, ids, hview, hnodup, hpointed, hkept, hids, hafter⟩ := commit_view env hs hclean
    rw [hview]
    refine ⟨.single (Change.commit rfl hnodup hpointed hkept hids fun w hw hne => hp w hw ?_),
      hafter⟩
    by_contra hkey
    exact hne (BufferShard.look_eq_none_iff.mpr hkey)
  | cons copy todo =>
    obtain ⟨hpos, hnodup⟩ := hclean
    obtain ⟨id, group⟩ := copy
    have hnext := env.spillId_strictMono (Nat.lt_succ_self s.shard.diskStorage.spills)
    have hkeeps := DiskStorage.keeps_spill env hs.initialized group
    obtain ⟨d', -, hspills, ⟨hspill, hfiles⟩ | ⟨hspill, hfiles⟩⟩ :=
      DiskStorage.spill_cases env hs.initialized group
    · rw [hspill] at hkeeps
      simp only [resumeTask, hspill]
      rw [view_setDisk rfl]
      exact ⟨.single (Change.abandon rfl (hspills ▸ hnext) fun _ hne =>
        DiskStorage.find_leftover hfiles hne), hs.setDisk hkeeps⟩
    · rw [hspill] at hkeeps
      simp only [resumeTask, hspill]
      rw [view_spawn, view_setDisk (find_spilled hfiles)]
      refine ⟨.single (Change.write rfl (hspills ▸ hnext)),
        (hs.setDisk hkeeps).spawn ⟨fun w hw => ?_, by simpa using hnodup⟩ (by simp [Task.loaded])⟩
      rcases List.mem_append.mp hw with hold | hnew
      · exact hpos w hold
      · rw [List.mem_singleton.mp hnew]
        exact env.spillId_pos _

theorem resumeLoad_simulates {s : System} (hs : s.Clean env) {read : PendingRead} {todo : List ℕ}
    {loaded : List (ℕ × TrajectoryGroup)}
    (hloaded : ∀ p ∈ loaded, s.shard.diskStorage.Readable env p.1)
    (hp : PermitsResume env G s.shard ((s.put (.load read todo loaded)).view env)
      (.load read todo loaded)) :
    ReflTransGen (Change G) ((s.put (.load read todo loaded)).view env)
        ((s.resumeTask env (.load read todo loaded)).view env) ∧
      (s.resumeTask env (.load read todo loaded)).Clean env := by
  cases todo with
  | nil =>
    have hmerged : ({ s with
        shard := s.shard.mergeLoaded (loaded.map Prod.snd) } : System).Clean env :=
      hs.keep hs.shard rfl fun _ h => h
    rw [resumeTask, view_spawn]
    exact ⟨.single (Change.merge rfl), hmerged.spawn trivial hloaded⟩
  | cons offset todo =>
    have hkeeps := DiskStorage.keeps_load env hs.initialized offset
    obtain ⟨d', -, hspills, -, hfiles, ⟨e, hload, -⟩ | ⟨group, hload, -, hfound⟩⟩ :=
      DiskStorage.load_cases env hs.initialized offset <;> rw [hload] at hkeeps
    · have hfail : G.fail := hp fun group hok => by simp [hload] at hok
      simp only [resumeTask, hload]
      rw [view_note, view_setDisk (find_kept hfiles), hspills]
      exact ⟨.single (Change.failLoad rfl hfail),
        (hs.setDisk hkeeps).keep hs.shard rfl fun _ h => h⟩
    · simp only [resumeTask, hload]
      rw [view_spawn, view_setDisk (find_kept hfiles), hspills]
      refine ⟨.single (Change.load rfl hfound), (hs.setDisk hkeeps).spawn trivial fun p hmem => ?_⟩
      rcases List.mem_append.mp hmem with hold | hnew
      · exact hkeeps.readable p.1 (hloaded p hold)
      · rw [List.mem_singleton.mp hnew]
        exact hkeeps.readable offset (hs.named.readable hfound)

theorem resumeUnlink_simulates {s : System} (hs : s.Clean env) {read : PendingRead}
    {todo removed : List (ℕ × TrajectoryGroup)}
    (hloaded : ∀ p ∈ todo, s.shard.diskStorage.Readable env p.1)
    (hp : PermitsResume env G s.shard ((s.put (.unlink read todo removed)).view env)
      (.unlink read todo removed)) :
    ReflTransGen (Change G) ((s.put (.unlink read todo removed)).view env)
        ((s.resumeTask env (.unlink read todo removed)).view env) ∧
      (s.resumeTask env (.unlink read todo removed)).Clean env := by
  cases todo with
  | nil =>
    have hview : (s.resumeTask env (.unlink read [] removed)).view env = { s.view env with
        look := fun id => if id ∈ read.ids then none else (s.view env).look id
        log := .delivered (read.result ++ removed.map Prod.snd) :: (s.view env).log } :=
      View.ext (BufferShard.eraseIds_look read.ids s.shard) rfl rfl rfl rfl
    rw [hview]
    exact ⟨.single (Change.finish rfl), hs.keep (hs.shard.eraseIds read.ids) rfl fun _ h => h⟩
  | cons next todo =>
    obtain ⟨offset, group⟩ := next
    have hkeeps := DiskStorage.keeps_remove env hs.initialized offset
    obtain ⟨d', -, hspills, -, ⟨e, hremove, -, hfiles⟩ | ⟨hremove, ⟨-, hhas⟩, hfiles⟩⟩ :=
      DiskStorage.remove_cases env hs.initialized offset <;> rw [hremove] at hkeeps
    · have hfail : G.fail := hp (by simp [hremove])
      simp only [resumeTask, hremove]
      rw [view_note, view_setDisk (find_kept hfiles), hspills]
      exact ⟨.single (Change.failUnlink rfl hfail),
        (hs.setDisk hkeeps).keep hs.shard rfl fun _ h => h⟩
    · have hfound := (hloaded (offset, group) List.mem_cons_self).2 hhas
      simp only [resumeTask, hremove]
      rw [view_spawn, view_setDisk (find_removed hfiles), hspills]
      exact ⟨.single (Change.unlink rfl hfound), (hs.setDisk hkeeps).spawn trivial fun p hmem =>
        hkeeps.readable p.1 (hloaded p (List.mem_cons_of_mem _ hmem))⟩

theorem resumeRemove_simulates {s : System} (hs : s.Clean env) {todo : List ℕ}
    (hp : PermitsResume env G s.shard ((s.put (.remove todo)).view env) (.remove todo)) :
    ReflTransGen (Change G) ((s.put (.remove todo)).view env)
        ((s.resumeTask env (.remove todo)).view env) ∧
      (s.resumeTask env (.remove todo)).Clean env := by
  cases todo with
  | nil => exact ⟨.single (Change.forget rfl), hs⟩
  | cons offset todo =>
    have hkeeps := DiskStorage.keeps_remove env hs.initialized offset
    obtain ⟨d', -, hspills, -, ⟨e, hremove, -, hfiles⟩ | ⟨hremove, -, hfiles⟩⟩ :=
      DiskStorage.remove_cases env hs.initialized offset <;> rw [hremove] at hkeeps
    · simp only [resumeTask, hremove]
      rw [view_setDisk (find_kept hfiles), hspills]
      exact ⟨.single (Change.forget rfl), hs.setDisk hkeeps⟩
    · simp only [resumeTask, hremove]
      by_cases hlast : todo = []
      · rw [if_pos hlast, view_spawn, view_setDisk (find_removed hfiles), hspills, hlast]
        exact ⟨.single (hlast ▸ Change.remove rfl hp),
          (hs.setDisk hkeeps).spawn trivial (by simp [Task.loaded])⟩
      · -- the vector is gone: the other files are never reached
        rw [if_neg hlast, view_setDisk (find_removed hfiles), hspills]
        have hfirst := @Change.remove G _ (s.view env).tasks offset todo rfl hp
        exact ⟨.tail (.single hfirst) (@Change.forget G _ (s.view env).tasks todo rfl),
          hs.setDisk hkeeps⟩

theorem resumeTask_simulates {s : System} (hs : s.Clean env) {task : Task} (hclean : task.Clean)
    (hloaded : ∀ p ∈ task.loaded, s.shard.diskStorage.Readable env p.1)
    (hp : PermitsResume env G s.shard ((s.put task).view env) task) :
    ReflTransGen (Change G) ((s.put task).view env) ((s.resumeTask env task).view env) ∧
      (s.resumeTask env task).Clean env := by
  cases task with
  | spill startedAt todo written => exact resumeSpill_simulates hs hclean hp
  | load read todo loaded => exact resumeLoad_simulates hs hloaded hp
  | unlink read todo removed => exact resumeUnlink_simulates hs hloaded hp
  | remove todo => exact resumeRemove_simulates hs hp

end Resume

section Runs

/-- A step is a sequence of changes. -/
theorem act_simulates {s : System} (hs : s.Clean env) {a : Action} (hp : Permits env G s a) :
    ReflTransGen (Change G) (s.view env) ((s.act env a).view env) ∧ (s.act env a).Clean env := by
  cases a with
  | write t => exact startWrite_simulates hs t
  | readReadyGroups maxGroups => exact startRead_simulates hs hp
  | checkGroupTimeouts => exact checkGroupTimeouts_simulates hs
  | deleteInstance id => exact startDelete_simulates hs id
  | reset => exact startReset_simulates hs
  | updateConfig config => exact ⟨.refl, hs.keep hs.shard rfl fun _ h => h⟩
  | resume i =>
    rw [act]
    cases htask : s.tasks[i]? with
    | none => exact ⟨.refl, hs⟩
    | some task =>
      have herased : ({ s with tasks := s.tasks.eraseIdx i } : System).Clean env :=
        hs.keep hs.shard rfl fun _ h => List.mem_of_mem_eraseIdx h
      rw [← put_eraseIdx_view htask]
      have hmem := List.mem_of_getElem? htask
      refine resumeTask_simulates herased (hs.tasks task hmem) (hs.readable task hmem) ?_
      rw [put_eraseIdx_view htask]
      exact hp task htask

theorem step_simulates {s : System} (hs : s.Clean env) {a : Action}
    (hp : s.crashed = false → Permits env G s a) :
    ReflTransGen (Change G) (s.view env) ((s.step env a).2.view env) ∧
      (s.step env a).2.Clean env := by
  rw [step]
  cases hc : s.crashed with
  | true => exact ⟨.refl, hs⟩
  | false => exact act_simulates hs (hp hc)

theorem changes_keep {Φ : View → Prop} (kept : ∀ v v', Change G v v' → Φ v → Φ v') {v v' : View}
    (hsteps : ReflTransGen (Change G) v v') (h : Φ v) : Φ v' := by
  induction hsteps with
  | refl => exact h
  | tail _ hchange ih => exact kept _ _ hchange ih

theorem step_keeps {Φ : View → Prop} (kept : ∀ v v', Change G v v' → Φ v → Φ v') {s : System}
    (hs : s.Clean env) {a : Action} (hp : s.crashed = false → Permits env G s a)
    (h : Φ (s.view env)) : Φ ((s.step env a).2.view env) :=
  changes_keep kept (step_simulates hs hp).1 h

theorem permits_commit {P : View → ℕ → String → Prop} {s : System} {a : Action}
    (h : ∀ commit ∈ s.committing a, ∀ w ∈ commit.2, w.1.1 ∈ s.shard.groups.keys →
      P (s.view env) commit.1 w.1.1) (hc : s.crashed = false) :
    Permits env { Guard.none with commit := P } s a := by
  cases a with
  | resume i =>
    intro task htask
    unfold PermitsResume
    split
    · exact h _ (committing_eq_some.mpr ⟨hc, i, rfl, htask⟩)
    all_goals simp [Guard.none]
  | _ => trivial

/-- An invariant of all permitted changes holds along every run whose steps the guard
permits, and at its end. -/
theorem along_keeps_from {Φ : View → Prop} (kept : ∀ v v', Change G v v' → Φ v → Φ v')
    {Q : System → Action → Prop}
    (permits : ∀ s a, s.Clean env → Φ (s.view env) → Q s a → s.crashed = false → Permits env G s a)
    {s : System} (clean : s.Clean env) (start : Φ (s.view env)) {actions : List Action}
    (h : Machine.Along (step env) Q s actions) :
    Machine.Along (step env) (fun s a => s.Clean env ∧ Φ (s.view env) ∧ Q s a) s actions ∧
      (s.run env actions).Clean env ∧ Φ ((s.run env actions).view env) := by
  have hone : ∀ (s : System) (a : Action), s.Clean env ∧ Φ (s.view env) → Q s a →
      (s.Clean env ∧ Φ (s.view env) ∧ Q s a) ∧
        (s.step env a).2.Clean env ∧ Φ ((s.step env a).2.view env) := by
    rintro s a ⟨hs, hΦ⟩ hQ
    have hp := permits s a hs hΦ hQ
    exact ⟨⟨hs, hΦ, hQ⟩, (step_simulates hs hp).2, step_keeps kept hs hp hΦ⟩
  exact Machine.along_of_inv (fun s : System => s.Clean env ∧ Φ (s.view env)) hone actions
    ⟨clean, start⟩ h

theorem along_keeps {Φ : View → Prop} (kept : ∀ v v', Change G v v' → Φ v → Φ v')
    {Q : System → Action → Prop}
    (permits : ∀ s a, s.Clean env → Φ (s.view env) → Q s a → s.crashed = false → Permits env G s a)
    {config : TransferQueueConfig} {bitCount numHashes : ℕ}
    (start : Φ ((create config bitCount numHashes).view env)) {actions : List Action}
    (h : Machine.Along (step env) Q (create config bitCount numHashes) actions) :
    Machine.Along (step env) (fun s a => s.Clean env ∧ Φ (s.view env) ∧ Q s a)
        (create config bitCount numHashes) actions ∧
      Φ (((create config bitCount numHashes).run env actions).view env) := by
  obtain ⟨halong, -, hfinal⟩ :=
    along_keeps_from kept permits (.create config bitCount numHashes) start h
  exact ⟨halong, hfinal⟩

end Runs

end System
end TransferQueue
