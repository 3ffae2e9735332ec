import TransferQueue.DiskBooks
import TransferQueue.Ownership

/-! The account of the disk under interleaving. A suspended read has taken the files it
is exposed to; a suspended task has yet to commit or remove its loose files. As long as
tasks that fail leave nothing behind and nobody touches the entries whose files a read
has taken, the books are kept, and an idle shard has them in order. -/

namespace TransferQueue
open Multiset UnorderedMap

variable {env : Env} {G : Guard} {v v' : View} {id : String} {offset : ℕ}

section Claims

/-- Only a read that has taken the instance is exposed to the file of its entry. -/
structure Claimed (v : View) : Prop where
  owned : Owned v
  reader : ∀ id offset task, v.look id = some (.disk offset) → task ∈ v.tasks →
    offset ∈ task.exposed → ∃ read, task.read? = some read ∧ id ∈ read.ids

namespace Claimed

theorem create (config : TransferQueueConfig) (bitCount numHashes : ℕ) (env : Env) :
    Claimed ((System.create config bitCount numHashes).view env) where
  owned := .create config bitCount numHashes env
  reader _ _ _ h := nomatch h

theorem change (h : Change G v v') (hv : Claimed v) : Claimed v' := by
  refine ⟨hv.owned.change h, fun id offset task hslot hmem hoff => ?_⟩
  rcases h.pointed hslot with hbefore | hdraft
  · cases h.taskEffect hmem with
    | same mem => exact hv.reader id offset task hbefore mem hoff
    | copy => cases hoff
    | write => cases hoff
    | @take taken look =>
      rw [Task.exposed, List.map_nil, List.append_nil] at hoff
      obtain ⟨p, hp, hdisk⟩ := Slot.mem_offsets.mp hoff
      obtain rfl := hv.owned.slot_inj id p.1 offset hbefore (hdisk ▸ look p hp)
      exact ⟨_, rfl, List.mem_map_of_mem hp⟩
    | load mem =>
      have hreader := hv.reader id offset _ hbefore mem
      exact hreader (by grind [Task.exposed])
    | merge mem =>
      have hreader := hv.reader id offset _ hbefore mem
      exact hreader (by grind [Task.exposed])
    | unlink mem =>
      have hreader := hv.reader id offset _ hbefore mem
      exact hreader (by grind [Task.exposed])
    | discard look =>
      obtain ⟨id', hlook, hgone⟩ := look offset hoff
      obtain rfl := hv.owned.slot_inj id id' offset hbefore hlook
      cases hgone.symm.trans hslot
    | remove mem =>
      have hreader := hv.reader id offset _ hbefore mem
      exact hreader (List.mem_cons_of_mem _ hoff)
  · -- a draft is hidden from everybody
    rcases h.exposes ⟨task, hmem, hoff⟩ with hexposed | ⟨id', hlook, -⟩
    · exact absurd hexposed (hv.owned.draft_hidden offset hdraft)
    · exact absurd hlook (hv.owned.draft_slot offset hdraft id')

end Claimed

end Claims

namespace Task

/-- The files that a suspended read has taken. -/
def taken (task : Task) : List ℕ := if task.read?.isSome then task.exposed else []

/-- The files that a task has yet to commit or remove. -/
def loose : Task → List ℕ
  | spill _ _ written => written.map Prod.snd
  | load _ todo loaded => todo ++ loaded.map Prod.fst
  | unlink _ todo _ => todo.map Prod.fst
  | remove todo => todo

def Fails (env : Env) (d : DiskStorage) : Task → Bool
  | load _ (offset :: _) _ => !(d.load env offset).1.isOk
  | unlink _ ((offset, _) :: _) _ => !(d.remove env offset).1.isOk
  | _ => false

end Task

namespace System

/-- A task may end: no entry on disk points to a file it has taken, and the files it
leaves will be dealt with by others. -/
def Dispensable (s : System) (task : Task) : Prop :=
  (∀ p ∈ s.shard.groups.entries, p.2.isOnDisk = true → p.2.diskOffset ∉ task.taken) ∧
    ∀ offset ∈ task.loose, offset ∈ s.shard.diskStorage.names →
      offset ∈ s.tasks.flatMap Task.loose

/-- What is asked of resuming a task: a spill commits only groups like those it has
copied, a read erases no entry on disk but those it has loaded, and a task fails only if
it may end, a spill without leaving a file of its own; a removal ends with its first file,
so what is left of it may end. -/
def TidyResume (env : Env) (s : System) : Task → Prop
  | .spill _ [] written => ∀ w ∈ written, s.shard.HoldsLike env w.1.1 w.1.2
  | .spill startedAt (copy :: todo) written =>
    (s.shard.diskStorage.spill env copy.2).1.isOk = false →
      env.leftover s.shard.diskStorage.calls = .nothing ∧
        s.Dispensable (.spill startedAt (copy :: todo) written)
  | .unlink read [] removed => ∀ p ∈ s.shard.groups.entries, p.1 ∈ read.ids →
      p.2.isOnDisk = true → p.2.diskOffset ∈ removed.map Prod.fst
  | .remove (offset :: todo) =>
    s.Dispensable (.remove
      (if (s.shard.diskStorage.remove env offset).1.isOk then todo else offset :: todo))
  | task => task.Fails env s.shard.diskStorage = true → s.Dispensable task

/-- What is asked of a step; scans and deletions leave alone the entries on disk whose
files a suspended read has taken. -/
def Tidy (env : Env) (s : System) : Action → Prop
  | .readReadyGroups maxGroups => ∀ p ∈ s.shard.selected maxGroups, p.2.isOnDisk = true →
      p.2.diskOffset ∉ s.tasks.flatMap Task.taken
  | .deleteInstance id => ∀ e ∈ s.shard.groups.get? id, e.isOnDisk = true →
      e.diskOffset ∉ s.tasks.flatMap Task.taken
  | .resume i => ∀ task ∈ s.tasks[i]?, { s with tasks := s.tasks.eraseIdx i }.TidyResume env task
  | _ => True

instance (s : System) (task : Task) : Decidable (s.Dispensable task) :=
  inferInstanceAs (Decidable (_ ∧ _))

instance (s : System) (task : Task) : Decidable (s.TidyResume env task) := by
  unfold TidyResume
  split <;> infer_instance

instance (s : System) (a : Action) : Decidable (s.Tidy env a) := by
  unfold Tidy
  split <;> infer_instance

def Booked (env : Env) (s : System) : Prop :=
  s.shard.Booked env (s.tasks.flatMap Task.taken) (s.tasks.flatMap Task.loose)

section Starts
variable {s : System}

theorem Booked.create (env : Env) (config : TransferQueueConfig) (bitCount numHashes : ℕ) :
    (System.create config bitCount numHashes).Booked env :=
  BufferShard.Booked.create env config bitCount numHashes

theorem booked_spawn {task : Task}
    (h : s.shard.Booked env (task.taken ++ s.tasks.flatMap Task.taken)
      (task.loose ++ s.tasks.flatMap Task.loose)) : (s.spawn task).Booked env := by
  have hmem : ∀ f : Task → List ℕ, ∀ offset, offset ∈ (s.spawn task).tasks.flatMap f ↔
      offset ∈ f task ++ s.tasks.flatMap f := by
    intro f offset
    simp [spawn, or_comm]
  exact h.mono (fun _ _ _ _ => hmem _ _) fun offset hin _ => (hmem _ offset).mpr hin

theorem Booked.startWrite (h : s.Booked env) (t : Trajectory) :
    (s.startWrite env t).Booked env := by
  have hshard := BufferShard.Booked.writeStart h t
  rw [System.startWrite]
  rcases hw : s.shard.writeStart env t with ⟨start, shard⟩
  rw [hw] at hshard
  cases start with
  | duplicate => exact hshard
  | onDisk => exact hshard
  | appended =>
    simp only
    cases shard.spillSelection env with
    | none => exact hshard
    | some selection => exact booked_spawn hshard

theorem Clean.exclusive (hs : s.Clean env) (hv : Owned (s.view env)) : s.shard.Exclusive := by
  have hdisk : ∀ id e, (id, e) ∈ s.shard.groups.entries → 0 < e.diskOffset →
      s.shard.look id = some (.disk e.diskOffset) := by
    intro id e hmem hpos
    refine BufferShard.look_of_onDisk hmem (GroupEntry.isOnDisk_iff.mpr ⟨hpos, ?_⟩)
    by_contra hne
    exact hpos.ne' (hs.shard id e hmem hne)
  intro id e id' e' hmem hmem' hpos heq
  exact hv.slot_inj id id' e.diskOffset (hdisk id e hmem hpos)
    (heq ▸ hdisk id' e' hmem' (heq ▸ hpos))

theorem Booked.startRead (h : s.Booked env) (hs : s.Clean env) (hv : Owned (s.view env))
    {maxGroups : Int32} (htidy : s.Tidy env (.readReadyGroups maxGroups)) :
    (s.startRead maxGroups).Booked env := by
  rw [System.startRead, BufferShard.readScan_eq]
  by_cases hread : ∀ p ∈ s.shard.selected maxGroups, p.2.Readable
  · have hscan := BufferShard.Booked.afterScan h hs.shard (hs.exclusive hv) htidy
    have hoffsets : (s.shard.scanOf maxGroups).offsetsToLoad =
        BufferShard.filesOf (s.shard.selected maxGroups) := rfl
    have hids : (s.shard.scanOf maxGroups).idsToRemove =
        (s.shard.selected maxGroups).map Prod.fst := rfl
    simp only [if_pos hread, hoffsets, hids]
    split
    · -- without files no entry on disk is erased
      rename_i hnone
      have hmemory : ∀ p ∈ (s.shard.afterScan maxGroups).groups.entries,
          p.1 ∈ (s.shard.selected maxGroups).map Prod.fst → p.2.isOnDisk = true →
            p.2.diskOffset ∈ s.tasks.flatMap Task.taken := by
        intro p hp hid hon
        have hmem := (BufferShard.Booked.mem_afterScan_onDisk hs.shard maxGroups hon).mp hp
        obtain ⟨q, hq, heq⟩ := List.mem_map.mp hid
        have hmem' : (p.1, q.2) ∈ s.shard.groups.entries :=
          heq ▸ (BufferShard.mem_of_selected hq).1
        have hvalue := value_unique hmem' hmem
        have hfile : p.2.diskOffset ∈ BufferShard.filesOf (s.shard.selected maxGroups) :=
          BufferShard.mem_filesOf.mpr ⟨q.1, q.2, hq, hvalue ▸ hon, by rw [hvalue]⟩
        rw [hnone] at hfile
        cases hfile
      rw [hnone] at hscan
      exact BufferShard.Booked.eraseIds hscan hmemory
    · exact booked_spawn (by simpa [Task.taken, Task.loose, Task.read?, Task.exposed] using hscan)
  · rw [if_neg hread]
    exact h

theorem Booked.startDelete (h : s.Booked env) {id : String}
    (htidy : s.Tidy env (.deleteInstance id)) : (s.startDelete id).Booked env := by
  have hshard := BufferShard.Booked.deleteEntry h id htidy
  rw [System.startDelete]
  rcases hd : s.shard.deleteEntry id with ⟨file, shard⟩
  rw [hd] at hshard
  cases file with
  | none => exact hshard
  | some offset => exact booked_spawn hshard

theorem Booked.startReset (h : s.Booked env) (hi : s.shard.diskStorage.initialized = true) :
    s.startReset.Booked env := by
  have hshard := BufferShard.Booked.clearAll h
  rw [System.startReset]
  by_cases hnone : s.shard.diskOffsets = []
  · rw [if_pos (.inl hnone)]
    rwa [hnone] at hshard
  · rw [if_neg (not_or.mpr ⟨hnone, (Bool.not_eq_false _).mpr hi⟩)]
    exact booked_spawn hshard

end Starts

section Resume
variable {s : System} {task : Task}

theorem mem_put {f : Task → List ℕ} :
    offset ∈ (s.put task).tasks.flatMap f ↔ offset ∈ f task ∨ offset ∈ s.tasks.flatMap f := by
  rw [put, List.flatMap_cons, List.mem_append]

theorem mem_put_view : task ∈ ((s.put task).view env).tasks := mem_coe.mpr (List.mem_cons_self ..)

theorem Booked.drop (h : (s.put task).Booked env)
    (hend : s.Dispensable task) {d : DiskStorage} (hfiles : d.files = s.shard.diskStorage.files) :
    (s.setDisk d).Booked env := by
  obtain ⟨htaken, hloose⟩ := hend
  have hsame : s.Booked env := by
    refine BufferShard.Booked.mono h (fun id e hmem hon => ?_) fun offset hin hfile => ?_
    · exact (mem_put.trans (or_iff_right (htaken (id, e) hmem hon))).symm
    · exact (mem_put.mp hin).elim (hloose offset · hfile) id
  exact hsame.keep rfl rfl hfiles fun _ hin _ => hin

theorem Booked.put_of_spawn (h : (s.spawn task).Booked env) : (s.put task).Booked env := by
  have hperm : (s.spawn task).tasks.Perm (s.put task).tasks :=
    List.perm_append_singleton task s.tasks
  exact h.mono (fun _ _ _ _ => (hperm.flatMap_right _).mem_iff.symm)
    fun _ hin _ => (hperm.flatMap_right _).mem_iff.mp hin

theorem Booked.advance (h : (s.put task).Booked env) {task' : Task} {shard : BufferShard}
    (hgroups : shard.groups = s.shard.groups)
    (husage : shard.diskUsageBytes = s.shard.diskUsageBytes)
    (hfiles : shard.diskStorage.files = s.shard.diskStorage.files)
    (htaken : ∀ offset, offset ∈ task'.taken ↔ offset ∈ task.taken)
    (hloose : ∀ offset ∈ task.loose, offset ∈ task'.loose) :
    (({ s with shard } : System).spawn task').Booked env := by
  refine booked_spawn (BufferShard.Booked.keep h (BufferShard.openEntries_congr fun id e _ => ?_)
    husage hfiles fun offset hin _ => ?_)
  · rw [mem_put, List.mem_append, htaken, hgroups]
    rfl
  · exact List.mem_append.mpr ((mem_put.mp hin).imp_left (hloose offset))

theorem Booked.unlink (h : (s.put task).Booked env) (hv : Claimed ((s.put task).view env))
    {task' : Task} {d : DiskStorage} (hexposed : offset ∈ task.exposed)
    (hfiles : d.files = s.shard.diskStorage.files.filter fun f => f.1 ≠ offset)
    (htaken : ∀ offset, offset ∈ task'.taken ↔ offset ∈ task.taken)
    (hloose : ∀ o ∈ task.loose, o = offset ∨ o ∈ task'.loose) :
    ((s.setDisk d).spawn task').Booked env := by
  -- an entry whose file a task is exposed to is closed
  have hfree : ∀ p ∈ (s.put task).shard.openEntries ((s.put task).tasks.flatMap Task.taken),
      p.2.diskOffset ≠ offset := by
    rintro p hp rfl
    obtain ⟨hmem, hon, hnot⟩ := BufferShard.mem_openEntries.mp hp
    have hslot := BufferShard.look_of_onDisk hmem hon
    obtain ⟨read, hread, -⟩ := hv.reader p.1 p.2.diskOffset task hslot mem_put_view hexposed
    exact hnot (mem_put.mpr (.inl (by simpa [Task.taken, hread] using hexposed)))
  have hremoved : (s.setDisk d).shard.Booked env ((s.put task).tasks.flatMap Task.taken)
      (task'.loose ++ s.tasks.flatMap Task.loose) := by
    refine BufferShard.Booked.removed h hfree hfiles fun o hin => ?_
    rw [List.mem_append, ← or_assoc]
    exact (mem_put.mp hin).imp_left (hloose o)
  refine booked_spawn (hremoved.mono (fun id e _ _ => ?_) fun _ hin _ => hin)
  rw [mem_put, List.mem_append, htaken]
  rfl

theorem Booked.spilled {startedAt : ℕ} {copy : String × TrajectoryGroup}
    {todo : List (String × TrajectoryGroup)} {written : List ((String × TrajectoryGroup) × ℕ)}
    (h : (s.put (.spill startedAt (copy :: todo) written)).Booked env)
    (hnamed : s.shard.diskStorage.Named env) {d : DiskStorage}
    (hfiles : d.files =
      (env.spillId s.shard.diskStorage.spills, some copy.2) :: s.shard.diskStorage.files) :
    ((s.setDisk d).spawn (.spill startedAt todo
      (written ++ [(copy, env.spillId s.shard.diskStorage.spills)]))).Booked env := by
  have hnew : env.spillId s.shard.diskStorage.spills ∉ s.shard.diskStorage.names := by
    intro hin
    obtain ⟨f, hf, heq⟩ := List.mem_map.mp hin
    exact (hnamed f hf).ne heq
  refine booked_spawn ((BufferShard.Booked.spilled h hnew hfiles).mono
    (fun _ _ _ _ => by simp [put, setDisk, Task.taken, Task.read?]) fun offset hin _ => ?_)
  rw [List.mem_cons, mem_put] at hin
  simp only [Task.loose, List.map_append, List.map_singleton, List.mem_append,
    List.mem_singleton] at hin ⊢
  tauto

theorem Booked.commit {startedAt : ℕ} {written : List ((String × TrajectoryGroup) × ℕ)}
    (h : (s.put (.spill startedAt [] written)).Booked env)
    (hv : Owned ((s.put (.spill startedAt [] written)).view env))
    (hclean : (Task.spill startedAt [] written).Clean)
    (hheld : ∀ w ∈ written, s.shard.HoldsLike env w.1.1 w.1.2) :
    (s.resumeTask env (.spill startedAt [] written)).Booked env := by
  obtain ⟨hpos, hnodup⟩ := hclean
  rw [List.map_nil, List.append_nil] at hnodup
  have hfree : ∀ w ∈ written, w.2 ∉ s.tasks.flatMap Task.taken := by
    intro w hw hin
    obtain ⟨task, htask, hoff⟩ := List.mem_flatMap.mp hin
    refine hv.draft_hidden w.2 (mem_draftsOf_spill mem_put_view hw)
      ⟨task, mem_coe.mpr (List.mem_cons_of_mem _ htask), ?_⟩
    rw [Task.taken] at hoff
    split at hoff
    · exact hoff
    · cases hoff
  rw [resumeTask, commitSpill_eq]
  exact BufferShard.Booked.commits h hnodup hheld (hv.draft_file _ _ _ mem_put_view) hpos hfree

theorem Booked.finish {read : PendingRead} {removed : List (ℕ × TrajectoryGroup)}
    (h : (s.put (.unlink read [] removed)).Booked env)
    (hv : Claimed ((s.put (.unlink read [] removed)).view env))
    (hclosed : ∀ p ∈ s.shard.groups.entries, p.1 ∈ read.ids → p.2.isOnDisk = true →
      p.2.diskOffset ∈ removed.map Prod.fst) :
    (s.finishRead read (removed.map Prod.snd)).Booked env := by
  have herased : (s.shard.eraseIds read.ids).Booked env
      ((s.put (.unlink read [] removed)).tasks.flatMap Task.taken)
      ((s.put (.unlink read [] removed)).tasks.flatMap Task.loose) :=
    BufferShard.Booked.eraseIds h fun p hp hid hon =>
      List.mem_append_left _ (hclosed p hp hid hon)
  refine herased.mono (fun id e hmem hon => ?_) fun offset hin _ => hin
  -- an entry left behind is not one whose file the read has taken
  obtain ⟨hold, hid⟩ := (mem_eraseAll _).mp hmem
  refine (mem_put.trans (or_iff_right fun htaken => hid ?_)).symm
  have hslot := BufferShard.look_of_onDisk hold hon
  obtain ⟨read', hread, hin⟩ := hv.reader id e.diskOffset (.unlink read [] removed) hslot
    mem_put_view htaken
  cases hread
  exact hin

theorem Booked.resumeTask (h : (s.put task).Booked env) (hs : s.Clean env)
    (hv : Claimed ((s.put task).view env)) (hclean : task.Clean)
    (htidy : s.TidyResume env task) : (s.resumeTask env task).Booked env := by
  have herror : ∀ {ε α : Type} {e : ε}, (!(Except.error e : Except ε α).isOk) = true := rfl
  cases task with
  | spill startedAt todo written =>
    cases todo with
    | nil => exact h.commit hv.owned hclean htidy
    | cons copy todo =>
      obtain ⟨id, group⟩ := copy
      obtain ⟨d', -, -, ⟨hspill, hfiles⟩ | ⟨hspill, hfiles⟩⟩ :=
        DiskStorage.spill_cases env hs.initialized group
      · simp only [System.resumeTask, hspill]
        obtain ⟨hnothing, hend⟩ := htidy (by rw [hspill]; rfl)
        rw [hnothing] at hfiles
        exact h.drop hend hfiles
      · simp only [System.resumeTask, hspill]
        exact h.spilled hs.named hfiles
  | load read todo loaded =>
    cases todo with
    | nil =>
      rw [System.resumeTask]
      exact h.advance rfl rfl rfl (by simp [Task.taken, Task.read?, Task.exposed])
        (by simp [Task.loose])
    | cons offset todo =>
      obtain ⟨d', -, -, -, hfiles, ⟨e, hload, -⟩ | ⟨group, hload, -⟩⟩ :=
        DiskStorage.load_cases env hs.initialized offset
      · simp only [System.resumeTask, hload]
        exact h.drop (htidy (by rw [Task.Fails, hload, herror])) hfiles
      · simp only [System.resumeTask, hload]
        exact h.advance rfl rfl hfiles (by grind [Task.taken, Task.read?, Task.exposed])
          (by grind [Task.loose])
  | unlink read todo removed =>
    cases todo with
    | nil => exact h.finish hv htidy
    | cons next todo =>
      obtain ⟨offset, group⟩ := next
      obtain ⟨d', -, -, -, ⟨e, hremove, -, hfiles⟩ | ⟨hremove, -, hfiles⟩⟩ :=
        DiskStorage.remove_cases env hs.initialized offset
      · simp only [System.resumeTask, hremove]
        exact h.drop (htidy (by rw [Task.Fails, hremove, herror])) hfiles
      · simp only [System.resumeTask, hremove]
        exact h.unlink hv (List.mem_cons_self ..) hfiles
          (by grind [Task.taken, Task.read?, Task.exposed]) (by grind [Task.loose])
  | remove todo =>
    cases todo with
    | nil => exact h
    | cons offset todo =>
      obtain ⟨d', -, -, -, ⟨e, hremove, -, hfiles⟩ | ⟨hremove, -, hfiles⟩⟩ :=
        DiskStorage.remove_cases env hs.initialized offset
      · rw [TidyResume, hremove] at htidy
        simp only [System.resumeTask, hremove]
        exact h.drop htidy hfiles
      · rw [TidyResume, hremove] at htidy
        simp only [System.resumeTask, hremove]
        have hrest : ((s.setDisk d').spawn (.remove todo)).Booked env :=
          h.unlink hv (List.mem_cons_self ..) hfiles (by simp [Task.taken, Task.read?])
            (by grind [Task.loose])
        by_cases hlast : todo = []
        · rw [if_pos hlast]
          rwa [hlast] at hrest
        · -- the vector is gone, and with it the names of the other files
          rw [if_neg hlast]
          refine hrest.put_of_spawn.drop ⟨htidy.1, fun o ho hname => ?_⟩ rfl
          refine htidy.2 o ho ?_
          obtain ⟨f, hf, rfl⟩ := List.mem_map.mp hname
          exact List.mem_map_of_mem (List.mem_of_mem_filter (hfiles ▸ hf))

end Resume

section Runs

theorem Booked.act {s : System} (h : s.Booked env) (hs : s.Clean env) (hv : Claimed (s.view env))
    {a : Action} (htidy : s.Tidy env a) : (s.act env a).Booked env := by
  cases a with
  | write t => exact h.startWrite t
  | readReadyGroups maxGroups => exact h.startRead hs hv.owned htidy
  | checkGroupTimeouts => exact BufferShard.Booked.expire h
  | deleteInstance id => exact h.startDelete htidy
  | reset => exact h.startReset hs.initialized
  | updateConfig config => exact h.of_onDisk (fun _ _ _ => Iff.rfl) rfl rfl
  | resume i =>
    rw [System.act]
    cases htask : s.tasks[i]? with
    | none => exact h
    | some task =>
      let rest : System := { s with tasks := s.tasks.eraseIdx i }
      have hperm := put_eraseIdx_perm htask
      have hput : (rest.put task).Booked env :=
        h.mono (fun _ _ _ _ => (hperm.flatMap_right _).mem_iff)
          fun _ hin _ => (hperm.flatMap_right _).mem_iff.mpr hin
      have hrest : rest.Clean env := hs.keep hs.shard rfl fun _ h => List.mem_of_mem_eraseIdx h
      exact hput.resumeTask hrest (put_eraseIdx_view htask ▸ hv)
        (hs.tasks task (List.mem_of_getElem? htask)) (htidy task htask)

end Runs

end System
end TransferQueue
