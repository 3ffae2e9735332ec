import TransferQueue.Effects
import TransferQueue.ProtocolSimulation
import TransferQueue.Server

/-! A new process over the directories of an old one. `init` takes a directory as it is, and
nothing looks into it: the new process works beside the files that it finds, which it neither
reads nor removes. -/

namespace TransferQueue

namespace DiskStorage

/-- `init` of a new process over a directory that is already there. -/
def reopen (d : DiskStorage) : DiskStorage := { fresh with files := d.files }

theorem load_spills (env : Env) (offset : ℕ) (d : DiskStorage) :
    (d.load env offset).2.spills = d.spills := by
  rw [load]
  cases d.initialized <;> cases env.fault d.calls <;> cases d.find offset <;> rfl

theorem remove_spills (env : Env) (offset : ℕ) (d : DiskStorage) :
    (d.remove env offset).2.spills = d.spills := by
  rw [remove]
  cases d.initialized <;> cases env.fault d.calls <;> cases d.has offset <;> rfl

/-- What is under a name: no file, a file that holds no whole group, or a group. -/
def under (d : DiskStorage) (offset : ℕ) : Option (Option TrajectoryGroup) :=
  (d.files.find? fun f => f.1 = offset).map Prod.snd

section Under
variable {d d' : DiskStorage} {offset id : ℕ}

theorem find_of_under (h : d'.under offset = d.under offset) : d'.find offset = d.find offset := by
  have hfind : ∀ d : DiskStorage, d.find offset = (d.under offset).bind id := fun d => by
    rw [find, under]
    cases d.files.find? fun f => f.1 = offset <;> rfl
  rw [hfind, hfind, h]

theorem has_of_under (h : d'.under offset = d.under offset) : d'.has offset = d.has offset := by
  have hhas : ∀ d : DiskStorage, d.has offset = (d.under offset).isSome := fun d => by
    rw [has, under, Option.isSome_map, Bool.eq_iff_iff, List.find?_isSome, List.any_eq_true]
  rw [hhas, hhas, h]

theorem under_write {content : Option TrajectoryGroup} (h : d'.files = (id, content) :: d.files) :
    d'.under offset = if offset = id then some content else d.under offset := by
  rw [under, h, List.find?_cons]
  by_cases hid : id = offset
  · simp [hid]
  · simp [hid, Ne.symm hid, under]

theorem under_delete (h : d'.files = d.files.filter fun f => f.1 ≠ id) :
    d'.under offset = if offset = id then none else d.under offset := by
  rw [under, h, List.find?_filter]
  by_cases hid : offset = id
  · subst hid
    rw [if_pos rfl, List.find?_eq_none.mpr (by simp), Option.map_none]
  · rw [if_neg hid, under]
    congr 2
    funext f
    by_cases hf : f.1 = offset <;> simp [hf, hid]

theorem under_leftover {left : Leftover} {group : TrajectoryGroup}
    (h : d'.files = left.files id group ++ d.files) (hne : offset ≠ id) :
    d'.under offset = d.under offset := by
  cases left with
  | nothing => rw [under, h]; rfl
  | unreadable => rw [under_write h, if_neg hne]
  | whole => rw [under_write h, if_neg hne]

end Under

section Beside
variable (env : Env)

/-- A directory `d'` beside `d`: it has the known files of `d`, and the files that no spill has
written are as they were left. -/
structure Beside (left : ℕ → Option (Option TrajectoryGroup)) (known : ℕ → Prop)
    (d d' : DiskStorage) : Prop where
  initialized : d'.initialized = d.initialized
  spills : d'.spills = d.spills
  calls : d'.calls = d.calls
  same : ∀ offset, known offset → d'.under offset = d.under offset
  drawn : ∀ offset, known offset → ∃ n < d.spills, env.spillId n = offset
  kept : ∀ offset, (∀ n < d.spills, env.spillId n ≠ offset) → d'.under offset = left offset

variable {env} {left : ℕ → Option (Option TrajectoryGroup)} {known known' : ℕ → Prop}
  {d d' : DiskStorage}

theorem Beside.mono (h : d.Beside env left known d') (hk : ∀ offset, known' offset → known offset) :
    d.Beside env left known' d' :=
  { h with
    same := fun offset hknown => h.same offset (hk offset hknown)
    drawn := fun offset hknown => h.drawn offset (hk offset hknown) }

theorem Beside.call (h : d.Beside env left known d') :
    ({ d with calls := d.calls + 1 } : DiskStorage).Beside env left known
      { d' with calls := d'.calls + 1 } :=
  ⟨h.initialized, h.spills, congrArg (· + 1) h.calls, h.same, h.drawn, h.kept⟩

theorem Beside.load (h : d.Beside env left known d') {offset : ℕ} (hk : known offset) :
    (d'.load env offset).1 = (d.load env offset).1 ∧
      (d.load env offset).2.Beside env left known (d'.load env offset).2 := by
  have hunder := h.same offset hk
  rw [DiskStorage.load, DiskStorage.load, h.initialized, h.calls, find_of_under hunder,
    has_of_under hunder]
  have hcall := h.call
  rw [h.calls, h.initialized] at hcall
  cases hi : d.initialized with
  | false => exact ⟨rfl, h⟩
  | true =>
    rw [hi] at hcall
    cases env.fault d.calls with
    | true => exact ⟨rfl, hcall⟩
    | false => cases d.find offset <;> exact ⟨rfl, hcall⟩

theorem Beside.remove (h : d.Beside env left known d') {offset : ℕ} (hk : known offset) :
    (d'.remove env offset).1 = (d.remove env offset).1 ∧
      (d.remove env offset).2.Beside env left known (d'.remove env offset).2 := by
  rw [DiskStorage.remove, DiskStorage.remove, h.initialized, h.calls,
    has_of_under (h.same offset hk)]
  have hcall := h.call
  rw [h.calls, h.initialized] at hcall
  cases hi : d.initialized with
  | false => exact ⟨rfl, h⟩
  | true =>
    rw [hi] at hcall
    cases env.fault d.calls with
    | true => exact ⟨rfl, hcall⟩
    | false =>
      cases d.has offset with
      | false => exact ⟨rfl, hcall⟩
      | true =>
        refine ⟨rfl, hcall.initialized, hcall.spills, hcall.calls, fun o ho => ?_, hcall.drawn,
          fun o ho => ?_⟩
        · exact (under_delete rfl).trans
            ((congrArg (fun u => if o = offset then none else u) (h.same o ho)).trans
              (under_delete rfl).symm)
        · obtain ⟨n, hn, hdrawn⟩ := h.drawn offset hk
          refine (under_delete rfl).trans ?_
          rw [if_neg fun heq => ho n hn (hdrawn.trans heq.symm)]
          exact h.kept o ho

theorem Beside.spill (h : d.Beside env left known d') (group : TrajectoryGroup) :
    (d'.spill env group).1 = (d.spill env group).1 ∧
      (d.spill env group).2.Beside env left
        (fun offset => known offset ∨ (d.spill env group).1 = .ok offset)
        (d'.spill env group).2 := by
  have hdrawn : ∀ offset, known offset → ∃ n < d.spills + 1, env.spillId n = offset :=
    fun offset hk => (h.drawn offset hk).imp fun n hn => ⟨Nat.lt_succ_of_lt hn.1, hn.2⟩
  have hold : ∀ offset, known offset → offset ≠ env.spillId d.spills := fun offset hk => by
    obtain ⟨n, hn, rfl⟩ := h.drawn offset hk
    exact (env.spillId_strictMono hn).ne
  have hother : ∀ offset, (∀ n < d.spills + 1, env.spillId n ≠ offset) →
      offset ≠ env.spillId d.spills ∧ d'.under offset = left offset := fun offset hoffset =>
    ⟨(hoffset d.spills (Nat.lt_succ_self _)).symm,
      h.kept offset fun n hn => hoffset n (Nat.lt_succ_of_lt hn)⟩
  rw [DiskStorage.spill, DiskStorage.spill, h.initialized, h.calls, h.spills]
  cases hi : d.initialized with
  | false => exact ⟨rfl, h.mono fun offset hk => hk.resolve_right (by simp)⟩
  | true =>
    cases env.fault d.calls with
    | true =>
      refine ⟨rfl, rfl, rfl, rfl, fun o ho => ?_, fun o ho => ?_, fun o ho => ?_⟩
      · have hk := ho.resolve_right (by simp)
        exact (under_leftover rfl (hold o hk)).trans
          ((h.same o hk).trans (under_leftover rfl (hold o hk)).symm)
      · exact hdrawn o (ho.resolve_right (by simp))
      · exact (under_leftover rfl (hother o ho).1).trans (hother o ho).2
    | false =>
      refine ⟨rfl, rfl, rfl, rfl, fun o ho => ?_, fun o ho => ?_, fun o ho => ?_⟩
      · refine (under_write rfl).trans (.trans ?_ (under_write rfl).symm)
        rcases ho with hk | heq
        · rw [h.same o hk]
        · rw [if_pos (Except.ok.inj heq).symm, if_pos (Except.ok.inj heq).symm]
      · rcases ho with hk | heq
        · exact hdrawn o hk
        · exact ⟨d.spills, Nat.lt_succ_self _, Except.ok.inj heq⟩
      · refine (under_write rfl).trans ?_
        rw [if_neg (hother o ho).1]
        exact (hother o ho).2

end Beside

end DiskStorage

/-- Some entry or suspended operation has the name of the file. -/
def View.Mentions (v : View) (offset : ℕ) : Prop :=
  (∃ id, v.look id = some (.disk offset)) ∨ offset ∈ draftsOf v.tasks ∨ Exposes v.tasks offset

theorem Change.mentions {G : Guard} {v v' : View} (h : Change G v v') {offset : ℕ}
    (hm : v'.Mentions offset) : v.Mentions offset ∨ v.drawn < v'.drawn := by
  rcases hm with ⟨id, hslot⟩ | hdraft | hexposed
  · exact .inl ((h.pointed hslot).imp (fun hold => ⟨id, hold⟩) .inl)
  · exact (h.drafts hdraft).imp_left fun hold => .inr (.inl hold)
  · refine .inl ?_
    rcases h.exposes hexposed with hold | ⟨id, hslot, -⟩
    · exact .inr (.inr hold)
    · exact .inl ⟨id, hslot⟩

theorem mentions_of_changes {G : Guard} {v v' : View}
    (h : Relation.ReflTransGen (Change G) v v') (hdrawn : v'.drawn = v.drawn) {offset : ℕ}
    (hm : v'.Mentions offset) : v.Mentions offset := by
  suffices v.drawn ≤ v'.drawn ∧ (v'.Mentions offset → v.Mentions offset ∨ v.drawn < v'.drawn) from
    (this.2 hm).resolve_right (by omega)
  clear hdrawn hm
  induction h with
  | refl => exact ⟨le_rfl, .inl⟩
  | tail _ hlast ih =>
    have hle := hlast.drawn_le
    refine ⟨ih.1.trans hle, fun hm => ?_⟩
    rcases hlast.mentions hm with hbefore | hlt
    · exact (ih.2 hbefore).imp_right fun hlt => hlt.trans_le hle
    · exact .inr (ih.1.trans_lt hlt)

namespace BufferShard
variable (env : Env) (d : DiskStorage)

def withDisk (s : BufferShard) : BufferShard := { s with diskStorage := d }

theorem writeStart_withDisk (t : Trajectory) (s : BufferShard) :
    (s.withDisk d).writeStart env t =
      ((s.writeStart env t).1, (s.writeStart env t).2.withDisk d) := by
  have hdedup : (s.withDisk d).dedup env t.uid =
      ((s.dedup env t.uid).1, (s.dedup env t.uid).2.withDisk d) := by
    rw [dedup, dedup, withDisk]
    cases s.config.uidDedup <;> rfl
  have hadd : ∀ s : BufferShard, (s.withDisk d).addTrajectory env t =
      ((s.addTrajectory env t).1, (s.addTrajectory env t).2.withDisk d) := by
    intro s
    let entry := ((s.groups.insert env.place t.instanceId {}).get? t.instanceId).getD {}
    by_cases hd : entry.isOnDisk = true
    · simp only [addTrajectory, withDisk, entry, hd, if_true] at hd ⊢
    · simp only [addTrajectory, withDisk, entry, hd] at hd ⊢
      cases entry.groupPtr <;> rfl
  rw [writeStart, writeStart, hdedup]
  rcases s.dedup env t.uid with ⟨_ | _, s'⟩
  · rfl
  · exact hadd s'

theorem readScan_withDisk (maxGroups : Int32) (s : BufferShard) :
    (s.withDisk d).readScan maxGroups =
      (s.readScan maxGroups).map fun r => (r.1, r.2.withDisk d) := by
  rw [readScan, readScan, Option.map_map]
  rfl

theorem deleteEntry_withDisk (id : String) (s : BufferShard) :
    (s.withDisk d).deleteEntry id = ((s.deleteEntry id).1, (s.deleteEntry id).2.withDisk d) := by
  rw [deleteEntry, deleteEntry, withDisk]
  cases s.groups.get? id with
  | none => rfl
  | some entry =>
    simp only
    cases entry.isOnDisk <;> rfl

theorem commitEntry_withDisk (id : String) (offset : ℕ) (s : BufferShard) :
    (s.withDisk d).commitEntry env id offset = (s.commitEntry env id offset).withDisk d := by
  rw [commitEntry, commitEntry, withDisk]
  cases s.groups.get? id <;> rfl

theorem commitSpill_withDisk (keys : List String) (offsets : List ℕ) (s : BufferShard) :
    commitSpill env keys offsets (s.withDisk d) =
      ((commitSpill env keys offsets s).1, (commitSpill env keys offsets s).2.withDisk d) := by
  have hfold : ∀ (pairs : List (String × ℕ)) (s : BufferShard),
      pairs.foldl (fun s p => s.commitEntry env p.1 p.2) (s.withDisk d) =
        (pairs.foldl (fun s p => s.commitEntry env p.1 p.2) s).withDisk d := by
    intro pairs
    induction pairs with
    | nil => exact fun _ => rfl
    | cons p pairs ih =>
      intro s
      rw [List.foldl_cons, List.foldl_cons, commitEntry_withDisk, ih]
  rw [commitSpill, commitSpill]
  split
  · rfl
  · exact Prod.ext rfl (hfold _ s)

end BufferShard

namespace System
variable (env : Env) (d : DiskStorage)

theorem startWrite_setDisk (t : Trajectory) (s : System) :
    (s.setDisk d).startWrite env t = (s.startWrite env t).setDisk d ∧
      (s.setDisk d).writeAnswer env t = s.writeAnswer env t := by
  have hstart := s.shard.writeStart_withDisk env d t
  have hshard : (s.setDisk d).shard = s.shard.withDisk d := rfl
  rw [startWrite, startWrite, writeAnswer, writeAnswer, hshard, hstart]
  rcases s.shard.writeStart env t with ⟨_ | _ | _, shard⟩
  · exact ⟨rfl, rfl⟩
  · exact ⟨rfl, rfl⟩
  · have hselection : (shard.withDisk d).spillSelection env = shard.spillSelection env := rfl
    simp only [hselection, and_true]
    cases shard.spillSelection env <;> rfl

theorem batchWriteLoop_setDisk (written : ℕ) (ts : List Trajectory) (s : System) :
    batchWriteLoop env written ts (s.setDisk d) =
      ((batchWriteLoop env written ts s).1, (batchWriteLoop env written ts s).2.setDisk d) := by
  induction ts generalizing s written with
  | nil => rfl
  | cons t ts ih =>
    obtain ⟨hstart, hanswer⟩ := startWrite_setDisk env d t s
    rw [batchWriteLoop, batchWriteLoop, hanswer, hstart]
    rcases s.writeAnswer env t with _ | _ | _
    · rfl
    · exact ih written _
    · exact ih (written + 1) _

theorem start_setDisk (s : System) (hd : d.initialized = s.shard.diskStorage.initialized)
    (request : Request) :
    (s.setDisk d).start env request =
      ((s.start env request).1, (s.start env request).2.setDisk d) := by
  have hshard : (s.setDisk d).shard = s.shard.withDisk d := rfl
  cases request with
  | write t =>
    obtain ⟨hstart, hanswer⟩ := startWrite_setDisk env d t s
    rw [start, start, hanswer, hstart]
  | batchWrite ts =>
    rw [start, start, batchWriteLoop_setDisk]
  | readReadyGroups maxGroups =>
    rw [start, start, readAnswer, readAnswer, startRead, startRead, hshard,
      BufferShard.readScan_withDisk]
    rcases s.shard.readScan maxGroups with _ | ⟨scan, shard⟩
    · rfl
    · simp only [Option.map_some, Option.bind_some]
      by_cases hoffsets : scan.offsetsToLoad = []
      · simp only [hoffsets, if_true]
        rfl
      · simp only [hoffsets, if_false]
        rfl
  | deleteInstance id =>
    rw [start, start, startDelete, startDelete, hshard, BufferShard.deleteEntry_withDisk]
    rcases s.shard.deleteEntry id with ⟨_ | offset, shard⟩ <;> rfl
  | reset =>
    have hoffsets : (s.shard.withDisk d).diskOffsets = s.shard.diskOffsets := rfl
    have hinit : (s.shard.withDisk d).diskStorage.initialized =
        s.shard.diskStorage.initialized := hd
    rw [start, start, startReset, startReset, hshard, hoffsets, hinit]
    split <;> rfl
  | hasReadyGroups => rfl
  | getStatus => rfl

section Beside
variable {env} {left : ℕ → Option (Option TrajectoryGroup)} {d} {s : System}

/-- The shard has, at `d`, what it knows of its directory. -/
def Beside (env : Env) (left : ℕ → Option (Option TrajectoryGroup)) (s : System)
    (d : DiskStorage) : Prop :=
  s.shard.diskStorage.Beside env left (s.view env).Mentions d

theorem batchWriteLoop_changes (written : ℕ) (ts : List Trajectory) {s : System}
    (hs : s.Clean env) :
    Relation.ReflTransGen (Change Guard.none) (s.view env)
        ((batchWriteLoop env written ts s).2.view env) ∧
      (batchWriteLoop env written ts s).2.Clean env := by
  induction ts generalizing s written with
  | nil => exact ⟨.refl, hs⟩
  | cons t ts ih =>
    obtain ⟨hstart, hclean⟩ : Relation.ReflTransGen (Change Guard.none) (s.view env)
        ((s.startWrite env t).view env) ∧ (s.startWrite env t).Clean env :=
      startWrite_simulates hs t
    rw [batchWriteLoop]
    rcases s.writeAnswer env t with _ | _ | _
    · exact ⟨hstart, hclean.keep hclean.shard rfl fun _ hmem => hmem⟩
    · exact ⟨hstart.trans (ih written hclean).1, (ih written hclean).2⟩
    · exact ⟨hstart.trans (ih (written + 1) hclean).1, (ih (written + 1) hclean).2⟩

variable (env) in
theorem start_changes (hs : s.Clean env) (request : Request) :
    Relation.ReflTransGen (Change Guard.none) (s.view env)
        ((s.start env request).2.view env) ∧
      (s.start env request).2.Clean env := by
  cases request with
  | write t => exact startWrite_simulates hs t
  | batchWrite ts => exact batchWriteLoop_changes 0 ts hs
  | readReadyGroups maxGroups => exact startRead_simulates hs trivial
  | deleteInstance id => exact startDelete_simulates hs id
  | reset => exact startReset_simulates hs
  | hasReadyGroups => exact ⟨.refl, hs⟩
  | getStatus => exact ⟨.refl, hs⟩

theorem start_beside (hs : s.Clean env) (h : s.Beside env left d) (request : Request) :
    (s.start env request).2.Beside env left d := by
  have hdisk : (s.start env request).2.shard.diskStorage = s.shard.diskStorage := by
    have hself : s.setDisk s.shard.diskStorage = s := rfl
    have hstart := start_setDisk env s.shard.diskStorage s rfl request
    rw [hself] at hstart
    exact congrArg (fun r => r.2.shard.diskStorage) hstart
  rw [Beside, hdisk]
  refine h.mono fun offset hm => mentions_of_changes (start_changes env hs request).1 ?_ hm
  exact congrArg (fun d => env.spillId d.spills) hdisk

variable (env) in
theorem permits_none (shard : BufferShard) (v : View) (task : Task) :
    PermitsResume env .none shard v task := by
  unfold PermitsResume
  split <;> simp [Guard.none]

theorem mentions_put {task : Task} {offset : ℕ} (ho : offset ∈ task.exposed) :
    ((s.put task).view env).Mentions offset :=
  .inr (.inr ⟨task, Multiset.mem_coe.mpr List.mem_cons_self, ho⟩)

theorem Beside.of_changes {s s' : System}
    (hsteps : Relation.ReflTransGen (Change Guard.none) (s.view env) (s'.view env))
    (hspills : s'.shard.diskStorage.spills = s.shard.diskStorage.spills)
    (h : s'.shard.diskStorage.Beside env left (s.view env).Mentions d) : s'.Beside env left d :=
  h.mono fun _ hm => mentions_of_changes hsteps (congrArg env.spillId hspills) hm

/-- Over the other directory a resumption does the same. -/
def ResumesBeside (env : Env) (left : ℕ → Option (Option TrajectoryGroup)) (s : System)
    (d : DiskStorage) (task : Task) : Prop :=
  ∃ d', (s.setDisk d).resumeTask env task = (s.resumeTask env task).setDisk d' ∧
    (s.setDisk d).answer env task = s.answer env task ∧
    (s.resumeTask env task).Beside env left d'

/-- What a resumption does, as changes. -/
def ResumesByChanges (env : Env) (s : System) (task : Task) : Prop :=
  Relation.ReflTransGen (Change Guard.none) ((s.put task).view env)
    ((s.resumeTask env task).view env)

theorem commit_beside {startedAt : ℕ} {written : List ((String × TrajectoryGroup) × ℕ)}
    (hchanges : s.ResumesByChanges env (.spill startedAt [] written))
    (h : (s.put (.spill startedAt [] written)).Beside env left d) :
    s.ResumesBeside env left d (.spill startedAt [] written) := by
  have hshard : (s.setDisk d).shard = s.shard.withDisk d := rfl
  have hcommit := s.shard.commitSpill_withDisk env d (written.map fun w => w.1.1)
    (written.map Prod.snd)
  have hdisk : (BufferShard.commitSpill env (written.map fun w => w.1.1)
      (written.map Prod.snd) s.shard).2.diskStorage = s.shard.diskStorage := by
    have hself := s.shard.commitSpill_withDisk env s.shard.diskStorage
      (written.map fun w => w.1.1) (written.map Prod.snd)
    exact congrArg (fun r => r.2.diskStorage) hself
  refine ⟨d, ?_, ?_, .of_changes hchanges (congrArg DiskStorage.spills hdisk) ?_⟩
  · rw [resumeTask, resumeTask, hshard, hcommit]
    rfl
  · rw [answer, answer, hshard, hcommit]
  · rw [resumeTask, hdisk]
    exact h

theorem spill_beside {startedAt : ℕ} {copy : String × TrajectoryGroup}
    {todo : List (String × TrajectoryGroup)} {written : List ((String × TrajectoryGroup) × ℕ)}
    (h : (s.put (.spill startedAt (copy :: todo) written)).Beside env left d) :
    s.ResumesBeside env left d (.spill startedAt (copy :: todo) written) := by
  obtain ⟨hsame, hbeside⟩ := DiskStorage.Beside.spill h copy.2
  have hrest : ∀ {o : ℕ}, (s.view env).Mentions o →
      ((s.put (.spill startedAt (copy :: todo) written)).view env).Mentions o := fun hm =>
    hm.imp_right (.imp (fun hdraft => Multiset.mem_of_le (draftsOf_le_cons _ _) hdraft)
      fun ⟨task, hmem, ho⟩ => ⟨task, Multiset.mem_cons_of_mem hmem, ho⟩)
  have hshard : (s.setDisk d).shard = s.shard.withDisk d := rfl
  rw [ResumesBeside, resumeTask, resumeTask, answer, answer, hshard, BufferShard.withDisk]
  rcases hd' : d.spill env copy.2 with ⟨r', d'⟩
  rcases hd : s.shard.diskStorage.spill env copy.2 with ⟨e | offset, d₁⟩
  all_goals
    have hdisk : (s.put (.spill startedAt (copy :: todo) written)).shard.diskStorage.spill env
        copy.2 = _ := hd
    rw [hd', hdisk] at hsame hbeside
    simp only at hsame
    subst hsame
  · exact ⟨d', rfl, rfl, hbeside.mono fun o hm => .inl (hrest hm)⟩
  · refine ⟨d', rfl, rfl, hbeside.mono fun o hm => ?_⟩
    simp only [view_spawn] at hm
    rcases hm with hlook | hdraft | hexposed
    · exact .inl (.inl hlook)
    · rw [draftsOf_cons, Multiset.mem_add, Multiset.mem_coe, Task.drafts, List.map_append,
        List.mem_append] at hdraft
      rcases hdraft with (hold | hnew) | hother
      · obtain ⟨w, hw, rfl⟩ := List.mem_map.mp hold
        exact .inl (.inr (.inl (mem_draftsOf_spill (Multiset.mem_coe.mpr List.mem_cons_self) hw)))
      · exact .inr (congrArg Except.ok (List.mem_singleton.mp hnew).symm)
      · exact .inl (hrest (.inr (.inl hother)))
    · exact .inl (hrest (.inr (.inr ((exposes_cons.mp hexposed).resolve_left List.not_mem_nil))))

theorem load_beside {read : PendingRead} {offset : ℕ} {todo : List ℕ}
    {loaded : List (ℕ × TrajectoryGroup)}
    (hchanges : s.ResumesByChanges env (.load read (offset :: todo) loaded))
    (h : (s.put (.load read (offset :: todo) loaded)).Beside env left d) :
    s.ResumesBeside env left d (.load read (offset :: todo) loaded) := by
  obtain ⟨hsame, hbeside⟩ := DiskStorage.Beside.load h
    (mentions_put (by simp [Task.exposed]) : (View.Mentions _ offset))
  have hspills := s.shard.diskStorage.load_spills env offset
  have hshard : (s.setDisk d).shard = s.shard.withDisk d := rfl
  rw [ResumesByChanges, resumeTask] at hchanges
  rw [ResumesBeside, resumeTask, resumeTask, answer, answer, hshard, BufferShard.withDisk]
  rcases hd' : d.load env offset with ⟨r', d'⟩
  rcases hd : s.shard.diskStorage.load env offset with ⟨e | group, d₁⟩
  all_goals
    have hdisk : (s.put (.load read (offset :: todo) loaded)).shard.diskStorage.load env
        offset = _ := hd
    rw [hd] at hchanges hspills
    rw [hd', hdisk] at hsame hbeside
    simp only at hsame
    subst hsame
    exact ⟨d', rfl, rfl, .of_changes hchanges hspills hbeside⟩

theorem unlink_beside {read : PendingRead} {file : ℕ × TrajectoryGroup}
    {todo removed : List (ℕ × TrajectoryGroup)}
    (hchanges : s.ResumesByChanges env (.unlink read (file :: todo) removed))
    (h : (s.put (.unlink read (file :: todo) removed)).Beside env left d) :
    s.ResumesBeside env left d (.unlink read (file :: todo) removed) := by
  obtain ⟨hsame, hbeside⟩ := DiskStorage.Beside.remove h
    (mentions_put (by simp [Task.exposed]) : (View.Mentions _ file.1))
  have hspills := s.shard.diskStorage.remove_spills env file.1
  have hshard : (s.setDisk d).shard = s.shard.withDisk d := rfl
  rw [ResumesByChanges, resumeTask] at hchanges
  rw [ResumesBeside, resumeTask, resumeTask, answer, answer, hshard, BufferShard.withDisk]
  rcases hd' : d.remove env file.1 with ⟨r', d'⟩
  rcases hd : s.shard.diskStorage.remove env file.1 with ⟨e | _, d₁⟩
  all_goals
    have hdisk : (s.put (.unlink read (file :: todo) removed)).shard.diskStorage.remove env
        file.1 = _ := hd
    rw [hd] at hchanges hspills
    rw [hd', hdisk] at hsame hbeside
    simp only at hsame
    subst hsame
    exact ⟨d', rfl, rfl, .of_changes hchanges hspills hbeside⟩

theorem remove_beside {offset : ℕ} {todo : List ℕ}
    (hchanges : s.ResumesByChanges env (.remove (offset :: todo)))
    (h : (s.put (.remove (offset :: todo))).Beside env left d) :
    s.ResumesBeside env left d (.remove (offset :: todo)) := by
  obtain ⟨hsame, hbeside⟩ := DiskStorage.Beside.remove h
    (mentions_put (by simp [Task.exposed]) : (View.Mentions _ offset))
  have hspills := s.shard.diskStorage.remove_spills env offset
  have hshard : (s.setDisk d).shard = s.shard.withDisk d := rfl
  rw [ResumesByChanges, resumeTask] at hchanges
  rw [ResumesBeside, resumeTask, resumeTask, answer, answer, hshard, BufferShard.withDisk]
  rcases hd' : d.remove env offset with ⟨r', d'⟩
  rcases hd : s.shard.diskStorage.remove env offset with ⟨e | _, d₁⟩
  all_goals
    have hdisk : (s.put (.remove (offset :: todo))).shard.diskStorage.remove env
        offset = _ := hd
    rw [hd] at hchanges hspills
    rw [hd', hdisk] at hsame hbeside
    simp only at hsame
    subst hsame
  · exact ⟨d', rfl, rfl, .of_changes hchanges hspills hbeside⟩
  · by_cases hlast : todo = []
    · subst hlast
      simp only [if_true] at hchanges ⊢
      exact ⟨d', rfl, trivial, .of_changes hchanges hspills hbeside⟩
    · simp only [hlast, if_false] at hchanges ⊢
      exact ⟨d', rfl, trivial, .of_changes hchanges hspills hbeside⟩

/-- Neither does a resumption meet a file that was left. -/
theorem resumeTask_beside (hs : s.Clean env) {task : Task} (hclean : task.Clean)
    (hloaded : ∀ p ∈ task.loaded, s.shard.diskStorage.Readable env p.1)
    (h : (s.put task).Beside env left d) : s.ResumesBeside env left d task := by
  have hchanges : s.ResumesByChanges env task :=
    (resumeTask_simulates hs hclean hloaded (permits_none env s.shard _ task)).1
  cases task with
  | spill startedAt todo written =>
    cases todo with
    | nil => exact commit_beside hchanges h
    | cons copy todo => exact spill_beside h
  | load read todo loaded =>
    cases todo with
    | nil => exact ⟨d, rfl, rfl, .of_changes hchanges rfl h⟩
    | cons offset todo => exact load_beside hchanges h
  | unlink read todo removed =>
    cases todo with
    | nil => exact ⟨d, rfl, rfl, .of_changes hchanges rfl h⟩
    | cons file todo => exact unlink_beside hchanges h
  | remove todo =>
    cases todo with
    | nil => exact ⟨d, rfl, rfl, .of_changes hchanges rfl h⟩
    | cons offset todo => exact remove_beside hchanges h

end Beside

end System

namespace Core
variable {env : Env} {left : ℕ → Option (Option TrajectoryGroup)} {s s' : Core}

def setDisk (d : DiskStorage) (s : Core) : Core := { s with shard := s.shard.withDisk d }

/-- A core, and the same core over a directory in which files were left. -/
def Beside (env : Env) (left : ℕ → Option (Option TrajectoryGroup)) (s s' : Core) : Prop :=
  s.system.Clean env ∧ ∃ d, s' = s.setDisk d ∧ s.system.Beside env left d

theorem Beside.create (env : Env) (config : TransferQueueConfig) (bitCount numHashes : ℕ)
    (d : DiskStorage) :
    (create config bitCount numHashes).Beside env d.under
      ((create config bitCount numHashes).setDisk d.reopen) := by
  refine ⟨.create config bitCount numHashes, d.reopen, rfl, rfl, rfl, rfl, fun offset hm => ?_,
    fun offset hm => ?_, fun _ _ => rfl⟩
  all_goals
    rcases hm with ⟨id, hid⟩ | hdraft | ⟨task, htask, -⟩
    · cases hid
    · exact absurd hdraft (Multiset.notMem_zero offset)
    · exact absurd htask (Multiset.notMem_zero task)

theorem adopt_setDisk (caller : Option ℕ) (kept : List (Option ℕ × Task)) (d : DiskStorage)
    (s : System) : adopt caller kept (s.setDisk d) = (adopt caller kept s).setDisk d := rfl

/-- An input that does the same over the other directory. -/
def ActsBeside (env : Env) (left : ℕ → Option (Option TrajectoryGroup)) (s : Core)
    (d : DiskStorage) (input : Input) : Prop :=
  ∃ d', (s.setDisk d).act env input = ((s.act env input).1, (s.act env input).2.setDisk d') ∧
    (s.act env input).2.system.Clean env ∧ (s.act env input).2.system.Beside env left d'

section Acts
variable {d : DiskStorage}

theorem ask_beside (hs : s.system.Clean env) (hd : s.system.Beside env left d) (call : ℕ)
    (request : Request) : s.ActsBeside env left d (.ask call request) := by
  have hsystem := ask_system env call request s
  refine ⟨d, ?_, ?_, ?_⟩
  · have hview : (s.setDisk d).system = s.system.setDisk d := rfl
    rw [act, act, hview, s.system.start_setDisk env d hd.initialized request, adopt_setDisk]
    rfl
  · rw [hsystem]
    exact (System.start_changes env hs request).2
  · rw [hsystem]
    exact System.start_beside hs hd request

theorem resume_beside (hs : s.system.Clean env) (hd : s.system.Beside env left d) {i : ℕ}
    {caller : Option ℕ} {task : Task} (htask : s.tasks[i]? = some (caller, task)) :
    s.ActsBeside env left d (.resume i) := by
  have hsome : s.system.tasks[i]? = some task := by
    rw [system, List.getElem?_map, htask]
    rfl
  have hkept : (s.tasks.eraseIdx i).map Prod.snd = s.system.tasks.eraseIdx i := by
    rw [system, List.eraseIdx_map]
  have hsystem := resume_system env htask
  have hrest : ({ s.system with tasks := s.system.tasks.eraseIdx i } : System).Clean env :=
    hs.keep hs.shard rfl fun task' hmem => List.mem_of_mem_eraseIdx hmem
  have hview : (({ s.system with tasks := s.system.tasks.eraseIdx i } : System).put
      task).Beside env left d := by
    rw [System.Beside, System.put_eraseIdx_view hsome]
    exact hd
  have hmem := List.mem_of_getElem? hsome
  obtain ⟨d', hresume, hanswer, hbeside⟩ := System.resumeTask_beside hrest
    (hs.tasks task hmem) (hs.readable task hmem) hview
  refine ⟨d', ?_, ?_, ?_⟩
  · have htask' : (s.setDisk d).tasks[i]? = some (caller, task) := htask
    have hsystem' : ({ (s.setDisk d).system with
        tasks := ((s.setDisk d).tasks.eraseIdx i).map Prod.snd } : System) =
          ({ s.system with tasks := s.system.tasks.eraseIdx i } : System).setDisk d := by
      rw [← hkept]
      rfl
    rw [act, act, htask, htask']
    simp only [hsystem', hresume, hanswer, hkept, adopt_setDisk]
    rfl
  · rw [hsystem]
    exact (System.resumeTask_simulates hrest (hs.tasks task hmem) (hs.readable task hmem)
      (System.permits_none env _ _ task)).2
  · rw [hsystem]
    exact hbeside

theorem act_beside (hs : s.system.Clean env) (hd : s.system.Beside env left d) (input : Input) :
    s.ActsBeside env left d input := by
  cases input with
  | ask call request => exact ask_beside hs hd call request
  | resume i =>
    cases htask : s.tasks[i]? with
    | none =>
      have hnone : (s.setDisk d).tasks[i]? = none := htask
      rw [ActsBeside, act, act, htask, hnone]
      exact ⟨d, rfl, hs, hd⟩
    | some p => exact resume_beside hs hd htask
  | configure config => exact ⟨d, rfl, hs.keep hs.shard rfl fun _ hmem => hmem, hd⟩

end Acts

theorem Beside.step (h : s.Beside env left s') (input : Input) :
    (s'.step env input).1 = (s.step env input).1 ∧
      (s.step env input).2.Beside env left (s'.step env input).2 := by
  obtain ⟨hs, d, rfl, hd⟩ := h
  have hcrashed : (s.setDisk d).crashed = s.crashed := rfl
  rw [step, step, hcrashed]
  cases s.crashed with
  | true =>
    simp only [if_true]
    exact ⟨trivial, hs, d, rfl, hd⟩
  | false =>
    simp only [Bool.false_eq_true, if_false]
    obtain ⟨d', hact, hclean, hbeside⟩ := act_beside hs hd input
    rw [hact]
    exact ⟨rfl, hclean, d', rfl, hbeside⟩

end Core

namespace Server
variable {k : ℕ}

/-- A new process over the directories of an old one. -/
def restart (config : TransferQueueConfig) (bitCount numHashes : ℕ) (s : Server k) : Server k :=
  { create k config bitCount numHashes with
    cores := fun i => (Core.create config bitCount numHashes).setDisk
      (s.cores i).shard.diskStorage.reopen }

/-- The same server over directories in which files were left. -/
structure Beside (env : Fin k → Env) (left : Fin k → ℕ → Option (Option TrajectoryGroup))
    (s s' : Server k) : Prop where
  config : s'.config = s.config
  calls : s'.calls = s.calls
  cores : ∀ i, (s.cores i).Beside (env i) (left i) (s'.cores i)

namespace Beside
variable {env : Fin k → Env} {left : Fin k → ℕ → Option (Option TrajectoryGroup)}
  {s s' : Server k}

theorem crashed (h : s.Beside env left s') : s'.crashed = s.crashed := by
  have hcore : ∀ i, (s'.cores i).crashed = (s.cores i).crashed := fun i => by
    obtain ⟨-, d, hd, -⟩ := h.cores i
    rw [hd]
    rfl
  simp only [Server.crashed, hcore]

theorem turn (h : s.Beside env left s') (i : Fin k) (input : Core.Input) :
    (turn env i input s).Beside env left (turn env i input s') := by
  obtain ⟨houtput, -⟩ := (h.cores i).step input
  refine ⟨h.config, ?_, fun i' => ?_⟩
  · rw [Server.turn, Server.turn, houtput, h.calls]
  · rw [turn_core, turn_core]
    by_cases hi : i = i'
    · simp only [hi, if_true]
      exact ((h.cores i').step input).2
    · simp only [hi, if_false]
      exact h.cores i'

variable [NeZero k] {stdHash : String → ℕ}

theorem step (h : s.Beside env left s') (a : ServerAction k) :
    (s.step env stdHash a).2.Beside env left (s'.step env stdHash a).2 := by
  rw [Server.step, Server.step, h.crashed]
  cases s.crashed with
  | true => exact h
  | false =>
    simp only [Bool.false_eq_true, if_false]
    cases a with
    | call request => exact ⟨h.config, by rw [act, act, h.calls], h.cores⟩
    | arrive c i =>
      have hmessage : s'.message stdHash c i = s.message stdHash c i := by
        rw [message, message, h.calls]
      rw [act, act, hmessage]
      cases s.message stdHash c i with
      | none => exact h
      | some request =>
        have hreach : ({ s with calls := s.calls.modify c (Call.reach i) } : Server k).Beside env
            left { s' with calls := s'.calls.modify c (Call.reach i) } :=
          ⟨h.config, by rw [h.calls], h.cores⟩
        exact hreach.turn i _
    | resume i j => exact h.turn i _
    | configure req =>
      rw [act, act, h.config]
      exact ⟨rfl, h.calls, fun i => ((h.cores i).step _).2⟩

variable (stdHash) in
theorem run (h : s.Beside env left s') (actions : List (ServerAction k)) :
    (s.run env stdHash actions).Beside env left (s'.run env stdHash actions) := by
  induction actions generalizing s s' with
  | nil => exact h
  | cons a actions ih => exact ih (h.step a)

end Beside

/-- Whatever happened to a process, a new one over its directories does in every run what it
would do over empty ones, and a file whose name it does not draw stays as it is: nothing that
was spilled comes back, and nothing is cleaned up. -/
theorem restart_recovers_nothing [NeZero k] (env : Fin k → Env) (stdHash : String → ℕ)
    (config : TransferQueueConfig) (bitCount numHashes : ℕ) (s : Server k)
    (actions : List (ServerAction k)) :
    let fresh := (create k config bitCount numHashes).run env stdHash actions
    let restarted := (s.restart config bitCount numHashes).run env stdHash actions
    restarted.calls = fresh.calls ∧ restarted.crashed = fresh.crashed ∧
      (∀ i, (restarted.cores i).log = (fresh.cores i).log) ∧
      ∀ i offset,
        (∀ n < (restarted.cores i).shard.diskStorage.spills, (env i).spillId n ≠ offset) →
        (restarted.cores i).shard.diskStorage.under offset =
          (s.cores i).shard.diskStorage.under offset := by
  intro fresh restarted
  have hstart : (create k config bitCount numHashes).Beside env
      (fun i => (s.cores i).shard.diskStorage.under) (s.restart config bitCount numHashes) :=
    ⟨rfl, rfl, fun i => .create (env i) config bitCount numHashes _⟩
  have hrun := hstart.run stdHash actions
  refine ⟨hrun.calls, hrun.crashed, fun i => ?_, fun i offset hoffset => ?_⟩
  · obtain ⟨-, d, hd, -⟩ := hrun.cores i
    exact (congrArg Core.log hd).trans rfl
  · obtain ⟨-, d, hd, hbeside⟩ := hrun.cores i
    have hdisk : (restarted.cores i).shard.diskStorage = d :=
      congrArg (fun core => core.shard.diskStorage) hd
    rw [hdisk] at hoffset ⊢
    exact hbeside.kept offset (hbeside.spills ▸ hoffset)

/-- A process goes down with a group in a file; the next one is asked to read. -/
theorem restart_recovers_nothing_spilled :
    let env : Fin 2 → Env := fun _ => .sample []
    let before := (create 2 (.tight 1) 0 0).run env sampleHash ((overlapping 0 1).take 5)
    let read : List (ServerAction 2) := [.call (.readReadyGroups 0), .arrive 0 1, .arrive 0 0]
    let fresh := (create 2 (.tight 1) 0 0).run env sampleHash read
    let restarted := (before.restart (.tight 1) 0 0).run env sampleHash read
    restarted.calls = fresh.calls ∧ restarted.crashed = fresh.crashed ∧
      (∀ i, (restarted.cores i).log = (fresh.cores i).log) ∧
      ∀ i offset,
        (∀ n < (restarted.cores i).shard.diskStorage.spills, (env i).spillId n ≠ offset) →
        (restarted.cores i).shard.diskStorage.under offset =
          (before.cores i).shard.diskStorage.under offset :=
  restart_recovers_nothing (fun _ => .sample []) sampleHash (.tight 1) 0 0
    ((create 2 (.tight 1) 0 0).run (fun _ => .sample []) sampleHash ((overlapping 0 1).take 5)) _

end Server

end TransferQueue
