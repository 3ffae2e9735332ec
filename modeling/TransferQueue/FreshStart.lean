import TransferQueue.AlikeRuns
import TransferQueue.DedupWindow

/-! A reset starts a shard afresh: whatever its history, nothing that can influence a later
result is left in it. Its directory is left empty only if no reset of the history has met two
groups on disk: the vector of the files to remove does not outlive the call, and a file that
has lost its entry is never removed. -/

namespace TransferQueue
open UnorderedMap

theorem DiskStorage.spillBatch_files {env : Env} (groups : List TrajectoryGroup)
    {d d' : DiskStorage} (hi : d.initialized = true) {offsets : List ℕ}
    (h : d.spillBatch env groups = (.ok offsets, d')) (offset : ℕ)
    (hfile : d'.find offset ≠ none) : d.find offset ≠ none ∨ offset ∈ offsets := by
  induction groups generalizing d offsets with
  | nil =>
    cases h
    exact .inl hfile
  | cons group groups ih =>
    rw [spillBatch, DoForEach.doForEach] at h
    obtain ⟨d₁, hi₁, -, ⟨hspill, -⟩ | ⟨hspill, hfiles⟩⟩ := spill_cases env hi group
    · rw [hspill] at h
      cases h
    · rw [hspill] at h
      simp only at h
      rcases hrest : DoForEach.doForEach (spill env) groups d₁ with ⟨e | rest, d₂⟩
      · rw [hrest] at h
        cases h
      · rw [hrest] at h
        cases h
        rcases ih hi₁ hrest with hold | hin
        · rw [find_write d d₁ _ group hfiles] at hold
          split at hold
          · rename_i heq
            exact .inr (heq ▸ List.mem_cons_self ..)
          · exact .inl hold
        · exact .inr (List.mem_cons_of_mem _ hin)

def DiskStorage.Whole (d : DiskStorage) : Prop := ∀ f ∈ d.files, f.2 ≠ none

theorem DiskStorage.Whole.find {d : DiskStorage} (h : d.Whole) {f : ℕ × Option TrajectoryGroup}
    (hf : f ∈ d.files) : d.find f.1 ≠ none := by
  obtain ⟨first, hfirst⟩ := Option.isSome_iff_exists.mp
    (List.find?_isSome.mpr ⟨f, hf, decide_eq_true rfl⟩ :
      (d.files.find? fun g => g.1 = f.1).isSome = true)
  rw [DiskStorage.find, hfirst]
  exact h first (List.mem_of_find?_eq_some hfirst)

section WholeFiles
variable {env : Env}

theorem DiskStorage.Whole.spill (hr : env.Reliable) (group : TrajectoryGroup) (d : DiskStorage)
    (h : d.Whole) : (d.spill env group).2.Whole := by
  cases hi : d.initialized with
  | false => simpa [DiskStorage.spill, hi] using h
  | true =>
    rw [spill_ok hr hi]
    exact List.forall_mem_cons.mpr ⟨Option.some_ne_none group, h⟩

theorem DiskStorage.Whole.load (offset : ℕ) (d : DiskStorage) (h : d.Whole) :
    (d.load env offset).2.Whole := by
  rw [DiskStorage.load]
  repeat' split
  all_goals exact h

theorem DiskStorage.Whole.remove (offset : ℕ) (d : DiskStorage) (h : d.Whole) :
    (d.remove env offset).2.Whole := by
  rw [DiskStorage.remove]
  split
  · exact h
  · dsimp only
    split
    · exact h
    · split
      · exact fun f hf => h f (List.mem_of_mem_filter hf)
      · exact h

end WholeFiles

namespace BufferShard

variable {env : Env} {s s' : BufferShard} {loose : List ℕ}

section Files

/-- A reset meets at most one group on disk. -/
def Clears (s : BufferShard) : Op → Prop
  | .reset => s.diskOffsets.length ≤ 1
  | .write _ | .batchWrite _ | .readReadyGroups _ | .checkGroupTimeouts | .deleteInstance _ |
    .updateConfig _ => True

instance (s : BufferShard) : (op : Op) → Decidable (s.Clears op)
  | .reset => inferInstanceAs (Decidable (s.diskOffsets.length ≤ 1))
  | .write _ | .batchWrite _ | .readReadyGroups _ | .checkGroupTimeouts | .deleteInstance _ |
    .updateConfig _ => .isTrue trivial

/-- Every file is that of an entry on disk, or one of those given. -/
def Accounts (s : BufferShard) (loose : List ℕ) : Prop :=
  ∀ offset, s.diskStorage.find offset ≠ none → offset ∈ s.diskOffsets ∨ offset ∈ loose

theorem mem_diskOffsets {offset : ℕ} :
    offset ∈ s.diskOffsets ↔
      ∃ id e, (id, e) ∈ s.groups.entries ∧ e.isOnDisk = true ∧ e.diskOffset = offset :=
  mem_filesOf

namespace Accounts

theorem keep (h : s.Accounts loose)
    (hentries : ∀ id e, (id, e) ∈ s.groups.entries → e.isOnDisk = true →
      (id, e) ∈ s'.groups.entries)
    (hdisk : s'.diskStorage = s.diskStorage) : s'.Accounts loose := by
  intro offset hfile
  refine (h offset (hdisk ▸ hfile)).imp_left fun hold => ?_
  obtain ⟨id, e, hmem, hon, rfl⟩ := mem_diskOffsets.mp hold
  exact mem_diskOffsets.mpr ⟨id, e, hentries id e hmem hon, hon, rfl⟩

theorem mem_set {id : String} {e₀ : GroupEntry} (he : s.groups.get? id = some e₀)
    (hoff : e₀.isOnDisk = false) (e' : GroupEntry) {id' : String} {e : GroupEntry}
    (hmem : (id', e) ∈ s.groups.entries) (hon : e.isOnDisk = true) :
    (id', e) ∈ (s.groups.set id e').entries := by
  refine UnorderedMap.mem_set.mpr (.inr ⟨?_, hmem⟩)
  rintro rfl
  rw [value_unique hmem (get?_eq_some_iff.mp he), hoff] at hon
  cases hon

theorem addTrajectory (h : s.Accounts loose) (t : Trajectory) :
    (s.addTrajectory env t).2.Accounts loose := by
  cases he : s.groups.get? t.instanceId with
  | none =>
    rw [addTrajectory_new he]
    exact h.keep (fun id e hmem _ =>
      (mem_insert _ (get?_eq_none_iff.mp he) _).mpr (.inr hmem)) rfl
  | some e =>
    cases hp : e.groupPtr with
    | some g =>
      rw [addTrajectory_memory he hp]
      have hoff : e.isOnDisk = false := GroupEntry.not_isOnDisk_of_some (by simp [hp])
      exact h.keep (fun _ _ hmem hon => mem_set he hoff _ hmem hon) rfl
    | none =>
      by_cases hzero : e.diskOffset = 0
      · rw [addTrajectory_empty he hp hzero]
        have hoff : e.isOnDisk = false := by simp [GroupEntry.isOnDisk, hzero]
        exact h.keep (fun _ _ hmem hon => mem_set he hoff _ hmem hon) rfl
      · rw [addTrajectory_onDisk he (GroupEntry.isOnDisk_iff.mpr ⟨Nat.pos_of_ne_zero hzero, hp⟩)]
        exact h

theorem commitEntry {offset : ℕ} (h : s.Accounts (offset :: loose)) {id : String}
    {e : GroupEntry} (he : s.groups.get? id = some e) (hptr : e.groupPtr ≠ none)
    (hpos : 0 < offset) : (s.commitEntry env id offset).Accounts loose := by
  have hcommitted : (id, committed env e offset) ∈
      (s.groups.set id (committed env e offset)).entries :=
    UnorderedMap.mem_set.mpr (.inl ⟨rfl, rfl, mem_keys.mpr ⟨e, get?_eq_some_iff.mp he⟩⟩)
  rw [commitEntry_present he]
  intro offset' hfile
  rcases h offset' hfile with hold | hin
  · obtain ⟨id', e', hmem, hon, rfl⟩ := mem_diskOffsets.mp hold
    exact .inl (mem_diskOffsets.mpr
      ⟨id', e', mem_set he (GroupEntry.not_isOnDisk_of_some hptr) _ hmem hon, hon, rfl⟩)
  · rcases List.mem_cons.mp hin with rfl | hin
    · exact .inl (mem_diskOffsets.mpr
        ⟨id, _, hcommitted, GroupEntry.isOnDisk_iff.mpr ⟨hpos, rfl⟩, rfl⟩)
    · exact .inr hin

theorem commits {chosen : List (String × TrajectoryGroup)} {offsets : List ℕ}
    (h : s.Accounts offsets) (hlength : chosen.length = offsets.length)
    (hids : (chosen.map Prod.fst).Nodup)
    (hheld : ∀ p ∈ chosen, ∃ e, s.groups.get? p.1 = some e ∧ e.groupPtr ≠ none)
    (hpos : ∀ offset ∈ offsets, 0 < offset) :
    (((chosen.map Prod.fst).zip offsets).foldl
      (fun s p => s.commitEntry env p.1 p.2) s).Accounts [] := by
  induction chosen generalizing offsets s with
  | nil =>
    obtain rfl : offsets = [] := List.length_eq_zero_iff.mp hlength.symm
    exact h
  | cons p chosen ih =>
    cases offsets with
    | nil => cases hlength
    | cons offset offsets =>
      rw [List.forall_mem_cons] at hheld hpos
      obtain ⟨hnotin, hids⟩ := List.nodup_cons.mp hids
      obtain ⟨⟨e, he, hptr⟩, hheld⟩ := hheld
      refine ih (h.commitEntry he hptr hpos.1) (Nat.succ.inj hlength) hids (fun q hq => ?_) hpos.2
      have hne : q.1 ≠ p.1 := fun heq => hnotin (List.mem_map.mpr ⟨q, hq, heq⟩)
      rw [commitEntry_get?_ne hne]
      exact hheld q hq

theorem trySpillGroups (hr : env.Reliable) (hs : s.Settled env) (h : s.Accounts []) :
    (s.trySpillGroups env).2.Accounts [] := by
  cases hsel : s.spillSelection env with
  | none =>
    rw [BufferShard.trySpillGroups, hsel]
    exact h
  | some selection =>
    obtain ⟨r, d', hbatch, -, -, -, hok⟩ :=
      DiskStorage.spillBatch_cases env selection.groups hs.initialized
    obtain ⟨offsets, hoffsets⟩ := DiskStorage.spillBatch_ok hr selection.groups hs.initialized
    rw [hbatch] at hoffsets
    simp only at hoffsets
    subst hoffsets
    obtain ⟨hfiles, -, hrange⟩ := hok offsets rfl
    obtain ⟨chosen, hkeys, hlength, hids, hcopied⟩ := copied_of_batch hs.drawn hsel hfiles hrange
    have hdisk : ({ s with diskStorage := d' } : BufferShard).Accounts offsets := by
      intro offset hfile
      rcases DiskStorage.spillBatch_files _ hs.initialized hbatch offset hfile with hold | hin
      · exact .inl ((h offset hold).resolve_right (List.not_mem_nil))
      · exact .inr hin
    rw [trySpillGroups_commits hsel hbatch (by rw [hkeys, List.length_map, hlength]), hkeys]
    refine hdisk.commits hlength hids (fun p hp => ?_) fun offset ho =>
      (env.spillId_pos _).trans_le (hrange offset ho).1
    obtain ⟨chosen', hkeys', -, -, -, hheld⟩ := spillSelection_spec hsel
    obtain ⟨q, hq, heq⟩ := List.mem_map.mp (hkeys' ▸ hkeys ▸ List.mem_map_of_mem hp :
      p.1 ∈ chosen'.map Prod.fst)
    obtain ⟨e, hmem, hptr, -⟩ := hheld q hq
    exact ⟨e, get?_eq_some_iff.mpr (heq ▸ hmem), by simp [hptr]⟩

theorem write (hr : env.Reliable) (hs : s.Settled env) (h : s.Accounts []) (t : Trajectory) :
    (s.write env t).2.Accounts [] := by
  have hdedup : (s.dedup env t.uid).2.Accounts [] :=
    h.keep (fun id e hmem _ => by rwa [dedup_groups]) (dedup_diskStorage ..)
  have hstart : (s.writeStart env t).2.Accounts [] :=
    writeStart_keeps (P := fun s => s.Accounts []) hdedup fun h => Accounts.addTrajectory h t
  exact write_keeps (P := fun s => s.Accounts []) hstart fun h =>
    Accounts.trySpillGroups hr (hs.writeStart t) h

theorem erased (h : s.Accounts []) {taken : List (String × GroupEntry)}
    (hsub : ∀ p ∈ taken, p ∈ s.groups.entries)
    (hgroups : s'.groups = s.groups.eraseAll (taken.map Prod.fst))
    (hfind : ∀ offset, s'.diskStorage.find offset =
      if offset ∈ filesOf taken then none else s.diskStorage.find offset) : s'.Accounts [] := by
  intro offset hfile
  rw [hfind] at hfile
  split at hfile
  · exact absurd rfl hfile
  · rename_i hnot
    obtain ⟨id, e, hmem, hon, rfl⟩ :=
      mem_diskOffsets.mp ((h offset hfile).resolve_right List.not_mem_nil)
    refine .inl (mem_diskOffsets.mpr ⟨id, e, hgroups ▸ (mem_eraseAll _).mpr ⟨hmem, ?_⟩, hon, rfl⟩)
    intro hid
    obtain ⟨⟨id', e'⟩, hp, rfl⟩ := List.mem_map.mp hid
    exact hnot (mem_filesOf.mpr ⟨id', e', hp, value_unique (hsub _ hp) hmem ▸ hon,
      congrArg GroupEntry.diskOffset (value_unique (hsub _ hp) hmem)⟩)

theorem deleteInstance (hr : env.Reliable) (hs : s.Settled env) (h : s.Accounts []) (id : String) :
    (s.deleteInstance env id).Accounts [] := by
  cases he : s.groups.get? id with
  | none =>
    simp only [BufferShard.deleteInstance, deleteEntry, he]
    exact h
  | some e =>
    have hsub : ∀ p ∈ [(id, e)], p ∈ s.groups.entries := by simpa using get?_eq_some_iff.mp he
    refine erased h hsub (deleteInstance_groups id s) fun offset => ?_
    cases hon : e.isOnDisk with
    | false => simp [BufferShard.deleteInstance, deleteEntry, he, hon, filesOf]
    | true =>
      obtain ⟨g, hg⟩ := hs.file_exists hsub e.diskOffset (by simp [filesOf, hon])
      simp only [BufferShard.deleteInstance, deleteEntry, he, hon, if_true,
        DiskStorage.remove_ok hr hs.initialized hg]
      rw [DiskStorage.find_delete s.diskStorage _ e.diskOffset rfl]
      simp [filesOf, hon]

theorem reset (hr : env.Reliable) (hs : s.Settled env) (h : s.Accounts [])
    (hone : s.diskOffsets.length ≤ 1) : (s.reset env).2.Accounts [] := by
  intro offset hfile
  have hexists : ∀ offset ∈ s.diskOffsets, ∃ g, s.clearAll.diskStorage.find offset = some g :=
    hs.file_exists fun _ hp => hp
  have hi : s.clearAll.diskStorage.initialized = true := hs.initialized
  have hon : s.diskStorage.find offset ≠ none → offset ∈ s.diskOffsets := fun hfound =>
    (h offset hfound).resolve_right List.not_mem_nil
  rw [BufferShard.reset] at hfile
  generalize s.diskOffsets = offsets at hon hexists hone hfile
  cases offsets with
  | nil => exact absurd (hon hfile) List.not_mem_nil
  | cons first rest =>
    obtain rfl : rest = [] := List.length_eq_zero_iff.mp (by simpa using hone)
    obtain ⟨group, hfirst⟩ := hexists first List.mem_cons_self
    rw [DiskStorage.removeFreed_ok hr hi hfirst] at hfile
    simp only at hfile
    rw [DiskStorage.find_delete s.diskStorage _ first rfl] at hfile
    split at hfile
    · exact absurd rfl hfile
    · rename_i hne
      exact absurd (List.mem_singleton.mp (hon hfile)) hne

theorem exec (hr : env.Reliable) (hs : s.Settled env) (h : s.Accounts []) {op : Op}
    (hop : s.Clears op) : (s.exec env op).2.Accounts [] := by
  cases op with
  | write t => exact write hr hs h t
  | batchWrite ts =>
    exact (batchWriteLoop_keeps (P := fun s => s.Settled env ∧ s.Accounts [])
      (fun t _ h => ⟨(write_buffer hr h.1 t).2.1, write hr h.1 h.2 t⟩) 0 ts ⟨hs, h⟩).2
  | readReadyGroups maxGroups =>
    obtain ⟨loaded, d', hread, -, -, -, hfind⟩ := readReadyGroups_ok hr hs maxGroups
    simp only [BufferShard.exec, hread, Prod.map]
    exact erased h (fun p hp => (mem_of_selected hp).1) (afterScan_erased maxGroups s) hfind
  | checkGroupTimeouts =>
    intro offset hfile
    obtain ⟨id, e, hmem, hon, rfl⟩ :=
      mem_diskOffsets.mp ((h offset hfile).resolve_right List.not_mem_nil)
    exact .inl (mem_diskOffsets.mpr ⟨id, s.expireEntry env e, List.mem_map.mpr ⟨_, hmem, rfl⟩,
      (expireEntry_isOnDisk s e).trans hon, expireEntry_diskOffset s e⟩)
  | deleteInstance id => exact deleteInstance hr hs h id
  | reset => exact reset hr hs h hop
  | updateConfig config => exact h

end Accounts

section Directory
variable {P : DiskStorage → Prop}

theorem trySpillGroups_disk (hspill : ∀ group d, P d → P (d.spill env group).2)
    (h : P s.diskStorage) : P (s.trySpillGroups env).2.diskStorage := by
  cases hsel : s.spillSelection env with
  | none => rwa [trySpillGroups, hsel]
  | some selection =>
    have hbatch : P (s.diskStorage.spillBatch env selection.groups).2 :=
      DoForEach.doForEach_keeps hspill selection.groups h
    simp only [trySpillGroups, hsel]
    rcases hd : s.diskStorage.spillBatch env selection.groups with ⟨e | offsets, d⟩ <;>
      rw [hd] at hbatch
    · exact hbatch
    · by_cases hlen : selection.keys.length = offsets.length
      · simp only [commitSpill, hlen, ne_eq, not_true, if_false]
        rw [(commits_frame env _ _).2]
        exact hbatch
      · simp only [commitSpill, hlen, ne_eq, not_false_eq_true, if_true]
        exact hbatch

theorem readReadyGroups_disk (hload : ∀ offset d, P d → P (d.load env offset).2)
    (hremove : ∀ offset d, P d → P (d.remove env offset).2) (maxGroups : Int32)
    (h : P s.diskStorage) : P (s.readReadyGroups env maxGroups).2.diskStorage := by
  rw [readReadyGroups, readScan_eq]
  by_cases hread : ∀ p ∈ s.selected maxGroups, p.2.Readable
  · have hloaded : P ((s.afterScan maxGroups).diskStorage.loadBatch env
        (s.scanOf maxGroups).offsetsToLoad).2 :=
      DoForEach.doForEach_keeps hload _ h
    simp only [if_pos hread]
    rcases hd : (s.afterScan maxGroups).diskStorage.loadBatch env _ with ⟨e | loaded, d⟩ <;>
      rw [hd] at hloaded
    · exact hloaded
    · have hremoved : P (d.removeAll env (s.scanOf maxGroups).offsetsToLoad).2 :=
        DoForEach.doForEach_keeps hremove _ hloaded
      simp only [mergeLoaded]
      rcases hd' : d.removeAll env _ with ⟨e | units, d'⟩ <;> rw [hd'] at hremoved <;>
        exact hremoved
  · rwa [if_neg hread]

theorem exec_disk (hspill : ∀ group d, P d → P (d.spill env group).2)
    (hload : ∀ offset d, P d → P (d.load env offset).2)
    (hremove : ∀ offset d, P d → P (d.remove env offset).2) (s : BufferShard)
    (h : P s.diskStorage) (op : Op) : P (s.exec env op).2.diskStorage := by
  have hwrite : ∀ (t : Trajectory) (s : BufferShard), P s.diskStorage →
      P (s.write env t).2.diskStorage := fun t s h =>
    write_keeps (P := fun s => P s.diskStorage) (writeStart_diskStorage env t s ▸ h)
      (trySpillGroups_disk hspill)
  cases op with
  | write t => exact hwrite t s h
  | batchWrite ts => exact batchWriteLoop_keeps (P := fun s => P s.diskStorage) hwrite 0 ts h
  | readReadyGroups maxGroups => exact readReadyGroups_disk hload hremove maxGroups h
  | checkGroupTimeouts => exact h
  | deleteInstance id =>
    rw [BufferShard.exec, deleteInstance, deleteEntry]
    cases s.groups.get? id with
    | none => exact h
    | some e =>
      cases hon : e.isOnDisk with
      | false => simpa only [hon, Bool.false_eq_true, if_false] using h
      | true => simpa only [hon, if_true] using hremove _ _ h
  | reset =>
    simp only [BufferShard.exec, BufferShard.reset, Prod.map, id_eq]
    exact DoForEach.doForEachFreed_keeps hremove s.diskOffsets h
  | updateConfig config => exact h

end Directory

/-- A file that no entry knows any more. -/
structure Lost (env : Env) (s : BufferShard) (offset : ℕ) : Prop where
  found : s.diskStorage.find offset ≠ none
  unheld : offset ∉ s.diskOffsets
  drawn : offset < env.spillId s.diskStorage.spills

theorem commits_diskOffsets {pairs : List (String × ℕ)} {offset : ℕ}
    (h : offset ∈ (pairs.foldl (fun s p => s.commitEntry env p.1 p.2) s).diskOffsets) :
    offset ∈ s.diskOffsets ∨ offset ∈ pairs.map Prod.snd := by
  induction pairs generalizing s with
  | nil => exact .inl h
  | cons p pairs ih =>
    rcases ih h with hfirst | hrest
    · dsimp only at hfirst
      cases he : s.groups.get? p.1 with
      | none =>
        rw [commitEntry_absent he] at hfirst
        exact .inl hfirst
      | some e =>
        rw [commitEntry_present he] at hfirst
        obtain ⟨id, e', hmem, hon, rfl⟩ := mem_diskOffsets.mp hfirst
        rcases UnorderedMap.mem_set.mp hmem with ⟨-, rfl, -⟩ | ⟨-, hold⟩
        · exact .inr List.mem_cons_self
        · exact .inl (mem_diskOffsets.mpr ⟨id, e', hold, hon, rfl⟩)
    · exact .inr (List.mem_cons_of_mem _ hrest)

theorem addTrajectory_diskOffsets (t : Trajectory) {offset : ℕ}
    (h : offset ∈ (s.addTrajectory env t).2.diskOffsets) : offset ∈ s.diskOffsets := by
  have hkept : ∀ {s' : BufferShard} {held : GroupEntry}, offset ∈ s'.diskOffsets →
      held.isOnDisk = false →
      (∀ id e, (id, e) ∈ s'.groups.entries → e = held ∨ (id, e) ∈ s.groups.entries) →
      offset ∈ s.diskOffsets := by
    intro s' held h hheld hentries
    obtain ⟨id, e, hmem, hon, rfl⟩ := mem_diskOffsets.mp h
    rcases hentries id e hmem with rfl | hold
    · rw [hheld] at hon
      cases hon
    · exact mem_diskOffsets.mpr ⟨id, e, hold, hon, rfl⟩
  have hset : ∀ {held : GroupEntry} id e, (id, e) ∈ (s.groups.set t.instanceId held).entries →
      e = held ∨ (id, e) ∈ s.groups.entries := fun id e hmem =>
    (UnorderedMap.mem_set.mp hmem).imp (fun hnew => hnew.2.1) And.right
  cases he : s.groups.get? t.instanceId with
  | none =>
    rw [addTrajectory_new he] at h
    have hheld : (s.newEntry env t).isOnDisk = false :=
      GroupEntry.not_isOnDisk_of_some (by simp [newEntry])
    refine hkept h hheld fun id e hmem => ?_
    exact ((mem_insert _ (get?_eq_none_iff.mp he) _).mp hmem).imp_left fun h => (Prod.mk.inj h).2
  | some e =>
    cases hp : e.groupPtr with
    | some g =>
      rw [addTrajectory_memory he hp] at h
      exact hkept h (GroupEntry.not_isOnDisk_of_some (by simp)) hset
    | none =>
      by_cases hzero : e.diskOffset = 0
      · rw [addTrajectory_empty he hp hzero] at h
        exact hkept h (GroupEntry.not_isOnDisk_of_some (by simp [newEntry])) hset
      · rw [addTrajectory_onDisk he
          (GroupEntry.isOnDisk_iff.mpr ⟨Nat.pos_of_ne_zero hzero, hp⟩)] at h
        exact h

namespace Lost

variable {offset : ℕ}

theorem keep (h : s.Lost env offset)
    (hfind : s'.diskStorage.find offset = s.diskStorage.find offset)
    (hspills : s.diskStorage.spills ≤ s'.diskStorage.spills)
    (hoffsets : offset ∈ s'.diskOffsets → offset ∈ s.diskOffsets) : s'.Lost env offset :=
  ⟨hfind ▸ h.found, fun hin => h.unheld (hoffsets hin),
    h.drawn.trans_le (env.spillId_strictMono.monotone hspills)⟩

theorem addTrajectory (h : s.Lost env offset) (t : Trajectory) :
    (s.addTrajectory env t).2.Lost env offset := by
  have hdisk := addTrajectory_diskStorage env t s
  exact h.keep (by rw [hdisk]) (by rw [hdisk]) (addTrajectory_diskOffsets t)

theorem trySpillGroups (h : s.Lost env offset) (hi : s.diskStorage.initialized = true) :
    (s.trySpillGroups env).2.Lost env offset := by
  cases hsel : s.spillSelection env with
  | none => rwa [BufferShard.trySpillGroups, hsel]
  | some selection =>
    obtain ⟨r, d', hbatch, -, hle, hframe, hok⟩ :=
      DiskStorage.spillBatch_cases env selection.groups hi
    have hkept : ({ s with diskStorage := d' } : BufferShard).Lost env offset :=
      h.keep (hframe offset h.drawn) hle id
    cases r with
    | error e => simpa only [BufferShard.trySpillGroups, hsel, hbatch] using hkept
    | ok offsets =>
      obtain ⟨hfiles, -, hrange⟩ := hok offsets rfl
      obtain ⟨chosen, hkeys, hgroups, -⟩ := spillSelection_spec hsel
      have hlength : selection.keys.length = offsets.length := by
        rw [← hfiles.length_eq, hkeys, hgroups, List.length_map, List.length_map]
      rw [trySpillGroups_commits hsel hbatch hlength]
      have hdisk := (commits_frame env (selection.keys.zip offsets)
        { s with diskStorage := d' }).2
      refine hkept.keep (by rw [hdisk]) (by rw [hdisk]) fun hin => ?_
      refine (commits_diskOffsets hin).resolve_right fun hnew => ?_
      rw [List.map_snd_zip hlength.ge] at hnew
      exact absurd (hrange offset hnew).1 (not_le.mpr h.drawn)

theorem write (h : s.Lost env offset) (hs : s.Settled env) (t : Trajectory) :
    (s.write env t).2.Lost env offset := by
  have hdedup : (s.dedup env t.uid).2.Lost env offset :=
    h.keep (by rw [dedup_diskStorage]) (by rw [dedup_diskStorage]) fun hin => by
      rwa [diskOffsets, dedup_groups] at hin
  have hstart : (s.writeStart env t).2.Lost env offset :=
    writeStart_keeps (P := fun s => s.Lost env offset) hdedup fun h => h.addTrajectory t
  exact write_keeps (P := fun s => s.Lost env offset) hstart fun h =>
    h.trySpillGroups (hs.writeStart t).initialized

theorem erased (h : s.Lost env offset)
    (hsub : ∀ p ∈ s'.groups.entries, p ∈ s.groups.entries)
    (hspills : s'.diskStorage.spills = s.diskStorage.spills)
    (hfind : s'.diskStorage.find offset = s.diskStorage.find offset ∨ offset ∈ s.diskOffsets) :
    s'.Lost env offset := by
  refine h.keep (hfind.resolve_right h.unheld) hspills.ge fun hin => ?_
  obtain ⟨id, e, hmem, hon, heq⟩ := mem_diskOffsets.mp hin
  exact mem_diskOffsets.mpr ⟨id, e, hsub _ hmem, hon, heq⟩

theorem deleteInstance (h : s.Lost env offset) (hi : s.diskStorage.initialized = true)
    (id : String) : (s.deleteInstance env id).Lost env offset := by
  refine h.erased (fun p hp => ?_) (deleteInstance_disk env hi id).2.1 ?_
  · rw [deleteInstance_groups] at hp
    exact ((mem_erase _).mp hp).1
  · rw [BufferShard.deleteInstance, deleteEntry]
    cases he : s.groups.get? id with
    | none => exact .inl rfl
    | some e =>
      cases hon : e.isOnDisk with
      | false =>
        simp only [hon, Bool.false_eq_true, if_false]
        exact .inl trivial
      | true =>
        have hoffset : e.diskOffset ∈ s.diskOffsets :=
          mem_diskOffsets.mpr ⟨id, e, get?_eq_some_iff.mp he, hon, rfl⟩
        obtain ⟨d', -, -, -, ⟨err, hremove, -, hfiles⟩ | ⟨hremove, -, hfiles⟩⟩ :=
          DiskStorage.remove_cases env hi e.diskOffset
        · simp only [hon, if_true, hremove]
          exact .inl (DiskStorage.find_congr hfiles offset)
        · simp only [hon, if_true, hremove]
          rw [DiskStorage.find_delete s.diskStorage d' e.diskOffset hfiles]
          by_cases ho : offset = e.diskOffset
          · exact .inr (ho ▸ hoffset)
          · exact .inl (if_neg ho)

theorem reset (h : s.Lost env offset) (hi : s.diskStorage.initialized = true) :
    (s.reset env).2.Lost env offset := by
  have hi' : s.clearAll.diskStorage.initialized = true := hi
  obtain ⟨r, d', hremove, -, hspills, hfind⟩ :=
    DiskStorage.removeFreed_spec env s.diskOffsets hi'
  rw [BufferShard.reset, hremove]
  exact h.erased (fun p hp => absurd hp List.not_mem_nil) hspills
    ((hfind offset).imp_right And.left)

theorem exec (hr : env.Reliable) (hs : s.Settled env) (h : s.Lost env offset) (op : Op) :
    (s.exec env op).2.Lost env offset := by
  cases op with
  | write t => exact h.write hs t
  | batchWrite ts =>
    exact (batchWriteLoop_keeps (P := fun s => s.Settled env ∧ s.Lost env offset)
      (fun t _ h => ⟨(write_buffer hr h.1 t).2.1, h.2.write h.1 t⟩) 0 ts ⟨hs, h⟩).2
  | readReadyGroups maxGroups =>
    obtain ⟨loaded, d', hread, -, -, hspills, hfind⟩ := readReadyGroups_ok hr hs maxGroups
    simp only [BufferShard.exec, hread, Prod.map]
    refine h.erased (fun p hp => ?_) hspills ?_
    · have hkept : p ∈ (s.groups.eraseAll ((s.selected maxGroups).map Prod.fst)).entries :=
        afterScan_erased maxGroups s ▸ hp
      exact ((mem_eraseAll _).mp hkept).1
    · change d'.find offset = _ ∨ _
      rw [hfind]
      by_cases ho : offset ∈ filesOf (s.selected maxGroups)
      · obtain ⟨id, e, hmem, hon, heq⟩ := mem_filesOf.mp ho
        exact .inr (mem_diskOffsets.mpr ⟨id, e, (mem_of_selected hmem).1, hon, heq⟩)
      · exact .inl (if_neg ho)
  | checkGroupTimeouts =>
    refine h.keep rfl le_rfl fun hin => ?_
    obtain ⟨id, e, hmem, hon, rfl⟩ := mem_diskOffsets.mp hin
    obtain ⟨⟨id', e'⟩, hold, heq⟩ := List.mem_map.mp hmem
    cases heq
    refine mem_diskOffsets.mpr ⟨id', e', hold, ?_, ?_⟩
    · exact (expireEntry_isOnDisk s e').symm.trans hon
    · exact (expireEntry_diskOffset s e').symm
  | deleteInstance id => exact h.deleteInstance hs.initialized id
  | reset => exact h.reset hs.initialized
  | updateConfig config => exact ⟨h.found, h.unheld, h.drawn⟩

end Lost

/-- A reset that finds two groups on disk loses the second. -/
theorem lost_of_reset (hr : env.Reliable) (hs : s.Settled env)
    (hmany : ¬s.diskOffsets.length ≤ 1) : ∃ offset, (s.reset env).2.Lost env offset := by
  have hexists : ∀ offset ∈ s.diskOffsets, ∃ g, s.clearAll.diskStorage.find offset = some g :=
    hs.file_exists fun _ hp => hp
  have hi : s.clearAll.diskStorage.initialized = true := hs.initialized
  have hnodup : s.diskOffsets.Nodup := hs.exclusive.files_nodup (List.Sublist.refl _)
  have hdrawn : ∀ offset ∈ s.diskOffsets, offset < env.spillId s.diskStorage.spills := by
    intro offset ho
    obtain ⟨id, e, hmem, -, rfl⟩ := mem_diskOffsets.mp ho
    exact hs.drawn id e hmem
  rw [BufferShard.reset]
  generalize s.diskOffsets = offsets at hexists hnodup hdrawn hmany
  obtain _ | ⟨first, _ | ⟨second, rest⟩⟩ := offsets
  · simp at hmany
  · simp at hmany
  · obtain ⟨group, hfirst⟩ := hexists first List.mem_cons_self
    have hsecond : second ∈ first :: second :: rest :=
      List.mem_cons_of_mem _ List.mem_cons_self
    have hne : second ≠ first := fun heq =>
      (List.nodup_cons.mp hnodup).1 (heq ▸ List.mem_cons_self)
    obtain ⟨group', hfile⟩ := hexists second hsecond
    rw [DiskStorage.removeFreed_ok hr hi hfirst]
    refine ⟨second, ?_, fun hin => ?_, hdrawn second hsecond⟩
    · rw [DiskStorage.find_delete s.clearAll.diskStorage _ first rfl, if_neg hne, hfile]
      exact Option.some_ne_none group'
    · obtain ⟨id, e, hmem, -⟩ := mem_diskOffsets.mp hin
      cases hmem

end Files

section Filter

def insertAll (env : Env) (ts : List Trajectory) (f : DedupFilter) : DedupFilter :=
  ts.foldl (fun f t => (f.insert (DedupFilter.doubleHash env.stdHash) t.uid).2) f

theorem writes_filter (ts : List Trajectory) (s : BufferShard) :
    (Machine.final (writeStep env) s ts).config = s.config ∧
      (Machine.final (writeStep env) s ts).dedupFilter =
        if s.config.uidDedup then insertAll env ts s.dedupFilter else s.dedupFilter := by
  induction ts generalizing s with
  | nil => exact ⟨rfl, (ite_self _).symm⟩
  | cons t ts ih =>
    obtain ⟨hfilter, hconfig⟩ := write_frame env t s
    obtain ⟨hconfigs, hfilters⟩ := ih (s.write env t).2
    have hdedup : (s.dedup env t.uid).2.dedupFilter =
        if s.config.uidDedup then insertAll env [t] s.dedupFilter else s.dedupFilter := by
      rw [dedup]
      split <;> rfl
    rw [Machine.final_cons]
    refine ⟨hconfigs.trans hconfig, hfilters.trans ?_⟩
    rw [hconfig, hfilter, hdedup]
    split <;> rfl

theorem exec_filter (hr : env.Reliable) (hs : s.Settled env) (op : Op) :
    (s.exec env op).2.dedupFilter =
      match op with
      | .reset => s.dedupFilter.clear
      | op =>
        if s.config.uidDedup then insertAll env op.submitted s.dedupFilter
        else s.dedupFilter := by
  obtain ⟨-, -, hbuffer⟩ := exec_refines hr hs op
  have hfilter := congrArg Buffer.dedupFilter hbuffer
  have hnone : s.dedupFilter =
      if s.config.uidDedup then insertAll env [] s.dedupFilter else s.dedupFilter :=
    (ite_self _).symm
  cases op with
  | write t => exact (writes_filter [t] s).2
  | batchWrite ts =>
    obtain ⟨hloop, -⟩ := batchWriteLoop_refines hr hs 0 ts
    simp only [exec, batchWrite, hloop, Prod.map]
    exact (writes_filter ts s).2
  | reset => exact hfilter
  | _ => exact hfilter.trans hnone

/-- A filter in working order, with the parameters it was created with. -/
structure Fitted (maxSize bitCount : ℕ) (f : DedupFilter) : Prop where
  linked : f.Linked
  sized : f.maxSize = maxSize
  bits : f.bloomBitCount = bitCount

theorem Fitted.insert {maxSize bitCount : ℕ} {f : DedupFilter} (h : Fitted maxSize bitCount f)
    (hash : String → ℕ → ℕ) (uid : String) : Fitted maxSize bitCount (f.insert hash uid).2 := by
  obtain ⟨-, -, hlinked⟩ := h.linked.insert hash uid
  obtain ⟨hmax, hbits, -⟩ := DedupFilter.insert_frame hash h.linked uid
  exact ⟨hlinked, hmax.trans h.sized, hbits.trans h.bits⟩

theorem Fitted.insertAll {maxSize bitCount : ℕ} {f : DedupFilter} (h : Fitted maxSize bitCount f)
    (env : Env) (ts : List Trajectory) : Fitted maxSize bitCount (insertAll env ts f) := by
  induction ts generalizing f with
  | nil => exact h
  | cons t ts ih => exact ih (h.insert _ t.uid)

theorem Fitted.clear {maxSize bitCount : ℕ} {f : DedupFilter} (h : Fitted maxSize bitCount f) :
    Fitted maxSize bitCount f.clear :=
  ⟨f.clear_linked, h.sized, List.length_replicate.trans h.bits⟩

theorem Fitted.exec {maxSize bitCount : ℕ} (h : Fitted maxSize bitCount s.dedupFilter)
    (hr : env.Reliable) (hs : s.Settled env) (op : Op) :
    Fitted maxSize bitCount (s.exec env op).2.dedupFilter := by
  rw [exec_filter hr hs op]
  split
  · exact h.clear
  · split
    · exact h.insertAll env _
    · exact h

end Filter

section Reset

/-- What the outside of a fresh shard has in common with that of a shard just reset: the sizes
and fractions, the clock up to its origin, the order in which new groups are placed, and a
working disk. Hashes and file ids may be others. -/
structure Renews (env env' : Env) (s : BufferShard) : Prop where
  reliable : env'.Reliable
  bytes : env'.byteSizeLong = env.byteSizeLong
  fractions : env'.memoryBytes = env.memoryBytes
  clock : ∃ shift, ∀ k, env'.now k - shift = env.now (s.clockReads + k)
  place : ∀ events, env'.place events = env.place (events ++ s.groups.history)

/-- The same uids in the same order, whatever the nodes and the bits. -/
def renewal (env env' : Env) (bytes : env'.byteSizeLong = env.byteSizeLong)
    (fractions : env'.memoryBytes = env.memoryBytes) (shift : ℤ) (maxSize bitCount : ℕ) :
    Correspondence ℤ where
  env
  env'
  seen now := now
  seen' now := now - shift
  filters f f' := Fitted maxSize bitCount f ∧ Fitted maxSize bitCount f' ∧ f'.uids = f.uids
  admitted _ := True
  bytes
  fractions
  size_eq := by
    rintro f f' ⟨h, h', huids⟩
    have hlength := congrArg List.length huids
    rw [DedupFilter.uids, DedupFilter.uids, List.length_map, List.length_map] at hlength
    rw [DedupFilter.size, DedupFilter.size, h.linked.paired.length_eq,
      h'.linked.paired.length_eq, List.length_map, List.length_map, hlength]
  bits_eq := fun ⟨h, h', _⟩ => h'.bits.trans h.bits.symm
  insert_eq := by
    rintro f f' uid ⟨h, h', huids⟩ -
    obtain ⟨hanswer, htouch, -⟩ := h.linked.insert (DedupFilter.doubleHash env.stdHash) uid
    obtain ⟨hanswer', htouch', -⟩ := h'.linked.insert (DedupFilter.doubleHash env'.stdHash) uid
    refine ⟨?_, h.insert _ uid, h'.insert _ uid, ?_⟩
    · rw [hanswer, hanswer', huids]
    · rw [htouch, htouch', huids, h.sized, h'.sized]
  clear_eq := fun ⟨h, h', _⟩ => ⟨h.clear, h'.clear, rfl⟩

theorem renewal_timed {env env' : Env} (bytes : env'.byteSizeLong = env.byteSizeLong)
    (fractions : env'.memoryBytes = env.memoryBytes) (shift : ℤ) (maxSize bitCount : ℕ) :
    Timed (renewal env env' bytes fractions shift maxSize bitCount) := by
  intro now now' born born' hnow hborn
  simp only [renewal] at hnow hborn
  omega

/-- What a run keeps as long as no reset loses a file. -/
structure Tracked (env : Env) (s : BufferShard) : Prop where
  settled : s.Settled env
  whole : s.diskStorage.Whole
  accounts : s.Accounts []

theorem Tracked.create (config : TransferQueueConfig) (bitCount numHashes : ℕ) :
    (BufferShard.create config bitCount numHashes).Tracked env :=
  ⟨.create .., fun _ h => (nomatch h), fun _ h => absurd rfl h⟩

theorem Tracked.exec (hr : env.Reliable) (h : s.Tracked env) {op : Op} (hop : s.Clears op) :
    (s.exec env op).2.Tracked env :=
  ⟨(exec_refines hr h.settled op).2.1, exec_disk (.spill hr) .load .remove s h.whole op,
    h.accounts.exec hr h.settled hop⟩

theorem Tracked.files_eq_nil (h : s.Tracked env) (hnone : s.groups.entries = []) :
    s.diskStorage.files = [] := by
  refine List.eq_nil_iff_forall_not_mem.mpr fun f hf => ?_
  have hheld := (h.accounts f.1 (h.whole.find hf)).resolve_right List.not_mem_nil
  rw [diskOffsets, hnone] at hheld
  cases hheld

/-- A file has been lost. -/
structure Littered (env : Env) (s : BufferShard) : Prop where
  settled : s.Settled env
  lost : ∃ offset, s.Lost env offset

theorem Littered.exec (hr : env.Reliable) (h : s.Littered env) (op : Op) :
    (s.exec env op).2.Littered env :=
  ⟨(exec_refines hr h.settled op).2.1, h.lost.imp fun _ hlost => hlost.exec hr h.settled op⟩

theorem Tracked.littered (hr : env.Reliable) (h : s.Tracked env) {op : Op} (hop : ¬s.Clears op) :
    (s.exec env op).2.Littered env := by
  refine ⟨(exec_refines hr h.settled op).2.1, ?_⟩
  cases op with
  | reset => exact lost_of_reset hr h.settled hop
  | _ => exact absurd trivial hop

theorem Littered.files_ne_nil (h : s.Littered env) : s.diskStorage.files ≠ [] := by
  obtain ⟨offset, hlost⟩ := h.lost
  intro hnone
  refine absurd ?_ hlost.found
  rw [DiskStorage.find, hnone]
  rfl

/-- The directory after a run that ends with a reset: empty, unless a reset of the run has met
two groups on disk. -/
theorem files_after_reset (hr : env.Reliable) (config : TransferQueueConfig)
    (bitCount numHashes : ℕ) (ops : List Op) :
    ((create config bitCount numHashes).run env (ops ++ [.reset])).diskStorage.files = [] ↔
      Machine.Along (exec env) Clears (create config bitCount numHashes) (ops ++ [.reset]) := by
  have hstart : (create config bitCount numHashes).Tracked env := .create ..
  have hentries : ((create config bitCount numHashes).run env
      (ops ++ [.reset])).groups.entries = [] := by
    rw [run, Machine.final_append]
    rfl
  constructor
  · intro hnone
    rcases Machine.along_or_marked (Tracked env) (Littered env) (fun _ _ h hop => h.exec hr hop)
      (fun _ _ h hop => h.littered hr hop) (fun _ op h => h.exec hr op) (ops ++ [.reset])
      hstart with hrun | hlittered
    · exact hrun.1
    · exact absurd hnone hlittered.files_ne_nil
  · intro halong
    obtain ⟨-, htracked⟩ := Machine.along_of_inv (Tracked env)
      (fun _ _ h hop => ⟨hop, h.exec hr hop⟩) (ops ++ [.reset]) hstart halong
    exact htracked.files_eq_nil hentries

theorem run_kept (hr : env.Reliable) (config : TransferQueueConfig) (bitCount numHashes : ℕ)
    (ops : List Op) :
    ((create config bitCount numHashes).run env ops).Settled env ∧
      Fitted 100000 bitCount ((create config bitCount numHashes).run env ops).dedupFilter := by
  refine @Machine.final_inv _ _ _ (BufferShard.exec env) (fun s : BufferShard => s.Settled env ∧
    Fitted 100000 bitCount s.dedupFilter) (fun s op ⟨hs, hfilter⟩ => ?_)
    ops _ ⟨.create .., ?_⟩
  · obtain ⟨-, hs', -⟩ := exec_refines hr hs op
    exact ⟨hs', hfilter.exec hr hs op⟩
  · exact ⟨DedupFilter.create_linked .., rfl, List.length_replicate⟩

/-- Two shards that no later operation tells apart. -/
structure GoesOnAs (env env' : Env) (s fresh : BufferShard) : Prop where
  status : fresh.getStatus env' = s.getStatus env
  metaInfo : fresh.getMetaInfo = s.getMetaInfo
  results : ∀ later, Machine.outputs (report env') fresh later =
    Machine.outputs (report env) s later

/-- Reset is a fresh start, but for the files. After any run followed by a reset the counts are
those of a shard newly created with the configuration of the moment, and every later sequence of
operations has the same results and shows the same counts as it would have and show there. No
file is left exactly if every reset of the run has met at most one group on disk. -/
theorem reset_starts_afresh_iff (hr : env.Reliable) {env' : Env} {config : TransferQueueConfig}
    {bitCount numHashes : ℕ} {ops : List Op}
    (hrenews : Renews env env' ((create config bitCount numHashes).run env (ops ++ [.reset]))) :
    let s := (create config bitCount numHashes).run env (ops ++ [.reset])
    let fresh := create s.config bitCount numHashes
    GoesOnAs env env' s fresh ∧
      (GoesOnAs env env' s fresh ∧ s.diskStorage.files = [] ↔
        Machine.Along (exec env) Clears (create config bitCount numHashes) (ops ++ [.reset])) := by
  intro s fresh
  have hlast : s = (((create config bitCount numHashes).run env ops).reset env).2 := by
    simp only [s, run, Machine.final_append]
    rfl
  obtain ⟨hs, hfitted⟩ := run_kept hr config bitCount numHashes (ops ++ [.reset])
  obtain ⟨d', hstate⟩ := reset_state env ((create config bitCount numHashes).run env ops)
  rw [← hlast] at hstate
  obtain ⟨shift, hclock⟩ := hrenews.clock
  have hgroups := congrArg BufferShard.groups hstate
  have hcleared := congrArg BufferShard.dedupFilter hstate
  let c := renewal env env' hrenews.bytes hrenews.fractions shift 100000 bitCount
  have halike : s.Alike c fresh := {
    config := rfl
    filter := by
      refine ⟨hfitted, ⟨DedupFilter.create_linked .., rfl, List.length_replicate⟩, ?_⟩
      rw [hcleared]
      rfl
    groups := by
      refine ⟨?_, fun events =>
        (congrArg env'.place (List.append_nil events)).trans (hrenews.place events)⟩
      rw [holdings, holdings, hgroups]
      rfl
    totalTrajectories := (congrArg BufferShard.totalTrajectories hstate).symm
    totalConsumed := (congrArg BufferShard.totalConsumed hstate).symm
    diskUsageBytes := (congrArg BufferShard.diskUsageBytes hstate).symm
    clock := fun k => (congrArg (fun n => env'.now n - shift) (Nat.zero_add k)).trans (hclock k)
    faults := Alike.faults_of_reliable (c := c) hr hrenews.reliable _ _
    started := hs.initialized.symm
    filed := .of_settled hs
    filed' := .of_settled (.create ..) }
  have hstep : InStep c s fresh := ⟨halike, hs, .create ..⟩
  have hsame : GoesOnAs env env' s fresh := ⟨hstep.alike.getStatus, hstep.alike.getMetaInfo,
    fun later => hstep.reports (renewal_timed _ _ _ _ _) hr hrenews.reliable fun op _ => by
      cases op <;> simp [Alike.Admits, c, renewal]⟩
  refine ⟨hsame, ?_⟩
  rw [← files_after_reset hr config bitCount numHashes ops]
  exact and_iff_right hsame

/-- Two groups of an instance each are on disk when `reset` is called: it reads the name of the
second file in freed memory, fails, and leaves that file behind. -/
theorem reset_leaves_file :
    let s := (create (.tight 1) 0 0).run (.sample [])
      [.write (.bare "u" "a"), .write (.bare "u" "b")]
    (s.reset (.sample [])).1 = .error .useAfterFree ∧
      (s.reset (.sample [])).2.groups.entries = [] ∧
      (s.reset (.sample [])).2.diskStorage.files ≠ [] := by
  decide +kernel

/-- The sample environment, met by another process: other clock, other file ids. -/
def laterSample : Env :=
  { Env.sample [] with
    now := fun _ => 5
    spillId := fun k => k + 10
    spillId_pos := fun k => Nat.succ_pos (k + 9)
    spillId_strictMono := fun _ _ h => Nat.add_lt_add_right h 10 }

theorem laterSample_renews (s : BufferShard) : Renews (.sample []) laterSample s :=
  ⟨fun _ => rfl, rfl, rfl, ⟨5, fun _ => rfl⟩, fun _ => rfl⟩

/-- A group has been spilled and its uid seen before the reset. -/
theorem reset_starts_afresh_spilled :
    let config : TransferQueueConfig := { groupSize := 1, maxMemoryBytes := 8 }
    let s := (create config 64 1).run (.sample []) ([.write (.bare "u" "a")] ++ [.reset])
    let fresh := create s.config 64 1
    (Env.sample []).Reliable ∧ Renews (.sample []) laterSample s ∧
      GoesOnAs (.sample []) laterSample s fresh ∧ s.diskStorage.files = [] := by
  intro config s fresh
  have hclears : Machine.Along (exec (.sample [])) Clears (create config 64 1)
      ([.write (.bare "u" "a")] ++ [.reset]) := by decide +kernel
  have hiff := reset_starts_afresh_iff Env.sample_reliable (laterSample_renews s)
  exact ⟨Env.sample_reliable, laterSample_renews s, hiff.2.mpr hclears⟩

end Reset

end BufferShard
end TransferQueue
