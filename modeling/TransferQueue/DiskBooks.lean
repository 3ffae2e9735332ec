import Mathlib.Algebra.BigOperators.Group.Finset.Basic
import Mathlib.Algebra.Order.BigOperators.Group.List
import Mathlib.Algebra.Order.Group.Int
import TransferQueue.ProtocolSteps
import TransferQueue.Statistics

/-! The books a shard keeps of its files. An entry on disk is open until a read takes
its file; the counter of bytes is the total of the open entries, each of which describes
its file, and every other file is loose: some operation has yet to commit or remove it.
Each part of an operation keeps the books. -/

namespace TransferQueue
open UnorderedMap

/-- The cached fields of an entry are those of the group in its file. -/
def GroupEntry.Describes (env : Env) (d : DiskStorage) (e : GroupEntry) : Prop :=
  ∃ group, d.find e.diskOffset = some group ∧ e.cachedSize = group.trajectories.length ∧
    e.cachedBytes = env.byteSizeLong group

/-- The names of the files, whatever is in them. -/
def DiskStorage.names (d : DiskStorage) : List ℕ := d.files.map Prod.fst

theorem DiskStorage.mem_names {d : DiskStorage} {offset : ℕ} :
    offset ∈ d.names ↔ d.has offset = true := by
  simp [names, has]

theorem DiskStorage.mem_names_of_find {d : DiskStorage} {offset : ℕ} (h : d.find offset ≠ none) :
    offset ∈ d.names := mem_names.mpr (has_of_find h)

namespace BufferShard

variable {env : Env} {s s' : BufferShard} {taken taken' loose loose' : List ℕ} {id : String}
  {offset : ℕ}

/-- The entries on disk whose files are not among those taken. -/
def openEntries (s : BufferShard) (taken : List ℕ) : Finset (String × GroupEntry) :=
  (s.groups.entries.filter fun p => p.2.isOnDisk && decide (p.2.diskOffset ∉ taken)).toFinset

theorem mem_openEntries {p : String × GroupEntry} :
    p ∈ s.openEntries taken ↔
      p ∈ s.groups.entries ∧ p.2.isOnDisk = true ∧ p.2.diskOffset ∉ taken := by
  simp [openEntries]

theorem openEntries_congr
    (h : ∀ id e, e.isOnDisk = true → ((id, e) ∈ s'.groups.entries ∧ e.diskOffset ∉ taken' ↔
      (id, e) ∈ s.groups.entries ∧ e.diskOffset ∉ taken)) :
    s'.openEntries taken' = s.openEntries taken := by
  ext ⟨id, e⟩
  rw [mem_openEntries, mem_openEntries]
  have hiff := h id e
  tauto

def HoldsLike (env : Env) (s : BufferShard) (id : String) (group : TrajectoryGroup) : Prop :=
  ∃ e ∈ s.groups.get? id, ∃ held ∈ e.groupPtr,
    held.trajectories.length = group.trajectories.length ∧
      env.byteSizeLong held = env.byteSizeLong group

instance (s : BufferShard) (id : String) (group : TrajectoryGroup) :
    Decidable (s.HoldsLike env id group) := inferInstanceAs (Decidable (∃ e ∈ _, ∃ held ∈ _, _ ∧ _))

theorem sum_filter_toFinset {entries : List (String × GroupEntry)}
    (hnodup : (entries.map Prod.fst).Nodup) (P : String × GroupEntry → Bool) :
    ∑ p ∈ (entries.filter P).toFinset, p.2.cachedBytes =
      ((entries.filter P).map fun p => p.2.cachedBytes).sum :=
  List.sum_toFinset _ (hnodup.of_map.filter _)

structure Booked (env : Env) (s : BufferShard) (taken loose : List ℕ) : Prop where
  usage : s.diskUsageBytes = ∑ p ∈ s.openEntries taken, p.2.cachedBytes
  described : ∀ p ∈ s.openEntries taken, p.2.Describes env s.diskStorage
  owned : ∀ offset ∈ s.diskStorage.names,
    (∃ p ∈ s.openEntries taken, p.2.diskOffset = offset) ∨ offset ∈ loose
  nodup : s.diskStorage.names.Nodup

namespace Booked

theorem create (env : Env) (config : TransferQueueConfig) (bitCount numHashes : ℕ) :
    (BufferShard.create config bitCount numHashes).Booked env [] [] where
  usage := rfl
  described _ h := nomatch (mem_openEntries.mp h).1
  owned _ h := nomatch h
  nodup := .nil

theorem keep (h : s.Booked env taken loose)
    (hopen : s'.openEntries taken' = s.openEntries taken)
    (husage : s'.diskUsageBytes = s.diskUsageBytes)
    (hfiles : s'.diskStorage.files = s.diskStorage.files)
    (hloose : ∀ offset ∈ loose, offset ∈ s.diskStorage.names → offset ∈ loose') :
    s'.Booked env taken' loose' where
  usage := by rw [husage, hopen, h.usage]
  described p hp := by
    obtain ⟨group, hfind, hsize, hbytes⟩ := h.described p (hopen ▸ hp)
    exact ⟨group, (DiskStorage.find_congr hfiles _).trans hfind, hsize, hbytes⟩
  owned offset hfile := by
    rw [DiskStorage.names, hfiles] at hfile
    rw [hopen]
    exact (h.owned offset hfile).imp_right fun hin => hloose offset hin hfile
  nodup := by
    rw [DiskStorage.names, hfiles]
    exact h.nodup

theorem mono (h : s.Booked env taken loose)
    (htaken : ∀ id e, (id, e) ∈ s.groups.entries → e.isOnDisk = true →
      (e.diskOffset ∈ taken' ↔ e.diskOffset ∈ taken))
    (hloose : ∀ offset ∈ loose, offset ∈ s.diskStorage.names → offset ∈ loose') :
    s.Booked env taken' loose' := by
  refine h.keep (openEntries_congr fun id e hon => ?_) rfl rfl hloose
  exact and_congr_right fun hmem => not_congr (htaken id e hmem hon)

theorem of_onDisk (h : s.Booked env taken loose)
    (hentries : ∀ id e, e.isOnDisk = true →
      ((id, e) ∈ s'.groups.entries ↔ (id, e) ∈ s.groups.entries))
    (husage : s'.diskUsageBytes = s.diskUsageBytes) (hdisk : s'.diskStorage = s.diskStorage) :
    s'.Booked env taken loose :=
  h.keep (openEntries_congr fun id e hon => and_congr_left fun _ => hentries id e hon) husage
    (by rw [hdisk]) fun _ hin _ => hin

section Memory

theorem mem_set_onDisk {e e₀ e' : GroupEntry} {id' : String} (he : s.groups.get? id = some e₀)
    (hold : e₀.isOnDisk = false) (hnew : e'.isOnDisk = false) (hon : e.isOnDisk = true) :
    (id', e) ∈ (s.groups.set id e').entries ↔ (id', e) ∈ s.groups.entries := by
  rw [mem_set]
  constructor
  · rintro (⟨-, rfl, -⟩ | ⟨-, hmem⟩)
    · exact absurd hon (by simp [hnew])
    · exact hmem
  · intro hmem
    refine .inr ⟨?_, hmem⟩
    rintro rfl
    rw [get?_eq_some_iff.mpr hmem] at he
    cases he
    exact absurd hon (by simp [hold])

theorem addTrajectory (h : s.Booked env taken loose) (t : Trajectory) :
    (s.addTrajectory env t).2.Booked env taken loose := by
  cases he : s.groups.get? t.instanceId with
  | none =>
    rw [addTrajectory_new he]
    refine h.of_onDisk (fun id e hon => ?_) rfl rfl
    simp only [mem_insert _ (get?_eq_none_iff.mp he), Prod.mk.injEq, or_iff_right_iff_imp]
    rintro ⟨-, rfl⟩
    exact absurd hon (by simp [newEntry, GroupEntry.isOnDisk])
  | some e =>
    have hset : ∀ {e' : GroupEntry}, e.isOnDisk = false → e'.groupPtr ≠ none →
        ∀ id e₁, e₁.isOnDisk = true →
          ((id, e₁) ∈ (s.groups.set t.instanceId e').entries ↔ (id, e₁) ∈ s.groups.entries) :=
      fun hold hptr _ _ hon =>
        mem_set_onDisk he hold (GroupEntry.not_isOnDisk_of_some hptr) hon
    cases hp : e.groupPtr with
    | some g =>
      rw [addTrajectory_memory he hp]
      exact h.of_onDisk (hset (GroupEntry.not_isOnDisk_of_some (by simp [hp])) (by simp)) rfl rfl
    | none =>
      by_cases ho : e.diskOffset = 0
      · rw [addTrajectory_empty he hp ho]
        exact h.of_onDisk (hset (by simp [GroupEntry.isOnDisk, ho]) (by simp [newEntry])) rfl rfl
      · rw [addTrajectory_onDisk he (GroupEntry.isOnDisk_iff.mpr ⟨Nat.pos_of_ne_zero ho, hp⟩)]
        exact h

theorem writeStart (h : s.Booked env taken loose) (t : Trajectory) :
    (s.writeStart env t).2.Booked env taken loose := by
  have hdedup : (s.dedup env t.uid).2.Booked env taken loose := by
    refine h.of_onDisk (fun _ _ _ => by rw [dedup_groups]) ?_ (dedup_diskStorage ..)
    rw [dedup]
    split <;> rfl
  exact writeStart_keeps (P := fun s => s.Booked env taken loose) hdedup
    fun h => h.addTrajectory t

theorem expire (h : s.Booked env taken loose) :
    (s.checkGroupTimeouts env).Booked env taken loose := by
  have hsame : ∀ {e : GroupEntry}, e.isOnDisk = true → s.expireEntry env e = e := by
    intro e hon
    obtain ⟨-, hnone⟩ := GroupEntry.isOnDisk_iff.mp hon
    simp [expireEntry, GroupEntry.isComplete, hnone]
  refine h.of_onDisk (fun id e hon => ?_) rfl rfl
  change (id, e) ∈ (s.groups.mapValues fun _ e => s.expireEntry env e).entries ↔ _
  simp only [mapValues_entries, List.mem_map, Prod.mk.injEq, Prod.exists]
  constructor
  · rintro ⟨_, e₀, hmem, rfl, rfl⟩
    rw [expireEntry_isOnDisk] at hon
    rwa [hsame hon]
  · exact fun hmem => ⟨id, e, hmem, rfl, hsame hon⟩

end Memory

section Closing

theorem mem_afterScan_onDisk (hs : s.Clean) (maxGroups : Int32) {e : GroupEntry}
    (hon : e.isOnDisk = true) :
    (id, e) ∈ (s.afterScan maxGroups).groups.entries ↔ (id, e) ∈ s.groups.entries := by
  have hsame : ∀ {e₀ : GroupEntry}, e₀.groupPtr = none → { e₀ with groupPtr := none } = e₀ :=
    fun hnone => by rw [← hnone]
  obtain ⟨hpos, hnone⟩ := GroupEntry.isOnDisk_iff.mp hon
  simp only [BufferShard.afterScan, mapValues_entries, List.mem_map, Prod.mk.injEq, Prod.exists]
  constructor
  · rintro ⟨_, e₀, hmem, rfl, heq⟩
    split at heq
    · have hptr : e₀.groupPtr = none := by
        by_contra hne
        subst heq
        exact absurd hpos (by simp [hs _ _ hmem hne])
      rwa [← heq, hsame hptr]
    · rwa [← heq]
  · refine fun hmem => ⟨id, e, hmem, rfl, ?_⟩
    split
    · exact hsame hnone
    · rfl

theorem openEntries_afterScan (hs : s.Clean) (exclusive : s.Exclusive) (maxGroups : Int32)
    (taken : List ℕ) :
    (s.afterScan maxGroups).openEntries (filesOf (s.selected maxGroups) ++ taken) =
      s.openEntries taken \ ((s.selected maxGroups).filter fun p => p.2.isOnDisk).toFinset := by
  ext ⟨id, e⟩
  rw [Finset.mem_sdiff, mem_openEntries, mem_openEntries, List.mem_toFinset, List.mem_filter,
    List.mem_append, not_or]
  by_cases hon : e.isOnDisk = true
  · have hfile : e.diskOffset ∈ filesOf (s.selected maxGroups) →
        (id, e) ∈ s.groups.entries → (id, e) ∈ s.selected maxGroups := by
      intro hfile hmem
      by_contra hnot
      refine exclusive.not_mem_filesOf (fun p hp => (mem_of_selected hp).1) hmem (fun hin => ?_)
        (GroupEntry.isOnDisk_iff.mp hon).1 hfile
      obtain ⟨⟨id', e'⟩, hsel, rfl⟩ := List.mem_map.mp hin
      exact hnot (value_unique (mem_of_selected hsel).1 hmem ▸ hsel)
    have hfile' : (id, e) ∈ s.selected maxGroups →
        e.diskOffset ∈ filesOf (s.selected maxGroups) := fun hsel =>
      mem_filesOf.mpr ⟨id, e, hsel, hon, rfl⟩
    have hiff : (id, e) ∈ (s.afterScan maxGroups).groups.entries ↔ (id, e) ∈ s.groups.entries :=
      mem_afterScan_onDisk hs maxGroups hon
    tauto
  · simp [hon]

theorem openEntries_erase {e : GroupEntry} (hmem : (id, e) ∈ s.groups.entries) (taken : List ℕ)
    (hgroups : s'.groups = s.groups.erase id) :
    s'.openEntries taken = s.openEntries taken \ {(id, e)} := by
  ext ⟨id', e'⟩
  rw [Finset.mem_sdiff, Finset.mem_singleton, mem_openEntries, mem_openEntries, hgroups, mem_erase]
  have hkey : (id', e') ∈ s.groups.entries → (id' ≠ id ↔ (id', e') ≠ (id, e)) := by
    intro hmem'
    refine ⟨fun hne heq => hne (Prod.mk.inj heq).1, fun hne heq => ?_⟩
    subst heq
    exact hne (by rw [value_unique hmem' hmem])
  tauto

/-- Closing entries: their bytes leave the counter and their files become loose. -/
theorem close (h : s.Booked env taken loose) {closed : Finset (String × GroupEntry)}
    (hsub : closed ⊆ s.openEntries taken)
    (hopen : s'.openEntries taken' = s.openEntries taken \ closed)
    (husage : s'.diskUsageBytes = s.diskUsageBytes - ∑ p ∈ closed, p.2.cachedBytes)
    (hdisk : s'.diskStorage = s.diskStorage) (hclosed : ∀ p ∈ closed, p.2.diskOffset ∈ loose')
    (hloose : ∀ offset ∈ loose, offset ∈ loose') : s'.Booked env taken' loose' where
  usage := by
    have hsum := Finset.sum_sdiff (f := fun p : String × GroupEntry => p.2.cachedBytes) hsub
    rw [hopen, eq_sub_of_add_eq hsum, husage, h.usage]
  described p hp := hdisk ▸ h.described p (Finset.sdiff_subset (hopen ▸ hp))
  owned offset hfile := by
    rw [hopen]
    rcases h.owned offset (hdisk ▸ hfile) with ⟨p, hp, rfl⟩ | hin
    · by_cases hc : p ∈ closed
      · exact .inr (hclosed p hc)
      · exact .inl ⟨p, Finset.mem_sdiff.mpr ⟨hp, hc⟩, rfl⟩
    · exact .inr (hloose offset hin)
  nodup := hdisk ▸ h.nodup

theorem afterScan (h : s.Booked env taken loose) (hs : s.Clean) (exclusive : s.Exclusive)
    {maxGroups : Int32}
    (hfree : ∀ p ∈ s.selected maxGroups, p.2.isOnDisk = true → p.2.diskOffset ∉ taken) :
    (s.afterScan maxGroups).Booked env (filesOf (s.selected maxGroups) ++ taken)
      (filesOf (s.selected maxGroups) ++ loose) := by
  have hmem : ∀ {p}, p ∈ ((s.selected maxGroups).filter fun p => p.2.isOnDisk).toFinset →
      p ∈ s.selected maxGroups ∧ p.2.isOnDisk = true := by
    simp
  refine h.close (fun p hp => ?_) (openEntries_afterScan hs exclusive maxGroups taken) ?_ rfl
    (fun p hp => ?_) fun offset hin => List.mem_append_right _ hin
  · obtain ⟨hsel, hon⟩ := hmem hp
    exact mem_openEntries.mpr ⟨(mem_of_selected hsel).1, hon, hfree p hsel hon⟩
  · rw [sum_filter_toFinset (selected_ids_nodup maxGroups s)]
    rfl
  · obtain ⟨hsel, hon⟩ := hmem hp
    exact List.mem_append_left _ (mem_filesOf.mpr ⟨p.1, p.2, hsel, hon, rfl⟩)

theorem deleteEntry (h : s.Booked env taken loose) (id : String)
    (hfree : ∀ e ∈ s.groups.get? id, e.isOnDisk = true → e.diskOffset ∉ taken) :
    (s.deleteEntry id).2.Booked env taken ((s.deleteEntry id).1.toList ++ loose) := by
  rw [BufferShard.deleteEntry]
  cases he : s.groups.get? id with
  | none => exact h
  | some e =>
    have hmem := get?_eq_some_iff.mp he
    cases hon : e.isOnDisk with
    | false =>
      simp only [hon, Bool.false_eq_true, if_false]
      refine h.of_onDisk (fun id' e' hon' => ?_) rfl rfl
      rw [mem_erase, and_iff_left_iff_imp]
      rintro hmem' rfl
      rw [value_unique hmem' hmem] at hon'
      exact absurd hon' (by simp [hon])
    | true =>
      simp only [hon, if_true]
      refine h.close (Finset.singleton_subset_iff.mpr ?_) (openEntries_erase hmem taken rfl) ?_ rfl
        (fun p hp => ?_) fun offset hin => List.mem_append_right _ hin
      · exact mem_openEntries.mpr ⟨hmem, hon, hfree e he hon⟩
      · rw [Finset.sum_singleton]
      · rw [Finset.mem_singleton.mp hp]
        exact List.mem_append_left _ (List.mem_cons_self ..)

theorem clearAll (h : s.Booked env taken loose) :
    s.clearAll.Booked env taken (s.diskOffsets ++ loose) := by
  refine h.close (Finset.Subset.refl (s.openEntries taken)) ?_ ?_ rfl (fun p hp => ?_)
    fun offset hin => List.mem_append_right _ hin
  · rw [Finset.sdiff_self]
    rfl
  · rw [← h.usage, sub_self]
    rfl
  · obtain ⟨hmem, hon, -⟩ := mem_openEntries.mp hp
    exact List.mem_append_left _ (mem_filesOf.mpr ⟨p.1, p.2, hmem, hon, rfl⟩)

theorem eraseIds (h : s.Booked env taken loose) {ids : List String}
    (hclosed : ∀ p ∈ s.groups.entries, p.1 ∈ ids → p.2.isOnDisk = true →
      p.2.diskOffset ∈ taken) : (s.eraseIds ids).Booked env taken loose := by
  refine h.keep (openEntries_congr fun id e hon => ?_) rfl rfl fun _ hin _ => hin
  rw [BufferShard.eraseIds, mem_eraseAll]
  have hid := hclosed (id, e)
  tauto

end Closing

section Opening

theorem openEntries_commit {e e' : GroupEntry} (hmem : (id, e) ∈ s.groups.entries)
    (hold : e.isOnDisk = false) (hon : e'.isOnDisk = true) (hfree : e'.diskOffset ∉ taken)
    (hgroups : s'.groups = s.groups.set id e') :
    s'.openEntries taken = insert (id, e') (s.openEntries taken) := by
  ext ⟨id', e''⟩
  rw [Finset.mem_insert, mem_openEntries, mem_openEntries, hgroups, mem_set, Prod.mk.injEq]
  constructor
  · rintro ⟨⟨rfl, rfl, -⟩ | ⟨-, hother⟩, hrest⟩
    · exact .inl ⟨rfl, rfl⟩
    · exact .inr ⟨hother, hrest⟩
  · rintro (⟨rfl, rfl⟩ | ⟨hother, hon', hrest⟩)
    · exact ⟨.inl ⟨rfl, rfl, mem_keys.mpr ⟨e, hmem⟩⟩, hon, hfree⟩
    · refine ⟨.inr ⟨?_, hother⟩, hon', hrest⟩
      rintro rfl
      rw [value_unique hother hmem, hold] at hon'
      cases hon'

/-- A commit opens an entry for a loose file that holds a group like the one in memory. -/
theorem commitEntry (h : s.Booked env taken (offset :: loose)) {group : TrajectoryGroup}
    (hheld : s.HoldsLike env id group) (hfile : s.diskStorage.find offset = some group)
    (hpos : 0 < offset) (hfree : offset ∉ taken) :
    (s.commitEntry env id offset).Booked env taken loose := by
  obtain ⟨e, he, held, hp, hsize, hbytes⟩ := hheld
  rw [Option.mem_def] at he hp
  have hmem := get?_eq_some_iff.mp he
  have hold : e.isOnDisk = false := GroupEntry.not_isOnDisk_of_some (by simp [hp])
  have hon : (committed env e offset).isOnDisk = true := GroupEntry.isOnDisk_iff.mpr ⟨hpos, rfl⟩
  have hdescribes : (committed env e offset).Describes env s.diskStorage :=
    ⟨group, hfile, by simp [committed, GroupEntry.trajectoriesSize, hp, hsize],
      by simp [committed, hp, hbytes]⟩
  have hnotin : (id, committed env e offset) ∉ s.openEntries taken := by
    intro hin
    rw [value_unique hmem (mem_openEntries.mp hin).1, hon] at hold
    cases hold
  have hopen : (s.commitEntry env id offset).openEntries taken =
      insert (id, committed env e offset) (s.openEntries taken) :=
    openEntries_commit hmem hold hon hfree (by rw [commitEntry_present he])
  obtain ⟨-, -, hdisk, -⟩ := commitEntry_frame env s id offset
  constructor
  case usage =>
    rw [hopen, Finset.sum_insert hnotin, ← h.usage, commitEntry_present he, add_comm]
  case described =>
    intro p hp'
    rw [hopen] at hp'
    rw [hdisk]
    rcases Finset.mem_insert.mp hp' with rfl | hin
    · exact hdescribes
    · exact h.described p hin
  case owned =>
    intro offset' hfile'
    rw [hopen]
    rcases h.owned offset' (hdisk ▸ hfile') with ⟨p, hin, rfl⟩ | hin
    · exact .inl ⟨p, Finset.mem_insert_of_mem hin, rfl⟩
    · rcases List.mem_cons.mp hin with rfl | hin
      · exact .inl ⟨_, Finset.mem_insert_self .., rfl⟩
      · exact .inr hin
  case nodup => exact hdisk ▸ h.nodup

theorem commits {written : List ((String × TrajectoryGroup) × ℕ)}
    (h : s.Booked env taken (written.map Prod.snd ++ loose))
    (hnodup : (written.map fun w => w.1.1).Nodup)
    (hheld : ∀ w ∈ written, s.HoldsLike env w.1.1 w.1.2)
    (hfile : ∀ w ∈ written, s.diskStorage.find w.2 = some w.1.2)
    (hpos : ∀ w ∈ written, 0 < w.2) (hfree : ∀ w ∈ written, w.2 ∉ taken) :
    (written.foldl (fun s w => s.commitEntry env w.1.1 w.2) s).Booked env taken loose := by
  induction written generalizing s with
  | nil => exact h
  | cons w written ih =>
    obtain ⟨hnotin, hnodup'⟩ := List.nodup_cons.mp hnodup
    obtain ⟨-, -, hdisk, -⟩ := commitEntry_frame env s w.1.1 w.2
    rw [List.forall_mem_cons] at hheld hfile hpos hfree
    refine ih (h.commitEntry hheld.1 hfile.1 hpos.1 hfree.1) hnodup' (fun w' hw' => ?_)
      (fun w' hw' => by rw [hdisk, hfile.2 w' hw']) hpos.2 hfree.2
    -- the groups of other instances stay where they are
    have hne : w'.1.1 ≠ w.1.1 := fun heq => hnotin (List.mem_map.mpr ⟨w', hw', heq⟩)
    rw [HoldsLike, commitEntry_get?_ne hne]
    exact hheld.2 w' hw'

end Opening

section Files
variable {d : DiskStorage}

theorem spilled (h : s.Booked env taken loose) {group : TrajectoryGroup}
    (hnew : offset ∉ s.diskStorage.names)
    (hfiles : d.files = (offset, some group) :: s.diskStorage.files) :
    ({ s with diskStorage := d } : BufferShard).Booked env taken (offset :: loose) where
  usage := h.usage
  described p hp := by
    obtain ⟨group', hfind, hrest⟩ := h.described p hp
    refine ⟨group', ?_, hrest⟩
    have hne : p.2.diskOffset ≠ offset := by
      intro heq
      exact hnew (heq ▸ DiskStorage.mem_names_of_find (by simp [hfind]))
    change d.find p.2.diskOffset = some group'
    rw [DiskStorage.find_write _ _ offset (some group) hfiles, if_neg hne, hfind]
  owned offset' hfile := by
    change offset' ∈ d.names at hfile
    rw [DiskStorage.names, hfiles, List.map_cons] at hfile
    rcases List.mem_cons.mp hfile with rfl | hold
    · exact .inr List.mem_cons_self
    · exact (h.owned offset' hold).imp_right (List.mem_cons_of_mem _)
  nodup := by
    change d.names.Nodup
    rw [DiskStorage.names, hfiles, List.map_cons, List.nodup_cons]
    exact ⟨hnew, h.nodup⟩

theorem removed (h : s.Booked env taken loose)
    (hfree : ∀ p ∈ s.openEntries taken, p.2.diskOffset ≠ offset)
    (hfiles : d.files = s.diskStorage.files.filter fun f => f.1 ≠ offset)
    (hloose : ∀ o ∈ loose, o = offset ∨ o ∈ loose') :
    ({ s with diskStorage := d } : BufferShard).Booked env taken loose' where
  usage := h.usage
  described p hp := by
    obtain ⟨group', hfind, hrest⟩ := h.described p hp
    refine ⟨group', ?_, hrest⟩
    rw [DiskStorage.find_delete _ _ offset hfiles, if_neg (hfree p hp), hfind]
  owned offset' hfile := by
    change offset' ∈ d.names at hfile
    rw [DiskStorage.names, hfiles] at hfile
    obtain ⟨f, hf, rfl⟩ := List.mem_map.mp hfile
    obtain ⟨hold, hne⟩ := List.mem_filter.mp hf
    have hname : f.1 ∈ s.diskStorage.names := List.mem_map_of_mem hold
    exact (h.owned f.1 hname).imp_right fun hin =>
      (hloose f.1 hin).resolve_left (of_decide_eq_true hne)
  nodup := by
    change d.names.Nodup
    rw [DiskStorage.names, hfiles]
    exact h.nodup.sublist (List.filter_sublist.map _)

end Files

end Booked
end BufferShard
end TransferQueue
