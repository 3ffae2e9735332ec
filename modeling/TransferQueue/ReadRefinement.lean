import TransferQueue.ReadOutcome

/-! Reading and managing a settled shard on a working disk, against its buffer. A
read delivers the groups the buffer gives away, those in memory first. -/

namespace TransferQueue
namespace BufferShard
open UnorderedMap

variable {env : Env}

section Read

theorem buffer_ready {s : BufferShard} (hs : s.Settled env) :
    s.buffer.ready = (s.groups.entries.filter fun p => p.2.isComplete).map fun p =>
      (p.1, storedOf s.diskStorage p.1 p.2) := by
  rw [Buffer.ready, buffer_groups, mapValues_entries, List.filter_map]
  congr 1
  apply List.filter_congr
  intro p hp
  obtain ⟨g, hg⟩ := hs.holds p.1 p.2 hp
  simp [storedOf_group hg, hg.isComplete_eq]

theorem buffer_selected {s : BufferShard} (hs : s.Settled env) (maxGroups : Int32) :
    s.buffer.selected maxGroups =
      (s.selected maxGroups).map fun p => (p.1, storedOf s.diskStorage p.1 p.2) := by
  rw [Buffer.selected, selected, selectedOf, limitTo_map, buffer_ready hs]

theorem stored_groups {d : DiskStorage} {taken : List (String × GroupEntry)}
    (h : ∀ p ∈ taken, ∃ g, p.2.Holds env d g) :
    (taken.filterMap fun p => p.2.group? d) = taken.map fun p => (storedOf d p.1 p.2).group := by
  rw [← List.filterMap_eq_map]
  apply List.filterMap_congr
  intro p hp
  obtain ⟨g, hg⟩ := h p hp
  simp [storedOf_group hg, hg.group?_eq]

theorem Settled.file_exists {s : BufferShard} (hs : s.Settled env)
    {taken : List (String × GroupEntry)} (hsub : ∀ p ∈ taken, p ∈ s.groups.entries) :
    ∀ offset ∈ filesOf taken, ∃ g, s.diskStorage.find offset = some g := by
  intro offset hoff
  obtain ⟨id, e, hmem, hon, rfl⟩ := mem_filesOf.mp hoff
  obtain ⟨g, hg⟩ := hs.holds id e (hsub _ hmem)
  cases hg with
  | memory ptr => simp [GroupEntry.isOnDisk, ptr] at hon
  | disk _ _ file => exact ⟨g, file⟩

theorem Settled.removed {s : BufferShard} (hs : s.Settled env)
    {taken : List (String × GroupEntry)} (hsub : ∀ p ∈ taken, p ∈ s.groups.entries)
    {d' : DiskStorage}
    (hfind : ∀ offset, d'.find offset =
      if offset ∈ filesOf taken then none else s.diskStorage.find offset)
    {id : String} {e : GroupEntry} (hmem : (id, e) ∈ s.groups.entries)
    (hid : id ∉ taken.map Prod.fst) (hpos : 0 < e.diskOffset) :
    d'.find e.diskOffset = s.diskStorage.find e.diskOffset := by
  rw [hfind, if_neg (hs.exclusive.not_mem_filesOf hsub hmem hid hpos)]

theorem Settled.erased {s t : BufferShard} (hs : s.Settled env)
    {taken : List (String × GroupEntry)} (hsub : ∀ p ∈ taken, p ∈ s.groups.entries)
    (hgroups : t.groups = s.groups.eraseAll (taken.map Prod.fst))
    (hinit : t.diskStorage.initialized = true)
    (hspills : t.diskStorage.spills = s.diskStorage.spills)
    (hfind : ∀ offset, t.diskStorage.find offset =
      if offset ∈ filesOf taken then none else s.diskStorage.find offset) :
    t.Settled env ∧ t.buffer.groups = s.buffer.groups.eraseAll (taken.map Prod.fst) := by
  have hkept : ∀ id e, (id, e) ∈ t.groups.entries →
      (id, e) ∈ s.groups.entries ∧ id ∉ taken.map Prod.fst := fun id e hmem =>
    (mem_eraseAll _).mp (hgroups ▸ hmem)
  have hfile : ∀ id e, (id, e) ∈ t.groups.entries → 0 < e.diskOffset →
      t.diskStorage.find e.diskOffset = s.diskStorage.find e.diskOffset := fun id e hmem hpos =>
    hs.removed hsub hfind (hkept id e hmem).1 (hkept id e hmem).2 hpos
  refine ⟨hs.shrink (fun p hp => (hkept p.1 p.2 hp).1) hinit hspills.ge hfile, ?_⟩
  rw [buffer_groups, buffer_groups, ← eraseAll_mapValues, ← hgroups]
  apply mapValues_congr
  intro id e hmem
  simp only [storedOf, GroupEntry.group?]
  cases e.groupPtr with
  | some g => rfl
  | none =>
    by_cases hpos : 0 < e.diskOffset
    · simp only [hpos, if_true, hfile id e hmem hpos]
    · simp only [hpos, if_false]

theorem readReadyGroups_ok (hr : env.Reliable) {s : BufferShard} (hs : s.Settled env)
    (maxGroups : Int32) :
    ∃ loaded d', s.readReadyGroups env maxGroups =
        (.ok ((s.scanOf maxGroups).result ++ loaded),
          eraseIds ((s.selected maxGroups).map Prod.fst)
            { mergeLoaded loaded (s.afterScan maxGroups) with diskStorage := d' }) ∧
      List.Forall₂ (fun offset g => s.diskStorage.find offset = some g)
        (filesOf (s.selected maxGroups)) loaded ∧
      d'.initialized = true ∧ d'.spills = s.diskStorage.spills ∧
      ∀ offset, d'.find offset =
        if offset ∈ filesOf (s.selected maxGroups) then none else s.diskStorage.find offset := by
  have hsub : ∀ p ∈ s.selected maxGroups, p ∈ s.groups.entries := fun p hp =>
    (mem_of_selected hp).1
  have hread : ∀ p ∈ s.selected maxGroups, p.2.Readable := fun p hp =>
    (hs.holds p.1 p.2 (hsub p hp)).elim fun _ hg => hg.readable
  have hserved : s.Served env maxGroups :=
    ⟨(DiskStorage.answers_of_reliable hr (hs.file_exists hsub)).1, fun _ _ => hr _⟩
  obtain ⟨hends, hinit, hspills, -⟩ :=
    readReadyGroups_ends env hs.initialized hs.exclusive maxGroups hread
  generalize s.readReadyGroups env maxGroups = r at hends hinit hspills ⊢
  cases hends with
  | failed _ _ _ hno => exact absurd hserved hno
  | delivered loaded d' _ files gone => exact ⟨loaded, d', rfl, files, hinit, hspills, gone⟩

/-- A read succeeds and takes from the buffer what it delivers. -/
theorem readReadyGroups_refines (hr : env.Reliable) {s : BufferShard} (hs : s.Settled env)
    (maxGroups : Int32) :
    ∃ result s', s.readReadyGroups env maxGroups = (.ok result, s') ∧ s'.Settled env ∧
      s'.config = s.config ∧ result.Perm (s.buffer.take maxGroups).1 ∧
      s'.buffer = (s.buffer.take maxGroups).2 := by
  have hsub : ∀ p ∈ s.selected maxGroups, p ∈ s.groups.entries := fun p hp =>
    (mem_of_selected hp).1
  obtain ⟨loaded, d', hok, files, hinit, hspills, hfind⟩ := readReadyGroups_ok hr hs maxGroups
  refine ⟨_, _, hok, ?_⟩
  obtain ⟨hsettled, hgroups⟩ := hs.erased
    (t := eraseIds ((s.selected maxGroups).map Prod.fst)
      { mergeLoaded loaded (s.afterScan maxGroups) with diskStorage := d' })
    hsub (afterScan_erased maxGroups s) hinit hspills hfind
  have hselected := buffer_selected hs maxGroups
  have hperm : ((s.scanOf maxGroups).result ++ loaded).Perm (s.buffer.take maxGroups).1 := by
    change (((s.selected maxGroups).filterMap fun p => p.2.groupPtr) ++ loaded).Perm
      ((s.buffer.selected maxGroups).map _)
    rw [hselected, List.map_map]
    exact (delivered_perm files).trans
      (.of_eq (stored_groups fun p hp => hs.holds p.1 p.2 (hsub p hp)))
  refine ⟨hsettled, rfl, hperm, Buffer.ext rfl rfl ?_ rfl ?_ rfl⟩
  · rw [hgroups]
    change _ = s.buffer.groups.eraseAll ((s.buffer.selected maxGroups).map Prod.fst)
    rw [hselected, List.map_map]
    rfl
  · have hconsumed := (hperm.map fun g => (g.trajectories.length : ℤ)).sum_eq
    have hsum := consumed_sum (s.selected maxGroups) loaded
    change (mergeLoaded _ _).totalConsumed = s.totalConsumed + List.sum _
    rw [mergeLoaded_eq]
    change s.totalConsumed + List.sum _ + List.sum _ = _
    rw [Int.add_assoc, hsum]
    congr 1
    refine hconsumed.trans ?_
    rw [Buffer.take, List.map_map]
    rfl

end Read

section Manage

theorem deleteInstance_groups (id : String) (s : BufferShard) :
    (s.deleteInstance env id).groups = s.groups.erase id := by
  rw [deleteInstance, deleteEntry]
  cases he : s.groups.get? id with
  | none => exact (erase_of_not_mem (get?_eq_none_iff.mp he)).symm
  | some e =>
    cases hd : e.isOnDisk <;> simp [hd]

theorem deleteInstance_disk (env : Env) {s : BufferShard}
    (hi : s.diskStorage.initialized = true) (id : String) :
    (s.deleteInstance env id).diskStorage.initialized = true ∧
      (s.deleteInstance env id).diskStorage.spills = s.diskStorage.spills ∧
      ∀ offset,
        (s.deleteInstance env id).diskStorage.find offset = s.diskStorage.find offset ∨
          (s.deleteInstance env id).diskStorage.find offset = none := by
  rw [deleteInstance, deleteEntry]
  cases he : s.groups.get? id with
  | none => exact ⟨hi, rfl, fun _ => .inl rfl⟩
  | some e =>
    cases hd : e.isOnDisk with
    | false =>
      simp only [hd, Bool.false_eq_true, if_false]
      exact ⟨hi, trivial, fun _ => .inl trivial⟩
    | true =>
      simp only [hd, if_true]
      obtain ⟨d', hinit, hspills, -, ⟨e', hremove, -, hfiles⟩ | ⟨hremove, -, hfiles⟩⟩ :=
        DiskStorage.remove_cases env hi e.diskOffset <;> rw [hremove]
      · exact ⟨hinit, hspills, fun offset => .inl (DiskStorage.find_congr hfiles offset)⟩
      · refine ⟨hinit, hspills, fun offset => ?_⟩
        rw [DiskStorage.find_delete s.diskStorage d' e.diskOffset hfiles]
        split
        · exact .inr rfl
        · exact .inl rfl

theorem deleteInstance_refines (hr : env.Reliable) {s : BufferShard} (hs : s.Settled env)
    (id : String) :
    (s.deleteInstance env id).Settled env ∧ (s.deleteInstance env id).config = s.config ∧
      (s.deleteInstance env id).buffer = s.buffer.delete id := by
  rw [deleteInstance, deleteEntry]
  cases he : s.groups.get? id with
  | none =>
    have hkey : id ∉ s.buffer.groups.keys := by
      rw [buffer_groups, mapValues_keys]
      exact get?_eq_none_iff.mp he
    refine ⟨hs, rfl, ?_⟩
    rw [Buffer.delete, erase_of_not_mem hkey]
  | some e =>
    have hmem := get?_eq_some_iff.mp he
    have hsub : ∀ p ∈ [(id, e)], p ∈ s.groups.entries := by simpa using hmem
    obtain ⟨g, hg⟩ := hs.holds id e hmem
    cases hg with
    | memory ptr =>
      have hoff : e.isOnDisk = false := by simp [GroupEntry.isOnDisk, ptr]
      simp only [hoff, Bool.false_eq_true, if_false]
      obtain ⟨hsettled, hgroups⟩ := hs.erased (t := { s with groups := s.groups.erase id }) hsub
        rfl hs.initialized rfl (fun offset => by simp [filesOf, hoff])
      exact ⟨hsettled, trivial, Buffer.ext rfl rfl hgroups rfl rfl rfl⟩
    | disk ptr offset file =>
      have hon : e.isOnDisk = true := GroupEntry.isOnDisk_iff.mpr ⟨offset, ptr⟩
      simp only [hon, if_true, DiskStorage.remove_ok hr hs.initialized file]
      obtain ⟨hsettled, hgroups⟩ := hs.erased (t := { s with
          diskUsageBytes := s.diskUsageBytes - e.cachedBytes
          groups := s.groups.erase id
          diskStorage := { s.diskStorage with
            files := s.diskStorage.files.filter fun f => f.1 ≠ e.diskOffset
            calls := s.diskStorage.calls + 1 } }) hsub rfl hs.initialized rfl
        (fun offset => by
          rw [DiskStorage.find_delete s.diskStorage _ e.diskOffset rfl]
          simp [filesOf, hon])
      exact ⟨hsettled, trivial, Buffer.ext rfl rfl hgroups rfl rfl rfl⟩

theorem reset_state (env : Env) (s : BufferShard) :
    ∃ d', (s.reset env).2 = { s.clearAll with diskStorage := d' } := ⟨_, rfl⟩

/-- On a working disk a reset resolves if its vector has at most one file; with more, it reads
the second name in memory that is no longer its own. -/
def resetAnswer (s : BufferShard) : Except Failure Unit :=
  if s.diskOffsets.length ≤ 1 then .ok () else .error .useAfterFree

theorem reset_answer (hr : env.Reliable) {s : BufferShard} (hs : s.Settled env) :
    (s.reset env).1 = s.resetAnswer := by
  have hfiles : ∀ offset ∈ s.diskOffsets,
      ∃ group, s.clearAll.diskStorage.find offset = some group :=
    hs.file_exists fun _ hp => hp
  have hi : s.clearAll.diskStorage.initialized = true := hs.initialized
  rw [reset, resetAnswer]
  generalize s.diskOffsets = offsets at hfiles ⊢
  cases offsets with
  | nil => rfl
  | cons offset rest =>
    obtain ⟨group, hfile⟩ := hfiles offset List.mem_cons_self
    rw [DiskStorage.removeFreed_ok hr hi hfile]
    cases rest <;> simp

theorem reset_refines (hr : env.Reliable) {s : BufferShard} (hs : s.Settled env) :
    ∃ s', s.reset env = (s.resetAnswer, s') ∧ s'.Settled env ∧ s'.config = s.config ∧
      s'.buffer = s.buffer.reset := by
  have hi : s.clearAll.diskStorage.initialized = true := hs.initialized
  obtain ⟨r, d', hremove, hinit, hspills, -⟩ :=
    DiskStorage.removeFreed_spec env s.diskOffsets hi
  refine ⟨{ s.clearAll with diskStorage := d' }, ?_, ?_, rfl, rfl⟩
  · rw [← reset_answer hr hs, reset, hremove]
  · exact hs.shrink (fun _ hp => nomatch hp) hinit hspills.ge fun _ _ hmem => nomatch hmem

/-- Expiry of an entry, as the loop of `check_group_timeouts` does it. -/
def expireEntry (env : Env) (s : BufferShard) (e : GroupEntry) : GroupEntry :=
  if !e.isComplete && decide (timeout s.config ≤ env.now s.clockReads - e.createdTime)
  then { e with groupPtr := e.groupPtr.map fun g => { g with isComplete := true } }
  else e

@[simp] theorem expireEntry_diskOffset (s : BufferShard) (e : GroupEntry) :
    (s.expireEntry env e).diskOffset = e.diskOffset := by
  rw [expireEntry]
  split <;> rfl

@[simp] theorem expireEntry_createdTime (s : BufferShard) (e : GroupEntry) :
    (s.expireEntry env e).createdTime = e.createdTime := by
  rw [expireEntry]
  split <;> rfl

@[simp] theorem expireEntry_isOnDisk (s : BufferShard) (e : GroupEntry) :
    (s.expireEntry env e).isOnDisk = e.isOnDisk := by
  rw [expireEntry]
  split <;> simp [GroupEntry.isOnDisk]

def expireGroup (env : Env) (s : BufferShard) (e : GroupEntry) (g : TrajectoryGroup) :
    TrajectoryGroup :=
  if !g.isComplete && decide (timeout s.config ≤ env.now s.clockReads - e.createdTime)
  then { g with isComplete := true } else g

theorem expireEntry_holds {s : BufferShard} {e : GroupEntry} {g : TrajectoryGroup}
    {d : DiskStorage} (h : e.Holds env d g) :
    (s.expireEntry env e).Holds env d (s.expireGroup env e g) := by
  have hc := h.isComplete_eq
  rw [expireEntry, expireGroup, hc]
  split
  · cases h with
    | memory ptr noFile => exact .memory (by simp [ptr]) noFile
    | disk ptr offset file complete size bytes => simp_all
  · exact h

theorem checkGroupTimeouts_refines {s : BufferShard} (hs : s.Settled env) :
    (s.checkGroupTimeouts env).Settled env ∧
      (s.checkGroupTimeouts env).config = s.config ∧
      (s.checkGroupTimeouts env).buffer = s.buffer.expire env := by
  have hgroups : (s.checkGroupTimeouts env).groups =
      s.groups.mapValues fun _ e => s.expireEntry env e := rfl
  have hmem : ∀ id e', (id, e') ∈ (s.checkGroupTimeouts env).groups.entries →
      ∃ e, (id, e) ∈ s.groups.entries ∧ e' = s.expireEntry env e := by
    intro id e' h
    rw [hgroups, mapValues_entries, List.mem_map] at h
    obtain ⟨p, hp, heq⟩ := h
    cases heq
    exact ⟨p.2, hp, rfl⟩
  refine ⟨⟨hs.initialized, ?_, ?_, ?_⟩, rfl, Buffer.ext rfl rfl ?_ rfl rfl rfl⟩
  · intro id e' h
    obtain ⟨e, he, rfl⟩ := hmem id e' h
    exact (hs.holds id e he).imp' _ fun g hg => expireEntry_holds hg
  · intro id e₁ id' e₂ h₁ h₂ hpos heq
    obtain ⟨e, he, rfl⟩ := hmem id e₁ h₁
    obtain ⟨e', he', rfl⟩ := hmem id' e₂ h₂
    rw [expireEntry_diskOffset] at hpos
    rw [expireEntry_diskOffset, expireEntry_diskOffset] at heq
    exact hs.exclusive _ _ _ _ he he' hpos heq
  · intro id e' h
    obtain ⟨e, he, rfl⟩ := hmem id e' h
    rw [expireEntry_diskOffset]
    exact hs.drawn id e he
  · refine UnorderedMap.ext ?_ rfl
    simp only [Buffer.expire, buffer_groups, hgroups, mapValues_entries, List.map_map,
      List.map_inj_left, Function.comp_apply, Prod.mk.injEq, true_and]
    intro p hp
    obtain ⟨g, hg⟩ := hs.holds p.1 p.2 hp
    rw [storedOf_group hg]
    have hafter : storedOf s.diskStorage p.1 (s.expireEntry env p.2) = _ :=
      storedOf_group (expireEntry_holds hg)
    rw [expireEntry_createdTime, expireGroup] at hafter
    refine hafter.trans ?_
    change _ = if (!g.isComplete && decide (timeout s.config ≤
        env.now s.clockReads - p.2.createdTime)) = true
      then (⟨{ g with isComplete := true }, p.2.createdTime⟩ : Stored)
      else ⟨g, p.2.createdTime⟩
    split <;> rfl

theorem updateConfig_refines {s : BufferShard} (hs : s.Settled env)
    (config : TransferQueueConfig) :
    (s.updateConfig config).Settled env ∧
      (s.updateConfig config).buffer = s.buffer.configure config.settings :=
  ⟨hs.same rfl rfl, rfl⟩

end Manage

end BufferShard
end TransferQueue
