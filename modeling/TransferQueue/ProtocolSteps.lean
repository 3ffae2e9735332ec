import TransferQueue.Protocol

/-! Every step of the shard is a sequence of changes of its view. -/

namespace TransferQueue
open UnorderedMap

variable {env : Env} {G : Guard}

namespace GroupEntry

@[simp] theorem slot_of_some {e : GroupEntry} {g : TrajectoryGroup} (h : e.groupPtr = some g) :
    e.slot = .memory g := by
  simp [slot, h]

theorem slot_of_onDisk {e : GroupEntry} (h : e.isOnDisk = true) : e.slot = .disk e.diskOffset := by
  obtain ⟨hpos, hnone⟩ := isOnDisk_iff.mp h
  simp [slot, hnone, hpos]

theorem slot_of_empty {e : GroupEntry} (hp : e.groupPtr = none) (ho : e.diskOffset = 0) :
    e.slot = .hollow := by
  simp [slot, hp, ho]

theorem slot_ne_hollow {e : GroupEntry} (h : e.Readable) : e.slot ≠ .hollow := by
  rw [slot]
  cases hp : e.groupPtr with
  | some g => simp
  | none => simp [h.resolve_left fun hne => hne hp]

theorem slot_moveOut {e : GroupEntry} (h : e.groupPtr ≠ none → e.diskOffset = 0) :
    ({ e with groupPtr := none } : GroupEntry).slot = e.slot.moveOut := by
  cases hp : e.groupPtr with
  | some g =>
    rw [slot_of_some hp, Slot.moveOut]
    exact slot_of_empty rfl (h (by simp [hp]))
  | none =>
    have hsame : ({ e with groupPtr := none } : GroupEntry) = e := by rw [← hp]
    rw [hsame, slot, hp]
    by_cases hpos : 0 < e.diskOffset <;> simp [hpos, Slot.moveOut]

end GroupEntry

namespace BufferShard

theorem look_eq_none_iff {s : BufferShard} {id : String} :
    s.look id = none ↔ id ∉ s.groups.keys := by
  rw [look, Option.map_eq_none_iff, get?_eq_none_iff]

theorem look_of_mem {s : BufferShard} {id : String} {e : GroupEntry}
    (h : (id, e) ∈ s.groups.entries) : s.look id = some e.slot := by
  rw [look, get?_eq_some_iff.mpr h, Option.map_some]

theorem look_of_onDisk {s : BufferShard} {id : String} {e : GroupEntry}
    (h : (id, e) ∈ s.groups.entries) (hd : e.isOnDisk = true) :
    s.look id = some (.disk e.diskOffset) := by
  rw [look_of_mem h, GroupEntry.slot_of_onDisk hd]

theorem look_congr {s s' : BufferShard} (h : s'.groups = s.groups) : s'.look = s.look := by
  funext id
  rw [look, look, h]

theorem look_set {s s' : BufferShard} {id : String} {e : GroupEntry} {slot : Slot}
    (hkey : id ∈ s.groups.keys) (h : s'.groups = s.groups.set id e) (hslot : e.slot = slot) :
    s'.look = Function.update s.look id (some slot) := by
  subst hslot
  funext id'
  by_cases hid : id' = id
  · subst hid
    rw [Function.update_self, look, h, get?_set_self _ hkey, Option.map_some]
  · rw [Function.update_of_ne hid, look, h, get?_set_ne _ hid, look]

theorem Clean.set {s s' : BufferShard} (hs : s.Clean) {id : String} {e : GroupEntry}
    (h : s'.groups = s.groups.set id e) (he : e.groupPtr ≠ none → e.diskOffset = 0) :
    s'.Clean := by
  intro id' e' hmem
  rw [h] at hmem
  rcases mem_set.mp hmem with ⟨-, rfl, -⟩ | ⟨-, hold⟩
  · exact he
  · exact hs id' e' hold

theorem Clean.shrink {s s' : BufferShard} (hs : s.Clean)
    (h : ∀ p ∈ s'.groups.entries, p ∈ s.groups.entries) : s'.Clean :=
  fun id e hmem => hs id e (h _ hmem)

section Write

/-- What `write` does after the dedup check: nothing to a group on disk, else an append. -/
theorem addTrajectory_look (env : Env) {s : BufferShard} (hs : s.Clean) (t : Trajectory) :
    s.addTrajectory env t = (.onDisk, s) ∨
    ∃ s' group group', s.addTrajectory env t = (.appended, s') ∧
      s'.diskStorage = s.diskStorage ∧ s'.Clean ∧
      (s.look t.instanceId = some (.memory group) ∨
        (group.trajectories = [] ∧
          (s.look t.instanceId = none ∨ s.look t.instanceId = some .hollow))) ∧
      group'.trajectories = group.trajectories ++ [t] ∧
      s'.look = Function.update s.look t.instanceId (some (.memory group')) := by
  cases he : s.groups.get? t.instanceId with
  | none =>
    have hkey := get?_eq_none_iff.mp he
    refine .inr ⟨_, .create t.instanceId s.config.groupSize,
      (TrajectoryGroup.create t.instanceId s.config.groupSize).add t, addTrajectory_new he, rfl,
      ?_, .inr ⟨rfl, .inl (look_eq_none_iff.mpr hkey)⟩, rfl, ?_⟩
    · intro id e hmem
      rcases (mem_insert _ hkey _).mp hmem with heq | hold
      · cases heq
        exact fun _ => rfl
      · exact hs id e hold
    · funext id
      by_cases hid : id = t.instanceId
      · subst hid
        rw [Function.update_self, look, get?_insert_self _ _ hkey, Option.map_some]
        rfl
      · rw [Function.update_of_ne hid, look, get?_insert_ne _ _ hid, look]
  | some e =>
    have hmem := get?_eq_some_iff.mp he
    have hkey := mem_keys.mpr ⟨e, hmem⟩
    cases hp : e.groupPtr with
    | some g =>
      have hoff := hs _ _ hmem (by simp [hp])
      exact .inr ⟨_, g, g.add t, addTrajectory_memory he hp, rfl,
        hs.set rfl (fun _ => hoff), .inl (by rw [look_of_mem hmem, GroupEntry.slot_of_some hp]),
        rfl, look_set hkey rfl (GroupEntry.slot_of_some rfl)⟩
    | none =>
      by_cases hd : e.isOnDisk = true
      · exact .inl (addTrajectory_onDisk he hd)
      · have hzero : e.diskOffset = 0 := by simpa [GroupEntry.isOnDisk, hp] using hd
        refine .inr ⟨_, .create t.instanceId s.config.groupSize,
          (TrajectoryGroup.create t.instanceId s.config.groupSize).add t,
          addTrajectory_empty he hp hzero, rfl, hs.set rfl (fun _ => hzero), .inr ⟨rfl, .inr ?_⟩,
          rfl, look_set hkey rfl (GroupEntry.slot_of_some rfl)⟩
        rw [look_of_mem hmem, GroupEntry.slot_of_empty hp hzero]

end Write

section Read

def slotsOf (entries : List (String × GroupEntry)) : List (String × Slot) :=
  entries.map fun p => (p.1, p.2.slot)

theorem slotsOf_fst (entries : List (String × GroupEntry)) :
    (slotsOf entries).map Prod.fst = entries.map Prod.fst := by
  rw [slotsOf, List.map_map]
  rfl

theorem slotsOf_groups (entries : List (String × GroupEntry)) :
    Slot.groups (slotsOf entries) = entries.filterMap fun p => p.2.groupPtr := by
  rw [Slot.groups, slotsOf, List.filterMap_map]
  congr 1
  funext p
  cases hp : p.2.groupPtr with
  | some g => simp [Slot.group?, hp]
  | none =>
    by_cases hpos : 0 < p.2.diskOffset <;> simp [GroupEntry.slot, hp, hpos, Slot.group?]

theorem slotsOf_offsets (entries : List (String × GroupEntry)) :
    Slot.offsets (slotsOf entries) = filesOf entries := by
  induction entries with
  | nil => rfl
  | cons p entries ih =>
    rw [Slot.offsets, slotsOf] at ih ⊢
    rw [List.map_cons, List.filterMap_cons, ih]
    cases hp : p.2.groupPtr with
    | some g => simp [Slot.offset?, filesOf, GroupEntry.isOnDisk, hp]
    | none =>
      by_cases hpos : 0 < p.2.diskOffset <;>
        simp [GroupEntry.slot, hp, hpos, Slot.offset?, filesOf, GroupEntry.isOnDisk]

theorem afterScan_look {s : BufferShard} (hs : s.Clean) (maxGroups : Int32) :
    (s.afterScan maxGroups).look = fun id =>
      if id ∈ (s.selected maxGroups).map Prod.fst then (s.look id).map Slot.moveOut
      else s.look id := by
  funext id
  rw [look, look, afterScan, get?_mapValues, Option.map_map]
  cases he : s.groups.get? id with
  | none => simp
  | some e =>
    have hslot := GroupEntry.slot_moveOut (hs id e (get?_eq_some_iff.mp he))
    by_cases hid : id ∈ (s.selected maxGroups).map Prod.fst
    · simp only [Option.map_some, Function.comp_apply, if_pos hid, hslot]
    · simp only [Option.map_some, Function.comp_apply, if_neg hid]

theorem Clean.afterScan {s : BufferShard} (hs : s.Clean) (maxGroups : Int32) :
    (s.afterScan maxGroups).Clean := by
  intro id e hmem
  obtain ⟨p, hp, heq⟩ := List.mem_map.mp hmem
  cases heq
  simp only
  split
  · intro h
    exact absurd rfl h
  · exact hs p.1 p.2 hp

theorem eraseIds_look (ids : List String) (s : BufferShard) :
    (s.eraseIds ids).look = fun id => if id ∈ ids then none else s.look id := by
  funext id
  by_cases hid : id ∈ ids
  · rw [if_pos hid, look, eraseIds, get?_eraseAll_of_mem hid, Option.map_none]
  · rw [if_neg hid, look, eraseIds, get?_eraseAll_of_not_mem hid, look]

theorem Clean.eraseIds {s : BufferShard} (hs : s.Clean) (ids : List String) :
    (s.eraseIds ids).Clean :=
  hs.shrink fun p hp => ((mem_eraseAll p).mp hp).1

end Read

section Manage

theorem deleteEntry_look {s : BufferShard} (hs : s.Clean) (id : String) :
    (s.deleteEntry id).2.look = (fun id' => if id' = id then none else s.look id') ∧
      (s.deleteEntry id).2.diskStorage = s.diskStorage ∧ (s.deleteEntry id).2.Clean ∧
      ∀ offset, (s.deleteEntry id).1 = some offset → s.look id = some (.disk offset) := by
  have herased : ∀ s' : BufferShard, s'.groups = s.groups.erase id →
      s'.look = (fun id' => if id' = id then none else s.look id') ∧ s'.Clean := by
    intro s' hgroups
    refine ⟨?_, hs.shrink fun p hp => ((mem_erase p).mp (hgroups ▸ hp)).1⟩
    funext id'
    by_cases hid : id' = id
    · rw [if_pos hid, hid, look, hgroups, get?_erase_self, Option.map_none]
    · rw [if_neg hid, look, hgroups, get?_erase_ne hid, look]
  rw [deleteEntry]
  cases he : s.groups.get? id with
  | none =>
    obtain ⟨hlook, -⟩ := herased s (erase_of_not_mem (get?_eq_none_iff.mp he)).symm
    exact ⟨hlook, rfl, hs, by simp⟩
  | some e =>
    by_cases hd : e.isOnDisk = true
    · simp only [if_pos hd]
      obtain ⟨hlook, hclean⟩ := herased { s with
        diskUsageBytes := s.diskUsageBytes - e.cachedBytes
        groups := s.groups.erase id } rfl
      refine ⟨hlook, trivial, hclean, fun offset hoff => ?_⟩
      rw [look_of_onDisk (get?_eq_some_iff.mp he) hd, Option.some.inj hoff]
    · simp only [if_neg hd]
      obtain ⟨hlook, hclean⟩ := herased { s with groups := s.groups.erase id } rfl
      exact ⟨hlook, trivial, hclean, by simp⟩

theorem look_of_mem_diskOffsets {s : BufferShard} {offset : ℕ} (h : offset ∈ s.diskOffsets) :
    ∃ id, s.look id = some (.disk offset) := by
  obtain ⟨id, e, hmem, hd, rfl⟩ := mem_filesOf.mp h
  exact ⟨id, look_of_onDisk hmem hd⟩

theorem checkGroupTimeouts_look (env : Env) (s : BufferShard) :
    ∃ f : String → TrajectoryGroup → TrajectoryGroup,
      (∀ id group, (f id group).trajectories = group.trajectories) ∧
      (∀ id group, group.isComplete = true → f id group = group) ∧
      (s.checkGroupTimeouts env).look = fun id => (s.look id).map (Slot.map (f id)) := by
  let late : GroupEntry → Bool := fun e =>
    decide (timeout s.config ≤ env.now s.clockReads - e.createdTime)
  let f : String → TrajectoryGroup → TrajectoryGroup := fun id group =>
    if !group.isComplete && ((s.groups.get? id).map late).getD false
    then { group with isComplete := true } else group
  have htrajectories : ∀ id group, (f id group).trajectories = group.trajectories := by
    intro id group
    simp only [f]
    split <;> rfl
  have hcomplete : ∀ id group, group.isComplete = true → f id group = group := by
    intro id group hc
    simp [f, hc]
  have hgroups : (s.checkGroupTimeouts env).groups = s.groups.mapValues fun _ e =>
      if !e.isComplete && late e
      then { e with groupPtr := e.groupPtr.map fun g => { g with isComplete := true } }
      else e := rfl
  refine ⟨f, htrajectories, hcomplete, ?_⟩
  funext id
  rw [look, look, hgroups, get?_mapValues, Option.map_map, Option.map_map]
  cases he : s.groups.get? id with
  | none => rfl
  | some e =>
    simp only [Option.map_some, Function.comp_apply]
    cases hp : e.groupPtr with
    | some g =>
      rw [GroupEntry.slot_of_some hp, GroupEntry.isComplete, hp, Slot.map]
      simp only [f, he, Option.map_some, Option.getD_some]
      split
      · rfl
      · rw [GroupEntry.slot_of_some hp]
    | none =>
      by_cases hpos : 0 < e.diskOffset <;>
        simp [GroupEntry.isComplete, GroupEntry.slot, hp, hpos, Slot.map]

theorem Clean.checkGroupTimeouts {s : BufferShard} (hs : s.Clean) :
    (s.checkGroupTimeouts env).Clean := by
  intro id e hmem
  obtain ⟨p, hp, heq⟩ := List.mem_map.mp hmem
  cases heq
  simp only
  split
  · simpa using hs p.1 p.2 hp
  · exact hs p.1 p.2 hp

end Manage

section Commit

theorem commitEntry_look (env : Env) (s : BufferShard) (id : String) {offset : ℕ}
    (hpos : 0 < offset) : (s.commitEntry env id offset).look =
      Function.update s.look id ((s.look id).map fun _ => .disk offset) := by
  funext id'
  by_cases hid : id' = id
  · subst hid
    have hslot : ∀ e : GroupEntry, (committed env e offset).slot = .disk offset := fun e =>
      GroupEntry.slot_of_onDisk (GroupEntry.isOnDisk_iff.mpr ⟨hpos, rfl⟩)
    rw [Function.update_self, look, look, commitEntry_get?_self, Option.map_map, Option.map_map]
    congr 1
    funext e
    exact hslot e
  · rw [Function.update_of_ne hid, look, look, commitEntry_get?_ne hid]

theorem Clean.commitEntry (env : Env) {s : BufferShard} (hs : s.Clean) (id : String) (offset : ℕ) :
    (s.commitEntry env id offset).Clean := by
  cases he : s.groups.get? id with
  | none => rwa [commitEntry_absent he]
  | some e =>
    rw [commitEntry_present he]
    exact hs.set rfl fun h => absurd rfl h

theorem commit_look (env : Env) {written : List ((String × TrajectoryGroup) × ℕ)}
    {s : BufferShard} (hs : s.Clean) (hpos : ∀ w ∈ written, 0 < w.2)
    (hnodup : (written.map fun w => w.1.1).Nodup) :
    let after := written.foldl (fun s w => s.commitEntry env w.1.1 w.2) s
    (∀ w ∈ written, after.look w.1.1 = (s.look w.1.1).map fun _ => .disk w.2) ∧
      (∀ id, id ∉ written.map (fun w => w.1.1) → after.look id = s.look id) ∧
      after.Clean ∧ after.diskStorage = s.diskStorage := by
  induction written generalizing s with
  | nil => exact ⟨fun _ h => (nomatch h), fun _ _ => rfl, hs, rfl⟩
  | cons w written ih =>
    obtain ⟨hnotin, hnodup'⟩ := List.nodup_cons.mp hnodup
    have hlook := commitEntry_look env s w.1.1 (hpos w (List.mem_cons_self ..))
    obtain ⟨hpointed, hkept, hclean, hdisk⟩ := ih (hs.commitEntry env w.1.1 w.2)
      (fun w' hw' => hpos w' (List.mem_cons_of_mem _ hw')) hnodup'
    obtain ⟨-, -, hdisk', -⟩ := commitEntry_frame env s w.1.1 w.2
    rw [List.foldl_cons]
    refine ⟨fun w' hw' => ?_, fun id hid => ?_, hclean, hdisk.trans hdisk'⟩
    · rcases List.mem_cons.mp hw' with rfl | hw'
      · rw [hkept _ hnotin, hlook, Function.update_self]
      · have hne : w'.1.1 ≠ w.1.1 := fun he =>
          hnotin (List.mem_map.mpr ⟨w', hw', he⟩)
        rw [hpointed w' hw', hlook, Function.update_of_ne hne]
    · rw [List.map_cons, List.mem_cons, not_or] at hid
      rw [hkept id hid.2, hlook, Function.update_of_ne hid.1]

end Commit

end BufferShard
end TransferQueue
