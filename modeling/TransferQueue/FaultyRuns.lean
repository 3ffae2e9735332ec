import TransferQueue.ShardRuns

/-! Sequential runs in which any device call may fail. A failed read leaves entries
without a group and without a file, a failed removal leaves an entry whose file is
gone; what holds of every entry in every state of such a run is stated here. -/

namespace TransferQueue
open UnorderedMap

variable {env : Env}

/-- What survives every failure: at most one place for the group, a group of the
instance in it, and on disk a file drawn before and a cached size. -/
structure GroupEntry.Tidy (env : Env) (d : DiskStorage) (id : String) (e : GroupEntry) :
    Prop where
  single : e.groupPtr ≠ none → e.diskOffset = 0
  keyed : ∀ g, e.group? d = some g → g.instanceId = id
  weighed : e.isOnDisk = true → 0 < e.cachedBytes
  drawn : e.diskOffset < env.spillId d.spills

namespace GroupEntry.Tidy

variable {d d' : DiskStorage} {id : String} {e : GroupEntry}

theorem memory {g : TrajectoryGroup} (hp : e.groupPtr = some g) (ho : e.diskOffset = 0)
    (hid : g.instanceId = id) : e.Tidy env d id where
  single _ := ho
  keyed := by
    intro g' hg'
    rw [group?, hp] at hg'
    cases hg'
    exact hid
  weighed := by simp [isOnDisk, hp]
  drawn := ho ▸ env.spillId_pos _

theorem of_disk (h : e.Tidy env d id) (hspills : d.spills ≤ d'.spills)
    (hfind : d'.find e.diskOffset = d.find e.diskOffset ∨ d'.find e.diskOffset = none) :
    e.Tidy env d' id where
  single := h.single
  keyed := by
    intro g hg
    apply h.keyed g
    rw [group?] at hg ⊢
    cases hp : e.groupPtr with
    | some g' => simpa [hp] using hg
    | none =>
      rcases hfind with heq | hnone
      · simpa [hp, heq] using hg
      · simp [hp, hnone] at hg
  weighed := h.weighed
  drawn := h.drawn.trans_le (env.spillId_strictMono.monotone hspills)

theorem moveOut (h : e.Tidy env d id) :
    ({ e with groupPtr := none } : GroupEntry).Tidy env d id := by
  cases hp : e.groupPtr with
  | none => rwa [show ({ e with groupPtr := none } : GroupEntry) = e by rw [← hp]]
  | some g =>
    have ho : e.diskOffset = 0 := h.single (by simp [hp])
    exact ⟨fun hne => absurd rfl hne, by simp [group?, ho], by simp [isOnDisk, ho],
      ho ▸ env.spillId_pos _⟩

end GroupEntry.Tidy

namespace BufferShard

/-- The invariant of sequential runs with failures. -/
structure Coherent (env : Env) (s : BufferShard) : Prop where
  initialized : s.diskStorage.initialized = true
  tidy : ∀ id e, (id, e) ∈ s.groups.entries → e.Tidy env s.diskStorage id
  exclusive : s.Exclusive

namespace Coherent

theorem create (config : TransferQueueConfig) (bitCount numHashes : ℕ) :
    (BufferShard.create config bitCount numHashes).Coherent env :=
  ⟨rfl, fun _ _ h => (nomatch h), fun _ _ _ _ h => (nomatch h)⟩

/-- Entries may come and change as long as they are tidy and take over no file. -/
theorem revise {s s' : BufferShard} (h : s.Coherent env)
    (hinit : s'.diskStorage.initialized = true)
    (htidy : ∀ id e', (id, e') ∈ s'.groups.entries → e'.Tidy env s'.diskStorage id ∧
      (0 < e'.diskOffset → ∃ e, (id, e) ∈ s.groups.entries ∧ e.diskOffset = e'.diskOffset)) :
    s'.Coherent env where
  initialized := hinit
  tidy id e' hmem := (htidy id e' hmem).1
  exclusive := by
    intro id₁ e₁ id₂ e₂ h₁ h₂ hpos heq
    obtain ⟨e, hmem, hoff⟩ := (htidy _ _ h₁).2 hpos
    obtain ⟨e', hmem', hoff'⟩ := (htidy _ _ h₂).2 (heq ▸ hpos)
    exact h.exclusive _ _ _ _ hmem hmem' (hoff ▸ hpos) (hoff.trans (heq.trans hoff'.symm))

theorem same {s s' : BufferShard} (h : s.Coherent env) (hgroups : s'.groups = s.groups)
    (hdisk : s'.diskStorage = s.diskStorage) : s'.Coherent env :=
  h.revise (hdisk ▸ h.initialized) fun id e hmem =>
    ⟨hdisk ▸ h.tidy id e (hgroups ▸ hmem), fun _ => ⟨e, hgroups ▸ hmem, rfl⟩⟩

theorem shrink {s s' : BufferShard} (h : s.Coherent env)
    (hsub : ∀ p ∈ s'.groups.entries, p ∈ s.groups.entries)
    (hinit : s'.diskStorage.initialized = true)
    (hspills : s.diskStorage.spills ≤ s'.diskStorage.spills)
    (hfind : ∀ id e, (id, e) ∈ s'.groups.entries →
      s'.diskStorage.find e.diskOffset = s.diskStorage.find e.diskOffset ∨
        s'.diskStorage.find e.diskOffset = none) : s'.Coherent env :=
  h.revise hinit fun id e hmem =>
    ⟨(h.tidy id e (hsub _ hmem)).of_disk hspills (hfind id e hmem), fun _ => ⟨e, hsub _ hmem, rfl⟩⟩

theorem set_memory {s s' : BufferShard} (h : s.Coherent env) (id : String) {e : GroupEntry}
    {g : TrajectoryGroup} (hp : e.groupPtr = some g) (ho : e.diskOffset = 0)
    (hid : g.instanceId = id) (hdisk : s'.diskStorage = s.diskStorage)
    (hmem : ∀ id' e', (id', e') ∈ s'.groups.entries →
      (id' = id ∧ e' = e) ∨ (id', e') ∈ s.groups.entries) : s'.Coherent env := by
  refine h.revise (hdisk ▸ h.initialized) fun id' e' hmem' => ?_
  rcases hmem id' e' hmem' with ⟨rfl, rfl⟩ | hold
  · exact ⟨.memory hp ho hid, fun hpos => by omega⟩
  · exact ⟨hdisk ▸ h.tidy id' e' hold, fun _ => ⟨e', hold, rfl⟩⟩

theorem addTrajectory {s : BufferShard} (h : s.Coherent env) (t : Trajectory) :
    (s.addTrajectory env t).2.Coherent env := by
  cases he : s.groups.get? t.instanceId with
  | none =>
    have hkey := get?_eq_none_iff.mp he
    rw [addTrajectory_new he]
    refine h.set_memory t.instanceId (e := s.newEntry env t) rfl rfl rfl rfl fun id' e' hmem => ?_
    exact ((mem_insert _ hkey _).mp hmem).imp_left Prod.mk.inj
  | some e =>
    have hmem := get?_eq_some_iff.mp he
    have hset : ∀ {e' : GroupEntry} id₁ e₁,
        (id₁, e₁) ∈ (s.groups.set t.instanceId e').entries →
          (id₁ = t.instanceId ∧ e₁ = e') ∨ (id₁, e₁) ∈ s.groups.entries := by
      intro e' id₁ e₁ h₁
      exact (mem_set.mp h₁).imp (fun h => ⟨h.1, h.2.1⟩) (fun h => h.2)
    cases hp : e.groupPtr with
    | some g =>
      have hg : g.instanceId = t.instanceId :=
        (h.tidy _ _ hmem).keyed g (by simp [GroupEntry.group?, hp])
      rw [addTrajectory_memory he hp]
      exact h.set_memory t.instanceId (e := { e with groupPtr := some (g.add t) }) rfl
        ((h.tidy _ _ hmem).single (by simp [hp])) hg rfl hset
    | none =>
      by_cases ho : e.diskOffset = 0
      · rw [addTrajectory_empty he hp ho]
        exact h.set_memory t.instanceId (e := { e with
          groupPtr := (s.newEntry env t).groupPtr
          createdTime := (s.newEntry env t).createdTime }) rfl ho rfl rfl hset
      · rw [addTrajectory_onDisk he (GroupEntry.isOnDisk_iff.mpr ⟨Nat.pos_of_ne_zero ho, hp⟩)]
        exact h

theorem commitEntry {s : BufferShard} (h : s.Coherent env) {id : String} {g : TrajectoryGroup}
    {offset : ℕ} (hc : s.Copied env id g offset) : (s.commitEntry env id offset).Coherent env := by
  obtain ⟨e, hmem, hp⟩ := hc.held
  have hid : g.instanceId = id := (h.tidy _ _ hmem).keyed g (by simp [GroupEntry.group?, hp])
  have hexclusive := h.exclusive.commitEntry hc
  rw [commitEntry_present (get?_eq_some_iff.mpr hmem)] at hexclusive ⊢
  refine ⟨h.initialized, fun id' e' hmem' => ?_, hexclusive⟩
  rcases mem_set.mp hmem' with ⟨rfl, rfl, -⟩ | ⟨-, hold⟩
  · refine ⟨fun hne => absurd rfl hne, fun g' hg' => ?_, fun _ => ?_, hc.drawn⟩
    · simp only [GroupEntry.group?, committed, hc.positive, if_true, hc.file,
        Option.some.injEq] at hg'
      exact hg' ▸ hid
    · simpa [committed, hp] using env.byteSizeLong_pos g hc.complete
  · exact h.tidy _ _ hold

theorem trySpillGroups {s : BufferShard} (h : s.Coherent env) :
    (s.trySpillGroups env).2.Coherent env := by
  exact trySpillGroups_keeps h.initialized (fun id e hmem => (h.tidy id e hmem).drawn) h
    (fun d' hinit hle hfind => h.shrink (fun _ hp => hp) hinit hle
      fun id e hmem => .inl (hfind id e hmem))
    fun h hc => h.commitEntry hc

theorem write {s : BufferShard} (h : s.Coherent env) (t : Trajectory) :
    (s.write env t).2.Coherent env := by
  have hdedup : (s.dedup env t.uid).2.Coherent env :=
    h.same (dedup_groups t.uid s) (dedup_diskStorage t.uid s)
  have hstart : (s.writeStart env t).2.Coherent env :=
    writeStart_keeps hdedup fun h => h.addTrajectory t
  exact write_keeps hstart fun h => h.trySpillGroups

theorem batchWriteLoop {s : BufferShard} (h : s.Coherent env) (written : ℕ)
    (ts : List Trajectory) : (batchWriteLoop env written ts s).2.Coherent env :=
  batchWriteLoop_keeps (fun t _ h => h.write t) written ts h

theorem afterScan {s : BufferShard} (h : s.Coherent env) (maxGroups : Int32) :
    (s.afterScan maxGroups).Coherent env := by
  refine h.revise h.initialized fun id e' hmem => ?_
  obtain ⟨e, hold, rfl | rfl⟩ := mem_afterScan hmem
  · exact ⟨(h.tidy id e hold).moveOut, fun _ => ⟨e, hold, rfl⟩⟩
  · exact ⟨h.tidy id e' hold, fun _ => ⟨e', hold, rfl⟩⟩

theorem readReadyGroups {s : BufferShard} (h : s.Coherent env) (maxGroups : Int32) :
    (s.readReadyGroups env maxGroups).2.Coherent env := by
  by_cases hread : ∀ p ∈ s.selected maxGroups, p.2.Readable
  · obtain ⟨hends, hinit, hspills, hfind⟩ :=
      readReadyGroups_ends env h.initialized h.exclusive maxGroups hread
    have hscan := h.afterScan maxGroups
    generalize s.readReadyGroups env maxGroups = r at hends hinit hspills hfind ⊢
    refine hscan.shrink (fun p hp => ?_) hinit hspills.ge fun id e _ => hfind e.diskOffset
    cases hends with
    | failed => exact hp
    | delivered => exact ((mem_eraseAll _).mp hp).1
  · rwa [BufferShard.readReadyGroups, readScan_eq, if_neg hread]

theorem deleteInstance {s : BufferShard} (h : s.Coherent env) (id : String) :
    (s.deleteInstance env id).Coherent env := by
  obtain ⟨hinit, hspills, hfind⟩ := deleteInstance_disk env h.initialized id
  refine h.shrink (fun p hp => ?_) hinit hspills.ge fun id' e _ => hfind e.diskOffset
  rw [deleteInstance_groups] at hp
  exact ((mem_erase _).mp hp).1

theorem reset {s : BufferShard} (h : s.Coherent env) : (s.reset env).2.Coherent env := by
  have hi : s.clearAll.diskStorage.initialized = true := h.initialized
  obtain ⟨r, d', hremove, hinit, -⟩ := DiskStorage.removeFreed_spec env s.diskOffsets hi
  rw [BufferShard.reset, hremove]
  exact ⟨hinit, fun _ _ hmem => absurd hmem List.not_mem_nil,
    fun _ _ _ _ hmem => absurd hmem List.not_mem_nil⟩

theorem checkGroupTimeouts {s : BufferShard} (h : s.Coherent env) :
    (s.checkGroupTimeouts env).Coherent env := by
  refine h.revise h.initialized fun id e' hmem => ?_
  obtain ⟨⟨id', e⟩, hold, heq⟩ := List.mem_map.mp hmem
  obtain ⟨rfl, rfl⟩ := Prod.mk.inj heq
  have htidy := h.tidy id' e hold
  dsimp only
  split
  · refine ⟨⟨fun hne => htidy.single ?_, fun g hg => ?_, fun hd => htidy.weighed ?_,
      htidy.drawn⟩, fun _ => ⟨e, hold, rfl⟩⟩
    · simpa using hne
    · cases hp : e.groupPtr with
      | none =>
        rw [hp, Option.map_none, ← hp] at hg
        exact htidy.keyed g hg
      | some g' =>
        simp only [GroupEntry.group?, hp, Option.map_some, Option.some.injEq] at hg
        subst hg
        exact htidy.keyed g' (by simp [GroupEntry.group?, hp])
    · simpa [GroupEntry.isOnDisk] using hd
  · exact ⟨htidy, fun _ => ⟨e, hold, rfl⟩⟩

theorem exec {s : BufferShard} (h : s.Coherent env) (op : Op) : (s.exec env op).2.Coherent env := by
  cases op with
  | write t => exact h.write t
  | batchWrite ts => exact h.batchWriteLoop 0 ts
  | readReadyGroups maxGroups => exact h.readReadyGroups maxGroups
  | checkGroupTimeouts => exact h.checkGroupTimeouts
  | deleteInstance id => exact h.deleteInstance id
  | reset => exact h.reset
  | updateConfig config => exact h.same rfl rfl

theorem run {s : BufferShard} (h : s.Coherent env) (ops : List Op) : (s.run env ops).Coherent env :=
  Machine.final_inv (Coherent env) (fun _ op hs => hs.exec op) ops h

end Coherent
end BufferShard
end TransferQueue
