import Mathlib.Algebra.BigOperators.Group.List.Basic
import TransferQueue.Residence

/-! A settled shard on a working disk implements its buffer: every operation keeps
the shard settled and acts on the buffer as the abstract operation does. Spilling
does not act on the buffer at all. -/

namespace TransferQueue
namespace BufferShard
open UnorderedMap

variable {env : Env}

section Write

def onDisk (s : BufferShard) (id : String) : Bool :=
  ((s.groups.get? id).map GroupEntry.isOnDisk).getD false

theorem drops_eq (t : Trajectory) (s : BufferShard) :
    s.drops env t = ((s.dedup env t.uid).1 && s.onDisk t.instanceId) := rfl

theorem dedup_refines (env : Env) (uid : String) (s : BufferShard) :
    (s.dedup env uid).1 = (s.buffer.dedup env uid).1 ∧
      (s.dedup env uid).2.buffer = (s.buffer.dedup env uid).2 := by
  by_cases h : s.config.uidDedup = true <;>
    simp [dedup, Buffer.dedup, buffer, TransferQueueConfig.settings, h]

theorem Settled.dedup {s : BufferShard} (h : s.Settled env) (uid : String) :
    (s.dedup env uid).2.Settled env :=
  h.same (dedup_groups uid s) (dedup_diskStorage uid s)

theorem addTrajectory_ignores (env : Env) {s : BufferShard} {t : Trajectory}
    (h : s.onDisk t.instanceId = true) : s.addTrajectory env t = (.onDisk, s) := by
  cases he : s.groups.get? t.instanceId with
  | none => simp [onDisk, he] at h
  | some e => exact addTrajectory_onDisk he (by simpa [onDisk, he] using h)

theorem addTrajectory_refines {s : BufferShard} (hs : s.Settled env) {t : Trajectory}
    (h : s.onDisk t.instanceId = false) :
    ∃ s', s.addTrajectory env t = (.appended, s') ∧ s'.Settled env ∧
      s'.buffer = s.buffer.append env t ∧ s'.config = s.config := by
  cases he : s.groups.get? t.instanceId with
  | none =>
    have hkey := get?_eq_none_iff.mp he
    refine ⟨_, addTrajectory_new he, hs.set_memory t.instanceId
      (e := s.newEntry env t) rfl rfl rfl ?_, ?_⟩
    · intro id' e' hmem
      rcases (mem_insert _ hkey _).mp hmem with heq | hold
      · exact .inl (Prod.mk.inj heq)
      · exact .inr hold
    · have hb : s.buffer.groups.get? t.instanceId = none := by rw [buffer_get?, he]; rfl
      simp only [Buffer.append, hb]
      simp only [buffer, insert_mapValues]
      exact ⟨rfl, trivial⟩
  | some e =>
    obtain ⟨g, hg⟩ := hs.holds _ _ (get?_eq_some_iff.mp he)
    cases hg with
    | disk ptr offset => simp [onDisk, he, GroupEntry.isOnDisk, ptr, offset] at h
    | memory ptr noFile =>
      refine ⟨_, addTrajectory_memory he ptr, hs.set_memory t.instanceId
        (e := { e with groupPtr := some (g.add t) }) rfl noFile rfl ?_, ?_⟩
      · intro id' e' hmem
        rcases mem_set.mp hmem with ⟨hid, heq, -⟩ | ⟨-, hold⟩
        · exact .inl ⟨hid, heq⟩
        · exact .inr hold
      · have hb : s.buffer.groups.get? t.instanceId = some ⟨g, e.createdTime⟩ := by
          rw [buffer_get?, he, Option.map_some,
            storedOf_group (.memory ptr noFile : e.Holds env s.diskStorage g)]
        simp only [Buffer.append, hb]
        simp only [buffer, set_mapValues]
        exact ⟨rfl, trivial⟩

theorem Settled.addTrajectory {s : BufferShard} (hs : s.Settled env) (t : Trajectory) :
    (s.addTrajectory env t).2.Settled env := by
  cases hon : s.onDisk t.instanceId with
  | true =>
    rw [addTrajectory_ignores env hon]
    exact hs
  | false =>
    obtain ⟨s', hadd, hs', -⟩ := addTrajectory_refines hs hon
    rw [hadd]
    exact hs'

theorem Settled.writeStart {s : BufferShard} (hs : s.Settled env) (t : Trajectory) :
    (s.writeStart env t).2.Settled env :=
  writeStart_keeps (hs.dedup t.uid) fun h => h.addTrajectory t

end Write

section Spill

/-- A copy of the group an entry holds in memory has been written to a file that no
entry points to yet. -/
structure Copied (env : Env) (s : BufferShard) (id : String) (g : TrajectoryGroup)
    (offset : ℕ) : Prop where
  held : ∃ e, (id, e) ∈ s.groups.entries ∧ e.groupPtr = some g
  complete : g.isComplete = true
  file : s.diskStorage.find offset = some g
  positive : 0 < offset
  drawn : offset < env.spillId s.diskStorage.spills
  unused : ∀ id' e', (id', e') ∈ s.groups.entries → e'.diskOffset ≠ offset

theorem committed_holds {d : DiskStorage} {e : GroupEntry} {g : TrajectoryGroup} {offset : ℕ}
    (hp : e.groupPtr = some g) (hc : g.isComplete = true) (hpos : 0 < offset)
    (hf : d.find offset = some g) : (committed env e offset).Holds env d g :=
  .disk rfl hpos hf hc (by simp [committed, GroupEntry.trajectoriesSize, hp])
    (by simp [committed, hp])

theorem Exclusive.commitEntry {s : BufferShard} (h : s.Exclusive) {id : String}
    {g : TrajectoryGroup} {offset : ℕ} (hc : s.Copied env id g offset) :
    (s.commitEntry env id offset).Exclusive := by
  obtain ⟨e, hmem, -⟩ := hc.held
  rw [commitEntry_present (get?_eq_some_iff.mpr hmem)]
  intro id₁ e₁ id₂ e₂ h₁ h₂ hpos heq
  rcases mem_set.mp h₁ with ⟨rfl, rfl, -⟩ | ⟨-, hold₁⟩ <;>
    rcases mem_set.mp h₂ with ⟨rfl, rfl, -⟩ | ⟨-, hold₂⟩
  · rfl
  · exact absurd heq.symm (hc.unused _ _ hold₂)
  · exact absurd heq (hc.unused _ _ hold₁)
  · exact h _ _ _ _ hold₁ hold₂ hpos heq

/-- One commit moves a group from memory to its file; the buffer does not notice. -/
theorem commitEntry_refines {s : BufferShard} (hs : s.Settled env) {id : String}
    {g : TrajectoryGroup} {offset : ℕ} (hc : s.Copied env id g offset) :
    (s.commitEntry env id offset).Settled env ∧
      (s.commitEntry env id offset).buffer = s.buffer := by
  obtain ⟨e, hmem, hp⟩ := hc.held
  have he := get?_eq_some_iff.mpr hmem
  have hold : e.Holds env s.diskStorage g := by
    obtain ⟨g', hg'⟩ := hs.holds id e hmem
    cases hg' with
    | memory ptr noFile => exact .memory hp noFile
    | disk ptr => simp [ptr] at hp
  have hnew : (committed env e offset).Holds env s.diskStorage g :=
    committed_holds hp hc.complete hc.positive hc.file
  have hexclusive := hs.exclusive.commitEntry hc
  rw [commitEntry_present he] at hexclusive ⊢
  constructor
  · refine ⟨hs.initialized, ?_, hexclusive, ?_⟩
    · intro id' e' hmem'
      rcases mem_set.mp hmem' with ⟨-, rfl, -⟩ | ⟨-, hrest⟩
      · exact ⟨g, hnew⟩
      · exact hs.holds _ _ hrest
    · intro id' e' hmem'
      rcases mem_set.mp hmem' with ⟨-, rfl, -⟩ | ⟨-, hrest⟩
      · exact hc.drawn
      · exact hs.drawn _ _ hrest
  · simp only [buffer, set_mapValues, storedOf_group hnew, Buffer.mk.injEq, and_true, true_and]
    apply set_of_get?
    rw [get?_mapValues, he, Option.map_some, storedOf_group hold]
    rfl

theorem Copied.commitEntry {s : BufferShard} {id id' : String} {g : TrajectoryGroup}
    {offset offset' : ℕ} (h : s.Copied env id' g offset') (hid : id' ≠ id)
    (hoff : offset ≠ offset') : (s.commitEntry env id offset).Copied env id' g offset' := by
  obtain ⟨-, -, hdisk, -⟩ := commitEntry_frame env s id offset
  obtain ⟨e, hmem, hp⟩ := h.held
  refine ⟨⟨e, ?_, hp⟩, h.complete, by rw [hdisk]; exact h.file, h.positive,
    by rw [hdisk]; exact h.drawn, ?_⟩
  · rw [← get?_eq_some_iff, commitEntry_get?_ne hid]
    exact get?_eq_some_iff.mpr hmem
  · intro id₁ e₁ h₁
    by_cases hid₁ : id₁ = id
    · rw [← get?_eq_some_iff, hid₁, commitEntry_get?_self, Option.map_eq_some_iff] at h₁
      obtain ⟨e₀, -, rfl⟩ := h₁
      exact hoff
    · rw [← get?_eq_some_iff, commitEntry_get?_ne hid₁] at h₁
      exact h.unused _ _ (get?_eq_some_iff.mp h₁)

theorem commits_inv {P : BufferShard → Prop}
    (kept : ∀ {s id g offset}, P s → s.Copied env id g offset → P (s.commitEntry env id offset))
    {chosen : List (String × TrajectoryGroup)} {offsets : List ℕ}
    (hlen : chosen.length = offsets.length) (hids : (chosen.map Prod.fst).Nodup)
    (hoffs : offsets.Nodup) {s : BufferShard} (hs : P s)
    (hc : ∀ p ∈ chosen.zip offsets, s.Copied env p.1.1 p.1.2 p.2) :
    P (((chosen.map Prod.fst).zip offsets).foldl (fun s p => s.commitEntry env p.1 p.2) s) := by
  induction chosen generalizing offsets s with
  | nil => exact hs
  | cons p chosen ih =>
    obtain ⟨id, g⟩ := p
    cases offsets with
    | nil => simp at hlen
    | cons offset offsets =>
      have hhead := hc ((id, g), offset) (by simp)
      have htail : ∀ q ∈ chosen.zip offsets,
          (s.commitEntry env id offset).Copied env q.1.1 q.1.2 q.2 := by
        rintro ⟨⟨id', g'⟩, offset'⟩ hq
        have hq' := List.of_mem_zip hq
        refine (hc _ (by simp [hq])).commitEntry ?_ ?_
        · rintro rfl
          exact (List.nodup_cons.mp hids).1 (List.mem_map.mpr ⟨_, hq'.1, rfl⟩)
        · rintro rfl
          exact (List.nodup_cons.mp hoffs).1 hq'.2
      exact ih (by simpa using hlen) (List.nodup_cons.mp hids).2 (List.nodup_cons.mp hoffs).2
        (kept hs hhead) htail

theorem commits_frame (env : Env) (pairs : List (String × ℕ)) (s : BufferShard) :
    (pairs.foldl (fun s p => s.commitEntry env p.1 p.2) s).config = s.config ∧
      (pairs.foldl (fun s p => s.commitEntry env p.1 p.2) s).diskStorage = s.diskStorage := by
  induction pairs generalizing s with
  | nil => exact ⟨rfl, rfl⟩
  | cons p pairs ih =>
    obtain ⟨hconfig, -, hdisk, -⟩ := commitEntry_frame env s p.1 p.2
    obtain ⟨hconfig', hdisk'⟩ := ih (s.commitEntry env p.1 p.2)
    exact ⟨hconfig'.trans hconfig, hdisk'.trans hdisk⟩

theorem commits_dedupFilter (pairs : List (String × ℕ)) (s : BufferShard) :
    (pairs.foldl (fun s p => s.commitEntry env p.1 p.2) s).dedupFilter = s.dedupFilter := by
  induction pairs generalizing s with
  | nil => rfl
  | cons p pairs ih => rw [List.foldl_cons, ih, (commitEntry_frame env s p.1 p.2).2.1]

theorem trySpillGroups_frame (env : Env) (s : BufferShard) :
    (s.trySpillGroups env).2.dedupFilter = s.dedupFilter ∧
      (s.trySpillGroups env).2.config = s.config := by
  rw [trySpillGroups]
  cases s.spillSelection env with
  | none => exact ⟨rfl, rfl⟩
  | some selection =>
    simp only
    rcases s.diskStorage.spillBatch env selection.groups with ⟨e | offsets, d⟩
    · exact ⟨rfl, rfl⟩
    · by_cases hlen : selection.keys.length = offsets.length
      · simp only [commitSpill, hlen, ne_eq, not_true, if_false]
        exact ⟨commits_dedupFilter _ _, (commits_frame env _ _).1⟩
      · simp only [commitSpill, hlen, ne_eq, not_false_eq_true, if_true]
        exact ⟨trivial, trivial⟩

theorem addTrajectory_frame (env : Env) (t : Trajectory) (s : BufferShard) :
    (s.addTrajectory env t).2.dedupFilter = s.dedupFilter ∧
      (s.addTrajectory env t).2.config = s.config := by
  rw [addTrajectory]
  split
  · exact ⟨rfl, rfl⟩
  · split <;> exact ⟨rfl, rfl⟩

theorem addTrajectory_diskStorage (env : Env) (t : Trajectory) (s : BufferShard) :
    (s.addTrajectory env t).2.diskStorage = s.diskStorage := by
  rw [addTrajectory]
  split
  · rfl
  · split <;> rfl

theorem writeStart_frame (env : Env) (t : Trajectory) (s : BufferShard) :
    (s.writeStart env t).2.dedupFilter = (s.dedup env t.uid).2.dedupFilter ∧
      (s.writeStart env t).2.config = s.config := by
  refine writeStart_keeps (P := fun s' =>
    s'.dedupFilter = (s.dedup env t.uid).2.dedupFilter ∧ s'.config = s.config)
    ⟨rfl, dedup_config env t.uid s⟩ fun h => ?_
  obtain ⟨hfilter, hconfig⟩ := addTrajectory_frame env t (s.dedup env t.uid).2
  exact ⟨hfilter.trans h.1, hconfig.trans h.2⟩

theorem writeStart_diskStorage (env : Env) (t : Trajectory) (s : BufferShard) :
    (s.writeStart env t).2.diskStorage = s.diskStorage :=
  writeStart_keeps (P := fun s' => s'.diskStorage = s.diskStorage)
    (dedup_diskStorage t.uid s) fun h => (addTrajectory_diskStorage env t _).trans h

theorem write_frame (env : Env) (t : Trajectory) (s : BufferShard) :
    (s.write env t).2.dedupFilter = (s.dedup env t.uid).2.dedupFilter ∧
      (s.write env t).2.config = s.config := by
  refine write_keeps (P := fun s' =>
    s'.dedupFilter = (s.dedup env t.uid).2.dedupFilter ∧ s'.config = s.config)
    (writeStart_frame env t s) fun h => ?_
  obtain ⟨hfilter, hconfig⟩ := trySpillGroups_frame env (s.writeStart env t).2
  exact ⟨hfilter.trans h.1, hconfig.trans h.2⟩

theorem copied_of_batch {s : BufferShard}
    (hdrawn : ∀ id e, (id, e) ∈ s.groups.entries →
      e.diskOffset < env.spillId s.diskStorage.spills)
    {selection : SpillSelection} (hsel : s.spillSelection env = some selection)
    {offsets : List ℕ} {d' : DiskStorage}
    (hfiles : List.Forall₂ (fun group offset => d'.find offset = some group)
      selection.groups offsets)
    (hrange : ∀ offset ∈ offsets, env.spillId s.diskStorage.spills ≤ offset ∧
      offset < env.spillId d'.spills) :
    ∃ chosen : List (String × TrajectoryGroup), selection.keys = chosen.map Prod.fst ∧
      chosen.length = offsets.length ∧ (chosen.map Prod.fst).Nodup ∧
      ∀ p ∈ chosen.zip offsets,
        ({ s with diskStorage := d' } : BufferShard).Copied env p.1.1 p.1.2 p.2 := by
  obtain ⟨chosen, hkeys, hgroups, -, hids, hheld⟩ := spillSelection_spec hsel
  rw [hgroups, List.forall₂_map_left_iff] at hfiles
  refine ⟨chosen, hkeys, hfiles.length_eq, hids, ?_⟩
  rintro ⟨⟨id, g⟩, offset⟩ hp
  obtain ⟨hmem, hoff⟩ := List.of_mem_zip hp
  obtain ⟨e, he, hptr, hc⟩ := hheld _ hmem
  refine ⟨⟨e, he, hptr⟩, hc, (List.forall₂_iff_zip.mp hfiles).2 hp,
    (env.spillId_pos _).trans_le (hrange _ hoff).1, (hrange _ hoff).2, fun id' e' hmem' => ?_⟩
  exact ne_of_lt ((hdrawn id' e' hmem').trans_le (hrange _ hoff).1)

theorem trySpillGroups_commits {s : BufferShard} {selection : SpillSelection}
    (hsel : s.spillSelection env = some selection) {offsets : List ℕ} {d' : DiskStorage}
    (hbatch : s.diskStorage.spillBatch env selection.groups = (.ok offsets, d'))
    (hlen : selection.keys.length = offsets.length) :
    s.trySpillGroups env = (.ok selection.spilledBytes, (selection.keys.zip offsets).foldl
      (fun s p => s.commitEntry env p.1 p.2) { s with diskStorage := d' }) := by
  simp only [trySpillGroups, hsel, hbatch, commitSpill, hlen, ne_eq, not_true, if_false]

/-- The rule for a spill, whether it fails or not: what its batch keeps, and after it every
commit of a copy. -/
theorem trySpillGroups_keeps {P : BufferShard → Prop} {s : BufferShard}
    (hi : s.diskStorage.initialized = true)
    (hdrawn : ∀ id e, (id, e) ∈ s.groups.entries →
      e.diskOffset < env.spillId s.diskStorage.spills)
    (hs : P s)
    (batch : ∀ d' : DiskStorage, d'.initialized = true → s.diskStorage.spills ≤ d'.spills →
      (∀ id e, (id, e) ∈ s.groups.entries →
        d'.find e.diskOffset = s.diskStorage.find e.diskOffset) →
      P { s with diskStorage := d' })
    (commit : ∀ {s id g offset}, P s → s.Copied env id g offset →
      P (s.commitEntry env id offset)) : P (s.trySpillGroups env).2 := by
  cases hsel : s.spillSelection env with
  | none => rwa [trySpillGroups, hsel]
  | some selection =>
    obtain ⟨r, d', hbatch, hinit, hle, hframe, hok⟩ :=
      DiskStorage.spillBatch_cases env selection.groups hi
    have h' := batch d' hinit hle fun id e hmem => hframe _ (hdrawn id e hmem)
    cases r with
    | error e => simpa only [trySpillGroups, hsel, hbatch] using h'
    | ok offsets =>
      obtain ⟨hfiles, hsorted, hrange⟩ := hok offsets rfl
      obtain ⟨chosen, hkeys, hlen, hids, hcopied⟩ := copied_of_batch hdrawn hsel hfiles hrange
      rw [trySpillGroups_commits hsel hbatch (by rw [hkeys, List.length_map, hlen]), hkeys]
      exact commits_inv commit hlen hids hsorted.nodup h' hcopied

theorem trySpillGroups_answers (hr : env.Reliable) {s : BufferShard}
    (hi : s.diskStorage.initialized = true) : ∃ bytes, (s.trySpillGroups env).1 = .ok bytes := by
  cases hsel : s.spillSelection env with
  | none => exact ⟨0, by rw [trySpillGroups, hsel]⟩
  | some selection =>
    obtain ⟨r, d', hbatch, -, -, -, hok⟩ := DiskStorage.spillBatch_cases env selection.groups hi
    obtain ⟨offsets, hr'⟩ := DiskStorage.spillBatch_ok hr selection.groups hi
    rw [hbatch] at hr'
    simp only at hr'
    subst hr'
    obtain ⟨chosen, hkeys, hgroups, -⟩ := spillSelection_spec hsel
    have hlen : selection.keys.length = offsets.length := by
      rw [← (hok offsets rfl).1.length_eq, hkeys, hgroups, List.length_map, List.length_map]
    exact ⟨_, congrArg Prod.fst (trySpillGroups_commits hsel hbatch hlen)⟩

theorem trySpillGroups_refines (hr : env.Reliable) {s : BufferShard} (hs : s.Settled env) :
    ∃ bytes s', s.trySpillGroups env = (.ok bytes, s') ∧ s'.Settled env ∧
      s'.buffer = s.buffer ∧ s'.config = s.config := by
  obtain ⟨bytes, hbytes⟩ := trySpillGroups_answers hr hs.initialized
  have hkept : (s.trySpillGroups env).2.Settled env ∧
      (s.trySpillGroups env).2.buffer = s.buffer := by
    refine trySpillGroups_keeps (P := fun s' => s'.Settled env ∧ s'.buffer = s.buffer)
      hs.initialized hs.drawn ⟨hs, rfl⟩ (fun d' hinit hle hfind => ?_)
      fun h hc => (commitEntry_refines h.1 hc).imp_right fun hb => hb.trans h.2
    refine ⟨hs.shrink (fun _ hp => hp) hinit hle fun id e hmem _ => hfind id e hmem, ?_⟩
    simp only [buffer, Buffer.mk.injEq, and_true, true_and]
    apply mapValues_congr
    intro id e hmem
    simp only [storedOf, GroupEntry.group?, hfind id e hmem]
  exact ⟨bytes, _, Prod.ext hbytes rfl, hkept.1, hkept.2, (trySpillGroups_frame env s).2⟩

end Spill

section Writes

/-- A write on a settled shard: a duplicate, ignored because its group is on disk, or
stored. -/
theorem write_refines (hr : env.Reliable) {s : BufferShard} (hs : s.Settled env)
    (t : Trajectory) :
    ∃ s', s.write env t = (.ok (s.dedup env t.uid).1, s') ∧ s'.Settled env ∧
      s'.config = s.config ∧
      (s.buffer.write env (s.drops env t) t) = ((s.dedup env t.uid).1, s'.buffer) := by
  obtain ⟨hfresh, hbuffer⟩ := dedup_refines env t.uid s
  have hs' := hs.dedup t.uid
  have hconfig := dedup_config env t.uid s
  have hon : (s.dedup env t.uid).2.onDisk t.instanceId = s.onDisk t.instanceId := by
    rw [onDisk, onDisk, dedup_groups]
  rw [write, writeStart, Buffer.write, drops_eq]
  rcases hd : s.dedup env t.uid with ⟨fresh, s₁⟩
  rcases hb : s.buffer.dedup env t.uid with ⟨fresh', b₁⟩
  rw [hd] at hfresh hbuffer hs' hconfig hon
  rw [hb] at hfresh hbuffer
  simp only at hfresh hbuffer hs' hconfig hon
  subst hfresh hbuffer
  cases fresh with
  | false => exact ⟨s₁, rfl, hs', hconfig, rfl⟩
  | true =>
    cases hdisk : s.onDisk t.instanceId with
    | true =>
      have hadd := addTrajectory_ignores env (hon.trans hdisk)
      exact ⟨s₁, by simp [hadd], hs', hconfig, rfl⟩
    | false =>
      obtain ⟨s₂, hadd, hs₂, hb₂, hc₂⟩ := addTrajectory_refines hs' (hon.trans hdisk)
      obtain ⟨bytes, s₃, hspill, hs₃, hb₃, hc₃⟩ := trySpillGroups_refines hr hs₂
      refine ⟨s₃, by simp [hadd, hspill], hs₃, (hc₃.trans hc₂).trans hconfig, ?_⟩
      rw [hb₃, hb₂]
      rfl

end Writes

end BufferShard
end TransferQueue
