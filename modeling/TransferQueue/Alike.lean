import TransferQueue.ShardRuns
import TransferQueue.Library.MapAlike

/-! Shards that answer alike. File names, clock readings and the order in which the filter
keeps its uids show in no answer: two shards that agree in everything else, in
environments that go on alike, stay so under every operation. -/

namespace TransferQueue
open UnorderedMap

/-- An entry without the name of its file, and with what is seen of its creation time. -/
structure Holding (τ : Type) where
  groupPtr : Option TrajectoryGroup
  file : Option (Option TrajectoryGroup)
  born : τ
  cachedSize : ℤ
  cachedBytes : ℤ

namespace GroupEntry

variable {τ : Type} {seen seen' : ℤ → τ} {d d' : DiskStorage} {e e' : GroupEntry}

def holding (seen : ℤ → τ) (d : DiskStorage) (e : GroupEntry) : Holding τ where
  groupPtr := e.groupPtr
  file := if 0 < e.diskOffset then some (d.find e.diskOffset) else none
  born := seen e.createdTime
  cachedSize := e.cachedSize
  cachedBytes := e.cachedBytes

theorem holding_of_disk (h : 0 < e.diskOffset → d'.find e.diskOffset = d.find e.diskOffset) :
    e.holding seen d' = e.holding seen d := by
  rw [holding, holding]
  split
  · rw [h ‹_›]
  · rfl

theorem holding_pos (h : e'.holding seen' d' = e.holding seen d) :
    0 < e'.diskOffset ↔ 0 < e.diskOffset := by
  have hfile := congrArg (Option.isSome ∘ Holding.file) h
  simp only [Function.comp_apply, holding] at hfile
  by_cases he : 0 < e.diskOffset <;> by_cases he' : 0 < e'.diskOffset <;> simp_all

theorem holding_ptr (h : e'.holding seen' d' = e.holding seen d) : e'.groupPtr = e.groupPtr :=
  congrArg Holding.groupPtr h

theorem holding_isOnDisk (h : e'.holding seen' d' = e.holding seen d) :
    e'.isOnDisk = e.isOnDisk := by
  rw [isOnDisk, isOnDisk, holding_ptr h, decide_eq_decide.mpr (holding_pos h)]

theorem holding_isComplete (h : e'.holding seen' d' = e.holding seen d) :
    e'.isComplete = e.isComplete := by
  rw [isComplete, isComplete, holding_ptr h]

theorem holding_trajectoriesSize (h : e'.holding seen' d' = e.holding seen d) :
    e'.trajectoriesSize = e.trajectoriesSize := by
  rw [trajectoriesSize, trajectoriesSize, holding_ptr h]

end GroupEntry

/-- Two environments, what is seen of their clocks, and the filters that are not told
apart by the uids admitted. -/
structure Correspondence (τ : Type) where
  env : Env
  env' : Env
  seen : ℤ → τ
  seen' : ℤ → τ
  filters : DedupFilter → DedupFilter → Prop
  admitted : String → Prop
  bytes : env'.byteSizeLong = env.byteSizeLong
  fractions : env'.memoryBytes = env.memoryBytes
  size_eq : ∀ {f f'}, filters f f' → f'.size = f.size
  bits_eq : ∀ {f f'}, filters f f' → f'.bloomBitCount = f.bloomBitCount
  insert_eq : ∀ {f f' uid}, filters f f' → admitted uid →
    (f'.insert (DedupFilter.doubleHash env'.stdHash) uid).1 =
        (f.insert (DedupFilter.doubleHash env.stdHash) uid).1 ∧
      filters (f.insert (DedupFilter.doubleHash env.stdHash) uid).2
        (f'.insert (DedupFilter.doubleHash env'.stdHash) uid).2
  clear_eq : ∀ {f f'}, filters f f' → filters f.clear f'.clear

theorem DiskStorage.spillBatch_alike {env env' : Env} (groups : List TrajectoryGroup)
    {d d' : DiskStorage} (hi : d.initialized = true) (hi' : d'.initialized = true)
    (hfault : ∀ k, env'.fault (d'.calls + k) = env.fault (d.calls + k)) :
    (∃ n, (d.spillBatch env groups).2.calls = d.calls + n ∧
        (d'.spillBatch env' groups).2.calls = d'.calls + n) ∧
      ((∃ e, (d.spillBatch env groups).1 = .error e ∧
          (d'.spillBatch env' groups).1 = .error e) ∨
        ∃ offsets offsets', (d.spillBatch env groups).1 = .ok offsets ∧
          (d'.spillBatch env' groups).1 = .ok offsets') := by
  obtain ⟨r, d₁, hbatch, hr⟩ := spillBatch_calls env groups hi
  obtain ⟨r', d₁', hbatch', hr'⟩ := spillBatch_calls env' groups hi'
  rw [hbatch, hbatch']
  rcases hr with ⟨offsets, rfl, hcalls, hworks⟩ | ⟨j, hj, rfl, hcalls, hworks, hfail⟩ <;>
    rcases hr' with ⟨offsets', rfl, hcalls', hworks'⟩ | ⟨j', hj', rfl, hcalls', hworks', hfail'⟩
  · exact ⟨⟨_, hcalls, hcalls'⟩, .inr ⟨_, _, rfl, rfl⟩⟩
  · rw [hfault, hworks j' hj'] at hfail'
    cases hfail'
  · rw [← hfault, hworks' j hj] at hfail
    cases hfail
  · -- the first call that fails is the same on both
    obtain rfl : j = j' := by
      rcases lt_trichotomy j j' with hlt | heq | hlt
      · exact nomatch (hfail.symm.trans (hfault j).symm).trans (hworks' j hlt)
      · exact heq
      · exact nomatch (hfail'.symm.trans (hfault j')).trans (hworks j' hlt)
    exact ⟨⟨_, hcalls, hcalls'⟩, .inl ⟨_, rfl, rfl⟩⟩

namespace BufferShard

/-- File ids still to be drawn are in no entry. -/
def Filed (env : Env) (s : BufferShard) : Prop :=
  ∀ id e, (id, e) ∈ s.groups.entries → e.diskOffset < env.spillId s.diskStorage.spills

namespace Filed

variable {env : Env} {s : BufferShard} {id : String} {e : GroupEntry}

theorem of_settled (h : s.Settled env) : s.Filed env := h.drawn

theorem get? (h : s.Filed env) (he : s.groups.get? id = some e) :
    e.diskOffset < env.spillId s.diskStorage.spills :=
  h id e (get?_eq_some_iff.mp he)

theorem set (h : s.Filed env) (id : String)
    (he : e.diskOffset < env.spillId s.diskStorage.spills) :
    ∀ id' e', (id', e') ∈ (s.groups.set id e).entries →
      e'.diskOffset < env.spillId s.diskStorage.spills := by
  intro id' e' hmem
  rcases mem_set.mp hmem with ⟨-, rfl, -⟩ | ⟨-, hold⟩
  · exact he
  · exact h id' e' hold

theorem insert (h : s.Filed env) (hid : id ∉ s.groups.keys) (he : e.diskOffset = 0) :
    ∀ id' e', (id', e') ∈ (s.groups.insert env.place id e).entries →
      e'.diskOffset < env.spillId s.diskStorage.spills := by
  intro id' e' hmem
  rcases (mem_insert _ hid _).mp hmem with heq | hold
  · rw [(Prod.mk.inj heq).2, he]
    exact env.spillId_pos _
  · exact h id' e' hold

end Filed

def holdings {τ : Type} (seen : ℤ → τ) (s : BufferShard) : UnorderedMap String (Holding τ) :=
  s.groups.mapValues fun _ => GroupEntry.holding seen s.diskStorage

structure Alike {τ : Type} (c : Correspondence τ) (s s' : BufferShard) : Prop where
  config : s'.config = s.config
  filter : c.filters s.dedupFilter s'.dedupFilter
  groups : UnorderedMap.Alike c.env.place c.env'.place (s.holdings c.seen) (s'.holdings c.seen')
  totalTrajectories : s'.totalTrajectories = s.totalTrajectories
  totalConsumed : s'.totalConsumed = s.totalConsumed
  diskUsageBytes : s'.diskUsageBytes = s.diskUsageBytes
  clock : ∀ k, c.seen' (c.env'.now (s'.clockReads + k)) = c.seen (c.env.now (s.clockReads + k))
  faults : ∀ k, c.env'.fault (s'.diskStorage.calls + k) = c.env.fault (s.diskStorage.calls + k)
  started : s'.diskStorage.initialized = s.diskStorage.initialized
  filed : s.Filed c.env
  filed' : s'.Filed c.env'

namespace Alike

variable {τ : Type} {c : Correspondence τ} {s s' : BufferShard}

theorem entries (h : s.Alike c s') :
    (s'.groups.entries.map fun p => (p.1, p.2.holding c.seen' s'.diskStorage)) =
      s.groups.entries.map fun p => (p.1, p.2.holding c.seen s.diskStorage) :=
  h.groups.entries

theorem map_eq {β : Type} (h : s.Alike c s') {g : String × GroupEntry → β}
    (hg : ∀ id e e', e'.holding c.seen' s'.diskStorage = e.holding c.seen s.diskStorage →
      g (id, e') = g (id, e)) : s'.groups.entries.map g = s.groups.entries.map g := by
  refine map_eq_of_map_eq h.entries fun p p' hp => ?_
  obtain ⟨hid, hheld⟩ := Prod.mk.inj hp
  rw [← hg p.1 p.2 p'.2 hheld, ← hid]

theorem pointers (h : s.Alike c s') :
    (s'.groups.entries.map fun p => (p.1, p.2.groupPtr)) =
      s.groups.entries.map fun p => (p.1, p.2.groupPtr) :=
  h.map_eq fun id e e' he => by rw [GroupEntry.holding_ptr he]

theorem get? (h : s.Alike c s') (id : String) :
    (s'.groups.get? id).map (GroupEntry.holding c.seen' s'.diskStorage) =
      (s.groups.get? id).map (GroupEntry.holding c.seen s.diskStorage) := by
  have hget := h.groups.get? id
  rwa [holdings, holdings, get?_mapValues, get?_mapValues] at hget

theorem get?_none (h : s.Alike c s') {id : String} (hid : s.groups.get? id = none) :
    s'.groups.get? id = none := by
  have hget := h.get? id
  rw [hid, Option.map_none] at hget
  exact Option.map_eq_none_iff.mp hget

theorem get?_some (h : s.Alike c s') {id : String} {e : GroupEntry}
    (hid : s.groups.get? id = some e) :
    ∃ e', s'.groups.get? id = some e' ∧
      e'.holding c.seen' s'.diskStorage = e.holding c.seen s.diskStorage := by
  have hget := h.get? id
  rw [hid, Option.map_some] at hget
  exact Option.map_eq_some_iff.mp hget

section Memory

theorem memoryUsage (h : s.Alike c s') :
    s'.estimateMemoryUsage c.env' = s.estimateMemoryUsage c.env := by
  have hbytes : memoryBytes c.env' = memoryBytes c.env := by
    funext e
    rw [memoryBytes, memoryBytes, c.bytes]
  have hgroups : s'.groups.sum (fun _ e => memoryBytes c.env e) =
      s.groups.sum fun _ e => memoryBytes c.env e :=
    congrArg List.sum (h.map_eq fun id e e' he => by
      simp only [memoryBytes, GroupEntry.holding_ptr he])
  rw [estimateMemoryUsage_eq, estimateMemoryUsage_eq, memoryTotal, memoryTotal, filterBytes,
    filterBytes, hbytes, hgroups, h.config, c.size_eq h.filter, c.bits_eq h.filter]

theorem selectGroups_eq {env env' : Env} (hbytes : env'.byteSizeLong = env.byteSizeLong)
    (target : ℕ) {entries entries' : List (String × GroupEntry)}
    (h : (entries'.map fun p => (p.1, p.2.groupPtr)) = entries.map fun p => (p.1, p.2.groupPtr))
    (acc : SpillSelection) :
    selectGroups env' target acc entries' = selectGroups env target acc entries := by
  induction entries generalizing entries' acc with
  | nil =>
    rw [List.map_nil, List.map_eq_nil_iff] at h
    rw [h, selectGroups, selectGroups]
  | cons p entries ih =>
    obtain ⟨⟨id', e'⟩, rest, rfl, hhead, hrest⟩ := List.map_eq_cons_iff.mp h
    obtain ⟨id, e⟩ := p
    obtain ⟨rfl, hptr⟩ := Prod.mk.inj hhead
    simp only at hptr
    rw [selectGroups, selectGroups, hptr, hbytes]
    cases e.groupPtr with
    | none => exact ih hrest acc
    | some g =>
      simp only
      split
      · split
        · rfl
        · exact ih hrest _
      · exact ih hrest acc

theorem spillSelection (h : s.Alike c s') :
    s'.spillSelection c.env' = s.spillSelection c.env := by
  rw [BufferShard.spillSelection, BufferShard.spillSelection, h.memoryUsage]
  simp only [memoryFraction, h.config, c.fractions, selectGroups_eq c.bytes _ h.pointers]
  rfl

end Memory

section Write

theorem holdings_of_disk {seen : ℤ → τ} {d : DiskStorage}
    (hfind : ∀ id e, (id, e) ∈ s.groups.entries → 0 < e.diskOffset →
      d.find e.diskOffset = s.diskStorage.find e.diskOffset) :
    ({ s with diskStorage := d } : BufferShard).holdings seen = s.holdings seen :=
  mapValues_congr fun id e hmem => GroupEntry.holding_of_disk (hfind id e hmem)

theorem dedup (h : s.Alike c s') {uid : String} (huid : c.admitted uid) :
    (s'.dedup c.env' uid).1 = (s.dedup c.env uid).1 ∧
      (s.dedup c.env uid).2.Alike c (s'.dedup c.env' uid).2 := by
  obtain ⟨hanswer, hfilters⟩ := c.insert_eq h.filter huid
  by_cases hon : s.config.uidDedup = true
  · rw [BufferShard.dedup, BufferShard.dedup, if_pos hon, if_pos (h.config ▸ hon)]
    exact ⟨hanswer, { h with
      filter := hfilters
      filed := h.filed
      filed' := h.filed' }⟩
  · rw [BufferShard.dedup, BufferShard.dedup, if_neg hon, if_neg (h.config ▸ hon)]
    exact ⟨rfl, h⟩

theorem clock_succ (h : s.Alike c s') (k : ℕ) :
    c.seen' (c.env'.now (s'.clockReads + 1 + k)) = c.seen (c.env.now (s.clockReads + 1 + k)) := by
  rw [Nat.add_assoc, Nat.add_assoc]
  exact h.clock (1 + k)

theorem set (h : s.Alike c s') (id : String) {e e' : GroupEntry}
    (he : e'.holding c.seen' s'.diskStorage = e.holding c.seen s.diskStorage) :
    UnorderedMap.Alike c.env.place c.env'.place
      ((s.groups.set id e).mapValues fun _ => GroupEntry.holding c.seen s.diskStorage)
      ((s'.groups.set id e').mapValues fun _ => GroupEntry.holding c.seen' s'.diskStorage) := by
  have hset := h.groups.set id (e.holding c.seen s.diskStorage)
  rw [set_mapValues, set_mapValues, he]
  exact hset

theorem insert (h : s.Alike c s') (id : String) {e e' : GroupEntry}
    (he : e'.holding c.seen' s'.diskStorage = e.holding c.seen s.diskStorage) :
    UnorderedMap.Alike c.env.place c.env'.place
      ((s.groups.insert c.env.place id e).mapValues fun _ =>
        GroupEntry.holding c.seen s.diskStorage)
      ((s'.groups.insert c.env'.place id e').mapValues fun _ =>
        GroupEntry.holding c.seen' s'.diskStorage) := by
  have hinsert := h.groups.insert id (e.holding c.seen s.diskStorage)
  rw [insert_mapValues, insert_mapValues, he]
  exact hinsert

theorem newEntry (h : s.Alike c s') (t : Trajectory) :
    (s'.newEntry c.env' t).holding c.seen' s'.diskStorage =
      (s.newEntry c.env t).holding c.seen s.diskStorage := by
  have hnow := h.clock 0
  simp only [Nat.add_zero] at hnow
  simp only [BufferShard.newEntry, GroupEntry.holding, h.config, hnow, lt_irrefl, if_false]

theorem refilled (h : s.Alike c s') (t : Trajectory) {e e' : GroupEntry}
    (hheld : e'.holding c.seen' s'.diskStorage = e.holding c.seen s.diskStorage) :
    ({ e' with
        groupPtr := (s'.newEntry c.env' t).groupPtr
        createdTime := (s'.newEntry c.env' t).createdTime } : GroupEntry).holding
      c.seen' s'.diskStorage = ({ e with
        groupPtr := (s.newEntry c.env t).groupPtr
        createdTime := (s.newEntry c.env t).createdTime } : GroupEntry).holding
      c.seen s.diskStorage := by
  have hnew := h.newEntry t
  refine (congrArg (fun held : Holding τ => { held with
    groupPtr := (s'.newEntry c.env' t).groupPtr
    born := c.seen' (s'.newEntry c.env' t).createdTime }) hheld).trans ?_
  rw [GroupEntry.holding_ptr hnew, show c.seen' _ = c.seen _ from congrArg Holding.born hnew]
  rfl

theorem addTrajectory (h : s.Alike c s') (t : Trajectory) :
    (s'.addTrajectory c.env' t).1 = (s.addTrajectory c.env t).1 ∧
      (s.addTrajectory c.env t).2.Alike c (s'.addTrajectory c.env' t).2 := by
  cases he : s.groups.get? t.instanceId with
  | none =>
    have he' := h.get?_none he
    rw [addTrajectory_new he, addTrajectory_new he']
    exact ⟨rfl, { h with
      groups := h.insert t.instanceId (h.newEntry t)
      totalTrajectories := congrArg (· + 1) h.totalTrajectories
      clock := h.clock_succ
      filed := h.filed.insert (get?_eq_none_iff.mp he) rfl
      filed' := h.filed'.insert (get?_eq_none_iff.mp he') rfl }⟩
  | some e =>
    obtain ⟨e', he', hheld⟩ := h.get?_some he
    have hfiled := h.filed.get? he
    have hfiled' := h.filed'.get? he'
    cases hptr : e.groupPtr with
    | some g =>
      rw [addTrajectory_memory he hptr,
        addTrajectory_memory he' ((GroupEntry.holding_ptr hheld).trans hptr)]
      have hadded : ({ e' with groupPtr := some (g.add t) } : GroupEntry).holding c.seen'
          s'.diskStorage = ({ e with groupPtr := some (g.add t) } : GroupEntry).holding c.seen
            s.diskStorage :=
        congrArg (fun held : Holding τ => { held with groupPtr := some (g.add t) }) hheld
      exact ⟨rfl, { h with
        groups := h.set t.instanceId hadded
        totalTrajectories := congrArg (· + 1) h.totalTrajectories
        filed := h.filed.set t.instanceId hfiled
        filed' := h.filed'.set t.instanceId hfiled' }⟩
    | none =>
      have hptr' := (GroupEntry.holding_ptr hheld).trans hptr
      by_cases hpos : 0 < e.diskOffset
      · rw [addTrajectory_onDisk he (GroupEntry.isOnDisk_iff.mpr ⟨hpos, hptr⟩),
          addTrajectory_onDisk he' (GroupEntry.isOnDisk_iff.mpr
            ⟨(GroupEntry.holding_pos hheld).mpr hpos, hptr'⟩)]
        exact ⟨rfl, h⟩
      · have hzero : e.diskOffset = 0 := Nat.eq_zero_of_not_pos hpos
        have hzero' : e'.diskOffset = 0 :=
          Nat.eq_zero_of_not_pos ((GroupEntry.holding_pos hheld).not.mpr hpos)
        rw [addTrajectory_empty he hptr hzero, addTrajectory_empty he' hptr' hzero']
        have hfilled := h.refilled t hheld
        exact ⟨rfl, { h with
          groups := h.set t.instanceId hfilled
          totalTrajectories := congrArg (· + 1) h.totalTrajectories
          clock := h.clock_succ
          filed := h.filed.set t.instanceId hfiled
          filed' := h.filed'.set t.instanceId hfiled' }⟩

end Write

section Spill

/-- The disks may do more, as long as the files in use stay and the calls keep step. -/
theorem disk (h : s.Alike c s') {d d' : DiskStorage}
    (hinit : d.initialized = s.diskStorage.initialized)
    (hinit' : d'.initialized = s'.diskStorage.initialized)
    (hspills : s.diskStorage.spills ≤ d.spills) (hspills' : s'.diskStorage.spills ≤ d'.spills)
    (hfind : ∀ id e, (id, e) ∈ s.groups.entries → 0 < e.diskOffset →
      d.find e.diskOffset = s.diskStorage.find e.diskOffset)
    (hfind' : ∀ id e, (id, e) ∈ s'.groups.entries → 0 < e.diskOffset →
      d'.find e.diskOffset = s'.diskStorage.find e.diskOffset)
    {n : ℕ} (hcalls : d.calls = s.diskStorage.calls + n)
    (hcalls' : d'.calls = s'.diskStorage.calls + n) :
    ({ s with diskStorage := d } : BufferShard).Alike c { s' with diskStorage := d' } :=
  { h with
    groups := by
      rw [holdings_of_disk hfind, holdings_of_disk hfind']
      exact h.groups
    faults := fun k => by
      simp only [hcalls, hcalls', Nat.add_assoc]
      exact h.faults (n + k)
    started := hinit'.trans (h.started.trans hinit.symm)
    filed := fun id e hmem => (h.filed id e hmem).trans_le
      (c.env.spillId_strictMono.monotone hspills)
    filed' := fun id e hmem => (h.filed' id e hmem).trans_le
      (c.env'.spillId_strictMono.monotone hspills') }

structure Written (c : Correspondence τ) (d d' : DiskStorage) (offset offset' : ℕ) : Prop where
  positive : 0 < offset
  positive' : 0 < offset'
  drawn : offset < c.env.spillId d.spills
  drawn' : offset' < c.env'.spillId d'.spills
  same : d'.find offset' = d.find offset

theorem commitEntry (h : s.Alike c s') (id : String) {offset offset' : ℕ}
    (hfile : Written c s.diskStorage s'.diskStorage offset offset') :
    (s.commitEntry c.env id offset).Alike c (s'.commitEntry c.env' id offset') := by
  cases he : s.groups.get? id with
  | none =>
    rw [commitEntry_absent he, commitEntry_absent (h.get?_none he)]
    exact h
  | some e =>
    obtain ⟨e', he', hheld⟩ := h.get?_some he
    have hcommitted : (committed c.env' e' offset').holding c.seen' s'.diskStorage =
        (committed c.env e offset).holding c.seen s.diskStorage := by
      have hborn : c.seen' e'.createdTime = c.seen e.createdTime := congrArg Holding.born hheld
      simp only [GroupEntry.holding, committed, hfile.positive, hfile.positive', if_true,
        hfile.same, hborn, GroupEntry.holding_trajectoriesSize hheld,
        GroupEntry.holding_ptr hheld, c.bytes]
    have hbytes : (committed c.env' e' offset').cachedBytes =
        (committed c.env e offset).cachedBytes := congrArg Holding.cachedBytes hcommitted
    rw [commitEntry_present he, commitEntry_present he']
    exact { h with
      groups := h.set id hcommitted
      diskUsageBytes := by rw [hbytes, h.diskUsageBytes]
      filed := h.filed.set id hfile.drawn
      filed' := h.filed'.set id hfile.drawn' }

theorem commits (h : s.Alike c s') (keys : List String) {offsets offsets' : List ℕ}
    (hfiles : List.Forall₂ (Written c s.diskStorage s'.diskStorage) offsets offsets') :
    ((keys.zip offsets).foldl (fun s p => s.commitEntry c.env p.1 p.2) s).Alike c
      ((keys.zip offsets').foldl (fun s p => s.commitEntry c.env' p.1 p.2) s') := by
  induction keys generalizing offsets offsets' s s' with
  | nil => exact h
  | cons id keys ih =>
    cases hfiles with
    | nil => exact h
    | cons hfile hfiles =>
      refine ih (h.commitEntry id hfile) ?_
      rw [(commitEntry_frame c.env s id _).2.2.1, (commitEntry_frame c.env' s' id _).2.2.1]
      exact hfiles

theorem written_of_batch {d d' : DiskStorage} {groups : List TrajectoryGroup}
    {offsets offsets' : List ℕ}
    (hfiles : List.Forall₂ (fun group offset => d.find offset = some group) groups offsets)
    (hfiles' : List.Forall₂ (fun group offset => d'.find offset = some group) groups offsets')
    (hrange : ∀ offset ∈ offsets, 0 < offset ∧ offset < c.env.spillId d.spills)
    (hrange' : ∀ offset ∈ offsets', 0 < offset ∧ offset < c.env'.spillId d'.spills) :
    List.Forall₂ (Written c d d') offsets offsets' := by
  induction hfiles generalizing offsets' with
  | nil =>
    cases hfiles'
    exact .nil
  | cons hfile hfiles ih =>
    cases hfiles' with
    | cons hfile' hfiles' =>
      rw [List.forall_mem_cons] at hrange hrange'
      exact .cons ⟨hrange.1.1, hrange'.1.1, hrange.1.2, hrange'.1.2, hfile'.trans hfile.symm⟩
        (ih hfiles' hrange.2 hrange'.2)

theorem spill (h : s.Alike c s') (hi : s.diskStorage.initialized = true)
    {selection : SpillSelection} (hsel : s.spillSelection c.env = some selection) :
    (s'.trySpillGroups c.env').1 = (s.trySpillGroups c.env).1 ∧
      (s.trySpillGroups c.env).2.Alike c (s'.trySpillGroups c.env').2 := by
  have hsel' := h.spillSelection.trans hsel
  have hi' := h.started.trans hi
  obtain ⟨chosen, hkeys, hgroups, -⟩ := spillSelection_spec hsel
  obtain ⟨r, d, hbatch, hinit, hspills, hframe, hok⟩ :=
    DiskStorage.spillBatch_cases c.env selection.groups hi
  obtain ⟨r', d', hbatch', hinit', hspills', hframe', hok'⟩ :=
    DiskStorage.spillBatch_cases c.env' selection.groups hi'
  obtain ⟨⟨n, hcalls, hcalls'⟩, houtcome⟩ :=
    DiskStorage.spillBatch_alike selection.groups hi hi' h.faults
  rw [hbatch] at hcalls houtcome
  rw [hbatch'] at hcalls' houtcome
  have hdisk := h.disk (hinit.trans hi.symm) (hinit'.trans hi'.symm) hspills hspills'
    (fun id e hmem _ => hframe _ (h.filed id e hmem))
    (fun id e hmem _ => hframe' _ (h.filed' id e hmem)) hcalls hcalls'
  rcases houtcome with ⟨e, rfl, rfl⟩ | ⟨offsets, offsets', rfl, rfl⟩
  · simp only [BufferShard.trySpillGroups, hsel, hsel', hbatch, hbatch']
    exact ⟨trivial, hdisk⟩
  · obtain ⟨hfiles, -, hrange⟩ := hok offsets rfl
    obtain ⟨hfiles', -, hrange'⟩ := hok' offsets' rfl
    have hlength : selection.keys.length = selection.groups.length := by
      rw [hkeys, hgroups, List.length_map, List.length_map]
    rw [trySpillGroups_commits hsel hbatch (hlength.trans hfiles.length_eq),
      trySpillGroups_commits hsel' hbatch' (hlength.trans hfiles'.length_eq)]
    have hwritten := written_of_batch (c := c) hfiles hfiles'
      (fun offset ho => ⟨(c.env.spillId_pos _).trans_le (hrange offset ho).1, (hrange offset ho).2⟩)
      (fun offset ho =>
        ⟨(c.env'.spillId_pos _).trans_le (hrange' offset ho).1, (hrange' offset ho).2⟩)
    exact ⟨rfl, hdisk.commits selection.keys hwritten⟩

theorem trySpillGroups (h : s.Alike c s') :
    (s'.trySpillGroups c.env').1 = (s.trySpillGroups c.env).1 ∧
      (s.trySpillGroups c.env).2.Alike c (s'.trySpillGroups c.env').2 := by
  cases hsel : s.spillSelection c.env with
  | none =>
    rw [BufferShard.trySpillGroups, BufferShard.trySpillGroups, h.spillSelection, hsel]
    exact ⟨rfl, h⟩
  | some selection =>
    cases hi : s.diskStorage.initialized with
    | true => exact h.spill hi hsel
    | false =>
      obtain ⟨chosen, -, hgroups, hne, -⟩ := spillSelection_spec hsel
      obtain ⟨group, groups, hcons⟩ : ∃ group groups, selection.groups = group :: groups :=
        List.exists_cons_of_ne_nil (by simpa [hgroups] using hne)
      simp only [BufferShard.trySpillGroups, hsel, h.spillSelection.trans hsel, hcons,
        DiskStorage.spillBatch_uninitialized _ hi,
        DiskStorage.spillBatch_uninitialized _ (h.started.trans hi)]
      exact ⟨trivial, h⟩

end Spill

section Writes

theorem writeStart (h : s.Alike c s') {t : Trajectory} (ht : c.admitted t.uid) :
    (s'.writeStart c.env' t).1 = (s.writeStart c.env t).1 ∧
      (s.writeStart c.env t).2.Alike c (s'.writeStart c.env' t).2 := by
  obtain ⟨hfresh, hdedup⟩ := h.dedup ht
  rw [BufferShard.writeStart, BufferShard.writeStart]
  rcases hd : s.dedup c.env t.uid with ⟨fresh, s₁⟩
  rcases hd' : s'.dedup c.env' t.uid with ⟨fresh', s₁'⟩
  rw [hd, hd'] at hfresh hdedup
  simp only at hfresh hdedup
  subst hfresh
  cases fresh' with
  | false => exact ⟨rfl, hdedup⟩
  | true => exact hdedup.addTrajectory t

theorem write (h : s.Alike c s') {t : Trajectory} (ht : c.admitted t.uid) :
    (s'.write c.env' t).1 = (s.write c.env t).1 ∧
      (s.write c.env t).2.Alike c (s'.write c.env' t).2 := by
  obtain ⟨hstart, halike⟩ := h.writeStart ht
  rw [BufferShard.write, BufferShard.write]
  rcases hw : s.writeStart c.env t with ⟨start, s₁⟩
  rcases hw' : s'.writeStart c.env' t with ⟨start', s₁'⟩
  rw [hw, hw'] at hstart halike
  simp only at hstart halike
  subst hstart
  cases start' with
  | duplicate => exact ⟨rfl, halike⟩
  | onDisk => exact ⟨rfl, halike⟩
  | appended =>
    obtain ⟨hspill, hspilled⟩ := halike.trySpillGroups
    simp only
    rcases ht : s₁.trySpillGroups c.env with ⟨r, s₂⟩
    rcases ht' : s₁'.trySpillGroups c.env' with ⟨r', s₂'⟩
    rw [ht, ht'] at hspill hspilled
    simp only at hspill hspilled
    subst hspill
    cases r' with
    | error e => exact ⟨rfl, hspilled⟩
    | ok bytes => exact ⟨rfl, hspilled⟩

theorem batchWriteLoop (h : s.Alike c s') (written : ℕ) {ts : List Trajectory}
    (hts : ∀ t ∈ ts, c.admitted t.uid) :
    (BufferShard.batchWriteLoop c.env' written ts s').1 =
        (BufferShard.batchWriteLoop c.env written ts s).1 ∧
      (BufferShard.batchWriteLoop c.env written ts s).2.Alike c
        (BufferShard.batchWriteLoop c.env' written ts s').2 := by
  induction ts generalizing s s' written with
  | nil => exact ⟨rfl, h⟩
  | cons t ts ih =>
    rw [List.forall_mem_cons] at hts
    obtain ⟨hanswer, halike⟩ := h.write hts.1
    rw [BufferShard.batchWriteLoop, BufferShard.batchWriteLoop]
    rcases hw : s.write c.env t with ⟨r, s₁⟩
    rcases hw' : s'.write c.env' t with ⟨r', s₁'⟩
    rw [hw, hw'] at hanswer halike
    simp only at hanswer halike
    subst hanswer
    rcases r' with e | (_ | _)
    · exact ⟨rfl, halike⟩
    · exact ih halike written hts.2
    · exact ih halike (written + 1) hts.2

end Writes

end Alike
end BufferShard
end TransferQueue
