import TransferQueue.Alike

/-! Settled shards on working disks that answer alike do so over whole runs: every
operation has the same output in both, and status and meta information show the same. -/

namespace TransferQueue
open UnorderedMap

def Op.submitted : Op → List Trajectory
  | .write t => [t]
  | .batchWrite ts => ts
  | _ => []

namespace BufferShard

/-- What is seen of the clocks decides every age. -/
def Timed {τ : Type} (c : Correspondence τ) : Prop :=
  ∀ now now' born born', c.seen' now' = c.seen now → c.seen' born' = c.seen born →
    now' - born' = now - born

namespace Alike

variable {τ : Type} {c : Correspondence τ} {s s' : BufferShard}

/-- The same entries of both shards. -/
def Matching (c : Correspondence τ) (s s' : BufferShard)
    (taken taken' : List (String × GroupEntry)) : Prop :=
  (taken'.map fun p => (p.1, p.2.holding c.seen' s'.diskStorage)) =
    taken.map fun p => (p.1, p.2.holding c.seen s.diskStorage)

section Taken
variable {taken taken' : List (String × GroupEntry)}

theorem Matching.map_eq {β : Type} (h : Matching c s s' taken taken')
    {g : String × GroupEntry → β}
    (hg : ∀ id e e', e'.holding c.seen' s'.diskStorage = e.holding c.seen s.diskStorage →
      g (id, e') = g (id, e)) : taken'.map g = taken.map g := by
  refine map_eq_of_map_eq h fun p p' hp => ?_
  obtain ⟨hid, hheld⟩ := Prod.mk.inj hp
  rw [← hg p.1 p.2 p'.2 hheld, ← hid]

theorem Matching.filter (h : Matching c s s' taken taken') {p : GroupEntry → Bool}
    (hp : ∀ e e', e'.holding c.seen' s'.diskStorage = e.holding c.seen s.diskStorage →
      p e' = p e) :
    Matching c s s' (taken.filter fun q => p q.2) (taken'.filter fun q => p q.2) :=
  filter_map_eq_of_map_eq h fun q q' hq => hp q.2 q'.2 (Prod.mk.inj hq).2

theorem Matching.ids (h : Matching c s s' taken taken') :
    taken'.map Prod.fst = taken.map Prod.fst :=
  h.map_eq fun _ _ _ _ => rfl

theorem matching (h : s.Alike c s') : Matching c s s' s.groups.entries s'.groups.entries :=
  h.entries

theorem selected (h : s.Alike c s') (maxGroups : Int32) :
    Matching c s s' (s.selected maxGroups) (s'.selected maxGroups) := by
  rw [Matching, BufferShard.selected, BufferShard.selected, selectedOf, selectedOf, limitTo_map,
    limitTo_map]
  exact congrArg _ (h.matching.filter (p := GroupEntry.isComplete) fun _ _ he =>
    GroupEntry.holding_isComplete he)

theorem Matching.loaded (h : Matching c s s' taken taken') {loaded loaded' : List TrajectoryGroup}
    (hfiles : List.Forall₂ (fun offset g => s.diskStorage.find offset = some g)
      (filesOf taken) loaded)
    (hfiles' : List.Forall₂ (fun offset g => s'.diskStorage.find offset = some g)
      (filesOf taken') loaded') : loaded' = loaded := by
  have hfound : (filesOf taken').map s'.diskStorage.find =
      (filesOf taken).map s.diskStorage.find := by
    have hondisk := h.filter (p := GroupEntry.isOnDisk) fun _ _ he =>
      GroupEntry.holding_isOnDisk he
    have hfile := congrArg (List.map fun q => q.2.file) hondisk
    rw [List.map_map, List.map_map] at hfile
    rw [filesOf, filesOf, List.map_map, List.map_map]
    have hsome : ∀ (d : DiskStorage) (seen : ℤ → τ) (l : List (String × GroupEntry)),
        (l.filter fun q => q.2.isOnDisk).map ((fun q => q.2.file) ∘ fun q =>
          (q.1, q.2.holding seen d)) =
        ((l.filter fun q => q.2.isOnDisk).map (d.find ∘ fun q => q.2.diskOffset)).map some := by
      intro d seen l
      rw [List.map_map]
      refine List.map_congr_left fun q hq => ?_
      have hpos := (GroupEntry.isOnDisk_iff.mp (List.mem_filter.mp hq).2).1
      simp [GroupEntry.holding, hpos]
    rw [hsome, hsome] at hfile
    exact List.map_injective_iff.mpr (Option.some_injective _) hfile
  have hloaded : (filesOf taken).map s.diskStorage.find = loaded.map some :=
    List.forall₂_eq_eq_eq ▸ (List.forall₂_map_left_iff.mpr (List.forall₂_map_right_iff.mpr hfiles))
  have hloaded' : (filesOf taken').map s'.diskStorage.find = loaded'.map some :=
    List.forall₂_eq_eq_eq ▸ (List.forall₂_map_left_iff.mpr (List.forall₂_map_right_iff.mpr hfiles'))
  exact List.map_injective_iff.mpr (Option.some_injective _)
    (hloaded'.symm.trans (hfound.trans hloaded))

theorem erased (h : s.Alike c s') (hs : s.Settled c.env) (hs' : s'.Settled c.env')
    (htaken : Matching c s s' taken taken') (hsub : ∀ p ∈ taken, p ∈ s.groups.entries)
    (hsub' : ∀ p ∈ taken', p ∈ s'.groups.entries) {d d' : DiskStorage}
    (hfind : ∀ offset, d.find offset =
      if offset ∈ filesOf taken then none else s.diskStorage.find offset)
    (hfind' : ∀ offset, d'.find offset =
      if offset ∈ filesOf taken' then none else s'.diskStorage.find offset) :
    UnorderedMap.Alike c.env.place c.env'.place
      ((s.groups.eraseAll (taken.map Prod.fst)).mapValues fun _ => GroupEntry.holding c.seen d)
      ((s'.groups.eraseAll (taken'.map Prod.fst)).mapValues fun _ =>
        GroupEntry.holding c.seen' d') := by
  have hkept : (s.groups.eraseAll (taken.map Prod.fst)).mapValues
      (fun _ => GroupEntry.holding c.seen d) =
        (s.holdings c.seen).eraseAll (taken.map Prod.fst) := by
    rw [holdings, ← eraseAll_mapValues]
    refine mapValues_congr fun id e hmem => GroupEntry.holding_of_disk fun hpos => ?_
    obtain ⟨hold, hid⟩ := (mem_eraseAll _).mp hmem
    exact hs.removed hsub hfind hold hid hpos
  have hkept' : (s'.groups.eraseAll (taken'.map Prod.fst)).mapValues
      (fun _ => GroupEntry.holding c.seen' d') =
        (s'.holdings c.seen').eraseAll (taken'.map Prod.fst) := by
    rw [holdings, ← eraseAll_mapValues]
    refine mapValues_congr fun id e hmem => GroupEntry.holding_of_disk fun hpos => ?_
    obtain ⟨hold, hid⟩ := (mem_eraseAll _).mp hmem
    exact hs'.removed hsub' hfind' hold hid hpos
  rw [hkept, hkept', htaken.ids]
  exact h.groups.eraseAll _

end Taken

theorem faults_of_reliable (hr : c.env.Reliable) (hr' : c.env'.Reliable) (d d' : DiskStorage) :
    ∀ k, c.env'.fault (d'.calls + k) = c.env.fault (d.calls + k) :=
  fun _ => (hr' _).trans (hr _).symm

theorem readReadyGroups (h : s.Alike c s') (hr : c.env.Reliable) (hr' : c.env'.Reliable)
    (hs : s.Settled c.env) (hs' : s'.Settled c.env') (maxGroups : Int32) :
    (s'.readReadyGroups c.env' maxGroups).1 = (s.readReadyGroups c.env maxGroups).1 ∧
      (s.readReadyGroups c.env maxGroups).2.Alike c (s'.readReadyGroups c.env' maxGroups).2 := by
  obtain ⟨loaded, d, hok, hfiles, -, -, hfind⟩ := readReadyGroups_ok hr hs maxGroups
  obtain ⟨loaded', d', hok', hfiles', -, -, hfind'⟩ := readReadyGroups_ok hr' hs' maxGroups
  have hsub : ∀ p ∈ s.selected maxGroups, p ∈ s.groups.entries := fun p hp =>
    (mem_of_selected hp).1
  have hsub' : ∀ p ∈ s'.selected maxGroups, p ∈ s'.groups.entries := fun p hp =>
    (mem_of_selected hp).1
  have htaken := h.selected maxGroups
  have hloaded := htaken.loaded hfiles hfiles'
  have hresult : (s'.scanOf maxGroups).result = (s.scanOf maxGroups).result := by
    have hptrs := htaken.map_eq (g := fun p => p.2.groupPtr) fun _ _ _ he =>
      GroupEntry.holding_ptr he
    have hmoved := congrArg (List.filterMap id) hptrs
    rw [List.filterMap_map, List.filterMap_map] at hmoved
    exact hmoved
  have hconsumed : (s'.scanOf maxGroups).totalConsumed = (s.scanOf maxGroups).totalConsumed := by
    have hsizes := htaken.map_eq (g := fun p => p.2.trajectoriesSize) fun _ _ _ he =>
      GroupEntry.holding_trajectoriesSize he
    rw [scanOf, scanOf, ReadScan.collect, ReadScan.collect, h.totalConsumed, hsizes]
  have hbytes : (s'.scanOf maxGroups).diskUsageBytes = (s.scanOf maxGroups).diskUsageBytes := by
    have hsizes := (htaken.filter (p := GroupEntry.isOnDisk) fun _ _ he =>
      GroupEntry.holding_isOnDisk he).map_eq (g := fun p => p.2.cachedBytes) fun _ _ _ he =>
        congrArg Holding.cachedBytes he
    rw [scanOf, scanOf, ReadScan.collect, ReadScan.collect, h.diskUsageBytes, hsizes]
  have hgroups := h.erased hs hs' htaken hsub hsub' hfind hfind'
  rw [← afterScan_erased maxGroups s, ← afterScan_erased maxGroups s'] at hgroups
  have hsettled := (exec_refines hr hs (.readReadyGroups maxGroups)).2.1
  have hsettled' := (exec_refines hr' hs' (.readReadyGroups maxGroups)).2.1
  simp only [exec, hok, hok', Prod.map, id] at hsettled hsettled'
  rw [hok, hok', hloaded, hresult]
  refine ⟨rfl, {
    config := h.config
    filter := h.filter
    groups := hgroups
    totalTrajectories := h.totalTrajectories
    totalConsumed := ?_
    diskUsageBytes := hbytes
    clock := h.clock
    faults := faults_of_reliable hr hr' d d'
    started := hsettled'.initialized.trans hsettled.initialized.symm
    filed := ?_
    filed' := ?_ }⟩
  · simp only [eraseIds, mergeLoaded_eq]
    exact congrArg (· + _) hconsumed
  · exact .of_settled hsettled
  · exact .of_settled (hloaded ▸ hresult ▸ hsettled')

theorem deleteInstance (h : s.Alike c s') (hr : c.env.Reliable) (hr' : c.env'.Reliable)
    (hs : s.Settled c.env) (hs' : s'.Settled c.env') (id : String) :
    (s.deleteInstance c.env id).Alike c (s'.deleteInstance c.env' id) := by
  have hfiled := Filed.of_settled (deleteInstance_refines hr hs id).1
  have hfiled' := Filed.of_settled (deleteInstance_refines hr' hs' id).1
  cases he : s.groups.get? id with
  | none =>
    simp only [BufferShard.deleteInstance, deleteEntry, he, h.get?_none he]
    exact h
  | some e =>
    obtain ⟨e', he', hheld⟩ := h.get?_some he
    have hsub : ∀ p ∈ [(id, e)], p ∈ s.groups.entries := by simpa using get?_eq_some_iff.mp he
    have hsub' : ∀ p ∈ [(id, e')], p ∈ s'.groups.entries := by
      simpa using get?_eq_some_iff.mp he'
    have htaken : Matching c s s' [(id, e)] [(id, e')] := by
      simp only [Matching, List.map_cons, List.map_nil, hheld]
    have hbytes : e'.cachedBytes = e.cachedBytes := congrArg Holding.cachedBytes hheld
    have hon := GroupEntry.holding_isOnDisk hheld
    simp only [BufferShard.deleteInstance, deleteEntry, he, he', hon] at hfiled hfiled' ⊢
    cases hd : e.isOnDisk with
    | false =>
      simp only [hd, Bool.false_eq_true, if_false] at hfiled hfiled' ⊢
      have hfind : ∀ offset, s.diskStorage.find offset =
          if offset ∈ filesOf [(id, e)] then none else s.diskStorage.find offset :=
        fun offset => by simp [filesOf, hd]
      have hfind' : ∀ offset, s'.diskStorage.find offset =
          if offset ∈ filesOf [(id, e')] then none else s'.diskStorage.find offset :=
        fun offset => by simp [filesOf, hon, hd]
      have hgroups := h.erased hs hs' htaken hsub hsub' hfind hfind'
      exact { h with groups := hgroups, filed := hfiled, filed' := hfiled' }
    | true =>
      obtain ⟨g, hg⟩ := hs.file_exists hsub e.diskOffset (by simp [filesOf, hd])
      obtain ⟨g', hg'⟩ := hs'.file_exists hsub' e'.diskOffset (by simp [filesOf, hon, hd])
      have hremove := DiskStorage.remove_ok hr hs.initialized hg
      have hremove' := DiskStorage.remove_ok hr' hs'.initialized hg'
      simp only [hd, if_true, hremove, hremove'] at hfiled hfiled' ⊢
      have hgroups := h.erased hs hs' htaken hsub hsub'
        (fun offset => (DiskStorage.find_delete s.diskStorage { s.diskStorage with
          files := s.diskStorage.files.filter fun f => f.1 ≠ e.diskOffset
          calls := s.diskStorage.calls + 1 } e.diskOffset rfl offset).trans
            (by simp [filesOf, hd]))
        (fun offset => (DiskStorage.find_delete s'.diskStorage { s'.diskStorage with
          files := s'.diskStorage.files.filter fun f => f.1 ≠ e'.diskOffset
          calls := s'.diskStorage.calls + 1 } e'.diskOffset rfl offset).trans
            (by simp [filesOf, hon, hd]))
      exact { h with
        groups := hgroups
        diskUsageBytes := by rw [h.diskUsageBytes, hbytes]
        faults := faults_of_reliable hr hr' _ _
        started := h.started
        filed := hfiled
        filed' := hfiled' }

theorem resetAnswer (h : s.Alike c s') : s'.resetAnswer = s.resetAnswer := by
  have hfiles : (s'.groups.entries.filter fun p => p.2.isOnDisk).map _ =
      (s.groups.entries.filter fun p => p.2.isOnDisk).map _ :=
    filter_map_eq_of_map_eq h.entries fun _ _ hp =>
      GroupEntry.holding_isOnDisk (congrArg Prod.snd hp)
  have hlength := congrArg List.length hfiles
  rw [List.length_map, List.length_map] at hlength
  rw [BufferShard.resetAnswer, BufferShard.resetAnswer, diskOffsets, diskOffsets, List.length_map,
    List.length_map, hlength]

theorem reset (h : s.Alike c s') (hr : c.env.Reliable) (hr' : c.env'.Reliable)
    (hs : s.Settled c.env) (hs' : s'.Settled c.env') :
    (s'.reset c.env').1 = (s.reset c.env).1 ∧
      (s.reset c.env).2.Alike c (s'.reset c.env').2 := by
  obtain ⟨t, hreset, hsettled, -⟩ := reset_refines hr hs
  obtain ⟨t', hreset', hsettled', -⟩ := reset_refines hr' hs'
  obtain ⟨d, hstate⟩ := reset_state c.env s
  obtain ⟨d', hstate'⟩ := reset_state c.env' s'
  rw [hreset] at hstate ⊢
  rw [hreset'] at hstate' ⊢
  simp only at hstate hstate'
  subst hstate hstate'
  exact ⟨h.resetAnswer, {
    config := h.config
    filter := c.clear_eq h.filter
    groups := ⟨rfl, h.groups.placed_cons .cleared⟩
    totalTrajectories := rfl
    totalConsumed := rfl
    diskUsageBytes := rfl
    clock := h.clock
    faults := faults_of_reliable hr hr' d d'
    started := hsettled'.initialized.trans hsettled.initialized.symm
    filed := .of_settled hsettled
    filed' := .of_settled hsettled' }⟩

theorem expireEntry (h : s.Alike c s') (htimed : Timed c) {e e' : GroupEntry}
    (he : e'.holding c.seen' s'.diskStorage = e.holding c.seen s.diskStorage) :
    (s'.expireEntry c.env' e').holding c.seen' s'.diskStorage =
      (s.expireEntry c.env e).holding c.seen s.diskStorage := by
  have hage := htimed _ _ _ _ (h.clock 0) (congrArg Holding.born he)
  simp only [Nat.add_zero] at hage
  rw [BufferShard.expireEntry, BufferShard.expireEntry, GroupEntry.holding_isComplete he, h.config,
    hage]
  split
  · exact congrArg (fun held : Holding τ =>
      { held with groupPtr := held.groupPtr.map fun g : TrajectoryGroup =>
          { g with isComplete := true } }) he
  · exact he

theorem checkGroupTimeouts (h : s.Alike c s') (htimed : Timed c) (hs : s.Settled c.env)
    (hs' : s'.Settled c.env') :
    (s.checkGroupTimeouts c.env).Alike c (s'.checkGroupTimeouts c.env') where
  config := h.config
  filter := h.filter
  groups := by
    refine ⟨?_, h.groups.placed⟩
    have hexpired : ∀ (env : Env) (seen : ℤ → τ) (s : BufferShard),
        ((s.checkGroupTimeouts env).holdings seen).entries = s.groups.entries.map fun p =>
          (p.1, (s.expireEntry env p.2).holding seen s.diskStorage) := fun env seen s => by
      simp only [holdings, mapValues_entries]
      exact List.map_map
    rw [hexpired, hexpired]
    refine map_eq_of_map_eq h.entries fun p p' hp => ?_
    obtain ⟨hid, hheld⟩ := Prod.mk.inj hp
    rw [hid, h.expireEntry htimed hheld]
  totalTrajectories := h.totalTrajectories
  totalConsumed := h.totalConsumed
  diskUsageBytes := h.diskUsageBytes
  clock := h.clock_succ
  faults := h.faults
  started := h.started
  filed := .of_settled (checkGroupTimeouts_refines hs).1
  filed' := .of_settled (checkGroupTimeouts_refines hs').1

theorem updateConfig (h : s.Alike c s') (config : TransferQueueConfig) :
    (s.updateConfig config).Alike c (s'.updateConfig config) :=
  { h with
    config := rfl
    filed := h.filed
    filed' := h.filed' }

def Admits (c : Correspondence τ) (op : Op) : Prop := ∀ t ∈ op.submitted, c.admitted t.uid

theorem exec (h : s.Alike c s') (htimed : Timed c) (hr : c.env.Reliable) (hr' : c.env'.Reliable)
    (hs : s.Settled c.env) (hs' : s'.Settled c.env') {op : Op} (hop : Admits c op) :
    (s'.exec c.env' op).1 = (s.exec c.env op).1 ∧
      (s.exec c.env op).2.Alike c (s'.exec c.env' op).2 := by
  cases op with
  | write t =>
    obtain ⟨hanswer, halike⟩ := h.write (hop t (List.mem_cons_self ..))
    exact ⟨congrArg Output.written hanswer, halike⟩
  | batchWrite ts =>
    obtain ⟨hanswer, halike⟩ := h.batchWriteLoop 0 hop
    exact ⟨congrArg Output.counted hanswer, halike⟩
  | readReadyGroups maxGroups =>
    obtain ⟨hanswer, halike⟩ := h.readReadyGroups hr hr' hs hs' maxGroups
    exact ⟨congrArg Output.groups hanswer, halike⟩
  | checkGroupTimeouts => exact ⟨rfl, h.checkGroupTimeouts htimed hs hs'⟩
  | deleteInstance id => exact ⟨rfl, h.deleteInstance hr hr' hs hs' id⟩
  | reset =>
    obtain ⟨hanswer, halike⟩ := h.reset hr hr' hs hs'
    exact ⟨congrArg Output.done hanswer, halike⟩
  | updateConfig config => exact ⟨rfl, h.updateConfig config⟩

section Status

theorem getStatus (h : s.Alike c s') : s'.getStatus c.env' = s.getStatus c.env := by
  have hpending := h.map_eq (g := fun p => p.2.isComplete) fun _ _ _ he =>
    GroupEntry.holding_isComplete he
  have hcount : ∀ p : Bool → Bool, (s'.groups.entries.countP fun q => p q.2.isComplete) =
      s.groups.entries.countP fun q => p q.2.isComplete := fun p => by
    have himage := congrArg (List.countP p) hpending
    rwa [List.countP_map, List.countP_map] at himage
  have hready := hcount id
  have hopen := hcount not
  simp only [id] at hready
  rw [BufferShard.getStatus, BufferShard.getStatus, h.totalTrajectories, h.totalConsumed,
    h.diskUsageBytes, h.memoryUsage, hready, hopen]

theorem getMetaInfo (h : s.Alike c s') : s'.getMetaInfo = s.getMetaInfo := by
  have hsamples := h.map_eq (g := fun p => sampleCount p.2) fun _ _ _ he => by
    have hsize : _ = _ := congrArg Holding.cachedSize he
    simp only [GroupEntry.holding] at hsize
    simp only [sampleCount, GroupEntry.holding_isOnDisk he, hsize,
      GroupEntry.holding_trajectoriesSize he]
  have hrewards := h.map_eq (g := fun p => rewardSum p.2) fun _ _ _ he => by
    simp only [rewardSum, GroupEntry.holding_ptr he]
  have hlength : s'.groups.entries.length = s.groups.entries.length := by
    simpa using congrArg List.length h.entries
  have hready := (h.matching.filter (p := GroupEntry.isComplete) fun _ _ he =>
    GroupEntry.holding_isComplete he).ids
  have hempty : s'.groups.entries = [] ↔ s.groups.entries = [] := by
    rw [← List.length_eq_zero_iff, hlength, List.length_eq_zero_iff]
  simp only [BufferShard.getMetaInfo, hsamples, hrewards, hlength, hready, hempty]

end Status

end Alike

/-- What an operation resolves to, and what status and meta information show after it. -/
structure Report where
  output : Output
  status : BufferStatus
  metaInfo : MetaInfo

/-- An operation, reporting all that its caller can ask for. -/
def report (env : Env) (s : BufferShard) (op : Op) : Report × BufferShard :=
  (⟨(s.exec env op).1, (s.exec env op).2.getStatus env, (s.exec env op).2.getMetaInfo⟩,
    (s.exec env op).2)

/-- Two shards that answer alike between operations. -/
structure InStep {τ : Type} (c : Correspondence τ) (s s' : BufferShard) : Prop where
  alike : s.Alike c s'
  settled : s.Settled c.env
  settled' : s'.Settled c.env'

namespace InStep

variable {τ : Type} {c : Correspondence τ} {s s' : BufferShard}

theorem report (h : InStep c s s') (htimed : Timed c) (hr : c.env.Reliable)
    (hr' : c.env'.Reliable) {op : Op} (hop : Alike.Admits c op) :
    (s'.report c.env' op).1 = (s.report c.env op).1 ∧
      InStep c (s.report c.env op).2 (s'.report c.env' op).2 := by
  obtain ⟨houtput, halike⟩ := h.alike.exec htimed hr hr' h.settled h.settled' hop
  obtain ⟨-, hsettled, -⟩ := exec_refines hr h.settled op
  obtain ⟨-, hsettled', -⟩ := exec_refines hr' h.settled' op
  refine ⟨?_, halike, hsettled, hsettled'⟩
  simp only [BufferShard.report, houtput, halike.getStatus, halike.getMetaInfo]

/-- Whatever operations follow, the reports are the same. -/
theorem reports (h : InStep c s s') (htimed : Timed c) (hr : c.env.Reliable)
    (hr' : c.env'.Reliable) {ops : List Op} (hops : ∀ op ∈ ops, Alike.Admits c op) :
    Machine.outputs (BufferShard.report c.env') s' ops =
      Machine.outputs (BufferShard.report c.env) s ops := by
  induction ops generalizing s s' with
  | nil => rfl
  | cons op ops ih =>
    rw [List.forall_mem_cons] at hops
    obtain ⟨hreport, hnext⟩ := h.report htimed hr hr' hops.1
    rw [Machine.outputs, Machine.outputs, hreport, ih hnext hops.2]

end InStep
end BufferShard
end TransferQueue
