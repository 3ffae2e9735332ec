import TransferQueue.FaultyRuns

/-! Full groups. A write that finds the group of its instance complete and in memory
appends to it all the same, so a group can be delivered with more trajectories than its
size. As long as no write does so, full groups stay as they are, whichever device calls
fail. -/

namespace TransferQueue
open UnorderedMap

def Op.isStream : Op → Bool
  | .write _ | .batchWrite _ | .readReadyGroups _ => true
  | _ => false

namespace BufferShard

variable {env : Env} {s : BufferShard}

/-- The group reached through the entry of an instance, and whether it passes for complete. -/
def held (s : BufferShard) (id : String) : Option (TrajectoryGroup × Bool) :=
  (s.groups.get? id).bind fun e => (e.group? s.diskStorage).map fun g => (g, e.isComplete)

theorem held_memory {id : String} {e : GroupEntry} {g : TrajectoryGroup}
    (he : s.groups.get? id = some e) (hp : e.groupPtr = some g) :
    s.held id = some (g, g.isComplete) := by
  simp [held, he, GroupEntry.group?, GroupEntry.isComplete, hp]

theorem held_congr {s' : BufferShard} {id : String} (he : s'.groups.get? id = s.groups.get? id)
    (hfind : ∀ e, s.groups.get? id = some e →
      s'.diskStorage.find e.diskOffset = s.diskStorage.find e.diskOffset) :
    s'.held id = s.held id := by
  rw [held, held, he]
  cases hg : s.groups.get? id with
  | none => rfl
  | some e => simp only [Option.bind_some, GroupEntry.group?, hfind e hg]

section Writes

def inMemory? (s : BufferShard) (id : String) : Option TrajectoryGroup :=
  (s.groups.get? id).bind GroupEntry.groupPtr

theorem held_of_inMemory {id : String} {g : TrajectoryGroup} (h : s.inMemory? id = some g) :
    s.held id = some (g, g.isComplete) := by
  obtain ⟨e, he, hp⟩ := Option.bind_eq_some_iff.mp h
  exact held_memory he hp

def extended (s : BufferShard) (t : Trajectory) : TrajectoryGroup :=
  ((s.inMemory? t.instanceId).getD (.create t.instanceId s.config.groupSize)).add t

theorem commitEntry_held {id : String} {g : TrajectoryGroup}
    {offset : ℕ} (hc : s.Copied env id g offset) : (s.commitEntry env id offset).held = s.held := by
  obtain ⟨e, hmem, hp⟩ := hc.held
  have he := get?_eq_some_iff.mpr hmem
  obtain ⟨-, -, hdisk, -⟩ := commitEntry_frame env s id offset
  funext id'
  by_cases hid : id' = id
  · subst hid
    have hnew : (s.commitEntry env id' offset).groups.get? id' = some (committed env e offset) := by
      rw [commitEntry_get?_self, he, Option.map_some]
    rw [held_memory he hp, hc.complete, held, hnew, hdisk]
    simp [committed, GroupEntry.group?, GroupEntry.isComplete, hc.positive, hc.file]
  · exact held_congr (commitEntry_get?_ne hid offset) fun _ _ => by rw [hdisk]

theorem Coherent.trySpillGroups_held (h : s.Coherent env) :
    (s.trySpillGroups env).2.held = s.held := by
  refine (trySpillGroups_keeps (P := fun s' => s'.Coherent env ∧ s'.held = s.held)
    h.initialized (fun id e hmem => (h.tidy id e hmem).drawn) ⟨h, rfl⟩ ?_
    fun h hc => ⟨h.1.commitEntry hc, (commitEntry_held hc).trans h.2⟩).2
  intro d' hinit hle hfind
  refine ⟨h.shrink (fun _ hp => hp) hinit hle fun id e hmem => .inl (hfind id e hmem), ?_⟩
  exact funext fun id => held_congr rfl fun e he => hfind id e (get?_eq_some_iff.mp he)

theorem addTrajectory_held (env : Env) (s : BufferShard) (t : Trajectory) :
    (s.onDisk t.instanceId = true ∧ (s.addTrajectory env t).2.held = s.held ∧
        (s.addTrajectory env t).1 = .onDisk) ∨
      (s.onDisk t.instanceId = false ∧
        (s.addTrajectory env t).2.held = Function.update s.held t.instanceId
          (some (s.extended t, (s.extended t).isComplete)) ∧
        (s.addTrajectory env t).1 = .appended) := by
  have hset : ∀ {s' : BufferShard} {e' : GroupEntry},
      s'.groups.get? t.instanceId = some e' → e'.groupPtr = some (s.extended t) →
      (∀ id, id ≠ t.instanceId → s'.groups.get? id = s.groups.get? id) →
      s'.diskStorage = s.diskStorage →
      s'.held = Function.update s.held t.instanceId
        (some (s.extended t, (s.extended t).isComplete)) := by
    intro s' e' hself hptr hother hdisk
    funext id
    by_cases hid : id = t.instanceId
    · subst hid
      rw [held_memory hself hptr, Function.update_self]
    · rw [Function.update_of_ne hid]
      exact held_congr (hother id hid) fun _ _ => by rw [hdisk]
  cases he : s.groups.get? t.instanceId with
  | none =>
    have hkey := get?_eq_none_iff.mp he
    have hextended : s.extended t =
        (TrajectoryGroup.create t.instanceId s.config.groupSize).add t := by
      simp [extended, inMemory?, he]
    rw [addTrajectory_new he]
    refine .inr ⟨by simp [onDisk, he], hset (get?_insert_self _ _ hkey) ?_
      (fun id hid => get?_insert_ne _ _ hid) rfl, rfl⟩
    rw [hextended, newEntry]
  | some e =>
    have hkey := mem_keys.mpr ⟨e, get?_eq_some_iff.mp he⟩
    cases hp : e.groupPtr with
    | some g =>
      have hextended : s.extended t = g.add t := by simp [extended, inMemory?, he, hp]
      rw [addTrajectory_memory he hp]
      refine .inr ⟨by simp [onDisk, he, GroupEntry.isOnDisk, hp],
        hset (get?_set_self _ hkey) ?_ (fun id hid => get?_set_ne _ hid) rfl, rfl⟩
      rw [hextended]
    | none =>
      by_cases ho : e.diskOffset = 0
      · have hextended : s.extended t =
            (TrajectoryGroup.create t.instanceId s.config.groupSize).add t := by
          simp [extended, inMemory?, he, hp]
        rw [addTrajectory_empty he hp ho]
        refine .inr ⟨by simp [onDisk, he, GroupEntry.isOnDisk, ho],
          hset (get?_set_self _ hkey) ?_ (fun id hid => get?_set_ne _ hid) rfl, rfl⟩
        rw [hextended, newEntry]
      · have hon : e.isOnDisk = true :=
          GroupEntry.isOnDisk_iff.mpr ⟨Nat.pos_of_ne_zero ho, hp⟩
        rw [addTrajectory_onDisk he hon]
        exact .inl ⟨by simp [onDisk, he, hon], rfl, rfl⟩

theorem Coherent.write_held (h : s.Coherent env) (t : Trajectory) :
    (((s.dedup env t.uid).1 = false ∨ s.onDisk t.instanceId = true) ∧
        (s.write env t).2.held = s.held) ∨
      ((s.dedup env t.uid).1 = true ∧ s.onDisk t.instanceId = false ∧
        (s.write env t).2.held = Function.update s.held t.instanceId
          (some (s.extended t, (s.extended t).isComplete))) := by
  have hsame : (s.dedup env t.uid).2.Coherent env ∧ (s.dedup env t.uid).2.held = s.held ∧
      (s.dedup env t.uid).2.onDisk t.instanceId = s.onDisk t.instanceId ∧
        (s.dedup env t.uid).2.extended t = s.extended t := by
    rw [dedup]
    split
    · exact ⟨h.same rfl rfl, rfl, rfl, rfl⟩
    · exact ⟨h, rfl, rfl, rfl⟩
  rw [BufferShard.write, writeStart]
  rcases hd : s.dedup env t.uid with ⟨fresh, s₁⟩
  rw [hd] at hsame
  obtain ⟨h₁, hheld, hon, hextended⟩ := hsame
  cases fresh with
  | false => exact .inl ⟨.inl rfl, hheld⟩
  | true =>
    have hadd := h₁.addTrajectory t
    have hcases := addTrajectory_held env s₁ t
    simp only at hheld hon hextended hadd hcases ⊢
    rcases ha : s₁.addTrajectory env t with ⟨started, s₂⟩
    rw [ha] at hadd hcases
    rw [hheld, hon, hextended] at hcases
    rcases hcases with ⟨hdisk, hsame, rfl⟩ | ⟨hdisk, hset, rfl⟩
    · exact .inl ⟨.inr hdisk, hsame⟩
    · have hspill := hadd.trySpillGroups_held
      refine .inr ⟨trivial, hdisk, Eq.trans ?_ hset⟩
      simp only at hspill ⊢
      rcases hs : s₂.trySpillGroups env with ⟨e | bytes, s₃⟩ <;> rwa [hs] at hspill

end Writes

section Read

theorem Coherent.read_held (h : s.Coherent env) (maxGroups : Int32) (id : String) :
    (s.readReadyGroups env maxGroups).2.held id = s.held id ∨
      (s.readReadyGroups env maxGroups).2.held id = none := by
  by_cases hread : ∀ p ∈ s.selected maxGroups, p.2.Readable
  · obtain ⟨hends, -, -, hfind⟩ :=
      readReadyGroups_ends env h.initialized h.exclusive maxGroups hread
    generalize s.readReadyGroups env maxGroups = r at hends hfind ⊢
    cases he' : r.2.groups.get? id with
    | none => exact .inr (by simp [held, he'])
    | some e' =>
      have hmem : (id, e') ∈ (s.afterScan maxGroups).groups.entries := by
        have hmem' := get?_eq_some_iff.mp he'
        cases hends with
        | failed => exact hmem'
        | delivered => exact ((mem_eraseAll _).mp hmem').1
      obtain ⟨e, hold, hmoved⟩ := mem_afterScan hmem
      have he := get?_eq_some_iff.mpr hold
      cases hp : e.groupPtr with
      | some g =>
        rcases hmoved with rfl | rfl
        · have ho : e.diskOffset = 0 := (h.tidy id e hold).single (by simp [hp])
          exact .inr (by simp [held, he', GroupEntry.group?, ho])
        · exact .inl (by rw [held_memory he' hp, held_memory he hp])
      | none =>
        have hsame : e' = e := hmoved.elim (fun hmove => by rw [hmove, ← hp]) fun hsame => hsame
        subst hsame
        rw [held, held, he', he]
        rcases hfind e'.diskOffset with heq | hnone
        · exact .inl (by simp only [Option.bind_some, GroupEntry.group?, heq])
        · exact .inr (by simp [GroupEntry.group?, hp, hnone])
  · rw [BufferShard.readReadyGroups, readScan_eq, if_neg hread]
    exact .inl rfl

theorem Coherent.read_delivers (h : s.Coherent env) {maxGroups : Int32}
    {result : List TrajectoryGroup} (hok : (s.readReadyGroups env maxGroups).1 = .ok result)
    {g : TrajectoryGroup} (hg : g ∈ result) : ∃ id, s.held id = some (g, true) := by
  obtain ⟨hperm, -⟩ := readReadyGroups_takes h.initialized h.exclusive maxGroups hok
  have hready : g ∈ s.readyGroups := (limitTo_sublist _ _ _).subset (hperm.mem_iff.mp hg)
  obtain ⟨⟨id, e⟩, hmem, hgroup⟩ := List.mem_filterMap.mp hready
  obtain ⟨hmem, hcomplete⟩ := List.mem_filter.mp hmem
  exact ⟨id, by simp [held, get?_eq_some_iff.mpr hmem, hgroup, hcomplete]⟩

end Read

section Property
variable (env)

/-- The trajectory joins a group that is not complete: the one held for its instance, or a
new one. -/
def JoinsOpenGroup (s : BufferShard) (t : Trajectory) : Prop :=
  ∃ g, (s.held t.instanceId = some (g, false) ∨
      s.held t.instanceId = none ∧ g = .create t.instanceId s.config.groupSize) ∧
    ∃ complete, (s.write env t).2.held t.instanceId = some (g.add t, complete)

/-- Complete groups stay as they are, and a trajectory that passes the dedup check joins
another group. -/
structure WriteExact (s : BufferShard) (t : Trajectory) : Prop where
  kept : ∀ id g, s.held id = some (g, true) → (s.write env t).2.held id = some (g, true)
  joins : (s.dedup env t.uid).1 = true → s.JoinsOpenGroup env t

/-- The writes of a batch that are made: up to the first that fails. -/
def executed : BufferShard → List Trajectory → List Trajectory
  | _, [] => []
  | s, t :: ts =>
    match (s.write env t).1 with
    | .ok _ => t :: executed (s.write env t).2 ts
    | .error _ => [t]

def FullGroupsExact (s : BufferShard) : Op → Prop
  | .write t => s.WriteExact env t
  | .batchWrite ts => Machine.Along (writeStep env) (WriteExact env) s (s.executed env ts)
  | .readReadyGroups maxGroups => ∀ result, (s.readReadyGroups env maxGroups).1 = .ok result →
      ∀ g ∈ result, g.groupSize = s.config.groupSize ∧ (g.trajectories.length : ℤ) = g.groupSize
  | _ => True

def hasComplete (s : BufferShard) (id : String) : Bool :=
  match s.groups.get? id with
  | some e => e.isComplete && decide e.Readable
  | none => false

/-- The trajectory passes the dedup check and its instance has no room for it. -/
def overfills (s : BufferShard) (t : Trajectory) : Bool :=
  (s.dedup env t.uid).1 && s.hasComplete t.instanceId

def MeetsNoFullGroup (s : BufferShard) : Op → Prop
  | .write t => s.overfills env t = false
  | .batchWrite ts =>
    Machine.Along (writeStep env) (fun s t => s.overfills env t = false) s (s.executed env ts)
  | _ => True

instance (s : BufferShard) : (op : Op) → Decidable (s.MeetsNoFullGroup env op)
  | .write t => inferInstanceAs (Decidable (s.overfills env t = false))
  | .batchWrite ts => inferInstanceAs (Decidable (Machine.Along (writeStep env)
      (fun s t => s.overfills env t = false) s (s.executed env ts)))
  | .readReadyGroups _ | .checkGroupTimeouts | .deleteInstance _ | .reset | .updateConfig _ =>
    .isTrue trivial

end Property

section Exactness

theorem hasComplete_iff {id : String} : s.hasComplete id = true ↔
    s.onDisk id = true ∨ ∃ g, s.inMemory? id = some g ∧ g.isComplete = true := by
  rw [hasComplete, onDisk, inMemory?]
  cases s.groups.get? id with
  | none => simp
  | some e => cases hp : e.groupPtr <;> simp [GroupEntry.isOnDisk, GroupEntry.isComplete,
      GroupEntry.Readable, hp]

theorem extended_open {t : Trajectory} (h : s.hasComplete t.instanceId = false) :
    ∃ g, g.isComplete = false ∧ s.extended t = g.add t ∧ (s.held t.instanceId = some (g, false) ∨
      s.held t.instanceId = none ∧ g = .create t.instanceId s.config.groupSize) := by
  rw [hasComplete] at h
  rw [extended, inMemory?, held]
  cases he : s.groups.get? t.instanceId with
  | none => exact ⟨_, rfl, rfl, .inr ⟨rfl, rfl⟩⟩
  | some e =>
    rw [he] at h
    cases hp : e.groupPtr with
    | some g =>
      have hopen : g.isComplete = false := by
        simpa [GroupEntry.isComplete, GroupEntry.Readable, hp] using h
      exact ⟨g, hopen, by simp [hp], .inl (by simp [GroupEntry.group?, GroupEntry.isComplete, hp,
        hopen])⟩
    | none =>
      have ho : e.diskOffset = 0 := by
        simpa [GroupEntry.isComplete, GroupEntry.Readable, hp] using h
      exact ⟨_, rfl, by simp [hp], .inr ⟨by simp [GroupEntry.group?, hp, ho], rfl⟩⟩

/-- A write does what is promised exactly when it meets no complete group. -/
theorem Coherent.writeExact_iff (h : s.Coherent env) (t : Trajectory) :
    s.WriteExact env t ↔ s.overfills env t = false := by
  have hwrite := h.write_held t
  rw [overfills, Bool.and_eq_false_iff]
  constructor
  · intro hexact
    cases hfresh : (s.dedup env t.uid).1 with
    | false => exact .inl rfl
    | true =>
      refine .inr (Bool.eq_false_iff.mpr fun hcomplete => ?_)
      obtain ⟨g, hopen, complete, hjoined⟩ := hexact.joins hfresh
      rcases hasComplete_iff.mp hcomplete with hdisk | ⟨g', hptr, hg'⟩
      · -- the trajectory is dropped, the group is the same before and after
        have hsame : (s.write env t).2.held = s.held := by
          rcases hwrite with ⟨-, hsame⟩ | ⟨-, hnot, -⟩
          · exact hsame
          · exact absurd hdisk (by simp [hnot])
        rw [hsame] at hjoined
        rcases hopen with hopen | ⟨hnone, -⟩
        · have hadd : g.add t = g := (Prod.mk.inj (Option.some.inj (hjoined.symm.trans hopen))).1
          have hlen := congrArg (fun g => g.trajectories.length) hadd
          simp at hlen
        · exact nomatch hnone.symm.trans hjoined
      · have hheld := held_of_inMemory hptr
        rw [hg'] at hheld
        rcases hopen with hopen | ⟨hnone, -⟩
        · exact nomatch hopen.symm.trans hheld
        · exact nomatch hnone.symm.trans hheld
  · intro hroom
    rcases hwrite with ⟨hcase, hsame⟩ | ⟨hfresh, -, hset⟩
    · refine ⟨fun id g hg => hsame ▸ hg, fun hfresh => ?_⟩
      have hdisk : s.onDisk t.instanceId = true := hcase.resolve_left (by simp [hfresh])
      have hfull := hasComplete_iff.mpr (.inl hdisk)
      simp [hfresh, hfull] at hroom
    · have hopen := extended_open (hroom.resolve_left (by simp [hfresh]))
      obtain ⟨g, hg, hextended, hheld⟩ := hopen
      refine ⟨fun id g' hg' => ?_, fun _ => ⟨g, hheld, (g.add t).isComplete, ?_⟩⟩
      · by_cases hid : id = t.instanceId
        · subst hid
          rcases hheld with hheld | ⟨hnone, -⟩
          · exact nomatch hheld.symm.trans hg'
          · exact nomatch hnone.symm.trans hg'
        · rw [hset, Function.update_of_ne hid, hg']
      · rw [hset, Function.update_self, hextended]

/-- A group counts as complete exactly when it has `n` members, and never has more. -/
structure Measured (n : ℤ) (s : BufferShard) : Prop where
  configured : s.config.groupSize = n
  sized : ∀ id g complete, s.held id = some (g, complete) →
    g.groupSize = n ∧ (g.trajectories.length : ℤ) ≤ n ∧
      (complete = true ↔ (g.trajectories.length : ℤ) = n)

variable {n : ℤ}

theorem Measured.of_same {s' : BufferShard} (h : s.Measured n)
    (hconfig : s'.config = s.config)
    (hheld : ∀ id, s'.held id = s.held id ∨ s'.held id = none) : s'.Measured n where
  configured := hconfig ▸ h.configured
  sized id g complete hg := by
    rcases hheld id with hsame | hnone
    · exact h.sized id g complete (hsame ▸ hg)
    · exact nomatch hnone.symm.trans hg

theorem Measured.write (h : s.Measured n) (hc : s.Coherent env) (hpos : 0 < n) {t : Trajectory}
    (hroom : s.overfills env t = false) : (s.write env t).2.Measured n := by
  have hconfig := (write_frame env t s).2
  rcases hc.write_held t with ⟨-, hsame⟩ | ⟨hfresh, -, hset⟩
  · exact h.of_same hconfig fun id => .inl (congrFun hsame id)
  · rw [overfills, hfresh, Bool.true_and] at hroom
    obtain ⟨g, hg, hextended, hheld⟩ := extended_open hroom
    have hmeasure : g.groupSize = n ∧ (g.trajectories.length : ℤ) < n := by
      rcases hheld with hheld | ⟨-, rfl⟩
      · obtain ⟨hsize, hle, hfull⟩ := h.sized _ _ _ hheld
        exact ⟨hsize, lt_of_le_of_ne hle fun heq => nomatch hfull.mpr heq⟩
      · exact ⟨h.configured, hpos⟩
    obtain ⟨hsize, hlt⟩ := hmeasure
    refine ⟨hconfig ▸ h.configured, fun id g' complete hg' => ?_⟩
    by_cases hid : id = t.instanceId
    · subst hid
      rw [hset, Function.update_self, hextended, Option.some.injEq, Prod.mk.injEq] at hg'
      obtain ⟨rfl, rfl⟩ := hg'
      have hlen : ((g.add t).trajectories.length : ℤ) = g.trajectories.length + 1 := by simp
      have hcomplete : (g.add t).isComplete = true ↔
          g.groupSize ≤ (g.add t).trajectories.length := by
        simp [TrajectoryGroup.add, hg]
      rw [hcomplete, hlen, hsize]
      refine ⟨hsize, by omega, by omega⟩
    · rw [hset, Function.update_of_ne hid] at hg'
      exact h.sized id g' complete hg'

theorem Measured.read (h : s.Measured n) (hc : s.Coherent env) (maxGroups : Int32) :
    (s.readReadyGroups env maxGroups).2.Measured n :=
  h.of_same (readReadyGroups_config maxGroups s) (hc.read_held maxGroups)

theorem batchWriteLoop_executed (written : ℕ) (ts : List Trajectory) (s : BufferShard) :
    (batchWriteLoop env written ts s).2 =
      Machine.final (writeStep env) s (s.executed env ts) := by
  induction ts generalizing written s with
  | nil => rfl
  | cons t ts ih =>
    rw [batchWriteLoop, executed]
    rcases hw : s.write env t with ⟨e | accepted, s'⟩
    · simp only [Machine.final_cons, Machine.final_nil, writeStep, hw]
    · simp only [Machine.final_cons, writeStep, hw]
      cases accepted <;> exact ih _ _

theorem Coherent.batchExact_iff (h : s.Coherent env) (ts : List Trajectory) :
    Machine.Along (writeStep env) (WriteExact env) s ts ↔
      Machine.Along (writeStep env) (fun s t => s.overfills env t = false) s ts :=
  Machine.along_iff_of_inv (Coherent env) (fun _ t hs => hs.write t)
    (fun _ t hs => hs.writeExact_iff t) ts h

theorem Measured.exec (h : s.Measured n) (hc : s.Coherent env) (hpos : 0 < n) {op : Op}
    (hop : op.isStream = true) (hroom : s.MeetsNoFullGroup env op) :
    s.FullGroupsExact env op ∧ (s.exec env op).2.Measured n := by
  cases op with
  | write t => exact ⟨(hc.writeExact_iff t).mpr hroom, h.write hc hpos hroom⟩
  | batchWrite ts =>
    have hstep : ∀ (s : BufferShard) t, s.Coherent env ∧ s.Measured n → s.overfills env t = false →
        True ∧ (s.writeStep env t).2.Coherent env ∧ (s.writeStep env t).2.Measured n :=
      fun s t hs hroom => ⟨trivial, hs.1.write t, hs.2.write hs.1 hpos hroom⟩
    obtain ⟨-, -, hmeasured⟩ := Machine.along_of_inv (P := fun _ _ => True) _ hstep _ ⟨hc, h⟩ hroom
    refine ⟨(hc.batchExact_iff _).mpr hroom, ?_⟩
    change (batchWriteLoop env 0 ts s).2.Measured n
    rwa [batchWriteLoop_executed]
  | readReadyGroups maxGroups =>
    refine ⟨fun result hok g hg => ?_, h.read hc maxGroups⟩
    obtain ⟨id, hheld⟩ := hc.read_delivers hok hg
    obtain ⟨hsize, -, hfull⟩ := h.sized _ _ _ hheld
    exact ⟨hsize.trans h.configured.symm, (hfull.mp rfl).trans hsize.symm⟩
  | checkGroupTimeouts => cases hop
  | deleteInstance id => cases hop
  | reset => cases hop
  | updateConfig config => cases hop

/-- Over every run of writes, batches and reads, whichever device calls fail, complete
groups stay as they are, later trajectories join other groups and what is delivered has
exactly the size it records, if and only if no write that passes the dedup check meets a
complete group of its instance. -/
theorem full_groups_exact_iff (config : TransferQueueConfig) (bitCount numHashes : ℕ)
    (hpos : 0 < config.groupSize) (ops : List Op) (hops : ∀ op ∈ ops, op.isStream = true) :
    Machine.Along (exec env) (FullGroupsExact env) (create config bitCount numHashes) ops ↔
      Machine.Along (exec env) (MeetsNoFullGroup env) (create config bitCount numHashes) ops := by
  have hcreate : (create config bitCount numHashes).Coherent env := .create ..
  constructor
  · intro hexact
    refine (Machine.along_of_inv (Coherent env) (fun s op hs hexact => ⟨?_, hs.exec op⟩) ops
      hcreate hexact).1
    cases op with
    | write t => exact (hs.writeExact_iff t).mp hexact
    | batchWrite ts => exact (hs.batchExact_iff _).mp hexact
    | _ => trivial
  · intro hroom
    have hmeasured : (create config bitCount numHashes).Measured config.groupSize :=
      ⟨rfl, fun _ _ _ hg => (nomatch hg)⟩
    refine (Machine.along_of_inv
      (fun s : BufferShard => s.Coherent env ∧ s.Measured config.groupSize)
      (fun s op hs hboth => ?_) ops ⟨hcreate, hmeasured⟩
      (hroom.and (Machine.along_of_mem hops _))).1
    obtain ⟨hexact, hnext⟩ := hs.2.exec hs.1 hpos hboth.2 hboth.1
    exact ⟨hexact, hs.1.exec op, hnext⟩

/-- Two groups of two for one instance, one after the other. -/
theorem full_groups_exact_iff_polled : Machine.Along (exec (.sample []))
    (FullGroupsExact (.sample [])) (create (.tight 2) 0 0)
    [.write (.bare "u" "i"), .batchWrite [.bare "v" "i", .bare "w" "j"], .readReadyGroups 0,
      .write (.bare "x" "i")] :=
  (full_groups_exact_iff (.tight 2) 0 0 (by decide) _ (by decide)).mpr (by decide +kernel)

/-- With groups of one, two writes before the read end up in one group. -/
theorem full_group_overfilled :
    ((create { groupSize := 1 } 0 0).run (.sample [])
        [.write (.bare "u" "i"), .write (.bare "v" "i")] |>.readReadyGroups (.sample []) 0).1 =
      .ok [⟨"i", [.bare "u" "i", .bare "v" "i"], 1, true⟩] ∧
    ¬Machine.Along (exec (.sample [])) (FullGroupsExact (.sample []))
      (create { groupSize := 1 } 0 0)
      [.write (.bare "u" "i"), .write (.bare "v" "i"), .readReadyGroups 0] := by
  have hread : ((create { groupSize := 1 } 0 0).run (.sample [])
      [.write (.bare "u" "i"), .write (.bare "v" "i")] |>.readReadyGroups (.sample []) 0).1 =
        .ok [⟨"i", [.bare "u" "i", .bare "v" "i"], 1, true⟩] := by decide +kernel
  refine ⟨hread, fun halong => ?_⟩
  have hsize := (halong.2.2.1 _ hread _ (List.mem_cons_self ..)).2
  exact absurd hsize (by decide)

end Exactness

end BufferShard
end TransferQueue
