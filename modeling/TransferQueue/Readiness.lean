import TransferQueue.SpillTransparency

/-! When a group is ready. Beside a run stands a record of the groups it creates: the group
size configured then, the time, and whether a timeout check has found the group old
enough since. A group is complete exactly if it has reached its size or is timed out. -/

namespace TransferQueue
open UnorderedMap

/-- How a group came to be, and whether it is timed out. -/
structure Birth where
  groupSize : ℤ
  time : ℤ
  timedOut : Bool

def Birth.Due (birth : Birth) (g : TrajectoryGroup) : Prop :=
  birth.groupSize ≤ g.trajectories.length ∨ birth.timedOut = true

abbrev Births := String → Option Birth

def Birth.check (now timeout : ℤ) (birth : Birth) : Birth :=
  { birth with timedOut := birth.timedOut || decide (timeout ≤ now - birth.time) }

/-- The group is the one recorded, and complete exactly if it is due. -/
structure Stored.BornAs (stored : Stored) (birth : Birth) : Prop where
  groupSize : stored.group.groupSize = birth.groupSize
  time : stored.createdTime = birth.time
  complete : stored.group.isComplete = true ↔ birth.Due stored.group

namespace Buffer

variable {env : Env} {b : Buffer} {births : Births}

def Recorded (b : Buffer) (births : Births) : Prop :=
  ∀ id, Option.Rel Stored.BornAs (b.groups.get? id) (births id)

def bornBy (env : Env) (b : Buffer) (births : Births) (ignored : Bool) (t : Trajectory) : Births :=
  if (b.groups.get? t.instanceId).isNone && (b.write env ignored t).1 then
    Function.update births t.instanceId (some ⟨b.settings.groupSize, env.now b.clockReads, false⟩)
  else births

theorem bornAs_add {stored : Stored} {birth : Birth} (h : stored.BornAs birth) (t : Trajectory) :
    Stored.BornAs { stored with group := stored.group.add t } birth where
  groupSize := h.groupSize
  time := h.time
  complete := by
    have hsize := h.groupSize
    have hcomplete := h.complete
    simp only [Birth.Due, TrajectoryGroup.add, List.length_append, List.length_singleton,
      Int.natCast_add, Int.natCast_one, hsize] at hcomplete ⊢
    split
    · simp_all
    · rw [hcomplete]
      constructor <;> rintro (hle | htimed)
      all_goals first | omega | exact .inr htimed

theorem bornAs_create (id : String) (groupSize now : ℤ) (t : Trajectory) :
    Stored.BornAs ⟨(TrajectoryGroup.create id groupSize).add t, now⟩ ⟨groupSize, now, false⟩ where
  groupSize := rfl
  time := rfl
  complete := by
    simp only [Birth.Due, TrajectoryGroup.add, TrajectoryGroup.create, List.nil_append,
      List.length_singleton]
    by_cases hle : groupSize ≤ 1 <;> simp [hle]

theorem bornAs_check {stored : Stored} {birth : Birth} (h : stored.BornAs birth)
    (now timeout : ℤ) :
    Stored.BornAs
      (if !stored.group.isComplete && decide (timeout ≤ now - stored.createdTime)
        then { stored with group := { stored.group with isComplete := true } } else stored)
      (birth.check now timeout) where
  groupSize := by
    split <;> exact h.groupSize
  time := by
    split <;> exact h.time
  complete := by
    have hcomplete := h.complete
    cases hc : stored.group.isComplete with
    | true =>
      simp only [Bool.not_true, Bool.false_and, Bool.false_eq_true, if_false]
      refine ⟨fun _ => (hcomplete.mp hc).imp_right fun htimed => ?_, fun _ => hc⟩
      rw [Birth.check, htimed, Bool.true_or]
    | false =>
      by_cases hold : timeout ≤ now - stored.createdTime
      · simp only [Bool.not_false, hold, decide_true, Bool.and_true, if_true, true_iff]
        exact .inr (by simp [Birth.check, ← h.time, hold])
      · simp only [hold, decide_false, Bool.and_false, Bool.false_eq_true, if_false]
        rw [hcomplete]
        simp [Birth.Due, Birth.check, ← h.time, hold]

theorem Recorded.get? (h : b.Recorded births) {id : String} {stored : Stored}
    (hg : b.groups.get? id = some stored) : ∃ birth, births id = some birth ∧
      stored.BornAs birth := by
  have hrel := h id
  rw [hg] at hrel
  cases hborn : births id with
  | none =>
    rw [hborn] at hrel
    cases hrel
  | some birth =>
    rw [hborn] at hrel
    cases hrel with
    | some hone => exact ⟨birth, rfl, hone⟩

theorem Recorded.update (h : b.Recorded births) (id : String) {b' : Buffer}
    {stored : Option Stored} {birth : Option Birth} (hone : Option.Rel Stored.BornAs stored birth)
    (hself : b'.groups.get? id = stored) (hother : ∀ id', id' ≠ id →
      b'.groups.get? id' = b.groups.get? id') :
    b'.Recorded (Function.update births id birth) := by
  intro id'
  by_cases hid : id' = id
  · subst hid
    rwa [hself, Function.update_self]
  · rw [hother id' hid, Function.update_of_ne hid]
    exact h id'

theorem Recorded.append (h : b.Recorded births) (env : Env) (t : Trajectory) :
    (b.append env t).Recorded (if (b.groups.get? t.instanceId).isNone then
      Function.update births t.instanceId (some ⟨b.settings.groupSize, env.now b.clockReads, false⟩)
      else births) := by
  cases hg : b.groups.get? t.instanceId with
  | some stored =>
    obtain ⟨birth, hborn, hone⟩ := h.get? hg
    have hkey := mem_keys.mpr ⟨stored, get?_eq_some_iff.mp hg⟩
    have hsame : Function.update births t.instanceId (some birth) = births := by
      rw [← hborn, Function.update_eq_self]
    rw [Option.isNone_some, if_neg Bool.false_ne_true, ← hsame]
    refine h.update t.instanceId (.some (bornAs_add hone t)) ?_ fun id' hid => ?_
    · rw [Buffer.append, hg]
      exact get?_set_self _ hkey
    · rw [Buffer.append, hg]
      exact get?_set_ne _ hid
  | none =>
    have hkey := get?_eq_none_iff.mp hg
    rw [Option.isNone_none, if_pos rfl]
    refine h.update t.instanceId (.some (bornAs_create t.instanceId _ _ t)) ?_ fun id' hid => ?_
    · rw [Buffer.append, hg]
      exact get?_insert_self _ _ hkey
    · rw [Buffer.append, hg]
      exact get?_insert_ne _ _ hid

theorem Recorded.write (h : b.Recorded births) {ignored : Bool} {t : Trajectory}
    (hignored : ignored = true → b.groups.get? t.instanceId ≠ none) :
    (b.write env ignored t).2.Recorded (b.bornBy env births ignored t) := by
  have hgroups : (b.dedup env t.uid).2.groups = b.groups := dedup_groups t.uid b
  have hsettings : (b.dedup env t.uid).2.settings = b.settings ∧
      (b.dedup env t.uid).2.clockReads = b.clockReads := by
    rw [dedup]
    split <;> exact ⟨rfl, rfl⟩
  have hdedup : (b.dedup env t.uid).2.Recorded births := fun id => by
    rw [hgroups]
    exact h id
  rw [bornBy, Buffer.write]
  rcases hd : b.dedup env t.uid with ⟨fresh, b₁⟩
  rw [hd] at hdedup hsettings hgroups
  cases fresh with
  | false => simpa using hdedup
  | true =>
    cases ignored with
    | true =>
      have hpresent : (b.groups.get? t.instanceId).isNone = false := by
        simpa [Option.isSome_iff_ne_none] using hignored rfl
      rw [hpresent]
      exact hdedup
    | false =>
      have happend := hdedup.append env t
      rw [hgroups, hsettings.1, hsettings.2] at happend
      simpa using happend

theorem Recorded.take (h : b.Recorded births) (hsound : b.Sound) (maxGroups : Int32) :
    (b.take maxGroups).2.Recorded (fun id =>
      if id ∈ (b.take maxGroups).1.map TrajectoryGroup.instanceId then none else births id) ∧
    ∀ g ∈ (b.take maxGroups).1, g.isComplete = true ∧ g.trajectories ≠ [] ∧
      (∀ t ∈ g.trajectories, t.instanceId = g.instanceId) ∧
        ∃ birth, births g.instanceId = some birth ∧ g.groupSize = birth.groupSize ∧
          birth.Due g := by
  have hmem : ∀ p ∈ b.selected maxGroups,
      p ∈ b.groups.entries ∧ p.2.group.isComplete = true := fun p hp => by
    simpa [ready] using (BufferShard.limitTo_sublist _ _ _).subset hp
  have hids : (b.take maxGroups).1.map TrajectoryGroup.instanceId =
      (b.selected maxGroups).map Prod.fst := by
    rw [Buffer.take, List.map_map]
    exact List.map_congr_left fun p hp => (hsound _ _ (hmem p hp).1).1
  refine ⟨fun id => ?_, fun g hg => ?_⟩
  · simp only [hids]
    split
    · rename_i hid
      rw [Buffer.take, get?_eraseAll_of_mem hid]
      exact .none
    · rename_i hid
      rw [Buffer.take, get?_eraseAll_of_not_mem hid]
      exact h id
  · obtain ⟨p, hp, rfl⟩ := List.mem_map.mp hg
    obtain ⟨hentry, hcomplete⟩ := hmem p hp
    obtain ⟨hid, hne, hall⟩ := hsound _ _ hentry
    obtain ⟨birth, hborn, hone⟩ := h.get? (get?_eq_some_iff.mpr hentry)
    rw [hid]
    exact ⟨hcomplete, hne, hall, birth, hborn, hone.groupSize, hone.complete.mp hcomplete⟩

theorem Recorded.expire (h : b.Recorded births) :
    (b.expire env).Recorded fun id => (births id).map
      (Birth.check (env.now b.clockReads) (b.settings.groupTimeoutSeconds * 1000000000)) := by
  intro id
  rw [Buffer.expire, get?_mapValues]
  cases hg : b.groups.get? id with
  | none =>
    have hrel := h id
    rw [hg] at hrel
    cases hborn : births id with
    | none =>
      simp only [hborn]
      exact .none
    | some birth =>
      rw [hborn] at hrel
      cases hrel
  | some stored =>
    obtain ⟨birth, hborn, hone⟩ := h.get? hg
    simp only [hborn]
    exact .some (bornAs_check hone _ _)

theorem Recorded.delete (h : b.Recorded births) (id : String) :
    (b.delete id).Recorded (Function.update births id none) :=
  h.update id .none (get?_erase_self _ _) fun _ hid => get?_erase_ne hid

/-- The complete group of an instance stays there, complete. -/
def Keeps (b b' : Buffer) (id : String) : Prop :=
  ∀ stored, b.groups.get? id = some stored → stored.group.isComplete = true →
    ∃ stored', b'.groups.get? id = some stored' ∧ stored'.group.isComplete = true ∧
      stored'.createdTime = stored.createdTime

theorem Keeps.of_same {b' : Buffer} {id : String} (h : b'.groups.get? id = b.groups.get? id) :
    b.Keeps b' id := fun stored hg hc => ⟨stored, h.trans hg, hc, rfl⟩

theorem Keeps.trans {b' b'' : Buffer} {id : String} (h : b.Keeps b' id) (h' : b'.Keeps b'' id) :
    b.Keeps b'' id := fun stored hg hc => by
  obtain ⟨stored', hg', hc', htime'⟩ := h stored hg hc
  obtain ⟨stored'', hg'', hc'', htime''⟩ := h' stored' hg' hc'
  exact ⟨stored'', hg'', hc'', htime''.trans htime'⟩

theorem keeps_append (t : Trajectory) (b : Buffer) (id : String) : b.Keeps (b.append env t) id := by
  by_cases hid : id = t.instanceId
  · subst hid
    intro stored hg hc
    have hkey := mem_keys.mpr ⟨stored, get?_eq_some_iff.mp hg⟩
    refine ⟨{ stored with group := stored.group.add t }, ?_, ?_, rfl⟩
    · rw [append, hg]
      exact get?_set_self _ hkey
    · simp only [TrajectoryGroup.add, hc]
      split <;> rfl
  · refine .of_same ?_
    rw [append]
    split
    · exact get?_set_ne _ hid
    · exact get?_insert_ne _ _ hid

theorem keeps_write (ignored : Bool) (t : Trajectory) (b : Buffer) (id : String) :
    b.Keeps (b.write env ignored t).2 id := by
  have hdedup : b.Keeps (b.dedup env t.uid).2 id := .of_same (by rw [dedup_groups])
  rw [write]
  rcases hd : b.dedup env t.uid with ⟨fresh, b₁⟩
  rw [hd] at hdedup
  cases fresh with
  | false => exact hdedup
  | true =>
    cases ignored with
    | true => exact hdedup
    | false => exact hdedup.trans (keeps_append t b₁ id)

theorem keeps_expire (b : Buffer) (id : String) : b.Keeps (b.expire env) id := by
  intro stored hg hc
  refine ⟨stored, ?_, hc, rfl⟩
  rw [expire, get?_mapValues, hg]
  simp [hc]

theorem keeps_take {maxGroups : Int32} (hsound : b.Sound) {id : String}
    (hid : id ∉ (b.take maxGroups).1.map TrajectoryGroup.instanceId) :
    b.Keeps (b.take maxGroups).2 id := by
  refine .of_same (get?_eraseAll_of_not_mem fun hmem => hid ?_)
  obtain ⟨p, hp, rfl⟩ := List.mem_map.mp hmem
  have hentry : p ∈ b.groups.entries :=
    List.mem_of_mem_filter ((BufferShard.limitTo_sublist _ _ _).subset hp)
  rw [Buffer.take, List.map_map]
  exact List.mem_map.mpr ⟨p, hp, (hsound _ _ hentry).1⟩

end Buffer

namespace BufferShard

section Record
variable (env : Env)

/-- An accepted write to an instance without a group creates one. -/
def bornBy (s : BufferShard) (births : Births) (t : Trajectory) : Births :=
  if (s.groups.get? t.instanceId).isNone && decide ((s.write env t).1 = .ok true) then
    Function.update births t.instanceId (some ⟨s.config.groupSize, env.now s.clockReads, false⟩)
  else births

def writeAged (v : BufferShard × Births) (t : Trajectory) :
    Except Failure Bool × (BufferShard × Births) :=
  ((v.1.write env t).1, (v.1.write env t).2, v.1.bornBy env v.2 t)

/-- The record after an operation: a timeout check notes the groups that are old enough by
the timeout configured then; what is delivered, deleted or reset leaves the record. -/
def birthsAfter (s : BufferShard) (births : Births) : Op → Births
  | .write t => s.bornBy env births t
  | .batchWrite ts => (Machine.final (writeAged env) (s, births) ts).2
  | .readReadyGroups maxGroups =>
    match (s.readReadyGroups env maxGroups).1 with
    | .ok groups => fun id =>
      if id ∈ groups.map TrajectoryGroup.instanceId then none else births id
    | .error _ => births
  | .checkGroupTimeouts => fun id =>
    (births id).map (Birth.check (env.now s.clockReads) (timeout s.config))
  | .deleteInstance id => Function.update births id none
  | .reset => fun _ => none
  | .updateConfig _ => births

def execAged (v : BufferShard × Births) (op : Op) : Output × (BufferShard × Births) :=
  ((v.1.exec env op).1, (v.1.exec env op).2, v.1.birthsAfter env v.2 op)

/-- The groups that are recorded are those in the map, and one of them is complete exactly
if it is due. -/
structure GroupsReady (v : BufferShard × Births) : Prop where
  recorded : ∀ id, (v.2 id).isSome = (v.1.groups.get? id).isSome
  ready : ∀ id e, v.1.groups.get? id = some e → ∃ g birth,
    e.group? v.1.diskStorage = some g ∧ v.2 id = some birth ∧ g.groupSize = birth.groupSize ∧
      (e.isComplete = true ↔ birth.Due g)

def Removes (s : BufferShard) (id : String) : Op → Prop
  | .readReadyGroups maxGroups => ∃ groups, (s.readReadyGroups env maxGroups).1 = .ok groups ∧
    id ∈ groups.map TrajectoryGroup.instanceId
  | .deleteInstance id' => id' = id
  | .reset => True
  | _ => False

/-- What an operation keeps and delivers. -/
structure StepReady (v : BufferShard × Births) (op : Op) : Prop where
  stays : ∀ id e, v.1.groups.get? id = some e → e.isComplete = true → ¬v.1.Removes env id op →
    ∃ e', (v.1.exec env op).2.groups.get? id = some e' ∧ e'.isComplete = true ∧
      e'.createdTime = e.createdTime
  delivered : ∀ maxGroups groups, op = .readReadyGroups maxGroups →
    (v.1.readReadyGroups env maxGroups).1 = .ok groups → ∀ g ∈ groups,
      g.isComplete = true ∧ g.trajectories ≠ [] ∧
        (∀ t ∈ g.trajectories, t.instanceId = g.instanceId) ∧
          ∃ birth, v.2 g.instanceId = some birth ∧ g.groupSize = birth.groupSize ∧ birth.Due g

end Record

variable {env : Env} {s : BufferShard} {births : Births}

/-- A steady shard with a record of its groups. -/
structure Aged (env : Env) (v : BufferShard × Births) : Prop where
  steady : v.1.Steady env
  recorded : v.1.buffer.Recorded v.2

theorem bornBy_eq (hr : env.Reliable) (hs : s.Settled env) (births : Births) (t : Trajectory) :
    s.bornBy env births t = s.buffer.bornBy env births (s.drops env t) t := by
  have hanswer := (write_buffer hr hs t).1
  have hdecide : decide ((s.write env t).1 = .ok true) =
      (s.buffer.write env (s.drops env t) t).1 := by
    rw [hanswer]
    cases (s.buffer.write env (s.drops env t) t).1 <;> rfl
  rw [bornBy, Buffer.bornBy, hdecide, buffer_get?, Option.isNone_map]
  rfl

theorem Aged.write (hr : env.Reliable) {v : BufferShard × Births} (h : Aged env v)
    (t : Trajectory) : Aged env (writeAged env v t).2 := by
  obtain ⟨-, -, hbuffer⟩ := write_buffer hr h.steady.settled t
  refine ⟨h.steady.write hr t, ?_⟩
  change (v.1.write env t).2.buffer.Recorded (v.1.bornBy env v.2 t)
  rw [bornBy_eq hr h.steady.settled, hbuffer]
  refine h.recorded.write fun hdrops hnone => ?_
  rw [buffer_get?, Option.map_eq_none_iff] at hnone
  simp [drops, hnone] at hdrops

theorem final_writeAged (v : BufferShard × Births) (ts : List Trajectory) :
    (Machine.final (writeAged env) v ts).1 = Machine.final (writeStep env) v.1 ts := by
  induction ts generalizing v with
  | nil => rfl
  | cons t ts ih => exact ih _

theorem keeps_exec (hr : env.Reliable) (hs : s.Steady env) {op : Op} {id : String}
    (hid : ¬s.Removes env id op) : s.buffer.Keeps (s.exec env op).2.buffer id := by
  rw [(exec_refines hr hs.settled op).2.2]
  cases op with
  | write t => exact Buffer.keeps_write _ t _ id
  | batchWrite ts =>
    exact Machine.final_inv (fun b => s.buffer.Keeps b id)
      (fun b p hb => hb.trans (Buffer.keeps_write p.1 p.2 b id)) (s.batchInput env ts)
      (.of_same rfl)
  | readReadyGroups maxGroups =>
    obtain ⟨result, s', hread, -, -, hperm, -⟩ := readReadyGroups_refines hr hs.settled maxGroups
    refine Buffer.keeps_take hs.sound fun hmem => hid ⟨result, by rw [hread], ?_⟩
    exact (hperm.map _).mem_iff.mpr hmem
  | checkGroupTimeouts => exact Buffer.keeps_expire _ id
  | deleteInstance id' => exact .of_same (get?_erase_ne fun heq => hid heq.symm)
  | reset => exact absurd trivial hid
  | updateConfig config => exact .of_same rfl

theorem Aged.exec (hr : env.Reliable) {v : BufferShard × Births} (h : Aged env v) (op : Op) :
    Aged env (execAged env v op).2 := by
  refine ⟨h.steady.exec hr op, ?_⟩
  have hbuffer := (exec_refines hr h.steady.settled op).2.2
  change (v.1.exec env op).2.buffer.Recorded (v.1.birthsAfter env v.2 op)
  cases op with
  | write t => exact (h.write hr t).recorded
  | batchWrite ts =>
    have hfinal := Machine.final_inv (Aged env) (fun v t hv => hv.write hr t) ts h
    have hloop := (batchWriteLoop_refines hr h.steady.settled 0 ts).1
    simp only [BufferShard.exec, batchWrite, hloop, Prod.map, id_eq]
    rw [← final_writeAged]
    exact hfinal.recorded
  | readReadyGroups maxGroups =>
    obtain ⟨result, s', hread, -, -, hperm, -⟩ :=
      readReadyGroups_refines hr h.steady.settled maxGroups
    have htake := (h.recorded.take h.steady.sound maxGroups).1
    rw [hbuffer]
    simp only [birthsAfter, hread]
    simp only [← (hperm.map _).mem_iff] at htake
    exact htake
  | checkGroupTimeouts =>
    rw [hbuffer]
    exact h.recorded.expire
  | deleteInstance id =>
    rw [hbuffer]
    exact h.recorded.delete id
  | reset =>
    rw [hbuffer]
    exact fun _ => .none
  | updateConfig config => exact h.recorded

theorem Aged.groupsReady {v : BufferShard × Births} (h : Aged env v) : GroupsReady v where
  recorded id := by
    have hrel := h.recorded id
    rw [buffer_get?] at hrel
    cases hg : v.1.groups.get? id <;> cases hb : v.2 id <;> rw [hg, hb] at hrel <;>
      first | rfl | cases hrel
  ready id e hg := by
    obtain ⟨g, hold⟩ := h.steady.settled.holds id e (get?_eq_some_iff.mp hg)
    have hstored : v.1.buffer.groups.get? id = some ⟨g, e.createdTime⟩ := by
      rw [buffer_get?, hg, Option.map_some, storedOf_group hold]
    obtain ⟨birth, hborn, hone⟩ := h.recorded.get? hstored
    refine ⟨g, birth, hold.group?_eq, hborn, hone.groupSize, ?_⟩
    rw [hold.isComplete_eq]
    exact hone.complete

theorem Aged.stepReady (hr : env.Reliable) {v : BufferShard × Births} (h : Aged env v) (op : Op) :
    StepReady env v op where
  stays id e hg hc hid := by
    obtain ⟨g, hold⟩ := h.steady.settled.holds id e (get?_eq_some_iff.mp hg)
    have hstored : v.1.buffer.groups.get? id = some ⟨g, e.createdTime⟩ := by
      rw [buffer_get?, hg, Option.map_some, storedOf_group hold]
    obtain ⟨stored', hg', hc', htime⟩ :=
      keeps_exec hr h.steady hid _ hstored (hold.isComplete_eq ▸ hc)
    rw [buffer_get?] at hg'
    obtain ⟨e', he', rfl⟩ := Option.map_eq_some_iff.mp hg'
    obtain ⟨g', hold'⟩ := (h.steady.exec hr op).settled.holds id e' (get?_eq_some_iff.mp he')
    rw [storedOf_group hold'] at hc' htime
    exact ⟨e', he', hold'.isComplete_eq.trans hc', htime⟩
  delivered maxGroups groups _ hok g hg := by
    obtain ⟨result, s', hread, -, -, hperm, -⟩ :=
      readReadyGroups_refines hr h.steady.settled maxGroups
    rw [hread] at hok
    obtain rfl := Except.ok.inj hok
    exact (h.recorded.take h.steady.sound maxGroups).2 g (hperm.mem_iff.mp hg)

/-- In every sequential run on a working disk a group is complete exactly if it has reached
the size configured when it was created or a timeout check has found it old enough; a
complete group stays until a read, a deletion or a reset removes it; and a read delivers
non-empty groups that are complete, due and of one instance. -/
theorem groups_ready (hr : env.Reliable) (config : TransferQueueConfig)
    (bitCount numHashes : ℕ) (ops : List Op) :
    Machine.Along (execAged env) (StepReady env) (create config bitCount numHashes, fun _ => none)
        ops ∧
      GroupsReady (Machine.final (execAged env)
        (create config bitCount numHashes, fun _ => none) ops) := by
  have hstart : Aged env (create config bitCount numHashes, fun _ => none) :=
    ⟨.create .., fun _ => .none⟩
  obtain ⟨hsteps, hend⟩ := Machine.along_of_inv (Aged env) (P := StepReady env)
    (Q := fun _ _ => True) (fun v op h _ => ⟨h.stepReady hr op, h.exec hr op⟩) ops hstart
    (Machine.along_of_mem (fun _ _ => trivial) _)
  exact ⟨hsteps, hend.groupsReady⟩

/-- A group of two that gets a larger size configured after its first trajectory, is
completed, spilled and read. -/
theorem groups_ready_tight :
    let ops : List Op := [.write (.bare "u" "a"), .updateConfig (.tight 3), .write (.bare "v" "a"),
      .checkGroupTimeouts, .readReadyGroups 0]
    Machine.Along (execAged (.sample [])) (StepReady (.sample []))
        (create (.tight 2) 0 0, fun _ => none) ops ∧
      GroupsReady (Machine.final (execAged (.sample []))
        (create (.tight 2) 0 0, fun _ => none) ops) :=
  groups_ready Env.sample_reliable _ _ _ _

end BufferShard
end TransferQueue
