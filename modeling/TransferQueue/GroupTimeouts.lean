import Mathlib.Data.Int.ConditionallyCompleteOrder
import TransferQueue.ConfigUpdates
import TransferQueue.FullGroups

/-! Group timeouts as the server sees them. A shard marks a group that has waited too long
only when its timeout check runs, and no request makes it run: over the server a group is
ready when it is full, however old it is. -/

namespace TransferQueue
open UnorderedMap

namespace BufferShard

variable {env : Env} {s : BufferShard}

section Filled

/-- A group counts as complete exactly when it has reached its own size. -/
def Filled (s : BufferShard) : Prop :=
  ∀ id g complete, s.held id = some (g, complete) →
    (complete = true ↔ g.groupSize ≤ g.trajectories.length)

namespace Filled

theorem create (config : TransferQueueConfig) (bitCount numHashes : ℕ) :
    (BufferShard.create config bitCount numHashes).Filled := fun _ _ _ h => nomatch h

theorem shrink {s' : BufferShard} (h : s.Filled)
    (hheld : ∀ id, s'.held id = s.held id ∨ s'.held id = none) : s'.Filled := by
  intro id g complete hg
  rcases hheld id with hsame | hnone
  · exact h id g complete (hsame ▸ hg)
  · exact nomatch hnone.symm.trans hg

theorem extended (h : s.Filled) (t : Trajectory) :
    (s.extended t).isComplete = true ↔
      (s.extended t).groupSize ≤ (s.extended t).trajectories.length := by
  have hadd : ∀ g : TrajectoryGroup, (g.isComplete = true → g.groupSize ≤ g.trajectories.length) →
      ((g.add t).isComplete = true ↔ (g.add t).groupSize ≤ (g.add t).trajectories.length) := by
    intro g hg
    simp only [TrajectoryGroup.add, List.length_append, List.length_singleton, Nat.cast_add,
      Nat.cast_one]
    split
    case isTrue hle => exact iff_of_true rfl hle
    case isFalse hlt => exact iff_of_false (fun hc => by have := hg hc; omega) hlt
  rw [BufferShard.extended]
  apply hadd
  cases hg : s.inMemory? t.instanceId with
  | none => simp [TrajectoryGroup.create]
  | some g => exact (h _ g _ (held_of_inMemory hg)).mp

theorem write (h : s.Filled) (hs : s.Coherent env) (t : Trajectory) :
    (s.write env t).2.Filled := by
  rcases hs.write_held t with ⟨-, hsame⟩ | ⟨-, -, hset⟩
  · exact h.shrink fun id => .inl (congrFun hsame id)
  · intro id g complete hg
    rw [hset] at hg
    by_cases hid : id = t.instanceId
    · rw [hid, Function.update_self] at hg
      cases hg
      exact h.extended t
    · rw [Function.update_of_ne hid] at hg
      exact h id g complete hg

theorem batchWriteLoop (h : s.Filled) (hs : s.Coherent env) (written : ℕ)
    (ts : List Trajectory) : (batchWriteLoop env written ts s).2.Filled :=
  (batchWriteLoop_keeps (P := fun s => s.Coherent env ∧ s.Filled)
    (fun t _ h => ⟨h.1.write t, h.2.write h.1 t⟩) written ts ⟨hs, h⟩).2

theorem held_of_find {s' : BufferShard} {id : String}
    (he : s'.groups.get? id = s.groups.get? id)
    (hfind : ∀ offset, s'.diskStorage.find offset = s.diskStorage.find offset ∨
      s'.diskStorage.find offset = none) : s'.held id = s.held id ∨ s'.held id = none := by
  rw [held, held, he]
  cases s.groups.get? id with
  | none => exact .inl rfl
  | some e =>
    rcases hfind e.diskOffset with hsame | hnone
    · exact .inl (by simp only [Option.bind_some, GroupEntry.group?, hsame])
    · cases hp : e.groupPtr with
      | some g => exact .inl (by simp [GroupEntry.group?, hp])
      | none => exact .inr (by simp [GroupEntry.group?, hp, hnone])

theorem deleteInstance (h : s.Filled) (hs : s.Coherent env) (id : String) :
    (s.deleteInstance env id).Filled := by
  obtain ⟨-, -, hfind⟩ := deleteInstance_disk env hs.initialized id
  refine h.shrink fun id' => ?_
  have hgroups : (s.deleteInstance env id).groups = s.groups.erase id :=
    deleteInstance_groups id s
  by_cases hid : id' = id
  · subst hid
    exact .inr (by rw [held, hgroups, get?_erase_self]; rfl)
  · exact held_of_find (by rw [hgroups, get?_erase_ne hid]) hfind

theorem reset (s : BufferShard) : (s.reset env).2.Filled := by
  rw [BufferShard.reset]
  rcases s.clearAll.diskStorage.removeAll env s.diskOffsets with ⟨e | units, d⟩
  all_goals
    intro _ _ _ hg
    cases hg

/-- Every operation but the timeout check keeps complete groups full. -/
theorem exec (h : s.Filled) (hs : s.Coherent env) {op : Op} (hop : op ≠ .checkGroupTimeouts) :
    (s.exec env op).2.Filled := by
  cases op with
  | write t => exact h.write hs t
  | batchWrite ts => exact h.batchWriteLoop hs 0 ts
  | readReadyGroups maxGroups => exact h.shrink (hs.read_held maxGroups)
  | checkGroupTimeouts => exact absurd rfl hop
  | deleteInstance id => exact h.deleteInstance hs id
  | reset => exact reset s
  | updateConfig config => exact h

theorem run (h : s.Filled) (hs : s.Coherent env) {ops : List Op}
    (hops : .checkGroupTimeouts ∉ ops) : (s.run env ops).Filled :=
  (Machine.along_of_inv (P := fun _ _ => True) (fun s : BufferShard => s.Coherent env ∧ s.Filled)
    (fun _ op h hop => ⟨trivial, h.1.exec op, h.2.exec h.1 hop⟩) ops ⟨hs, h⟩
    (Machine.along_of_mem (Q := fun op => op ≠ Op.checkGroupTimeouts)
      (fun _ hmem => ne_of_mem_of_not_mem hmem hops) s)).2.2

end Filled

end Filled

section Reading

/-- An unlimited read of the shard meets no null pointer and no failing call. -/
def Serves (env : Env) (s : BufferShard) : Prop :=
  (∀ p ∈ s.selected 0, p.2.Readable) ∧ s.Served env 0

theorem Coherent.serves_iff (hs : s.Coherent env) :
    (∃ result, (s.readReadyGroups env 0).1 = .ok result) ↔ s.Serves env := by
  constructor
  · rintro ⟨result, hok⟩
    have hread : ∀ p ∈ s.selected 0, p.2.Readable :=
      readable_of_resolved fun hnull => nomatch hok.symm.trans hnull
    obtain ⟨hends, -⟩ := readReadyGroups_ends env hs.initialized hs.exclusive 0 hread
    exact ⟨hread, hends.ok_iff.mp ⟨result, hok⟩⟩
  · rintro ⟨hread, hserved⟩
    obtain ⟨hends, -⟩ := readReadyGroups_ends env hs.initialized hs.exclusive 0 hread
    exact hends.ok_iff.mpr hserved

end Reading

end BufferShard

namespace BufferManager

variable {k : ℕ} {env : Fin k → Env}

section Statement
variable (env : Fin k → Env)

/-- A group stored in one of the shards, created no later than the timeout before `now`. -/
def Overdue (m : BufferManager k) (now : ℤ) (g : TrajectoryGroup) : Prop :=
  ∃ i id e, (id, e) ∈ (m.shards i).groups.entries ∧
    e.group? (m.shards i).diskStorage = some g ∧
    BufferShard.timeout m.config ≤ now - e.createdTime

def Delivers (m : BufferManager k) (g : TrajectoryGroup) : Prop :=
  ∃ groups, (m.readReadyGroups env 0).1 = .ok groups ∧ g ∈ groups

def Serves (m : BufferManager k) : Prop := ∀ i, (m.shards i).Serves (env i)

end Statement

theorem succeeds_iff {m : BufferManager k} (hs : m.Coherent env) :
    m.Succeeds env 0 ↔ m.Serves env := by
  constructor
  · exact fun h i => (hs i).serves_iff.mp (h.shard i)
  · intro h
    choose result hread using fun i => (hs i).serves_iff.mpr (h i)
    have hmap : (Sharded.map (fun i shard => shard.readReadyGroups (env i) 0) m.shards).1 =
        .ok ((List.finRange k).map result) := Sharded.map_ok hread
    rw [Succeeds, BufferManager.readReadyGroups]
    simp only [hmap]
    exact ⟨_, rfl⟩

theorem delivers_iff {m : BufferManager k} (hs : m.Coherent env)
    (hfilled : ∀ i, (m.shards i).Filled) {i : Fin k} {id : String} {e : GroupEntry}
    {g : TrajectoryGroup} (hmem : (id, e) ∈ (m.shards i).groups.entries)
    (hgroup : e.group? (m.shards i).diskStorage = some g) :
    m.Delivers env g ↔ g.groupSize ≤ g.trajectories.length ∧ m.Serves env := by
  have hheld : (m.shards i).held id = some (g, e.isComplete) := by
    simp [BufferShard.held, get?_eq_some_iff.mpr hmem, hgroup]
  rw [← succeeds_iff hs]
  have hall : ∀ groups : List TrajectoryGroup, truncate 0 groups = groups := fun groups =>
    if_neg fun h => absurd h.1 (by decide)
  constructor
  · rintro ⟨groups, hok, hg⟩
    have hsucceeds : m.Succeeds env 0 := ⟨groups, hok⟩
    refine ⟨?_, hsucceeds⟩
    -- the copy delivered comes from some shard, where it counts as complete
    obtain rfl := Except.ok.inj (hok.symm.trans hsucceeds.answer)
    rw [hall, removed, List.mem_flatMap] at hg
    obtain ⟨j, -, hj⟩ := hg
    obtain ⟨result, hread⟩ := hsucceeds.shard j
    rw [hread] at hj
    obtain ⟨id', hheld'⟩ := (hs j).read_delivers hread hj
    exact (hfilled j id' g true hheld').mp rfl
  · rintro ⟨hfull, hsucceeds⟩
    have hcomplete : e.isComplete = true := (hfilled i id g _ hheld).mpr hfull
    obtain ⟨hanswer, hperm, -⟩ := readReadyGroups_ok hs hsucceeds
    refine ⟨_, hanswer, ?_⟩
    rw [hall, hperm.mem_iff, List.mem_flatMap]
    refine ⟨i, List.mem_finRange i, List.mem_filterMap.mpr ⟨(id, e), ?_, hgroup⟩⟩
    exact List.mem_filter.mpr ⟨hmem, hcomplete⟩

section Requests
variable [NeZero k]

theorem handle_shard (m : BufferManager k) (env : Fin k → Env) (stdHash : String → ℕ)
    (request : HttpRequest) (i : Fin k) :
    ∃ ops, .checkGroupTimeouts ∉ ops ∧
      (m.handle env stdHash request).2.shards i = (m.shards i).run (env i) ops := by
  cases request with
  | buffer request => exact m.respond_shard env stdHash request i
  | config body =>
    cases body with
    | error status => exact ⟨[], List.not_mem_nil, rfl⟩
    | ok body => exact ⟨[.updateConfig (m.config.update body.message)], by simp, rfl⟩

theorem filled_final (env : Fin k → Env) (stdHash : String → ℕ) (config : TransferQueueConfig)
    (bitCount numHashes : ℕ) (requests : List HttpRequest) :
    let m := Machine.final (handle env stdHash) (start k config bitCount numHashes) requests
    m.Coherent env ∧ ∀ i, (m.shards i).Filled := by
  refine Machine.final_inv
    (fun m : BufferManager k => m.Coherent env ∧ ∀ i, (m.shards i).Filled) ?_ requests
    ⟨fun _ => .create config bitCount numHashes, fun _ => .create config bitCount numHashes⟩
  rintro m request ⟨hs, hfilled⟩
  choose ops hops hrun using m.handle_shard env stdHash request
  constructor
  · intro i
    rw [hrun]
    exact (hs i).run (ops i)
  · intro i
    rw [hrun]
    exact (hfilled i).run (hs i) (hops i)

/-- After any requests to the server and at any time, a group that has waited for the
timeout is delivered by an unlimited read if and only if it is full, as any other group,
and the disks serve the read. -/
theorem timeout_delivers_iff (env : Fin k → Env) (stdHash : String → ℕ)
    (config : TransferQueueConfig) (bitCount numHashes : ℕ) (requests : List HttpRequest) :
    let m := Machine.final (handle env stdHash) (start k config bitCount numHashes) requests
    ∀ now, (∀ g, m.Overdue now g → m.Delivers env g) ↔
      ∀ g, m.Overdue now g → g.groupSize ≤ g.trajectories.length ∧ m.Serves env := by
  intro m now
  obtain ⟨hs, hfilled⟩ := filled_final env stdHash config bitCount numHashes requests
  refine forall₂_congr fun g hoverdue => ?_
  obtain ⟨i, id, e, hmem, hgroup, -⟩ := hoverdue
  exact delivers_iff hs hfilled hmem hgroup

end Requests

/-- One trajectory of one, read five minutes later. -/
theorem timeout_delivers_iff_full :
    let env : Fin 1 → Env := fun _ => .sample []
    let m := Machine.final (handle env fun _ => 0) (start 1 { groupSize := 1 } 8 1)
      [.buffer (.write (.bare "u" "a"))]
    m.Delivers env ⟨"a", [.bare "u" "a"], 1, true⟩ := by
  intro env m
  let g : TrajectoryGroup := ⟨"a", [.bare "u" "a"], 1, true⟩
  have hentries : (m.shards 0).groups.entries = [("a", { groupPtr := some g })] := by
    decide +kernel
  have hserves : m.Serves env := by
    intro i
    obtain rfl := Subsingleton.elim i 0
    unfold BufferShard.Serves BufferShard.Served
    decide +kernel
  have hoverdue : m.Overdue (300 * 1000000000) g :=
    ⟨0, "a", { groupPtr := some g }, by rw [hentries]; exact List.mem_cons_self, rfl,
      by decide +kernel⟩
  have hfull : ∀ g', m.Overdue (300 * 1000000000) g' →
      g'.groupSize ≤ g'.trajectories.length ∧ m.Serves env := by
    rintro g' ⟨i, id, e, hmem, hgroup, -⟩
    obtain rfl := Subsingleton.elim i 0
    rw [hentries] at hmem
    cases List.mem_singleton.mp hmem
    cases hgroup
    exact ⟨by decide, hserves⟩
  exact (timeout_delivers_iff env (fun _ => 0) { groupSize := 1 } 8 1
    [.buffer (.write (.bare "u" "a"))] (300 * 1000000000)).mpr hfull g hoverdue

/-- One trajectory of sixteen; five minutes later the unlimited read is empty. -/
theorem timeout_ignored :
    let env : Fin 1 → Env := fun _ => .sample []
    let m := Machine.final (handle env fun _ => 0) (start 1 {} 8 1)
      [.buffer (.write (.bare "u" "a"))]
    let g : TrajectoryGroup := ⟨"a", [.bare "u" "a"], 16, false⟩
    (∀ i, Monotone (env i).now) ∧ m.Overdue (300 * 1000000000) g ∧
      (m.readReadyGroups env 0).1 = .ok [] ∧
      ¬∀ g, m.Overdue (300 * 1000000000) g → m.Delivers env g := by
  intro env m g
  have hread : (m.readReadyGroups env 0).1 = .ok [] := by decide +kernel
  have hoverdue : m.Overdue (300 * 1000000000) g :=
    ⟨0, "a", { groupPtr := some g }, by decide +kernel, rfl, by decide +kernel⟩
  refine ⟨fun _ _ _ _ => le_rfl, hoverdue, hread, fun h => ?_⟩
  obtain ⟨groups, hok, hg⟩ := h g hoverdue
  cases hread.symm.trans hok
  cases hg

end BufferManager
end TransferQueue
