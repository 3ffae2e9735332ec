import TransferQueue.ReadScan

/-! What the other parts of the shard operations do, in any state: where a write
puts its trajectory, which groups a spill copies, what a commit leaves. -/

namespace TransferQueue
namespace BufferShard
open UnorderedMap

variable {env : Env}

section Write

def newEntry (env : Env) (t : Trajectory) (s : BufferShard) : GroupEntry where
  groupPtr := some ((TrajectoryGroup.create t.instanceId s.config.groupSize).add t)
  createdTime := env.now s.clockReads

theorem addTrajectory_new {t : Trajectory} {s : BufferShard}
    (h : s.groups.get? t.instanceId = none) :
    s.addTrajectory env t = (.appended, { s with
      groups := s.groups.insert env.place t.instanceId (s.newEntry env t)
      totalTrajectories := s.totalTrajectories + 1
      clockReads := s.clockReads + 1 }) := by
  have hkey := get?_eq_none_iff.mp h
  simp only [addTrajectory, get?_insert_self env.place _ hkey, Option.getD_some,
    insert_set_self env.place _ _ hkey]
  rfl

theorem addTrajectory_memory {t : Trajectory} {s : BufferShard} {e : GroupEntry}
    {g : TrajectoryGroup} (h : s.groups.get? t.instanceId = some e) (hp : e.groupPtr = some g) :
    s.addTrajectory env t = (.appended, { s with
      groups := s.groups.set t.instanceId { e with groupPtr := some (g.add t) }
      totalTrajectories := s.totalTrajectories + 1 }) := by
  have hkey := mem_keys.mpr ⟨e, get?_eq_some_iff.mp h⟩
  simp [addTrajectory, insert_of_mem env.place _ hkey, h, GroupEntry.isOnDisk, hp]

theorem addTrajectory_onDisk {t : Trajectory} {s : BufferShard} {e : GroupEntry}
    (h : s.groups.get? t.instanceId = some e) (hd : e.isOnDisk = true) :
    s.addTrajectory env t = (.onDisk, s) := by
  have hkey := mem_keys.mpr ⟨e, get?_eq_some_iff.mp h⟩
  simp [addTrajectory, insert_of_mem env.place _ hkey, h, hd]

theorem addTrajectory_empty {t : Trajectory} {s : BufferShard} {e : GroupEntry}
    (h : s.groups.get? t.instanceId = some e) (hp : e.groupPtr = none) (ho : e.diskOffset = 0) :
    s.addTrajectory env t = (.appended, { s with
      groups := s.groups.set t.instanceId { e with
        groupPtr := (s.newEntry env t).groupPtr
        createdTime := (s.newEntry env t).createdTime }
      totalTrajectories := s.totalTrajectories + 1
      clockReads := s.clockReads + 1 }) := by
  have hkey := mem_keys.mpr ⟨e, get?_eq_some_iff.mp h⟩
  simp [addTrajectory, insert_of_mem env.place _ hkey, h, GroupEntry.isOnDisk, hp, ho, newEntry]

/-- The write passes the dedup check and finds the group of its instance on disk. -/
def drops (env : Env) (t : Trajectory) (s : BufferShard) : Bool :=
  (s.dedup env t.uid).1 && ((s.groups.get? t.instanceId).map GroupEntry.isOnDisk).getD false

@[simp] theorem dedup_groups (uid : String) (s : BufferShard) :
    (s.dedup env uid).2.groups = s.groups := by
  rw [dedup]
  split <;> rfl

@[simp] theorem dedup_diskStorage (uid : String) (s : BufferShard) :
    (s.dedup env uid).2.diskStorage = s.diskStorage := by
  rw [dedup]
  split <;> rfl

@[simp] theorem dedup_config (env : Env) (uid : String) (s : BufferShard) :
    (s.dedup env uid).2.config = s.config := by
  rw [dedup]
  split <;> rfl

/-- Up to the spill check a write refuses a duplicate, and passes any other trajectory on. -/
theorem writeStart_cases (env : Env) (t : Trajectory) (s : BufferShard) :
    ((s.dedup env t.uid).1 = false ∧ s.writeStart env t = (.duplicate, (s.dedup env t.uid).2)) ∨
      ((s.dedup env t.uid).1 = true ∧
        s.writeStart env t = (s.dedup env t.uid).2.addTrajectory env t) := by
  rw [writeStart]
  rcases hd : s.dedup env t.uid with ⟨fresh, s₁⟩
  cases fresh with
  | false => exact .inl ⟨rfl, rfl⟩
  | true => exact .inr ⟨rfl, rfl⟩

theorem writeStart_duplicate_iff (env : Env) (t : Trajectory) (s : BufferShard) :
    (s.writeStart env t).1 = .duplicate ↔ (s.dedup env t.uid).1 = false := by
  rcases writeStart_cases env t s with ⟨hfresh, hstart⟩ | ⟨hfresh, hstart⟩
  · simp [hfresh, hstart]
  · have hadd : ((s.dedup env t.uid).2.addTrajectory env t).1 ≠ .duplicate := by
      rw [addTrajectory]
      split
      · simp
      · split <;> simp
    simp [hfresh, hstart, hadd]

theorem writeStart_keeps {P : BufferShard → Prop} {env : Env} {t : Trajectory} {s : BufferShard}
    (hdedup : P (s.dedup env t.uid).2)
    (hadd : P (s.dedup env t.uid).2 → P ((s.dedup env t.uid).2.addTrajectory env t).2) :
    P (s.writeStart env t).2 := by
  rcases writeStart_cases env t s with ⟨-, hstart⟩ | ⟨-, hstart⟩
  · rw [hstart]
    exact hdedup
  · rw [hstart]
    exact hadd hdedup

theorem write_cases (env : Env) (t : Trajectory) (s : BufferShard) :
    ((s.writeStart env t).1 ≠ .appended ∧ s.write env t =
        (.ok (decide ((s.writeStart env t).1 ≠ .duplicate)), (s.writeStart env t).2)) ∨
      ((s.writeStart env t).1 = .appended ∧ s.write env t =
        (((s.writeStart env t).2.trySpillGroups env).1.map fun _ => true,
          ((s.writeStart env t).2.trySpillGroups env).2)) := by
  rw [write]
  rcases hstart : s.writeStart env t with ⟨started, s₁⟩
  cases started with
  | duplicate => exact .inl ⟨by simp, rfl⟩
  | onDisk => exact .inl ⟨by simp, rfl⟩
  | appended =>
    refine .inr ⟨rfl, ?_⟩
    simp only
    rcases s₁.trySpillGroups env with ⟨e | bytes, s₂⟩ <;> rfl

theorem write_duplicate {env : Env} {t : Trajectory} {s : BufferShard}
    (h : (s.dedup env t.uid).1 = false) :
    s.write env t = (.ok false, (s.dedup env t.uid).2) := by
  rw [write, writeStart]
  rcases hd : s.dedup env t.uid with ⟨fresh, s₁⟩
  rw [hd] at h
  simp only at h
  subst h
  rfl

theorem write_keeps {P : BufferShard → Prop} {env : Env} {t : Trajectory} {s : BufferShard}
    (hstart : P (s.writeStart env t).2)
    (hspill : P (s.writeStart env t).2 → P ((s.writeStart env t).2.trySpillGroups env).2) :
    P (s.write env t).2 := by
  rcases write_cases env t s with ⟨-, hwrite⟩ | ⟨-, hwrite⟩
  · rw [hwrite]
    exact hstart
  · rw [hwrite]
    exact hspill hstart

theorem batchWriteLoop_keeps {P : BufferShard → Prop} {env : Env}
    (hwrite : ∀ t s, P s → P (s.write env t).2) (written : ℕ) (ts : List Trajectory)
    {s : BufferShard} (hs : P s) : P (batchWriteLoop env written ts s).2 := by
  induction ts generalizing written s with
  | nil => exact hs
  | cons t ts ih =>
    have hs' := hwrite t s hs
    rw [batchWriteLoop]
    rcases hw : s.write env t with ⟨e | accepted, s'⟩ <;> rw [hw] at hs'
    · exact hs'
    · cases accepted
      · exact ih written hs'
      · exact ih (written + 1) hs'

end Write

section Memory

def memoryBytes (env : Env) (e : GroupEntry) : ℕ := (e.groupPtr.map env.byteSizeLong).getD 0

def filterBytes (s : BufferShard) : ℕ :=
  if s.config.uidDedup then s.dedupFilter.bloomBitCount / 8 + s.dedupFilter.size * 64 else 0

/-- The estimate before the reduction to `size_t`. -/
def memoryTotal (env : Env) (s : BufferShard) : ℕ :=
  s.groups.sum (fun _ e => memoryBytes env e) + s.filterBytes

theorem estimateMemoryUsage_eq (env : Env) (s : BufferShard) :
    s.estimateMemoryUsage env = sizeT (s.memoryTotal env) := by
  have hfold : ∀ (f : ℕ → String × GroupEntry → ℕ),
      (∀ n p, f (sizeT n) p = sizeT (n + memoryBytes env p.2)) →
      ∀ (entries : List (String × GroupEntry)) (n : ℕ), entries.foldl f (sizeT n) =
        sizeT (n + (entries.map fun p => memoryBytes env p.2).sum) := by
    intro f hf entries
    induction entries with
    | nil => exact fun n => rfl
    | cons p entries ih =>
      intro n
      rw [List.foldl_cons, hf, ih, List.map_cons, List.sum_cons, Nat.add_assoc]
  rw [estimateMemoryUsage]
  refine (congrArg (fun usage => if s.config.uidDedup = true then
    sizeT (usage + s.dedupFilter.bloomBitCount / 8 + s.dedupFilter.size * 64) else usage)
      (hfold _ (fun n p => ?_) s.groups.entries 0)).trans ?_
  · cases hp : p.2.groupPtr with
    | none => simp [memoryBytes, hp]
    | some g => simp [memoryBytes, hp, sizeT]
  rw [memoryTotal, filterBytes, UnorderedMap.sum, Nat.zero_add]
  split
  · rw [Nat.add_assoc]
    exact Nat.mod_add_mod ..
  · rfl

end Memory

section Selection

/-- The complete groups in memory, in iteration order. -/
def memoryReady (entries : List (String × GroupEntry)) : List (String × TrajectoryGroup) :=
  entries.filterMap fun p =>
    p.2.groupPtr.bind fun g => if g.isComplete then some (p.1, g) else none

theorem mem_memoryReady {entries : List (String × GroupEntry)} {id : String}
    {g : TrajectoryGroup} :
    (id, g) ∈ memoryReady entries ↔
      ∃ e, (id, e) ∈ entries ∧ e.groupPtr = some g ∧ g.isComplete = true := by
  simp only [memoryReady, List.mem_filterMap, Prod.exists, Option.bind_eq_some_iff,
    Option.ite_none_right_eq_some, Option.some.injEq, Prod.mk.injEq]
  constructor
  · rintro ⟨id', e, hmem, g', hp, hc, rfl, rfl⟩
    exact ⟨e, hmem, hp, hc⟩
  · rintro ⟨e, hmem, hp, hc⟩
    exact ⟨id, e, hmem, g, hp, hc, rfl, rfl⟩

theorem memoryReady_keys_sublist (entries : List (String × GroupEntry)) :
    ((memoryReady entries).map Prod.fst).Sublist (entries.map Prod.fst) := by
  induction entries with
  | nil => exact .slnil
  | cons p entries ih =>
    obtain ⟨id, e⟩ := p
    simp only [memoryReady, List.filterMap_cons] at ih ⊢
    split
    · exact ih.cons _
    · rename_i q hq
      obtain ⟨g, -, hg⟩ := Option.bind_eq_some_iff.mp hq
      have hid : q = (id, g) := by
        split at hg
        · exact (Option.some.inj hg).symm
        · cases hg
      rw [hid]
      exact ih.cons_cons _

/-- The bytes of the groups chosen for a spill. -/
def chosenBytes (env : Env) (chosen : List (String × TrajectoryGroup)) : ℕ :=
  (chosen.map fun p => env.byteSizeLong p.2).sum

/-- The selection is a prefix of the complete groups in memory, keys, copies and bytes in
step. It stops short of the last only when the target is reached, and no later than that. -/
theorem selectGroups_spec (env : Env) (target : ℕ) (entries : List (String × GroupEntry))
    (acc : SpillSelection) (hacc : acc.spilledBytes = sizeT acc.spilledBytes) :
    ∃ chosen rest, memoryReady entries = chosen ++ rest ∧
      selectGroups env target acc entries =
        ⟨acc.keys ++ chosen.map Prod.fst, acc.groups ++ chosen.map Prod.snd,
          sizeT (acc.spilledBytes + chosenBytes env chosen)⟩ ∧
      (rest ≠ [] → chosen ≠ [] ∧ target ≤ sizeT (acc.spilledBytes + chosenBytes env chosen)) ∧
      ∀ init last, chosen = init ++ [last] → init ≠ [] →
        sizeT (acc.spilledBytes + chosenBytes env init) < target := by
  induction entries generalizing acc with
  | nil => exact ⟨[], [], rfl, by simp [selectGroups, chosenBytes, ← hacc], by simp, by simp⟩
  | cons p entries ih =>
    obtain ⟨id, e⟩ := p
    cases hp : e.groupPtr with
    | none =>
      have hready : memoryReady ((id, e) :: entries) = memoryReady entries := by
        simp [memoryReady, hp]
      simpa only [hready, selectGroups, hp] using ih acc hacc
    | some g =>
      by_cases hc : g.isComplete = true
      · have hready : memoryReady ((id, e) :: entries) = (id, g) :: memoryReady entries := by
          simp [memoryReady, hp, hc]
        have hsize : ∀ n, sizeT (sizeT (acc.spilledBytes + env.byteSizeLong g) + n) =
            sizeT (acc.spilledBytes + (env.byteSizeLong g + n)) := fun n => by
          rw [← Nat.add_assoc]
          exact Nat.mod_add_mod ..
        simp only [hready, selectGroups, hp, hc, if_true]
        split
        case isTrue htarget =>
          refine ⟨[(id, g)], memoryReady entries, rfl, rfl, fun _ => ⟨by simp, htarget⟩, ?_⟩
          intro init last hinit hne
          cases init with
          | nil => exact absurd rfl hne
          | cons q init => simp at hinit
        case isFalse htarget =>
          obtain ⟨chosen, rest, hsplit, hsel, hstop, hshort⟩ := ih
            ⟨acc.keys ++ [id], acc.groups ++ [g], sizeT (acc.spilledBytes + env.byteSizeLong g)⟩
            (Nat.mod_mod ..).symm
          simp only [hsize] at hsel hstop hshort
          refine ⟨(id, g) :: chosen, rest, by rw [hsplit]; rfl, ?_, fun hrest =>
            ⟨by simp, (hstop hrest).2⟩, ?_⟩
          · rw [hsel]
            simp [chosenBytes]
          · intro init last hinit hne
            cases init with
            | nil => exact absurd rfl hne
            | cons q init =>
              obtain ⟨rfl, hinit'⟩ := List.cons.inj hinit
              cases init with
              | nil => simpa [chosenBytes] using htarget
              | cons q' init => exact hshort _ last hinit' (by simp)
      · have hready : memoryReady ((id, e) :: entries) = memoryReady entries := by
          simp [memoryReady, hp, hc]
        simpa only [hready, selectGroups, hp, hc, Bool.false_eq_true, if_false] using ih acc hacc

/-- What a spill copies: at least one group, under distinct keys, each complete and
held in memory by its entry. -/
theorem spillSelection_spec {s : BufferShard} {selection : SpillSelection}
    (h : s.spillSelection env = some selection) :
    ∃ chosen : List (String × TrajectoryGroup),
      selection.keys = chosen.map Prod.fst ∧ selection.groups = chosen.map Prod.snd ∧
      chosen ≠ [] ∧ (chosen.map Prod.fst).Nodup ∧
      ∀ p ∈ chosen, ∃ e, (p.1, e) ∈ s.groups.entries ∧
        e.groupPtr = some p.2 ∧ p.2.isComplete = true := by
  simp only [spillSelection] at h
  split at h
  · cases h
  · split at h
    · cases h
    · rename_i hne
      cases h
      obtain ⟨chosen, rest, hsplit, hsel, -⟩ := selectGroups_spec env
        (sizeT (s.estimateMemoryUsage env + 2 ^ 64 - s.memoryFraction env (7 / 10)))
        s.groups.entries ⟨[], [], 0⟩ rfl
      have hpre : chosen <+: memoryReady s.groups.entries := ⟨rest, hsplit.symm⟩
      rw [hsel] at hne ⊢
      refine ⟨chosen, rfl, rfl, ?_, ?_, ?_⟩
      · rintro rfl
        exact hne rfl
      · exact s.groups.nodup.sublist
          ((hpre.sublist.map Prod.fst).trans (memoryReady_keys_sublist _))
      · intro p hp
        exact mem_memoryReady.mp (hpre.subset hp)

end Selection

section Commit

def committed (env : Env) (e : GroupEntry) (offset : ℕ) : GroupEntry :=
  { e with
    groupPtr := none
    diskOffset := offset
    cachedSize := e.trajectoriesSize
    cachedBytes := ((e.groupPtr.map env.byteSizeLong).getD 0 : ℕ) }

theorem commitEntry_absent {s : BufferShard} {id : String} (h : s.groups.get? id = none)
    (offset : ℕ) : s.commitEntry env id offset = s := by
  simp [commitEntry, h]

theorem commitEntry_present {s : BufferShard} {id : String} {e : GroupEntry}
    (h : s.groups.get? id = some e) (offset : ℕ) :
    s.commitEntry env id offset = { s with
      groups := s.groups.set id (committed env e offset)
      diskUsageBytes := s.diskUsageBytes + (committed env e offset).cachedBytes } := by
  simp [commitEntry, h, committed]

theorem commitEntry_frame (env : Env) (s : BufferShard) (id : String) (offset : ℕ) :
    (s.commitEntry env id offset).config = s.config ∧
      (s.commitEntry env id offset).dedupFilter = s.dedupFilter ∧
      (s.commitEntry env id offset).diskStorage = s.diskStorage ∧
      (s.commitEntry env id offset).totalTrajectories = s.totalTrajectories ∧
      (s.commitEntry env id offset).totalConsumed = s.totalConsumed ∧
      (s.commitEntry env id offset).clockReads = s.clockReads := by
  rw [commitEntry]
  split <;> simp

theorem commitEntry_get?_ne {s : BufferShard} {id id' : String} (h : id' ≠ id) (offset : ℕ) :
    (s.commitEntry env id offset).groups.get? id' = s.groups.get? id' := by
  rw [commitEntry]
  split
  · rfl
  · exact get?_set_ne _ h

theorem commitEntry_get?_self {s : BufferShard} {id : String} (offset : ℕ) :
    (s.commitEntry env id offset).groups.get? id =
      (s.groups.get? id).map fun e => committed env e offset := by
  cases h : s.groups.get? id with
  | none => rw [commitEntry_absent h, h, Option.map_none]
  | some e =>
    rw [commitEntry_present h, get?_set_self _ (mem_keys.mpr ⟨e, get?_eq_some_iff.mp h⟩),
      Option.map_some]

end Commit

end BufferShard
end TransferQueue
