import TransferQueue.ReadScan

/-! What a shard is for, without memory limits and disks: a filter of uids and a
map of groups, of which trajectories are appended to one and complete ones are
taken out whole. -/

namespace TransferQueue

structure Stored where
  group : TrajectoryGroup
  createdTime : ℤ

/-- The configuration that decides results; the memory limits do not. -/
structure Settings where
  groupSize : ℤ
  groupTimeoutSeconds : ℤ
  uidDedup : Bool
  deriving DecidableEq

def TransferQueueConfig.settings (c : TransferQueueConfig) : Settings :=
  ⟨c.groupSize, c.groupTimeoutSeconds, c.uidDedup⟩

@[ext]
structure Buffer where
  settings : Settings
  dedupFilter : DedupFilter
  groups : UnorderedMap String Stored
  totalTrajectories : ℤ
  totalConsumed : ℤ
  clockReads : ℕ

namespace Buffer
variable (env : Env)

def dedup (uid : String) (b : Buffer) : Bool × Buffer :=
  if b.settings.uidDedup then
    let r := b.dedupFilter.insert (DedupFilter.doubleHash env.stdHash) uid
    (r.1, { b with dedupFilter := r.2 })
  else (true, b)

def append (t : Trajectory) (b : Buffer) : Buffer :=
  match b.groups.get? t.instanceId with
  | some stored =>
    { b with
      groups := b.groups.set t.instanceId { stored with group := stored.group.add t }
      totalTrajectories := b.totalTrajectories + 1 }
  | none =>
    { b with
      groups := b.groups.insert env.place t.instanceId
        ⟨(TrajectoryGroup.create t.instanceId b.settings.groupSize).add t, env.now b.clockReads⟩
      totalTrajectories := b.totalTrajectories + 1
      clockReads := b.clockReads + 1 }

/-- A write is accepted and stored, refused as a duplicate, or, when `ignored`,
accepted without being stored. -/
def write (ignored : Bool) (t : Trajectory) (b : Buffer) : Bool × Buffer :=
  match b.dedup env t.uid with
  | (false, b) => (false, b)
  | (true, b) => if ignored then (true, b) else (true, b.append env t)

def ready (b : Buffer) : List (String × Stored) :=
  b.groups.entries.filter fun p => p.2.group.isComplete

def selected (maxGroups : Int32) (b : Buffer) : List (String × Stored) :=
  BufferShard.limitTo maxGroups 0 b.ready

def take (maxGroups : Int32) (b : Buffer) : List TrajectoryGroup × Buffer :=
  let taken := b.selected maxGroups
  (taken.map fun p => p.2.group, { b with
    groups := b.groups.eraseAll (taken.map Prod.fst)
    totalConsumed := b.totalConsumed +
      (taken.map fun p => (p.2.group.trajectories.length : ℤ)).sum })

def delete (id : String) (b : Buffer) : Buffer := { b with groups := b.groups.erase id }

def reset (b : Buffer) : Buffer :=
  { b with
    groups := b.groups.clear
    dedupFilter := b.dedupFilter.clear
    totalTrajectories := 0
    totalConsumed := 0 }

def expire (b : Buffer) : Buffer :=
  { b with
    groups := b.groups.mapValues fun _ stored =>
      if !stored.group.isComplete &&
          decide (b.settings.groupTimeoutSeconds * 1000000000 ≤
            env.now b.clockReads - stored.createdTime)
      then { stored with group := { stored.group with isComplete := true } }
      else stored
    clockReads := b.clockReads + 1 }

def configure (settings : Settings) (b : Buffer) : Buffer := { b with settings }

/-- The trajectories stored for an instance, oldest first. -/
def content (b : Buffer) (id : String) : List Trajectory :=
  ((b.groups.get? id).map fun stored => stored.group.trajectories).getD []

/-- Every group is non-empty and holds trajectories of its own instance only. -/
def Sound (b : Buffer) : Prop :=
  ∀ id stored, (id, stored) ∈ b.groups.entries →
    stored.group.instanceId = id ∧ stored.group.trajectories ≠ [] ∧
      ∀ t ∈ stored.group.trajectories, t.instanceId = id

section Content
variable {env}

theorem content_of_mem {b : Buffer} {id : String} {stored : Stored}
    (h : (id, stored) ∈ b.groups.entries) : b.content id = stored.group.trajectories := by
  rw [content, UnorderedMap.get?_eq_some_iff.mpr h]
  rfl

theorem content_congr {b b' : Buffer} {id : String}
    (h : b'.groups.get? id = b.groups.get? id) : b'.content id = b.content id := by
  rw [content, content, h]

@[simp] theorem dedup_groups (uid : String) (b : Buffer) :
    (b.dedup env uid).2.groups = b.groups := by
  rw [dedup]
  split <;> rfl

theorem append_content_self (t : Trajectory) (b : Buffer) :
    (b.append env t).content t.instanceId = b.content t.instanceId ++ [t] := by
  rw [append]
  cases h : b.groups.get? t.instanceId with
  | some stored =>
    have hkey : t.instanceId ∈ b.groups.keys :=
      UnorderedMap.mem_keys.mpr ⟨stored, UnorderedMap.get?_eq_some_iff.mp h⟩
    simp [content, h, UnorderedMap.get?_set_self _ hkey]
  | none =>
    have hkey := UnorderedMap.get?_eq_none_iff.mp h
    simp [content, h, UnorderedMap.get?_insert_self _ _ hkey, TrajectoryGroup.create]

theorem append_content_ne {t : Trajectory} {id : String} (h : id ≠ t.instanceId) (b : Buffer) :
    (b.append env t).content id = b.content id := by
  apply content_congr
  rw [append]
  split
  · exact UnorderedMap.get?_set_ne _ h
  · exact UnorderedMap.get?_insert_ne _ _ h

@[simp] theorem append_totalTrajectories (t : Trajectory) (b : Buffer) :
    (b.append env t).totalTrajectories = b.totalTrajectories + 1 := by
  rw [append]
  split <;> rfl

end Content

section Soundness
variable {env}

theorem Sound.append {b : Buffer} (h : b.Sound) (t : Trajectory) : (b.append env t).Sound := by
  intro id stored hmem
  rw [Buffer.append] at hmem
  cases hg : b.groups.get? t.instanceId with
  | some old =>
    rw [hg] at hmem
    rcases UnorderedMap.mem_set.mp hmem with ⟨rfl, rfl, -⟩ | ⟨-, hold⟩
    · obtain ⟨hid, -, hall⟩ := h _ _ (UnorderedMap.get?_eq_some_iff.mp hg)
      refine ⟨hid, by simp, fun t' ht' => ?_⟩
      rw [TrajectoryGroup.add_trajectories, List.mem_append, List.mem_singleton] at ht'
      exact ht'.elim (hall t') fun he => by rw [he]
    · exact h _ _ hold
  | none =>
    rw [hg] at hmem
    rcases (UnorderedMap.mem_insert _ (UnorderedMap.get?_eq_none_iff.mp hg) _).mp hmem with
      heq | hold
    · obtain ⟨rfl, rfl⟩ := Prod.mk.inj heq
      simp [TrajectoryGroup.create]
    · exact h _ _ hold

theorem Sound.write {b : Buffer} (h : b.Sound) (ignored : Bool) (t : Trajectory) :
    (b.write env ignored t).2.Sound := by
  have hd : (b.dedup env t.uid).2.Sound := by
    intro id stored hmem
    rw [dedup_groups] at hmem
    exact h id stored hmem
  rw [Buffer.write]
  rcases hb : b.dedup env t.uid with ⟨fresh, b'⟩
  rw [hb] at hd
  cases fresh
  · exact hd
  · cases ignored
    · exact hd.append t
    · exact hd

theorem Sound.take {b : Buffer} (h : b.Sound) (maxGroups : Int32) : (b.take maxGroups).2.Sound :=
  fun id stored hmem => h id stored ((UnorderedMap.mem_eraseAll _).mp hmem).1

theorem Sound.delete {b : Buffer} (h : b.Sound) (id : String) : (b.delete id).Sound :=
  fun id' stored hmem => h id' stored ((UnorderedMap.mem_erase _).mp hmem).1

theorem Sound.reset (b : Buffer) : b.reset.Sound := by
  intro id stored hmem
  cases hmem

theorem Sound.expire {b : Buffer} (h : b.Sound) : (b.expire env).Sound := by
  intro id stored hmem
  simp only [Buffer.expire, UnorderedMap.mapValues_entries, List.mem_map, Prod.mk.injEq,
    Prod.exists] at hmem
  obtain ⟨id', old, hold, rfl, rfl⟩ := hmem
  have hsound := h _ _ hold
  split <;> exact hsound

end Soundness

end Buffer
end TransferQueue
