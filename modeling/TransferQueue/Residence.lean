import TransferQueue.ShardSteps
import TransferQueue.Buffer

/-! Where the groups of a shard are. In a settled shard, one no operation is pending
on, every entry holds its group in exactly one place: in memory, or in a file of
its own whose cached size and bytes are right. -/

namespace TransferQueue
open UnorderedMap

/-- The group reached through an entry: in memory, or else in the file it points to. -/
def GroupEntry.group? (d : DiskStorage) (e : GroupEntry) : Option TrajectoryGroup :=
  match e.groupPtr with
  | some g => some g
  | none => if 0 < e.diskOffset then d.find e.diskOffset else none

/-- The two ways an entry holds a group. -/
inductive GroupEntry.Holds (env : Env) (d : DiskStorage) :
    GroupEntry → TrajectoryGroup → Prop where
  | memory {e : GroupEntry} {g : TrajectoryGroup} (ptr : e.groupPtr = some g)
      (noFile : e.diskOffset = 0) : Holds env d e g
  | disk {e : GroupEntry} {g : TrajectoryGroup} (ptr : e.groupPtr = none)
      (offset : 0 < e.diskOffset) (file : d.find e.diskOffset = some g)
      (complete : g.isComplete = true) (size : e.cachedSize = g.trajectories.length)
      (bytes : e.cachedBytes = env.byteSizeLong g) : Holds env d e g

namespace GroupEntry.Holds

variable {env : Env} {d d' : DiskStorage} {e : GroupEntry} {g : TrajectoryGroup}

theorem group?_eq (h : e.Holds env d g) : e.group? d = some g := by
  cases h with
  | memory ptr _ => simp [group?, ptr]
  | disk ptr offset file => simp [group?, ptr, offset, file]

theorem isComplete_eq (h : e.Holds env d g) : e.isComplete = g.isComplete := by
  cases h with
  | memory ptr _ => simp [isComplete, ptr]
  | disk ptr _ _ complete => simp [isComplete, ptr, complete]

theorem readable (h : e.Holds env d g) : e.Readable := by
  cases h with
  | memory ptr _ => exact .inl (by simp [ptr])
  | disk _ offset => exact .inr offset

theorem of_disk (h : e.Holds env d g)
    (same : 0 < e.diskOffset → d'.find e.diskOffset = d.find e.diskOffset) :
    e.Holds env d' g := by
  cases h with
  | memory ptr noFile => exact .memory ptr noFile
  | disk ptr offset file complete size bytes =>
    exact .disk ptr offset ((same offset).trans file) complete size bytes

theorem sampleCount_eq (h : e.Holds env d g) :
    BufferShard.sampleCount e = g.trajectories.length := by
  cases h with
  | memory ptr noFile =>
    simp [BufferShard.sampleCount, GroupEntry.isOnDisk, GroupEntry.trajectoriesSize, ptr]
  | disk ptr offset _ _ size _ =>
    simp [BufferShard.sampleCount, GroupEntry.isOnDisk, ptr, offset, size]

end GroupEntry.Holds

namespace BufferShard

variable {env : Env}

def Exclusive (s : BufferShard) : Prop :=
  ∀ id e id' e', (id, e) ∈ s.groups.entries → (id', e') ∈ s.groups.entries →
    0 < e.diskOffset → e.diskOffset = e'.diskOffset → id = id'

/-- The state of a shard on which no operation is pending. -/
structure Settled (env : Env) (s : BufferShard) : Prop where
  initialized : s.diskStorage.initialized = true
  holds : ∀ id e, (id, e) ∈ s.groups.entries → ∃ g, e.Holds env s.diskStorage g
  exclusive : s.Exclusive
  /-- Ids still to be drawn are in use nowhere. -/
  drawn : ∀ id e, (id, e) ∈ s.groups.entries →
    e.diskOffset < env.spillId s.diskStorage.spills

/-- The group of an entry as the abstract buffer stores it. -/
def storedOf (d : DiskStorage) (id : String) (e : GroupEntry) : Stored :=
  ⟨(e.group? d).getD (TrajectoryGroup.create id 0), e.createdTime⟩

/-- The buffer a shard implements. -/
def buffer (s : BufferShard) : Buffer where
  settings := s.config.settings
  dedupFilter := s.dedupFilter
  groups := s.groups.mapValues (storedOf s.diskStorage)
  totalTrajectories := s.totalTrajectories
  totalConsumed := s.totalConsumed
  clockReads := s.clockReads

/-- The trajectories reached through the entry of an instance, oldest first. -/
def content (s : BufferShard) (id : String) : List Trajectory :=
  (((s.groups.get? id).bind fun e => e.group? s.diskStorage).map
    TrajectoryGroup.trajectories).getD []

def readyGroups (s : BufferShard) : List TrajectoryGroup :=
  (s.groups.entries.filter fun p => p.2.isComplete).filterMap fun p => p.2.group? s.diskStorage

theorem storedOf_group {d : DiskStorage} {id : String} {e : GroupEntry} {g : TrajectoryGroup}
    (h : e.Holds env d g) : storedOf d id e = ⟨g, e.createdTime⟩ := by
  simp [storedOf, h.group?_eq]

theorem buffer_groups (s : BufferShard) :
    s.buffer.groups = s.groups.mapValues (storedOf s.diskStorage) := rfl

theorem buffer_get? (s : BufferShard) (id : String) :
    s.buffer.groups.get? id = (s.groups.get? id).map (storedOf s.diskStorage id) :=
  get?_mapValues _ _ _

/-- In any state, the content is that of the buffer. -/
theorem buffer_content (s : BufferShard) (id : String) : s.buffer.content id = s.content id := by
  rw [Buffer.content, buffer_get?, content]
  cases h : s.groups.get? id with
  | none => rfl
  | some e => cases hg : e.group? s.diskStorage <;> simp [storedOf, hg, TrajectoryGroup.create]

namespace Settled

theorem create (config : TransferQueueConfig) (bitCount numHashes : ℕ) :
    (BufferShard.create config bitCount numHashes).Settled env where
  initialized := rfl
  holds := fun _ _ h => nomatch h
  exclusive := fun _ _ _ _ h => nomatch h
  drawn := fun _ _ h => nomatch h

theorem set_memory {s s' : BufferShard} (h : s.Settled env) (id : String) {e : GroupEntry}
    {g : TrajectoryGroup} (hp : e.groupPtr = some g) (ho : e.diskOffset = 0)
    (hdisk : s'.diskStorage = s.diskStorage)
    (hmem : ∀ id' e', (id', e') ∈ s'.groups.entries →
      (id' = id ∧ e' = e) ∨ (id', e') ∈ s.groups.entries) : s'.Settled env where
  initialized := hdisk ▸ h.initialized
  holds := by
    intro id' e' hmem'
    rw [hdisk]
    rcases hmem id' e' hmem' with ⟨-, rfl⟩ | hold
    · exact ⟨g, .memory hp ho⟩
    · exact h.holds id' e' hold
  exclusive := by
    intro id₁ e₁ id₂ e₂ h₁ h₂ hpos heq
    rcases hmem _ _ h₁ with ⟨-, rfl⟩ | h₁
    · omega
    · rcases hmem _ _ h₂ with ⟨-, rfl⟩ | h₂
      · omega
      · exact h.exclusive _ _ _ _ h₁ h₂ hpos heq
  drawn := by
    intro id' e' hmem'
    rw [hdisk]
    rcases hmem id' e' hmem' with ⟨-, rfl⟩ | hold
    · rw [ho]
      exact env.spillId_pos _
    · exact h.drawn id' e' hold

theorem shrink {s s' : BufferShard} (h : s.Settled env)
    (hsub : ∀ p ∈ s'.groups.entries, p ∈ s.groups.entries)
    (hinit : s'.diskStorage.initialized = true)
    (hspills : s.diskStorage.spills ≤ s'.diskStorage.spills)
    (hfiles : ∀ id e, (id, e) ∈ s'.groups.entries → 0 < e.diskOffset →
      s'.diskStorage.find e.diskOffset = s.diskStorage.find e.diskOffset) :
    s'.Settled env where
  initialized := hinit
  holds := by
    intro id e hmem
    obtain ⟨g, hg⟩ := h.holds id e (hsub _ hmem)
    exact ⟨g, hg.of_disk (hfiles id e hmem)⟩
  exclusive := fun _ _ _ _ h₁ h₂ => h.exclusive _ _ _ _ (hsub _ h₁) (hsub _ h₂)
  drawn := fun id e hmem => (h.drawn id e (hsub _ hmem)).trans_le
    (env.spillId_strictMono.monotone hspills)

theorem same {s s' : BufferShard} (h : s.Settled env) (hgroups : s'.groups = s.groups)
    (hdisk : s'.diskStorage = s.diskStorage) : s'.Settled env :=
  h.shrink (fun _ hp => hgroups ▸ hp) (hdisk ▸ h.initialized) (by rw [hdisk])
    (fun _ _ _ _ => by rw [hdisk])

end Settled

end BufferShard
end TransferQueue
