import TransferQueue.Acknowledgement

/-! Spilling is invisible. A shard that spills and one that never has to refine the
same buffer as long as no write is dropped, so they answer alike and show the
same counts after every operation. -/

namespace TransferQueue
open UnorderedMap

structure Observation where
  hasReadyGroups : Bool
  totalTrajectories : ℤ
  totalConsumed : ℤ
  pendingGroups : ℕ
  incompleteGroups : ℕ
  numGroups : ℕ
  totalSamples : ℤ
  finishedGroupIds : List String
  deriving DecidableEq

def BufferShard.observation (env : Env) (s : BufferShard) : Observation where
  hasReadyGroups := s.hasReadyGroups
  totalTrajectories := (s.getStatus env).totalTrajectories
  totalConsumed := (s.getStatus env).totalConsumed
  pendingGroups := (s.getStatus env).pendingGroups
  incompleteGroups := (s.getStatus env).incompleteGroups
  numGroups := s.getMetaInfo.numGroups
  totalSamples := s.getMetaInfo.totalSamples
  finishedGroupIds := s.getMetaInfo.finishedGroupIds

def Buffer.observation (b : Buffer) : Observation where
  hasReadyGroups := b.groups.entries.any fun p => p.2.group.isComplete
  totalTrajectories := b.totalTrajectories
  totalConsumed := b.totalConsumed
  pendingGroups := b.groups.entries.countP fun p => p.2.group.isComplete
  incompleteGroups := b.groups.entries.countP fun p => !p.2.group.isComplete
  numGroups := b.groups.entries.length
  totalSamples := (b.groups.entries.map fun p => (p.2.group.trajectories.length : ℤ)).sum
  finishedGroupIds := b.ready.map Prod.fst

namespace BufferShard

variable {env : Env}

section Observing

theorem observation_refines {s : BufferShard} (hs : s.Settled env) :
    s.observation env = s.buffer.observation := by
  have hcomplete : ∀ p ∈ s.groups.entries,
      (storedOf s.diskStorage p.1 p.2).group.isComplete = p.2.isComplete := fun p hp => by
    obtain ⟨g, hg⟩ := hs.holds p.1 p.2 hp
    rw [storedOf_group hg, hg.isComplete_eq]
  have hcount : ∀ p ∈ s.groups.entries,
      ((storedOf s.diskStorage p.1 p.2).group.trajectories.length : ℤ) = sampleCount p.2 :=
    fun p hp => by
      obtain ⟨g, hg⟩ := hs.holds p.1 p.2 hp
      rw [storedOf_group hg, hg.sampleCount_eq]
  simp only [observation, Buffer.observation, hasReadyGroups, getStatus, getMetaInfo, buffer_groups,
    mapValues_entries, Buffer.ready, List.any_map, List.countP_map, List.length_map, List.map_map,
    List.filter_map, Observation.mk.injEq]
  refine ⟨?_, rfl, rfl, ?_, ?_, trivial, ?_, ?_⟩
  · rw [Bool.eq_iff_iff, List.any_eq_true, List.any_eq_true]
    exact exists_congr fun p => and_congr_right fun hp => by
      rw [Function.comp_apply, hcomplete p hp]
  · exact List.countP_congr fun p hp => by rw [Function.comp_apply, hcomplete p hp]
  · exact List.countP_congr fun p hp => by rw [Function.comp_apply, hcomplete p hp]
  · exact congrArg List.sum (List.map_congr_left fun p hp => (hcount p hp).symm)
  · exact congrArg (List.map Prod.fst) (List.filter_congr fun p hp => (hcomplete p hp).symm)

end Observing

section Limits

def BelowLimit (env : Env) (s : BufferShard) : Prop :=
  s.estimateMemoryUsage env ≤ s.memoryFraction env s.config.spillToDiskThreshold

instance (s : BufferShard) : Decidable (s.BelowLimit env) := inferInstanceAs (Decidable (_ ≤ _))

/-- The memory limit is not reached when the trajectory is written. -/
def WriteRoomy (env : Env) (s : BufferShard) (t : Trajectory) : Prop :=
  (s.writeStart env t).1 = .appended → (s.writeStart env t).2.BelowLimit env

instance (s : BufferShard) (t : Trajectory) : Decidable (s.WriteRoomy env t) :=
  inferInstanceAs (Decidable (_ → _))

def Roomy (env : Env) (s : BufferShard) : Op → Prop
  | .write t => s.WriteRoomy env t
  | .batchWrite ts => Machine.Along (writeStep env) (WriteRoomy env) s ts
  | _ => True

instance (s : BufferShard) : (op : Op) → Decidable (s.Roomy env op)
  | .write t => inferInstanceAs (Decidable (s.WriteRoomy env t))
  | .batchWrite ts => inferInstanceAs (Decidable (Machine.Along (writeStep env) _ s ts))
  | .readReadyGroups _ | .checkGroupTimeouts | .deleteInstance _ | .reset | .updateConfig _ =>
    .isTrue trivial

def InMemory (s : BufferShard) : Prop := ∀ id e, (id, e) ∈ s.groups.entries → e.isOnDisk = false

theorem InMemory.not_dropped {s : BufferShard} (h : s.InMemory) (t : Trajectory) :
    s.drops env t = false := by
  cases he : s.groups.get? t.instanceId with
  | none => simp [drops, he]
  | some e => simp [drops, he, h _ _ (get?_eq_some_iff.mp he)]

theorem InMemory.addTrajectory {s : BufferShard} (h : s.InMemory) (env : Env) (t : Trajectory) :
    (s.addTrajectory env t).2.InMemory := by
  cases he : s.groups.get? t.instanceId with
  | none =>
    rw [addTrajectory_new he]
    intro id e hmem
    rcases (mem_insert _ (get?_eq_none_iff.mp he) _).mp hmem with heq | hold
    · cases heq
      rfl
    · exact h id e hold
  | some e =>
    have hoff := h _ _ (get?_eq_some_iff.mp he)
    have hset : ∀ e', e'.groupPtr ≠ none → ∀ id e'',
        (id, e'') ∈ (s.groups.set t.instanceId e').entries → e''.isOnDisk = false := by
      intro e' hptr id e'' hmem
      rcases mem_set.mp hmem with ⟨-, rfl, -⟩ | ⟨-, hold⟩
      · cases hp : e''.groupPtr with
        | none => exact absurd hp hptr
        | some g => simp [GroupEntry.isOnDisk, hp]
      · exact h id e'' hold
    cases hp : e.groupPtr with
    | some g =>
      rw [addTrajectory_memory he hp]
      exact hset _ (by simp)
    | none =>
      have hzero : e.diskOffset = 0 := by simpa [GroupEntry.isOnDisk, hp] using hoff
      rw [addTrajectory_empty he hp hzero]
      exact hset _ (by simp [newEntry])

theorem BelowLimit.trySpillGroups {s : BufferShard} (h : s.BelowLimit env) :
    s.trySpillGroups env = (.ok 0, s) := by
  have hnone : s.spillSelection env = none := if_pos h
  rw [BufferShard.trySpillGroups, hnone]

theorem InMemory.write {s : BufferShard} (h : s.InMemory) {t : Trajectory}
    (hroomy : s.WriteRoomy env t) : (s.write env t).2.InMemory := by
  have hd : (s.dedup env t.uid).2.InMemory := fun id e hmem =>
    h id e (by rwa [dedup_groups] at hmem)
  have hstart : (s.writeStart env t).2.InMemory :=
    writeStart_keeps hd fun h => h.addTrajectory env t
  rcases write_cases env t s with ⟨-, hwrite⟩ | ⟨happended, hwrite⟩
  · rw [hwrite]
    exact hstart
  · rw [hwrite, (hroomy happended).trySpillGroups]
    exact hstart

theorem InMemory.shrink {s s' : BufferShard} (h : s.InMemory)
    (hsub : ∀ p ∈ s'.groups.entries, p ∈ s.groups.entries) : s'.InMemory :=
  fun id e hmem => h id e (hsub _ hmem)

theorem InMemory.exec (hr : env.Reliable) {s : BufferShard} (h : s.InMemory)
    (hs : s.Settled env) {op : Op} (hroomy : s.Roomy env op) : (s.exec env op).2.InMemory := by
  cases op with
  | write t => exact h.write hroomy
  | batchWrite ts =>
    have hloop := (batchWriteLoop_refines hr hs 0 ts).1
    simp only [BufferShard.exec, batchWrite, hloop, Prod.map]
    exact (Machine.along_of_inv InMemory (P := fun _ _ => True)
      (fun s t h hroomy => ⟨trivial, h.write hroomy⟩) ts h hroomy).2
  | readReadyGroups maxGroups =>
    obtain ⟨loaded, d', hread, -⟩ := readReadyGroups_ok hr hs maxGroups
    simp only [BufferShard.exec, hread, Prod.map]
    refine h.shrink fun p hp => ?_
    have hp' : p ∈ ((s.afterScan maxGroups).groups.eraseAll
        ((s.selected maxGroups).map Prod.fst)).entries := hp
    rw [afterScan_erased] at hp'
    exact ((mem_eraseAll _).mp hp').1
  | checkGroupTimeouts =>
    intro id e hmem
    obtain ⟨p, hp, heq⟩ := List.mem_map.mp hmem
    cases heq
    change (s.expireEntry env p.2).isOnDisk = false
    rw [expireEntry_isOnDisk]
    exact h p.1 p.2 hp
  | deleteInstance id =>
    refine h.shrink fun p hp => ?_
    simp only [BufferShard.exec, deleteInstance_groups] at hp
    exact ((mem_erase _).mp hp).1
  | reset =>
    obtain ⟨d', hreset⟩ := reset_state env s
    simp only [BufferShard.exec, Prod.map, hreset]
    intro id e hmem
    cases hmem
  | updateConfig config => exact h

end Limits

section Transparency

/-- Operations that differ in the memory limits they configure at most. -/
inductive SameUpToLimits : Op → Op → Prop where
  | refl (op : Op) : SameUpToLimits op op
  | updateConfig {config config' : TransferQueueConfig}
      (settings : config.settings = config'.settings) :
      SameUpToLimits (.updateConfig config) (.updateConfig config')

def observed (env : Env) (s : BufferShard) (op : Op) : (Output × Observation) × BufferShard :=
  (((s.exec env op).1, (s.exec env op).2.observation env), (s.exec env op).2)

/-- The operation as the buffer sees it, no write being ignored. -/
def plainInput : Op → Buffer.Input
  | .write t => .write false t
  | .batchWrite ts => .batchWrite (ts.map fun t => (false, t))
  | .readReadyGroups maxGroups => .take maxGroups
  | .checkGroupTimeouts => .expire
  | .deleteInstance id => .delete id
  | .reset => .reset
  | .updateConfig config => .configure config.settings

theorem batchInput_undropped {s : BufferShard} {ts : List Trajectory}
    (h : Machine.Along (writeStep env) (fun s t => s.drops env t = false) s ts) :
    s.batchInput env ts = ts.map fun t => (false, t) := by
  induction ts generalizing s with
  | nil => rfl
  | cons t ts ih =>
    have hinput : s.batchInput env (t :: ts) =
        (s.drops env t, t) :: (s.writeStep env t).2.batchInput env ts := rfl
    rw [hinput, h.1, ih h.2, List.map_cons]

theorem input_undropped {s : BufferShard} {op : Op} (h : s.Undropped env op) :
    s.input env op = plainInput op := by
  cases op with
  | write t => exact congrArg (Buffer.Input.write · t) h
  | batchWrite ts => exact congrArg Buffer.Input.batchWrite (batchInput_undropped h)
  | _ => rfl

theorem plainInput_same {op op' : Op} (h : SameUpToLimits op op') :
    plainInput op = plainInput op' := by
  cases h with
  | refl => rfl
  | updateConfig settings => exact congrArg Buffer.Input.configure settings

theorem InMemory.undropped {s : BufferShard} (h : s.InMemory) {op : Op}
    (hroomy : s.Roomy env op) : s.Undropped env op := by
  cases op with
  | write t => exact h.not_dropped t
  | batchWrite ts =>
    exact (Machine.along_of_inv InMemory
      (fun s t h hroomy => ⟨h.not_dropped t, h.write hroomy⟩) ts h hroomy).1
  | _ => exact trivial

/-- Two shards with one buffer, the second with every group in memory. -/
structure SameBuffer (env : Env) (s t : BufferShard) : Prop where
  left : s.Settled env
  right : t.Settled env
  inMemory : t.InMemory
  buffer : s.buffer = t.buffer

/-- The step of the simulation. -/
theorem SameBuffer.observed (hr : env.Reliable) {s t : BufferShard} (h : SameBuffer env s t)
    {op op' : Op} (hop : SameUpToLimits op op') (hundropped : s.Undropped env op)
    (hroomy : t.Roomy env op') :
    ((s.observed env op).1.1.Agrees (t.observed env op').1.1 ∧
      (s.observed env op).1.2 = (t.observed env op').1.2) ∧
      SameBuffer env (s.observed env op).2 (t.observed env op').2 := by
  obtain ⟨hout, hs, hb⟩ := exec_refines hr h.left op
  obtain ⟨hout', ht, hb'⟩ := exec_refines hr h.right op'
  have hinput : s.input env op = t.input env op' := by
    rw [input_undropped hundropped, input_undropped (h.inMemory.undropped hroomy),
      plainInput_same hop]
  rw [← hinput, ← h.buffer] at hout' hb'
  refine ⟨⟨hout.trans hout'.symm, ?_⟩, hs, ht, h.inMemory.exec hr h.right hroomy,
    hb.trans hb'.symm⟩
  simp only [BufferShard.observed, observation_refines hs, observation_refines ht, hb, hb']

/-- Spilling is observationally invisible. Of two runs of the same operations, one in which
no write is dropped and one that never reaches its memory limit, whatever the limits of the
first, the operations resolve alike, up to the order of the groups within a read, and
status and meta information agree after every step. -/
theorem spilling_invisible (hr : env.Reliable) {config config' : TransferQueueConfig}
    (hsettings : config.settings = config'.settings) (bitCount numHashes : ℕ)
    {ops ops' : List Op} (hops : List.Forall₂ SameUpToLimits ops ops')
    (hundropped : Machine.Along (exec env) (Undropped env)
      (create config bitCount numHashes) ops)
    (hroomy : Machine.Along (exec env) (Roomy env) (create config' bitCount numHashes) ops') :
    List.Forall₂ (fun o o' => o.1.Agrees o'.1 ∧ o.2 = o'.2)
      (Machine.outputs (observed env) (create config bitCount numHashes) ops)
      (Machine.outputs (observed env) (create config' bitCount numHashes) ops') := by
  have hstart : SameBuffer env (create config bitCount numHashes)
      (create config' bitCount numHashes) :=
    ⟨.create .., .create .., (fun _ _ h => nomatch h),
      Buffer.ext hsettings rfl rfl rfl rfl rfl⟩
  have hstates : ∀ s op, (observed env s op).2 = (exec env s op).2 := fun _ _ => rfl
  exact (Machine.simulation (observed env) (observed env) (SameBuffer env) SameUpToLimits _
    (fun s t a b h hop hundropped hroomy => h.observed hr hop hundropped hroomy)
    hops hstart ((Machine.along_congr hstates).mpr hundropped)
    ((Machine.along_congr hstates).mpr hroomy)).1

/-- Two groups, spilled in the first run and kept in memory in the second, are read in
two limited reads. -/
theorem spilling_invisible_tight :
    let ops : List Op := [.write (.bare "u" "a"), .write (.bare "v" "b"), .readReadyGroups 1,
      .readReadyGroups 1]
    List.Forall₂ (fun o o' => o.1.Agrees o'.1 ∧ o.2 = o'.2)
      (Machine.outputs (observed (.sample [])) (create (.tight 1) 0 0) ops)
      (Machine.outputs (observed (.sample []))
        (create { groupSize := 1, uidDedup := false } 0 0) ops) := by
  intro ops
  have hundropped : Machine.Along (exec (.sample [])) (Undropped (.sample []))
      (create (.tight 1) 0 0) ops := by decide +kernel
  have hroomy : Machine.Along (exec (.sample [])) (Roomy (.sample []))
      (create { groupSize := 1, uidDedup := false } 0 0) ops := by decide +kernel
  have hsettings : (TransferQueueConfig.tight 1).settings =
      TransferQueueConfig.settings { groupSize := 1, uidDedup := false } := rfl
  exact spilling_invisible Env.sample_reliable hsettings 0 0
    (List.forall₂_same.mpr fun op _ => .refl op) hundropped hroomy

end Transparency

end BufferShard
end TransferQueue
