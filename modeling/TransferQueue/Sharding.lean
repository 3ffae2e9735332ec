import TransferQueue.Gluing
import TransferQueue.SpillTransparency

/-! Sharding is invisible. As long as no shard spills, each refines its buffer whatever the
disk does, and the buffers of the shards are the pieces of the buffer of a single
shard that answers the same requests. -/

namespace TransferQueue
open UnorderedMap

namespace BufferShard

/-- A shard that holds every group in memory. -/
structure Plain (env : Env) (s : BufferShard) : Prop where
  settled : s.Settled env.repaired
  inMemory : s.InMemory

namespace Plain

variable {env : Env} {s : BufferShard}

theorem create (config : TransferQueueConfig) (bitCount numHashes : ℕ) :
    (BufferShard.create config bitCount numHashes).Plain env :=
  ⟨.create .., fun _ _ h => nomatch h⟩

theorem repaired_reliable (env : Env) : env.repaired.Reliable := fun _ => rfl

theorem write_repaired {t : Trajectory} (hroomy : s.WriteRoomy env t) :
    s.write env t = s.write env.repaired t := by
  have hstart : s.writeStart env.repaired t = s.writeStart env t := rfl
  rw [WriteRoomy] at hroomy
  rw [BufferShard.write, BufferShard.write, hstart]
  rcases hw : s.writeStart env t with ⟨started, s'⟩
  rw [hw] at hroomy
  cases started with
  | appended =>
    have hbelow : s'.BelowLimit env.repaired := hroomy rfl
    simp only [(hroomy rfl).trySpillGroups, hbelow.trySpillGroups]
  | _ => rfl

theorem write (h : s.Plain env) {t : Trajectory} (hroomy : s.WriteRoomy env t) :
    (s.write env t).1 = .ok (s.buffer.write env false t).1 ∧ (s.write env t).2.Plain env ∧
      (s.write env t).2.buffer = (s.buffer.write env false t).2 := by
  obtain ⟨hok, hsettled, hbuffer⟩ := write_buffer (repaired_reliable env) h.settled t
  rw [h.inMemory.not_dropped t, ← write_repaired hroomy] at hok hbuffer
  rw [← write_repaired hroomy] at hsettled
  exact ⟨hok, ⟨hsettled, h.inMemory.write hroomy⟩, hbuffer⟩

theorem batchWriteLoop (h : s.Plain env) (written : ℕ) {ts : List Trajectory}
    (hroomy : Machine.Along (writeStep env) (WriteRoomy env) s ts) :
    ∃ s', batchWriteLoop env written ts s = (.ok (written + (Machine.outputs
        (Buffer.writeStep env) s.buffer (ts.map fun t => (false, t))).count true), s') ∧
      s'.Plain env ∧
      s'.buffer = Machine.final (Buffer.writeStep env) s.buffer (ts.map fun t => (false, t)) := by
  induction ts generalizing s written with
  | nil => exact ⟨s, rfl, h, rfl⟩
  | cons t ts ih =>
    obtain ⟨hok, hplain, hbuffer⟩ := h.write hroomy.1
    have hrest := hroomy.2
    rw [writeStep] at hrest
    rw [List.map_cons, Machine.outputs, Machine.final_cons, Buffer.writeStep, ← hbuffer,
      BufferShard.batchWriteLoop]
    rcases hw : s.write env t with ⟨r, s₁⟩
    rw [hw] at hok hplain hrest
    simp only at hok hplain hrest
    subst hok
    cases hb : (s.buffer.write env false t).1 with
    | true =>
      obtain ⟨s', hloop, hs', hfinal⟩ := ih hplain (written + 1) hrest
      refine ⟨s', ?_, hs', hfinal⟩
      simp only [hloop, List.count_cons_self]
      congr 2
      omega
    | false =>
      obtain ⟨s', hloop, hs', hfinal⟩ := ih hplain written hrest
      refine ⟨s', ?_, hs', hfinal⟩
      simp only [hloop, List.count_cons_of_ne Bool.false_ne_true]

theorem no_files (h : s.Plain env) (maxGroups : Int32) : filesOf (s.selected maxGroups) = [] := by
  refine List.map_eq_nil_iff.mpr (List.filter_eq_nil_iff.mpr fun p hp => ?_)
  rw [h.inMemory p.1 p.2 (mem_of_selected hp).1]
  exact Bool.false_ne_true

theorem read (h : s.Plain env) (maxGroups : Int32) :
    ∃ result s', s.readReadyGroups env maxGroups = (.ok result, s') ∧ s'.Plain env ∧
      result.Perm (s.buffer.take maxGroups).1 ∧ s'.buffer = (s.buffer.take maxGroups).2 := by
  have hsame : s.readReadyGroups env maxGroups = s.readReadyGroups env.repaired maxGroups := by
    rw [readReadyGroups, readReadyGroups, readScan_eq]
    split
    · rfl
    · rename_i hscan
      split at hscan
      · obtain ⟨rfl, rfl⟩ := Prod.mk.inj (Option.some.inj hscan)
        have hfiles : (s.scanOf maxGroups).offsetsToLoad = [] := h.no_files maxGroups
        simp only [hfiles]
        rfl
      · cases hscan
  obtain ⟨result, s', hread, hs', -, hperm, hbuffer⟩ :=
    readReadyGroups_refines (repaired_reliable env) h.settled maxGroups
  refine ⟨result, s', hsame.trans hread, ⟨hs', ?_⟩, hperm, hbuffer⟩
  have hinMemory : (s.exec env.repaired (.readReadyGroups maxGroups)).2.InMemory :=
    InMemory.exec (repaired_reliable env) h.inMemory h.settled trivial
  rwa [exec, hread] at hinMemory

theorem deleteInstance (h : s.Plain env) (id : String) :
    (s.deleteInstance env id).Plain env ∧
      (s.deleteInstance env id).buffer = s.buffer.delete id := by
  have hsame : s.deleteInstance env id = s.deleteInstance env.repaired id := by
    rw [BufferShard.deleteInstance, BufferShard.deleteInstance, deleteEntry]
    cases he : s.groups.get? id with
    | none => rfl
    | some e =>
      simp only [h.inMemory id e (get?_eq_some_iff.mp he), Bool.false_eq_true, if_false]
  obtain ⟨hs', -, hbuffer⟩ := deleteInstance_refines (repaired_reliable env) h.settled id
  have hinMemory : (s.exec env.repaired (.deleteInstance id)).2.InMemory :=
    InMemory.exec (repaired_reliable env) h.inMemory h.settled trivial
  rw [← hsame] at hs' hbuffer
  exact ⟨⟨hs', by rwa [exec, ← hsame] at hinMemory⟩, hbuffer⟩

theorem reset (h : s.Plain env) :
    ∃ s', s.reset env = (.ok (), s') ∧ s'.Plain env ∧ s'.buffer = s.buffer.reset := by
  have hoffsets : s.diskOffsets = [] := by
    refine List.map_eq_nil_iff.mpr (List.filter_eq_nil_iff.mpr fun p hp => ?_)
    rw [h.inMemory p.1 p.2 hp]
    exact Bool.false_ne_true
  have hsame : s.reset env = s.reset env.repaired := by
    rw [BufferShard.reset, BufferShard.reset, hoffsets]
    rfl
  obtain ⟨s', hreset, hs', -, hbuffer⟩ := reset_refines (repaired_reliable env) h.settled
  have hinMemory : (s.exec env.repaired .reset).2.InMemory :=
    InMemory.exec (repaired_reliable env) h.inMemory h.settled trivial
  rw [exec, hreset] at hinMemory
  have hanswer : s.resetAnswer = .ok () := by simp [resetAnswer, hoffsets]
  exact ⟨s', hsame.trans (hanswer ▸ hreset), ⟨hs', hinMemory⟩, hbuffer⟩

theorem observes (h : s.Plain env) :
    s.hasReadyGroups = (s.buffer.stored.any fun p => p.2.isComplete) ∧
      (s.groups.entries.countP fun p => p.2.isComplete) =
        s.buffer.stored.countP (fun p => p.2.isComplete) ∧
      (s.groups.entries.countP fun p => !p.2.isComplete) =
        s.buffer.stored.countP fun p => !p.2.isComplete := by
  have hsame := observation_refines h.settled
  simp only [Buffer.stored, List.any_map, List.countP_map]
  exact ⟨congrArg Observation.hasReadyGroups hsame, congrArg Observation.pendingGroups hsame,
    congrArg Observation.incompleteGroups hsame⟩

theorem memoryUsage (h : s.Plain env) (hoff : s.config.uidDedup = false) :
    s.estimateMemoryUsage env = sizeT (s.buffer.stored.map fun p => env.byteSizeLong p.2).sum := by
  rw [estimateMemoryUsage_eq, memoryTotal, filterBytes, hoff, if_neg Bool.false_ne_true,
    Nat.add_zero, UnorderedMap.sum, Buffer.stored, buffer_groups, mapValues_entries, List.map_map,
    List.map_map]
  refine congrArg (fun bytes => sizeT bytes.sum) (List.map_congr_left fun p hp => ?_)
  obtain ⟨g, hg⟩ := h.settled.holds p.1 p.2 hp
  have hstored : storedOf s.diskStorage p.1 p.2 = ⟨g, p.2.createdTime⟩ := storedOf_group hg
  cases hg with
  | disk ptr offset =>
    have hon : p.2.isOnDisk = true := GroupEntry.isOnDisk_iff.mpr ⟨offset, ptr⟩
    exact absurd hon (by rw [h.inMemory p.1 p.2 hp]; exact Bool.false_ne_true)
  | memory ptr noFile => simp [memoryBytes, ptr, hstored]

end Plain
end BufferShard

/-- The fields of two statuses that agree: all but the bytes on disk. -/
structure BufferShard.BufferStatus.Agrees (status status' : BufferShard.BufferStatus) : Prop where
  totalTrajectories : status.totalTrajectories = status'.totalTrajectories
  totalConsumed : status.totalConsumed = status'.totalConsumed
  pendingGroups : status.pendingGroups = status'.pendingGroups
  incompleteGroups : status.incompleteGroups = status'.incompleteGroups
  memoryUsageBytes : status.memoryUsageBytes = status'.memoryUsageBytes

/-- Successful responses that are the same, up to the order of the groups of a read, of
which no two are of one instance. -/
inductive Response.Agrees : Response → Response → Prop where
  | written (b : Bool) : Agrees (.written (.ok b)) (.written (.ok b))
  | counted (n : ℕ) : Agrees (.counted (.ok n)) (.counted (.ok n))
  | groups {xs ys : List TrajectoryGroup} (perm : xs.Perm ys)
      (distinct : (xs.map TrajectoryGroup.instanceId).Nodup) :
      Agrees (.groups (.ok xs)) (.groups (.ok ys))
  | ready (b : Bool) : Agrees (.ready b) (.ready b)
  | done : Agrees (.done (.ok ())) (.done (.ok ()))
  | status {status status' : BufferShard.BufferStatus} (same : status.Agrees status') :
      Agrees (.status status) (.status status')

/-- No write of the request brings the shard over the threshold for spilling. -/
def BufferShard.RoomyFor (env : Env) (s : BufferShard) : Request → Prop
  | .write t => s.WriteRoomy env t
  | .batchWrite ts => Machine.Along (writeStep env) (WriteRoomy env) s ts
  | _ => True

instance (env : Env) (s : BufferShard) : (request : Request) → Decidable (s.RoomyFor env request)
  | .write t => inferInstanceAs (Decidable (s.WriteRoomy env t))
  | .batchWrite ts =>
    inferInstanceAs (Decidable (Machine.Along (BufferShard.writeStep env) _ s ts))
  | .readReadyGroups _ | .hasReadyGroups | .deleteInstance _ | .reset | .getStatus =>
    .isTrue trivial

namespace BufferManager

variable {k : ℕ} [NeZero k]

/-- The same for the shards that the request is routed to. -/
def RoomyFor (env : Fin k → Env) (stdHash : String → ℕ) (m : BufferManager k) : Request → Prop
  | .write t =>
    (m.shards (shardFor stdHash t.instanceId)).WriteRoomy (env (shardFor stdHash t.instanceId)) t
  | .batchWrite ts => ∀ i, Machine.Along (BufferShard.writeStep (env i))
      (BufferShard.WriteRoomy (env i)) (m.shards i) (batchFor stdHash ts i)
  | _ => True

instance (env : Fin k → Env) (stdHash : String → ℕ) (m : BufferManager k) :
    (request : Request) → Decidable (m.RoomyFor env stdHash request)
  | .write t =>
    inferInstanceAs (Decidable (BufferShard.WriteRoomy (env (shardFor stdHash t.instanceId)) _ t))
  | .batchWrite ts => inferInstanceAs (Decidable (∀ i, Machine.Along
      (BufferShard.writeStep (env i)) _ (m.shards i) (batchFor stdHash ts i)))
  | .readReadyGroups _ | .hasReadyGroups | .deleteInstance _ | .reset | .getStatus =>
    .isTrue trivial

/-- Shards whose buffers are the pieces of the buffer of the shard `s`. -/
structure Shares (env : Fin k → Env) (env₀ : Env) (stdHash : String → ℕ) (m : BufferManager k)
    (s : BufferShard) : Prop where
  pieces : ∀ i, (m.shards i).Plain (env i)
  whole : s.Plain env₀
  glued : Glued (shardFor stdHash) (fun i => (m.shards i).buffer) s.buffer
  dedupOff : s.buffer.settings.uidDedup = false
  sound : s.buffer.Sound

section Status
variable {env : Fin k → Env} {env₀ : Env} {stdHash : String → ℕ} {m : BufferManager k}
  {s : BufferShard}

omit [NeZero k] in
theorem foldl_addStatus (env : Fin k → Env) (m : BufferManager k) (cores : List (Fin k))
    (acc : BufferShard.BufferStatus) :
    let total := cores.foldl (fun acc i => addStatus acc ((m.shards i).getStatus (env i))) acc
    total.totalTrajectories =
        acc.totalTrajectories + (cores.map fun i => (m.shards i).totalTrajectories).sum ∧
      total.totalConsumed =
        acc.totalConsumed + (cores.map fun i => (m.shards i).totalConsumed).sum ∧
      total.pendingGroups = acc.pendingGroups + (cores.map fun i =>
        (m.shards i).groups.entries.countP fun p => p.2.isComplete).sum ∧
      total.incompleteGroups = acc.incompleteGroups + (cores.map fun i =>
        (m.shards i).groups.entries.countP fun p => !p.2.isComplete).sum ∧
      total.memoryUsageBytes = acc.memoryUsageBytes + Int64.ofNat (cores.map fun i =>
        (m.shards i).estimateMemoryUsage (env i)).sum := by
  induction cores generalizing acc with
  | nil => simp
  | cons i cores ih =>
    obtain ⟨htotal, hconsumed, hpending, hincomplete, hmemory⟩ :=
      ih (addStatus acc ((m.shards i).getStatus (env i)))
    simp only [List.map_cons, List.sum_cons, Int64.ofNat_add]
    exact ⟨htotal.trans (Int.add_assoc ..), hconsumed.trans (Int.add_assoc ..),
      hpending.trans (Nat.add_assoc ..), hincomplete.trans (Nat.add_assoc ..),
      hmemory.trans (Int64.add_assoc ..)⟩

theorem ofNat_sum_sizeT {α : Type*} (f : α → ℕ) (l : List α) :
    Int64.ofNat (l.map fun a => sizeT (f a)).sum = Int64.ofNat (l.map f).sum := by
  have hone : ∀ n, Int64.ofNat (sizeT n) = Int64.ofNat n := fun n => by
    rw [← Int64.ofBitVec_ofNat, ← Int64.ofBitVec_ofNat, sizeT]
    congr 1
    exact BitVec.eq_of_toNat_eq (by simp)
  induction l with
  | nil => rfl
  | cons a l ih => simp only [List.map_cons, List.sum_cons, Int64.ofNat_add, ih, hone]

theorem Shares.status (h : m.Shares env env₀ stdHash s)
    (hsizes : ∀ i, (env i).byteSizeLong = env₀.byteSizeLong) :
    (m.getStatus env).Agrees (s.getStatus env₀) := by
  have hperm := h.glued.stored_perm
  obtain ⟨htotal, hconsumed, hpending, hincomplete, hmemory⟩ :=
    foldl_addStatus env m (List.finRange k) ⟨0, 0, 0, 0, 0, 0⟩
  obtain ⟨-, hpending₀, hincomplete₀⟩ := h.whole.observes
  have hoff : ∀ i, (m.shards i).config.uidDedup = false := fun i =>
    (congrArg Settings.uidDedup (h.glued.settings i)).trans h.dedupOff
  refine ⟨htotal.trans ?_, hconsumed.trans ?_, hpending.trans ?_, hincomplete.trans ?_,
    hmemory.trans ?_⟩
  · rw [← Fin.sum_univ_def, zero_add]
    exact h.glued.trajectories
  · rw [← Fin.sum_univ_def, zero_add]
    exact h.glued.consumed
  · rw [Nat.zero_add, BufferShard.getStatus, hpending₀, ← hperm.countP_eq, List.countP_flatMap]
    exact congrArg List.sum (List.map_congr_left fun i _ => (h.pieces i).observes.2.1)
  · rw [Nat.zero_add, BufferShard.getStatus, hincomplete₀, ← hperm.countP_eq, List.countP_flatMap]
    exact congrArg List.sum (List.map_congr_left fun i _ => (h.pieces i).observes.2.2)
  · have hpieces := fun i => (h.pieces i).memoryUsage (hoff i)
    simp only [hpieces, hsizes, Int64.zero_add, BufferShard.getStatus,
      h.whole.memoryUsage h.dedupOff]
    rw [ofNat_sum_sizeT, ← Fin.sum_univ_def,
      h.glued.sum_stored fun p => env₀.byteSizeLong p.2]
    simpa using (ofNat_sum_sizeT (fun _ : Unit =>
      (s.buffer.stored.map fun p => env₀.byteSizeLong p.2).sum) [()]).symm

theorem Shares.ready (h : m.Shares env env₀ stdHash s) :
    m.hasReadyGroups = s.hasReadyGroups := by
  have hpieces := fun i => (h.pieces i).observes.1
  rw [hasReadyGroups, foldl_or, Bool.false_or, h.whole.observes.1,
    ← h.glued.stored_perm.any_eq, List.any_flatMap]
  simp only [hpieces]

end Status

section Simulation
variable {env : Fin k → Env} {env₀ : Env} {stdHash : String → ℕ} {m : BufferManager k}
  {s : BufferShard}

theorem Shares.updated (h : m.Shares env env₀ stdHash s) {i : Fin k} {piece s' : BufferShard}
    (hpiece : piece.Plain (env i)) (hwhole : s'.Plain env₀)
    (hglued : Glued (shardFor stdHash)
      (Function.update (fun i => (m.shards i).buffer) i piece.buffer) s'.buffer)
    (hsettings : s'.buffer.settings = s.buffer.settings) (hsound : s'.buffer.Sound) :
    Shares env env₀ stdHash { m with shards := Function.update m.shards i piece } s' where
  pieces j := by
    change (Function.update m.shards i piece j).Plain (env j)
    by_cases hj : j = i
    · subst hj
      rwa [Function.update_self]
    · rw [Function.update_of_ne hj]
      exact h.pieces j
  whole := hwhole
  glued := by
    convert hglued using 1
    exact Function.comp_update BufferShard.buffer m.shards i piece
  dedupOff := (congrArg Settings.uidDedup hsettings).trans h.dedupOff
  sound := hsound

theorem Shares.piece_dedupOff (h : m.Shares env env₀ stdHash s) (i : Fin k) :
    (m.shards i).buffer.settings.uidDedup = false :=
  (congrArg Settings.uidDedup (h.glued.settings i)).trans h.dedupOff

theorem Shares.write (h : m.Shares env env₀ stdHash s) {t : Trajectory}
    (hroomy : m.RoomyFor env stdHash (.write t)) (hroomy₀ : s.WriteRoomy env₀ t) :
    (m.write env stdHash t).1 = .ok true ∧ (s.write env₀ t).1 = .ok true ∧
      Shares env env₀ stdHash (m.write env stdHash t).2 (s.write env₀ t).2 := by
  obtain ⟨hok, hplain, hbuffer⟩ := (h.pieces _).write hroomy
  obtain ⟨hok₀, hplain₀, hbuffer₀⟩ := h.whole.write hroomy₀
  obtain ⟨htrue, -⟩ := Buffer.write_group (env (shardFor stdHash t.instanceId))
    (h.piece_dedupOff _) t
  obtain ⟨htrue₀, -, hsettings, -⟩ := Buffer.write_group env₀ h.dedupOff t
  have hglued := h.glued.write env₀ env h.dedupOff t
  rw [← hbuffer, ← hbuffer₀] at hglued
  rw [← hbuffer₀] at hsettings
  exact ⟨hok.trans (congrArg _ htrue), hok₀.trans (congrArg _ htrue₀),
    h.updated hplain hplain₀ hglued hsettings (hbuffer₀ ▸ h.sound.write false t)⟩

theorem outputs_dedupOff (env : Env) {b : Buffer} (hoff : b.settings.uidDedup = false)
    (ts : List Trajectory) :
    (Machine.outputs (Buffer.writeStep env) b (ts.map fun t => (false, t))).count true =
        ts.length ∧
      (Machine.final (Buffer.writeStep env) b (ts.map fun t => (false, t))).settings =
        b.settings := by
  induction ts generalizing b with
  | nil => exact ⟨rfl, rfl⟩
  | cons t ts ih =>
    obtain ⟨htrue, -, hsettings, -⟩ := Buffer.write_group env hoff t
    obtain ⟨hcount, hrest⟩ := ih (b := (b.write env false t).2) (by rw [hsettings, hoff])
    rw [List.map_cons, Machine.outputs, Machine.final_cons, Buffer.writeStep, htrue,
      List.count_cons_self, hcount, hrest, hsettings]
    exact ⟨rfl, rfl⟩

theorem Shares.batchWrite (h : m.Shares env env₀ stdHash s) {ts : List Trajectory}
    (hroomy : m.RoomyFor env stdHash (.batchWrite ts))
    (hroomy₀ : s.RoomyFor env₀ (.batchWrite ts)) :
    (m.batchWrite env stdHash ts).1 = .ok ts.length ∧ (s.batchWrite env₀ ts).1 = .ok ts.length ∧
      Shares env env₀ stdHash (m.batchWrite env stdHash ts).2 (s.batchWrite env₀ ts).2 := by
  choose shards hloop hplain hbuffer using fun i => (h.pieces i).batchWriteLoop 0 (hroomy i)
  obtain ⟨s', hloop₀, hplain₀, hbuffer₀⟩ := h.whole.batchWriteLoop 0 hroomy₀
  have hcount := fun i => (outputs_dedupOff (env i) (h.piece_dedupOff i)
    (batchFor stdHash ts i)).1
  obtain ⟨hcount₀, hsettings⟩ := outputs_dedupOff env₀ h.dedupOff ts
  have hbatch : ∀ i, (m.shards i).batchWrite (env i) (batchFor stdHash ts i) =
      (.ok (batchFor stdHash ts i).length, shards i) := fun i => by
    rw [BufferShard.batchWrite, hloop, hcount, Nat.zero_add]
  have hbatch₀ : s.batchWrite env₀ ts = (.ok ts.length, s') := by
    rw [BufferShard.batchWrite, hloop₀, hcount₀, Nat.zero_add]
  have hmap := Sharded.map_ok
    (f := fun i shard => BufferShard.batchWrite (env i) (batchFor stdHash ts i) shard)
    (s := m.shards) fun i => congrArg Prod.fst (hbatch i)
  have hshards : (m.batchWrite env stdHash ts).2.shards = shards := by
    rw [batchWrite_eq]
    exact funext fun i => congrArg Prod.snd (hbatch i)
  have hlength : ((List.finRange k).map fun i => (batchFor stdHash ts i).length).sum =
      ts.length := by
    rw [← Fin.sum_univ_def]
    exact Sharded.sum_length_filter _ ts
  refine ⟨?_, by rw [hbatch₀], ?_⟩
  · rw [batchWrite_eq, hmap, ← hlength]
    rfl
  · rw [hbatch₀]
    have hglued := h.glued.batch env₀ env h.dedupOff ts
    rw [← hbuffer₀] at hglued hsettings
    refine ⟨fun i => hshards ▸ hplain i, hplain₀, ?_,
      (congrArg Settings.uidDedup hsettings).trans h.dedupOff, ?_⟩
    · rw [hshards]
      convert hglued using 2 with i
      exact hbuffer i
    · rw [hbuffer₀]
      exact Machine.final_inv Buffer.Sound (fun _ p hb => hb.write p.1 p.2) _ h.sound

theorem Shares.read (h : m.Shares env env₀ stdHash s) {maxGroups : Int32}
    (hunlimited : ¬0 < maxGroups) :
    (Response.groups (m.readReadyGroups env maxGroups).1).Agrees
        (.groups (s.readReadyGroups env₀ maxGroups).1) ∧
      Shares env env₀ stdHash (m.readReadyGroups env maxGroups).2
        (s.readReadyGroups env₀ maxGroups).2 := by
  choose result shards hread hplain hperm hbuffer using fun i => (h.pieces i).read maxGroups
  obtain ⟨result₀, s', hread₀, hplain₀, hperm₀, hbuffer₀⟩ := h.whole.read maxGroups
  have hmap := Sharded.map_ok
    (f := fun i shard => BufferShard.readReadyGroups (env i) maxGroups shard) (s := m.shards)
    (fun i => congrArg Prod.fst (hread i))
  have hshards : (m.readReadyGroups env maxGroups).2.shards = shards := funext fun i =>
    congrArg Prod.snd (hread i)
  have hready : ∀ b : Buffer, (b.take maxGroups).1 =
      (b.stored.filter fun p => p.2.isComplete).map Prod.snd := fun b => b.take_result hunlimited
  have hall : ((List.finRange k).flatMap result).Perm result₀ := by
    refine (List.Perm.flatMap_left _ fun i _ => hperm i).trans (.trans ?_ hperm₀.symm)
    simp only [hready]
    rw [← List.map_flatMap, ← List.filter_flatMap]
    exact (h.glued.stored_perm.filter _).map _
  have hids : (result₀.map TrajectoryGroup.instanceId).Nodup := by
    have htaken : ((s.buffer.take maxGroups).1.map TrajectoryGroup.instanceId) =
        (s.buffer.selected maxGroups).map Prod.fst := by
      rw [Buffer.take, List.map_map]
      refine List.map_congr_left fun p hp => ?_
      exact (h.sound p.1 p.2 (List.filter_sublist.subset
        ((BufferShard.limitTo_sublist _ _ _).subset hp))).1
    rw [(hperm₀.map _).nodup_iff, htaken]
    exact s.buffer.groups.nodup.sublist
      (((BufferShard.limitTo_sublist _ _ _).trans List.filter_sublist).map Prod.fst)
  refine ⟨?_, ?_⟩
  · simp only [BufferManager.readReadyGroups, hmap, hread₀, Except.map, truncate, hunlimited,
      false_and, if_false]
    exact .groups hall (((hall.map _).nodup_iff).mpr hids)
  · have hglued := h.glued.take hunlimited
    rw [← hbuffer₀] at hglued
    rw [hread₀]
    refine ⟨fun i => hshards ▸ hplain i, hplain₀, ?_, ?_, hbuffer₀ ▸ h.sound.take maxGroups⟩
    · rw [hshards]
      convert hglued using 2 with i
      exact hbuffer i
    · exact (congrArg (fun b => b.settings.uidDedup) hbuffer₀).trans h.dedupOff

theorem Shares.delete (h : m.Shares env env₀ stdHash s) (id : String) :
    Shares env env₀ stdHash (m.deleteInstance env stdHash id) (s.deleteInstance env₀ id) := by
  obtain ⟨hplain, hbuffer⟩ := (h.pieces (shardFor stdHash id)).deleteInstance id
  obtain ⟨hplain₀, hbuffer₀⟩ := h.whole.deleteInstance id
  have hglued := h.glued.delete id
  rw [← hbuffer, ← hbuffer₀] at hglued
  refine h.updated hplain hplain₀ hglued ?_ (hbuffer₀ ▸ h.sound.delete id)
  rw [hbuffer₀]
  rfl

theorem Shares.reset (h : m.Shares env env₀ stdHash s) :
    (m.reset env).1 = .ok () ∧ (s.reset env₀).1 = .ok () ∧
      Shares env env₀ stdHash (m.reset env).2 (s.reset env₀).2 := by
  choose shards hreset hplain hbuffer using fun i => (h.pieces i).reset
  obtain ⟨s', hreset₀, hplain₀, hbuffer₀⟩ := h.whole.reset
  have hmap := Sharded.map_ok (f := fun i shard => BufferShard.reset (env i) shard)
    (s := m.shards) (fun i => congrArg Prod.fst (hreset i))
  have hshards : (m.reset env).2.shards = shards := funext fun i => congrArg Prod.snd (hreset i)
  refine ⟨?_, by rw [hreset₀], ?_⟩
  · rw [BufferManager.reset, hmap]
    rfl
  · have hglued := h.glued.reset
    rw [← hbuffer₀] at hglued
    rw [hreset₀]
    refine ⟨fun i => hshards ▸ hplain i, hplain₀, ?_, ?_, hbuffer₀ ▸ Buffer.Sound.reset _⟩
    · rw [hshards]
      convert hglued using 2 with i
      exact hbuffer i
    · exact (congrArg (fun b => b.settings.uidDedup) hbuffer₀).trans h.dedupOff

/-- One request. -/
theorem Shares.respond (h : m.Shares env env₀ stdHash s)
    (hsizes : ∀ i, (env i).byteSizeLong = env₀.byteSizeLong) {request : Request}
    (hunlimited : ∀ n, request = .readReadyGroups n → ¬0 < n)
    (hroomy : m.RoomyFor env stdHash request) (hroomy₀ : s.RoomyFor env₀ request) :
    (m.respond env stdHash request).1.Agrees (s.respond env₀ request).1 ∧
      Shares env env₀ stdHash (m.respond env stdHash request).2 (s.respond env₀ request).2 := by
  cases request with
  | write t =>
    obtain ⟨hok, hok₀, hshares⟩ := h.write hroomy hroomy₀
    refine ⟨?_, hshares⟩
    simp only [BufferManager.respond, BufferShard.respond, Prod.map, hok, hok₀]
    exact .written true
  | batchWrite ts =>
    obtain ⟨hok, hok₀, hshares⟩ := h.batchWrite hroomy hroomy₀
    refine ⟨?_, hshares⟩
    simp only [BufferManager.respond, BufferShard.respond, Prod.map, hok, hok₀]
    exact .counted _
  | readReadyGroups maxGroups => exact h.read (hunlimited maxGroups rfl)
  | hasReadyGroups =>
    refine ⟨?_, h⟩
    simp only [BufferManager.respond, BufferShard.respond, h.ready]
    exact .ready _
  | deleteInstance id => exact ⟨.done, h.delete id⟩
  | reset =>
    obtain ⟨hok, hok₀, hshares⟩ := h.reset
    refine ⟨?_, hshares⟩
    simp only [BufferManager.respond, BufferShard.respond, Prod.map, hok, hok₀]
    exact .done
  | getStatus => exact ⟨.status (h.status hsizes), h⟩

/-- Whatever the number of shards and the hash, the buffer over all cores and one shard
answer a sequence of requests alike while none of them gets over the threshold for
spilling, without a dedup check and with unlimited reads. -/
theorem sharding_invisible (env : Fin k → Env) (env₀ : Env)
    (hsizes : ∀ i, (env i).byteSizeLong = env₀.byteSizeLong) (stdHash : String → ℕ)
    {config : TransferQueueConfig} (hoff : config.uidDedup = false) (bitCount numHashes : ℕ)
    {requests : List Request} (hunlimited : ∀ n, .readReadyGroups n ∈ requests → ¬0 < n)
    (hroomy : Machine.Along (BufferManager.respond env stdHash) (RoomyFor env stdHash)
      (start k config bitCount numHashes) requests)
    (hroomy₀ : Machine.Along (BufferShard.respond env₀) (BufferShard.RoomyFor env₀)
      (.create config bitCount numHashes) requests) :
    List.Forall₂ Response.Agrees
      (Machine.outputs (BufferManager.respond env stdHash) (start k config bitCount numHashes)
        requests)
      (Machine.outputs (BufferShard.respond env₀) (.create config bitCount numHashes)
        requests) := by
  have hstart : Shares env env₀ stdHash (start k config bitCount numHashes)
      (.create config bitCount numHashes) :=
    ⟨fun _ => .create .., .create .., ⟨fun _ => rfl, fun i id => by split <;> rfl,
      Finset.sum_const_zero, Finset.sum_const_zero⟩, hoff, fun _ _ hmem => nomatch hmem⟩
  have hunlimited' : ∀ request ∈ requests, ∀ n, request = .readReadyGroups n → ¬0 < n :=
    fun request hmem n heq => hunlimited n (heq ▸ hmem)
  exact (Machine.simulation (BufferManager.respond env stdHash) (BufferShard.respond env₀)
    (Shares env env₀ stdHash) Eq Response.Agrees
    (P := fun m request => (∀ n, request = .readReadyGroups n → ¬0 < n) ∧
      m.RoomyFor env stdHash request)
    (fun m s _ _ h heq hP hQ => heq ▸ h.respond hsizes hP.1 hP.2 (heq ▸ hQ))
    (List.forall₂_same.mpr fun _ _ => rfl) hstart
    ((Machine.along_of_mem hunlimited' _).and hroomy) hroomy₀).1

/-- Three instances on two shards. -/
theorem sharding_invisible_two :
    let config : TransferQueueConfig := { groupSize := 1, uidDedup := false }
    let requests : List Request := [.write (.bare "u" "a"), .batchWrite [.bare "v" "bb",
      .bare "w" "a", .bare "x" "c"], .getStatus, .deleteInstance "c", .hasReadyGroups,
      .readReadyGroups 0, .getStatus, .reset]
    List.Forall₂ Response.Agrees
      (Machine.outputs (BufferManager.respond (fun _ => .sample []) String.length)
        (start 2 config 0 0) requests)
      (Machine.outputs (BufferShard.respond (.sample [])) (.create config 0 0) requests) := by
  intro config requests
  have hroomy : Machine.Along (BufferManager.respond (fun _ => .sample []) String.length)
      (RoomyFor (fun _ => .sample []) String.length) (start 2 config 0 0) requests := by
    decide +kernel
  have hroomy₀ : Machine.Along (BufferShard.respond (.sample []))
      (BufferShard.RoomyFor (.sample [])) (.create config 0 0) requests := by
    decide +kernel
  have hunlimited : ∀ n, .readReadyGroups n ∈ requests → ¬0 < n := by
    intro n hmem
    obtain rfl : n = 0 := by simpa [requests] using hmem
    decide
  exact sharding_invisible _ _ (fun _ => rfl) _ rfl 0 0 hunlimited hroomy hroomy₀

end Simulation

end BufferManager
end TransferQueue
