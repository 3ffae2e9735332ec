import TransferQueue.Library.Ledger
import TransferQueue.ShardRuns

/-! What enters and leaves the instances of a shard over a sequential run. Each
operation of the buffer replays its moves on the contents, so the ledger of a run
balances: an instance has given away, group by group and in the order of the
writes, all that it does not hold any more. -/

namespace TransferQueue
open UnorderedMap Ledger

namespace Buffer

variable {env : Env}

theorem dedup_content (env : Env) (uid : String) (b : Buffer) :
    (b.dedup env uid).2.content = b.content :=
  funext fun _ => content_congr (by rw [dedup_groups])

@[simp] theorem dedup_totalTrajectories (env : Env) (uid : String) (b : Buffer) :
    (b.dedup env uid).2.totalTrajectories = b.totalTrajectories := by
  rw [dedup]
  split <;> rfl

theorem write_moves (env : Env) (ignored : Bool) (t : Trajectory) (b : Buffer) :
    ((b.write env ignored t).2.content = b.content ∧
      (b.write env ignored t).2.totalTrajectories = b.totalTrajectories) ∨
    (Replays b.content [.put t.instanceId t] (b.write env ignored t).2.content ∧
      (b.write env ignored t).2.totalTrajectories = b.totalTrajectories + 1) := by
  have hcontent := dedup_content env t.uid b
  have htotal := dedup_totalTrajectories env t.uid b
  rw [write]
  rcases hb : b.dedup env t.uid with ⟨fresh, b'⟩
  rw [hb] at hcontent htotal
  cases fresh with
  | false => exact .inl ⟨hcontent, htotal⟩
  | true =>
    cases ignored with
    | true => exact .inl ⟨hcontent, htotal⟩
    | false =>
      refine .inr ⟨?_, (append_totalTrajectories t b').trans (by rw [← htotal])⟩
      rw [← hcontent]
      exact .put (append_content_self t b') (fun k hk => append_content_ne hk b') (.nil _)

theorem take_moves {b : Buffer} (h : b.Sound) (maxGroups : Int32)
    {result : List TrajectoryGroup} (hp : result.Perm (b.take maxGroups).1) :
    Replays b.content (result.map fun g => .take g.instanceId g.trajectories)
      (b.take maxGroups).2.content := by
  have hmem : ∀ p ∈ b.selected maxGroups, p ∈ b.groups.entries := fun p hp =>
    List.filter_sublist.subset ((BufferShard.limitTo_sublist _ _ _).subset hp)
  have hids : (b.take maxGroups).1.map TrajectoryGroup.instanceId =
      (b.selected maxGroups).map Prod.fst := by
    rw [take, List.map_map]
    exact List.map_congr_left fun p hp => (h _ _ (hmem p hp)).1
  have hkeys : ∀ k, k ∈ result.map TrajectoryGroup.instanceId ↔
      k ∈ (b.selected maxGroups).map Prod.fst := fun k => by
    rw [← hids]
    exact (hp.map _).mem_iff
  have hcontent : ∀ g ∈ result, b.content g.instanceId = g.trajectories := by
    intro g hg
    obtain ⟨p, hsel, rfl⟩ := List.mem_map.mp (hp.mem_iff.mp hg)
    rw [(h _ _ (hmem p hsel)).1]
    exact content_of_mem (hmem p hsel)
  have hmoves : (result.map fun g => Move.take g.instanceId g.trajectories) =
      (result.map TrajectoryGroup.instanceId).map fun k => .take k (b.content k) := by
    rw [List.map_map]
    exact List.map_congr_left fun g hg => by rw [Function.comp_apply, hcontent g hg]
  rw [hmoves]
  refine Replays.takes ?_ (fun k hk => ?_) fun k hk => ?_
  · rw [(hp.map _).nodup_iff, hids]
    exact b.groups.nodup.sublist
      (((BufferShard.limitTo_sublist _ _ _).trans List.filter_sublist).map Prod.fst)
  · simp only [content, take, get?_eraseAll_of_mem ((hkeys k).mp hk)]
    rfl
  · exact content_congr (get?_eraseAll_of_not_mem fun hk' => hk ((hkeys k).mpr hk'))

theorem delete_moves (id : String) (b : Buffer) :
    Replays b.content [.take id (b.content id)] (b.delete id).content := by
  refine .take ?_ (fun k hk => content_congr (get?_erase_ne hk)) (.nil _)
  simp only [content, delete, get?_erase_self]
  rfl

theorem reset_moves (b : Buffer) :
    Replays b.content (b.groups.keys.map fun id => .take id (b.content id)) b.reset.content := by
  refine Replays.takes b.groups.nodup (fun _ _ => rfl) fun k hk => ?_
  rw [content, content, get?_eq_none_iff.mpr hk]
  rfl

theorem expire_content (b : Buffer) : (b.expire env).content = b.content := by
  funext id
  rw [content, content, expire, get?_mapValues, Option.map_map]
  congr 2
  funext stored
  rw [Function.comp_apply]
  split <;> rfl

end Buffer

namespace BufferShard

section Ledger
variable (env : Env)

def writeMoves (s : BufferShard) (t : Trajectory) : List (Move String Trajectory) :=
  if (s.write env t).2.totalTrajectories = s.totalTrajectories + 1 then [.put t.instanceId t]
  else []

/-- What an operation puts into and takes out of instances: a read takes the groups it
delivers, a deletion and a reset take what they discard. -/
def moves (s : BufferShard) : Op → List (Move String Trajectory)
  | .write t => s.writeMoves env t
  | .batchWrite ts => Machine.record (writeStep env) (writeMoves env) s ts
  | .readReadyGroups maxGroups =>
    match (s.readReadyGroups env maxGroups).1 with
    | .ok groups => groups.map fun g => .take g.instanceId g.trajectories
    | .error _ => []
  | .checkGroupTimeouts => []
  | .deleteInstance id => [.take id (s.content id)]
  | .reset => s.groups.keys.map fun id => .take id (s.content id)
  | .updateConfig _ => []

def ledger (s : BufferShard) (ops : List Op) : List (Move String Trajectory) :=
  Machine.record (exec env) (moves env) s ops

end Ledger

variable {env : Env}

theorem content_eq (s : BufferShard) : s.content = s.buffer.content :=
  funext fun id => (buffer_content s id).symm

theorem write_replays (hr : env.Reliable) {s : BufferShard} (hs : s.Settled env)
    (t : Trajectory) :
    Replays s.content (s.writeMoves env t) (s.write env t).2.content := by
  obtain ⟨-, -, hbuffer⟩ := write_buffer hr hs t
  have htotal : (s.write env t).2.totalTrajectories =
      (s.buffer.write env (s.drops env t) t).2.totalTrajectories := by rw [← hbuffer]; rfl
  rw [content_eq, content_eq, hbuffer, writeMoves, htotal]
  rcases Buffer.write_moves env (s.drops env t) t s.buffer with
    ⟨hsame, hcount⟩ | ⟨hput, hcount⟩
  · rw [hcount, if_neg (by simp [buffer]), hsame]
    exact .nil _
  · rw [hcount]
    exact if_pos (rfl : s.buffer.totalTrajectories + 1 = s.totalTrajectories + 1) ▸ hput

/-- The step lemma: an operation replays its moves. -/
theorem exec_replays (hr : env.Reliable) {s : BufferShard} (hs : s.Steady env) (op : Op) :
    Replays s.content (s.moves env op) (s.exec env op).2.content := by
  obtain ⟨-, -, hbuffer⟩ := exec_refines hr hs.settled op
  cases op with
  | write t => exact write_replays hr hs.settled t
  | batchWrite ts =>
    have hloop := (batchWriteLoop_refines hr hs.settled 0 ts).1
    simp only [exec, batchWrite, hloop, Prod.map]
    exact Machine.record_of_inv (Steady env) (R := fun s l s' => Replays s.content l s'.content)
      (fun s => .nil s.content) .trans
      (fun s t hs => ⟨write_replays hr hs.settled t, hs.write hr t⟩) ts hs
  | readReadyGroups maxGroups =>
    obtain ⟨result, s', hread, -, -, hperm, hbuffer⟩ :=
      readReadyGroups_refines hr hs.settled maxGroups
    simp only [moves, exec, hread, content_eq, Prod.map]
    exact hbuffer ▸ Buffer.take_moves hs.sound maxGroups hperm
  | checkGroupTimeouts =>
    rw [content_eq, content_eq, hbuffer]
    simp only [input, Buffer.exec, Buffer.expire_content]
    exact .nil _
  | deleteInstance id =>
    rw [content_eq, content_eq, hbuffer, moves, content_eq]
    exact Buffer.delete_moves id s.buffer
  | reset =>
    rw [content_eq, content_eq, hbuffer, moves, content_eq,
      ← mapValues_keys (storedOf s.diskStorage)]
    exact Buffer.reset_moves s.buffer
  | updateConfig config => exact .nil _

/-- In every sequential run on a working disk, whatever the memory limit, what was stored
for an instance is, in the order of the writes, what has left it group by group, followed
by what the shard still holds for it. -/
theorem ledger_balanced (hr : env.Reliable) (config : TransferQueueConfig)
    (bitCount numHashes : ℕ) (ops : List Op) :
    Balanced ((create config bitCount numHashes).ledger env ops)
      ((create config bitCount numHashes).run env ops).content := by
  have hempty : (create config bitCount numHashes).content = fun _ => [] := rfl
  apply Replays.balanced
  rw [← hempty]
  exact Machine.record_of_inv (Steady env) (R := fun s l s' => Replays s.content l s'.content)
    (fun s => .nil s.content) .trans
    (fun s op hs => ⟨exec_replays hr hs op, hs.exec hr op⟩) ops (.create config _ _)

/-- A run that spills each group as it is written and reads one of the two back. -/
theorem ledger_balanced_tight :
    let ops : List Op := [.write (.bare "u" "a"), .write (.bare "v" "b"), .readReadyGroups 1]
    Balanced ((create (.tight 1) 0 0).ledger (.sample []) ops)
      ((create (.tight 1) 0 0).run (.sample []) ops).content :=
  ledger_balanced Env.sample_reliable _ _ _ _

end BufferShard
end TransferQueue
