import Mathlib.Algebra.BigOperators.Ring.Finset
import Mathlib.Algebra.Order.BigOperators.Group.List
import Mathlib.Algebra.Order.Field.Rat
import Mathlib.Tactic.Linarith
import TransferQueue.SpillTarget
import TransferQueue.ShardRuns

/-! The average reward of a shard. Rewards are added up over the groups in memory and
divided by the number of all stored trajectories, so the average is the mean while
what was spilled adds up to nothing. -/

namespace TransferQueue

def TrajectoryGroup.rewards (g : TrajectoryGroup) : List ℚ := g.trajectories.map Trajectory.reward

namespace BufferShard
open UnorderedMap

variable {env : Env} {s s' : BufferShard}

section Sums

/-- The rewards of all stored trajectories, in memory or in a file. -/
def storedRewards (s : BufferShard) : List ℚ :=
  s.groups.entries.flatMap fun p => ((p.2.group? s.diskStorage).map TrajectoryGroup.rewards).getD []

def memoryReward (s : BufferShard) : ℚ := s.groups.sum fun _ e => rewardSum e

def spilledReward (s : BufferShard) : ℚ :=
  s.groups.sum fun _ e => if e.isOnDisk then
    (((e.group? s.diskStorage).map TrajectoryGroup.rewards).getD []).sum else 0

theorem storedRewards_eq (s : BufferShard) :
    s.storedRewards = s.buffer.groups.entries.flatMap fun p => p.2.group.rewards := by
  rw [storedRewards, buffer_groups, mapValues_entries, List.flatMap_map]
  refine congrArg (fun f => s.groups.entries.flatMap f) (funext fun p => ?_)
  rw [storedOf]
  cases p.2.group? s.diskStorage <;> rfl

theorem Settled.share (hs : s.Settled env) {p : String × GroupEntry} (hp : p ∈ s.groups.entries) :
    let rewards := ((p.2.group? s.diskStorage).map TrajectoryGroup.rewards).getD []
    rewards.sum = rewardSum p.2 + (if p.2.isOnDisk then rewards.sum else 0) ∧
      sampleCount p.2 = (rewards.length : ℤ) := by
  obtain ⟨g, hg⟩ := hs.holds p.1 p.2 hp
  simp only [hg.group?_eq, Option.map_some, Option.getD_some]
  refine ⟨?_, ?_⟩
  · cases hg with
    | memory ptr noFile => simp [rewardSum, ptr, GroupEntry.isOnDisk, TrajectoryGroup.rewards]
    | disk ptr offset => simp [rewardSum, ptr, GroupEntry.isOnDisk, offset]
  · rw [hg.sampleCount_eq]
    simp [TrajectoryGroup.rewards]

theorem Settled.storedRewards_sum (hs : s.Settled env) :
    s.storedRewards.sum = s.memoryReward + s.spilledReward := by
  rw [storedRewards, List.flatMap_def, List.sum_flatten, List.map_map]
  refine (congrArg List.sum (List.map_congr_left fun p hp => (hs.share hp).1)).trans ?_
  exact List.sum_map_add

theorem Settled.totalSamples_eq (hs : s.Settled env) :
    s.getMetaInfo.totalSamples = s.storedRewards.length := by
  rw [storedRewards, List.length_flatMap, Nat.cast_list_sum, List.map_map]
  exact congrArg List.sum (List.map_congr_left fun p hp => (hs.share hp).2)

end Sums
section Spill

/-- The rewards of the groups that the next spill would take. -/
def nextRewards (env : Env) (s : BufferShard) : ℚ :=
  match s.spillSelection env with
  | none => 0
  | some selection => (selection.groups.map fun g => g.rewards.sum).sum

theorem commits_reward {chosen : List (String × TrajectoryGroup)} {offsets : List ℕ}
    (hlen : chosen.length = offsets.length) (hids : (chosen.map Prod.fst).Nodup)
    {s : BufferShard}
    (hheld : ∀ p ∈ chosen, ∃ e, s.groups.get? p.1 = some e ∧ e.groupPtr = some p.2) :
    (((chosen.map Prod.fst).zip offsets).foldl
        (fun s p => s.commitEntry env p.1 p.2) s).memoryReward +
      (chosen.map fun p => p.2.rewards.sum).sum = s.memoryReward := by
  induction chosen generalizing offsets s with
  | nil => simp
  | cons p chosen ih =>
    obtain ⟨id, g⟩ := p
    cases offsets with
    | nil => simp at hlen
    | cons offset offsets =>
      obtain ⟨e, he, hp⟩ := hheld (id, g) List.mem_cons_self
      have hid : id ∉ chosen.map Prod.fst := (List.nodup_cons.mp hids).1
      have hrest := ih (s := s.commitEntry env id offset) (by simpa using hlen)
        (List.nodup_cons.mp hids).2 fun q hq => by
          rw [commitEntry_get?_ne (ne_of_mem_of_not_mem (List.mem_map_of_mem hq) hid)]
          exact hheld q (List.mem_cons_of_mem _ hq)
      have hcommit : (s.commitEntry env id offset).memoryReward + g.rewards.sum =
          s.memoryReward := by
        have hsum := sum_set (fun _ e => rewardSum e) (committed env e offset) he
        have hold : rewardSum e = g.rewards.sum := by simp [rewardSum, hp, TrajectoryGroup.rewards]
        have hnew : rewardSum (committed env e offset) = 0 := rfl
        rw [commitEntry_present he]
        rw [hold, hnew, add_zero] at hsum
        exact hsum
      rw [List.map_cons, List.zip_cons_cons, List.foldl_cons, List.map_cons, List.sum_cons]
      linarith only [hrest, hcommit]

theorem Steady.spill_rewards (hr : env.Reliable) (hs : s.Steady env) :
    ∃ bytes s', s.trySpillGroups env = (.ok bytes, s') ∧ s'.Settled env ∧
      s'.storedRewards = s.storedRewards ∧
      s'.memoryReward + s.nextRewards env = s.memoryReward := by
  obtain ⟨bytes, s', hspill, hs', hbuffer, -⟩ := trySpillGroups_refines hr hs.settled
  refine ⟨bytes, s', hspill, hs', ?_, ?_⟩
  · rw [storedRewards_eq, storedRewards_eq, hbuffer]
  · rw [nextRewards]
    rcases trySpillGroups_ok hspill with ⟨hnone, -, rfl⟩ |
      ⟨selection, offsets, d', hsel, hbatch, -, rfl⟩
    · rw [hnone]
      exact add_zero _
    · obtain ⟨chosen, rest, hsplit, -, rfl, -⟩ := spillSelection_some hsel
      obtain ⟨r, d'', hbatch', -, -, -, hok⟩ :=
        DiskStorage.spillBatch_cases env (chosen.map Prod.snd) hs.settled.initialized
      rw [hbatch] at hbatch'
      cases hbatch'
      have hlen : chosen.length = offsets.length := by
        rw [← (hok offsets rfl).1.length_eq, List.length_map]
      obtain ⟨hids, hheld⟩ := chosen_held hsplit
      have hcommit := @commits_reward env chosen offsets hlen hids { s with diskStorage := d' }
        fun p hp => (hheld p hp).2
      simp only [hsel, List.map_map]
      exact hcommit

end Spill

section Mean

/-- The average is the mean of what is stored: it has the right sum, lies between any
bounds of the rewards, and does not change when groups are spilled. -/
structure RewardIsMean (env : Env) (s : BufferShard) : Prop where
  mean : s.getMetaInfo.avgReward * s.getMetaInfo.totalSamples = s.storedRewards.sum
  between : s.storedRewards ≠ [] → ∀ lo hi, (∀ r ∈ s.storedRewards, lo ≤ r ∧ r ≤ hi) →
    lo ≤ s.getMetaInfo.avgReward ∧ s.getMetaInfo.avgReward ≤ hi
  spill : (s.trySpillGroups env).2.getMetaInfo.avgReward = s.getMetaInfo.avgReward

/-- What the average says, whatever is spilled: the rewards in memory over all samples. -/
theorem Settled.avgReward_mul (hs : s.Settled env) :
    s.getMetaInfo.avgReward * s.storedRewards.length = s.memoryReward := by
  have htotal := hs.totalSamples_eq
  have havg : s.getMetaInfo.avgReward = if s.getMetaInfo.totalSamples = 0 then 0
      else s.memoryReward / s.getMetaInfo.totalSamples := rfl
  rw [havg, htotal]
  split_ifs with hzero
  · have hnone : s.storedRewards = [] := List.length_eq_zero_iff.mp (by exact_mod_cast hzero)
    have hmemory : s.memoryReward = 0 := by
      refine List.sum_eq_zero fun r hr => ?_
      obtain ⟨p, hp, rfl⟩ := List.mem_map.mp hr
      have hempty := List.flatMap_eq_nil_iff.mp hnone p hp
      have hshare := (hs.share hp).1
      rw [hempty] at hshare
      simpa using hshare.symm
    rw [hnone, hmemory]
    simp
  · have hne : (s.storedRewards.length : ℚ) ≠ 0 := by exact_mod_cast hzero
    rw [Int.cast_natCast]
    exact div_mul_cancel₀ _ hne

theorem Settled.avgReward_empty (hs : s.Settled env) (h : s.storedRewards = []) :
    s.getMetaInfo.avgReward = 0 := by
  have hzero : s.getMetaInfo.totalSamples = 0 := by
    rw [hs.totalSamples_eq, h]
    rfl
  exact if_pos hzero

/-- The average is the mean exactly if the spilled rewards add up to nothing and so do
those of the next spill. -/
theorem Steady.rewardIsMean_iff (hr : env.Reliable) (hs : s.Steady env) :
    RewardIsMean env s ↔ s.spilledReward = 0 ∧ s.nextRewards env = 0 := by
  obtain ⟨bytes, s', hspill, hs', hstored, hmoved⟩ := hs.spill_rewards hr
  have htotal : (s.getMetaInfo.totalSamples : ℚ) = s.storedRewards.length := by
    rw [hs.settled.totalSamples_eq, Int.cast_natCast]
  have havg := hs.settled.avgReward_mul
  have havg' := hs'.avgReward_mul
  have hsum := hs.settled.storedRewards_sum
  rw [hstored] at havg'
  constructor
  · intro h
    have hmean := h.mean
    have hsame := h.spill
    rw [htotal, havg, hsum] at hmean
    rw [hspill] at hsame
    simp only at hsame
    rw [hsame, havg] at havg'
    constructor <;> linarith
  · rintro ⟨hspilled, hnext⟩
    have hmean : s.getMetaInfo.avgReward * s.storedRewards.length = s.storedRewards.sum := by
      rw [havg, hsum, hspilled, add_zero]
    refine ⟨by rw [htotal, hmean], fun hne lo hi hbounds => ?_, ?_⟩
    · have hpos : (0 : ℚ) < s.storedRewards.length := by
        exact_mod_cast List.length_pos_iff.mpr hne
      have hlo := List.card_nsmul_le_sum s.storedRewards lo fun r hr => (hbounds r hr).1
      have hhi := List.sum_le_card_nsmul s.storedRewards hi fun r hr => (hbounds r hr).2
      rw [nsmul_eq_mul, ← hmean, mul_comm] at hlo
      rw [nsmul_eq_mul, ← hmean, mul_comm _ hi] at hhi
      exact ⟨le_of_mul_le_mul_right hlo hpos, le_of_mul_le_mul_right hhi hpos⟩
    · rw [hspill]
      rw [hnext, add_zero] at hmoved
      by_cases hne : s.storedRewards = []
      · rw [hs.settled.avgReward_empty hne, hs'.avgReward_empty (hstored.trans hne)]
      · have hpos : (s.storedRewards.length : ℚ) ≠ 0 := by
          exact_mod_cast List.length_pos_iff.mpr hne |>.ne'
        exact mul_right_cancel₀ hpos (havg'.trans (hmoved.trans havg.symm))

/-- In every state of a run on a working disk the average is the mean exactly if nothing
of the rewards is, or is about to be, in files. -/
theorem average_reward_iff (hr : env.Reliable) (config : TransferQueueConfig)
    (bitCount numHashes : ℕ) (ops : List Op) :
    RewardIsMean env ((create config bitCount numHashes).run env ops) ↔
      ((create config bitCount numHashes).run env ops).spilledReward = 0 ∧
        ((create config bitCount numHashes).run env ops).nextRewards env = 0 :=
  ((Steady.create config bitCount numHashes).run hr ops).rewardIsMean_iff hr

/-- Three trajectories in memory. -/
theorem average_reward_in_memory :
    RewardIsMean (.sample []) ((create { groupSize := 2 } 0 0).run (.sample [])
      [.write ⟨"u", "a", [], 1, []⟩, .write ⟨"v", "a", [], 3, []⟩, .write ⟨"w", "b", [], 2, []⟩]) :=
  (average_reward_iff Env.sample_reliable { groupSize := 2 } 0 0 _).mpr (by decide +kernel)

/-- A trajectory with a reward of one that is spilled: the average is zero. -/
theorem average_reward_spilled :
    let s := (create (.tight 1) 0 0).run (.sample []) [.write ⟨"u", "a", [], 1, []⟩]
    s.getMetaInfo.totalSamples = 1 ∧ s.storedRewards = [1] ∧ s.getMetaInfo.avgReward = 0 ∧
      ¬RewardIsMean (.sample []) s := by
  intro s
  have htotal : s.getMetaInfo.totalSamples = 1 := by decide +kernel
  have hstored : s.storedRewards = [1] := by decide +kernel
  have havg : s.getMetaInfo.avgReward = 0 := by decide +kernel
  refine ⟨htotal, hstored, havg, fun h => ?_⟩
  have hmean := h.mean
  rw [htotal, hstored, havg] at hmean
  exact absurd hmean (by decide +kernel)

end Mean
end BufferShard
end TransferQueue
