import Mathlib.Algebra.Order.Floor.Div
import TransferQueue.ShardRuns

/-! Reading the ready groups of a shard page by page. On a working disk each read takes
the groups at the head of the iteration order, so the reads of one limit go through
them once. -/

namespace TransferQueue
namespace BufferShard
open UnorderedMap

variable {env : Env} {s : BufferShard} {maxGroups : Int32}

section Ready

theorem limitTo_length {α : Type*} (l : List α) :
    (0 < maxGroups → (limitTo maxGroups 0 l).length = min maxGroups.toNatClampNeg l.length) ∧
      (¬0 < maxGroups → (limitTo maxGroups 0 l).length = l.length) := by
  rw [limitTo, Nat.sub_zero]
  constructor <;> intro hpos
  · rw [if_pos hpos, List.length_take]
  · rw [if_neg hpos]

theorem Steady.ready_ids (hs : s.Steady env) :
    s.readyGroups.map TrajectoryGroup.instanceId =
      (s.groups.entries.filter fun p => p.2.isComplete).map Prod.fst := by
  rw [readyGroups]
  have hholds : ∀ p ∈ s.groups.entries.filter fun p => p.2.isComplete,
      ∃ g, p.2.group? s.diskStorage = some g ∧ g.instanceId = p.1 := by
    intro p hp
    have hmem := List.mem_of_mem_filter hp
    obtain ⟨g, hg⟩ := hs.settled.holds p.1 p.2 hmem
    have hstored : (p.1, (⟨g, p.2.createdTime⟩ : Stored)) ∈ s.buffer.groups.entries := by
      rw [buffer_groups, mapValues_entries, ← storedOf_group hg]
      exact List.mem_map_of_mem (f := fun p => (p.1, storedOf s.diskStorage p.1 p.2)) hmem
    exact ⟨g, hg.group?_eq, (hs.sound _ _ hstored).1⟩
  revert hholds
  generalize (s.groups.entries.filter fun p => p.2.isComplete) = entries
  intro hholds
  induction entries with
  | nil => rfl
  | cons p entries ih =>
    obtain ⟨g, hgroup, hid⟩ := hholds p List.mem_cons_self
    rw [List.filterMap_cons, hgroup, List.map_cons, List.map_cons, hid,
      ih fun q hq => hholds q (List.mem_cons_of_mem _ hq)]

theorem Steady.ready_ids_nodup (hs : s.Steady env) :
    (s.readyGroups.map TrajectoryGroup.instanceId).Nodup := by
  rw [hs.ready_ids]
  exact s.groups.nodup.sublist (List.filter_sublist.map Prod.fst)

theorem Steady.ready_count (hs : s.Steady env) :
    (s.getStatus env).pendingGroups = s.readyGroups.length := by
  have hids := congrArg List.length hs.ready_ids
  rw [List.length_map, List.length_map] at hids
  rw [hids, getStatus, List.countP_eq_length_filter]

end Ready

section Page

/-- What a read with a limit does: its page is as large as the limit and the ready groups
allow, of distinct instances, which leave the map; every other entry stays as it is. -/
structure Page (maxGroups : Int32) (s s' : BufferShard) (page : List TrajectoryGroup) :
    Prop where
  limited : 0 < maxGroups → page.length = min maxGroups.toNatClampNeg s.readyGroups.length
  unlimited : ¬0 < maxGroups → page.length = s.readyGroups.length
  distinct : (page.map TrajectoryGroup.instanceId).Nodup
  split : page.Perm (limitTo maxGroups 0 s.readyGroups) ∧
    limitTo maxGroups 0 s.readyGroups ++ s'.readyGroups = s.readyGroups
  gone : ∀ g ∈ page, s'.groups.get? g.instanceId = none
  others : ∀ id, id ∉ page.map TrajectoryGroup.instanceId →
    s'.groups.get? id = s.groups.get? id ∧ s'.content id = s.content id

theorem Steady.page (hr : env.Reliable) (hs : s.Steady env) (maxGroups : Int32) :
    ∃ page s', s.readReadyGroups env maxGroups = (.ok page, s') ∧ s'.Steady env ∧
      Page maxGroups s s' page := by
  obtain ⟨page, s', hread, -, -, -, hbuffer⟩ := readReadyGroups_refines hr hs.settled maxGroups
  have hsteady : s'.Steady env := by
    have hexec := Steady.exec hr hs (.readReadyGroups maxGroups)
    rwa [BufferShard.exec, hread] at hexec
  have htakes := readReadyGroups_takes hs.settled.initialized hs.settled.exclusive maxGroups
    (congrArg Prod.fst hread)
  rw [hread] at htakes
  obtain ⟨hperm, hsplit⟩ := htakes
  obtain ⟨hlimited, hunlimited⟩ := @limitTo_length maxGroups _ s.readyGroups
  -- the instances of the page are the keys the scan has collected
  have hids : ∀ id, id ∈ page.map TrajectoryGroup.instanceId ↔
      id ∈ (s.selected maxGroups).map Prod.fst := by
    intro id
    rw [(hperm.map _).mem_iff, limitTo_map, hs.ready_ids, ← limitTo_map]
    rfl
  have hgroups : s'.groups = s.groups.eraseAll ((s.selected maxGroups).map Prod.fst) := by
    obtain ⟨loaded, d', hok, -⟩ := readReadyGroups_ok hr hs.settled maxGroups
    rw [hread] at hok
    cases hok
    exact afterScan_erased maxGroups s
  refine ⟨page, s', hread, hsteady, ⟨fun hpos => hperm.length_eq.trans (hlimited hpos),
    fun hpos => hperm.length_eq.trans (hunlimited hpos), ?_, ⟨hperm, hsplit⟩, fun g hg => ?_,
    fun id hid => ?_⟩⟩
  · refine ((hperm.map _).nodup_iff).mpr (hs.ready_ids_nodup.sublist ?_)
    exact (limitTo_sublist _ _ _).map _
  · rw [hgroups]
    exact get?_eraseAll_of_mem ((hids _).mp (List.mem_map_of_mem hg))
  · have hout : id ∉ (s.selected maxGroups).map Prod.fst := fun hmem => hid ((hids id).mpr hmem)
    refine ⟨hgroups ▸ get?_eraseAll_of_not_mem hout, ?_⟩
    rw [← buffer_content, ← buffer_content, hbuffer]
    refine Buffer.content_congr ?_
    have hkeys : (s.buffer.selected maxGroups).map Prod.fst =
        (s.selected maxGroups).map Prod.fst := by
      rw [buffer_selected hs.settled, List.map_map]
      rfl
    exact get?_eraseAll_of_not_mem (hkeys ▸ hout)

end Page

section Drain

def reads (maxGroups : Int32) (k : ℕ) : List Op := List.replicate k (.readReadyGroups maxGroups)

theorem Steady.pages (hr : env.Reliable) (hs : s.Steady env) (hpos : 0 < maxGroups) (k : ℕ) :
    ∃ pages : List (List TrajectoryGroup),
      Machine.outputs (BufferShard.exec env) s (reads maxGroups k) =
        pages.map (fun page => .groups (.ok page)) ∧
      pages.flatten.Perm (s.readyGroups.take (maxGroups.toNatClampNeg * k)) ∧
      (s.run env (reads maxGroups k)).Steady env ∧
      (s.run env (reads maxGroups k)).readyGroups =
        s.readyGroups.drop (maxGroups.toNatClampNeg * k) := by
  induction k generalizing s with
  | zero => exact ⟨[], rfl, by simp, hs, rfl⟩
  | succ k ih =>
    obtain ⟨page, s', hread, hs', hpage⟩ := hs.page hr maxGroups
    obtain ⟨pages, houtputs, hperm, hsteady, hready⟩ := ih hs'
    obtain ⟨htaken, hsplit⟩ := hpage.split
    have hlimit : limitTo maxGroups 0 s.readyGroups =
        s.readyGroups.take maxGroups.toNatClampNeg := by
      rw [limitTo, if_pos hpos, Nat.sub_zero]
    rw [hlimit] at htaken hsplit
    have hrest : s'.readyGroups = s.readyGroups.drop maxGroups.toNatClampNeg := by
      refine List.append_cancel_left (hsplit.trans ?_)
      rw [List.take_append_drop]
    have hexec : s.exec env (.readReadyGroups maxGroups) = (.groups (.ok page), s') := by
      rw [BufferShard.exec, hread]
      rfl
    have hmul : maxGroups.toNatClampNeg * (k + 1) =
        maxGroups.toNatClampNeg + maxGroups.toNatClampNeg * k := by
      rw [Nat.mul_succ, Nat.add_comm]
    refine ⟨page :: pages, ?_, ?_, ?_, ?_⟩
    · rw [reads, List.replicate_succ, Machine.outputs, hexec, List.map_cons, ← houtputs]
      rfl
    · rw [List.flatten_cons, hmul, List.take_add, ← hrest]
      exact htaken.append hperm
    · rw [BufferShard.run, reads, List.replicate_succ, Machine.final_cons, hexec]
      exact hsteady
    · rw [BufferShard.run, reads, List.replicate_succ, Machine.final_cons, hexec, hmul,
        ← List.drop_drop, ← hrest]
      exact hready

/-- In every state of a run on a working disk, a read delivers a page; and if nothing is
written in between, as many reads as there are pages deliver every ready group once, and
the next one none. -/
theorem reads_page_through (hr : env.Reliable) (config : TransferQueueConfig)
    (bitCount numHashes : ℕ) (ops : List Op) (maxGroups : Int32) :
    let s := (create config bitCount numHashes).run env ops
    let calls := s.readyGroups.length ⌈/⌉ maxGroups.toNatClampNeg
    (s.getStatus env).pendingGroups = s.readyGroups.length ∧
      (∃ page s', s.readReadyGroups env maxGroups = (.ok page, s') ∧
        Page maxGroups s s' page) ∧
      (0 < maxGroups → ∃ pages : List (List TrajectoryGroup),
        Machine.outputs (exec env) s (reads maxGroups calls) =
          pages.map (fun page => .groups (.ok page)) ∧
        pages.flatten.Perm s.readyGroups ∧
        (pages.flatten.map TrajectoryGroup.instanceId).Nodup ∧
        ((s.run env (reads maxGroups calls)).readReadyGroups env maxGroups).1 = .ok []) := by
  intro s calls
  have hs : s.Steady env := (Steady.create config bitCount numHashes).run hr ops
  obtain ⟨page, s', hread, -, hpage⟩ := hs.page hr maxGroups
  refine ⟨hs.ready_count, ⟨page, s', hread, hpage⟩, fun hpos => ?_⟩
  obtain ⟨pages, houtputs, hperm, hsteady, hready⟩ := hs.pages hr hpos calls
  have hlimit : 0 < maxGroups.toNatClampNeg := by
    have := limit_pos hpos
    omega
  have hall : s.readyGroups.length ≤ maxGroups.toNatClampNeg * calls :=
    (ceilDiv_le_iff_le_mul hlimit).mp le_rfl
  rw [List.take_of_length_le hall] at hperm
  rw [List.drop_eq_nil_of_le hall] at hready
  refine ⟨pages, houtputs, hperm, ((hperm.map _).nodup_iff).mpr hs.ready_ids_nodup, ?_⟩
  obtain ⟨last, s'', hlast, -, hpage'⟩ := hsteady.page hr maxGroups
  have hempty : last.length = 0 := by
    rw [hpage'.limited hpos, hready]
    exact Nat.min_zero _
  rw [hlast, List.length_eq_zero_iff.mp hempty]

/-- Three groups, spilled as they fill up, read two at a time. -/
theorem reads_page_through_pairs :
    let s := (create (.tight 1) 0 0).run (.sample [])
      [.write (.bare "u" "a"), .write (.bare "v" "b"), .write (.bare "w" "c")]
    let calls := s.readyGroups.length ⌈/⌉ (2 : Int32).toNatClampNeg
    s.readyGroups.length = 3 ∧ ∃ pages : List (List TrajectoryGroup),
      Machine.outputs (exec (.sample [])) s (reads 2 calls) =
        pages.map (fun page => .groups (.ok page)) ∧
      pages.flatten.Perm s.readyGroups ∧
      (pages.flatten.map TrajectoryGroup.instanceId).Nodup ∧
      ((s.run (.sample []) (reads 2 calls)).readReadyGroups (.sample []) 2).1 = .ok [] :=
  ⟨by decide +kernel,
    (reads_page_through Env.sample_reliable (.tight 1) 0 0 _ 2).2.2 (by decide)⟩

end Drain

end BufferShard
end TransferQueue
