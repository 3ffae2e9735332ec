import Mathlib.Algebra.Order.BigOperators.Group.List
import Mathlib.Algebra.Order.Group.Int
import TransferQueue.FaultyRuns
import TransferQueue.ReadLosses

/-! What a read leaves when the disk fails it. A shard has taken its groups and changed
its counters before the first device call, and nothing puts them back; of a read over
all shards that fails, the groups of the shards that succeeded are gone. -/

namespace TransferQueue
open UnorderedMap

namespace BufferShard

variable {env : Env}

section Statement
variable (env : Env)

/-- The next read without a limit, on a working disk, delivers the group. -/
def Delivers (s : BufferShard) (g : TrajectoryGroup) : Prop :=
  ∃ result, (s.readReadyGroups env.repaired 0).1 = .ok result ∧ g ∈ result

/-- What a read that fails should leave of the state it has started in. -/
structure Intact (s s' : BufferShard) : Prop where
  delivers : ∀ g ∈ s.readyGroups, s'.Delivers env g
  consumed : s'.totalConsumed = s.totalConsumed
  usage : s'.diskUsageBytes = s.diskUsageBytes
  readable : ∀ id e, (id, e) ∈ s'.groups.entries → e.Readable

end Statement

section Failure

theorem served_of_no_files {s : BufferShard} {maxGroups : Int32}
    (h : filesOf (s.selected maxGroups) = []) : s.Served env maxGroups := by
  simp [Served, h]

theorem afterScan_usage_lt {s : BufferShard} (h : s.Coherent env) {maxGroups : Int32}
    (hserved : ¬s.Served env maxGroups) :
    (s.afterScan maxGroups).diskUsageBytes < s.diskUsageBytes := by
  have hne : (s.selected maxGroups).filter (fun p => p.2.isOnDisk) ≠ [] := fun hnil =>
    hserved (served_of_no_files (by rw [filesOf, hnil, List.map_nil]))
  have hpos : 0 < (((s.selected maxGroups).filter fun p => p.2.isOnDisk).map
      fun p => p.2.cachedBytes).sum := by
    refine List.sum_pos _ ?_ (by simpa using hne)
    intro bytes hmem
    obtain ⟨p, hp, rfl⟩ := List.mem_map.mp hmem
    obtain ⟨hsel, hdisk⟩ := List.mem_filter.mp hp
    exact (h.tidy p.1 p.2 (mem_of_selected hsel).1).weighed hdisk
  change s.diskUsageBytes - _ < s.diskUsageBytes
  omega

/-- In no state of a sequential run, whatever has failed in it before, does a read that
resolves with an error leave the shard intact. -/
theorem failed_read_not_intact (env : Env) (config : TransferQueueConfig)
    (bitCount numHashes : ℕ) (ops : List Op) (maxGroups : Int32) (e : Failure) :
    let s := (create config bitCount numHashes).run env ops
    (s.readReadyGroups env maxGroups).1 = .error e → e ≠ .nullDereference →
      ¬s.Intact env (s.readReadyGroups env maxGroups).2 := by
  intro s herror hne hintact
  have hs : s.Coherent env := (Coherent.create config bitCount numHashes).run ops
  have hresolved : (s.readReadyGroups env maxGroups).1 ≠ .error .nullDereference := fun hnull =>
    hne (Except.error.inj (herror.symm.trans hnull))
  obtain ⟨hends, -⟩ := readReadyGroups_ends env hs.initialized hs.exclusive maxGroups
    (readable_of_resolved hresolved)
  have husage := hintact.usage
  generalize s.readReadyGroups env maxGroups = r at herror hends husage
  cases hends with
  | delivered => cases herror
  | failed _ d' consumed hserved => exact (afterScan_usage_lt hs hserved).ne husage

/-- A group on disk, the load of which fails. -/
theorem failed_read_not_intact_load :
    let s := (create (.tight 1) 0 0).run (.sample [1]) [.write (.bare "u" "a")]
    ¬s.Intact (.sample [1]) (s.readReadyGroups (.sample [1]) 0).2 :=
  failed_read_not_intact (.sample [1]) (.tight 1) 0 0 [.write (.bare "u" "a")] 0 .deviceError
    (by decide +kernel) (by decide)

def oneOnDisk : BufferShard :=
  (create (.tight 1) 0 0).run (.sample [1]) [.write (.bare "u" "a"),
    .updateConfig { groupSize := 1, uidDedup := false }, .write (.bare "v" "b")]

/-- When the load of the one fails, the other has left memory for nowhere. -/
theorem failed_read_loses_memory_group :
    (oneOnDisk.readReadyGroups (.sample [1]) 0).1 = .error .deviceError ∧
      ¬oneOnDisk.Intact (.sample [1]) (oneOnDisk.readReadyGroups (.sample [1]) 0).2 := by
  refine ⟨by decide +kernel, fun h => ?_⟩
  have hempty : ("b", ({} : GroupEntry)) ∈
      (oneOnDisk.readReadyGroups (.sample [1]) 0).2.groups.entries := by decide +kernel
  exact absurd (h.readable "b" {} hempty) (by decide)

end Failure

section Success

theorem Coherent.repaired {s : BufferShard} (h : s.Coherent env) : s.Coherent env.repaired where
  initialized := h.initialized
  tidy id e hmem :=
    ⟨(h.tidy id e hmem).single, (h.tidy id e hmem).keyed, (h.tidy id e hmem).weighed,
      (h.tidy id e hmem).drawn⟩
  exclusive := h.exclusive

theorem Delivers.key {s : BufferShard} (h : s.Coherent env) {g : TrajectoryGroup}
    (hg : s.Delivers env g) : g.instanceId ∈ s.groups.keys := by
  obtain ⟨result, hok, hmem⟩ := hg
  have h' := h.repaired
  have hresolved : (s.readReadyGroups env.repaired 0).1 ≠ .error .nullDereference := fun hnull =>
    nomatch hok.symm.trans hnull
  obtain ⟨hends, -⟩ := readReadyGroups_ends env.repaired h'.initialized h'.exclusive 0
    (readable_of_resolved hresolved)
  generalize s.readReadyGroups env.repaired 0 = r at hok hends
  cases hends with
  | failed => cases hok
  | delivered loaded d' served files =>
    obtain rfl := Except.ok.inj hok
    obtain ⟨p, hp, hgroup⟩ := List.mem_filterMap.mp ((delivered_perm files).mem_iff.mp hmem)
    have hin := (mem_of_selected hp).1
    rw [(h.tidy p.1 p.2 hin).keyed g hgroup]
    exact mem_keys.mpr ⟨p.2, hin⟩

/-- A served read takes a ready group, if there is one, and it is never delivered again. -/
theorem served_read_takes {s : BufferShard} (h : s.Coherent env) {maxGroups : Int32}
    (hread : ∀ p ∈ s.selected maxGroups, p.2.Readable) (hserved : s.Served env maxGroups)
    (hready : s.readyGroups ≠ []) :
    ∃ g ∈ s.readyGroups, ¬(s.readReadyGroups env maxGroups).2.Delivers env g := by
  obtain ⟨p, hp⟩ : ∃ p, p ∈ s.selected maxGroups := by
    refine List.exists_mem_of_ne_nil _ (limitTo_ne_nil maxGroups fun hnil => hready ?_)
    rw [readyGroups, hnil, List.filterMap_nil]
  obtain ⟨hin, hcomplete⟩ := mem_of_selected hp
  obtain ⟨g, hg⟩ := hserved.group hp (hread p hp)
  refine ⟨g, List.mem_filterMap.mpr ⟨p, List.mem_filter.mpr ⟨hin, by simpa using hcomplete⟩, hg⟩,
    fun hdelivers => ?_⟩
  have hkey := hdelivers.key (h.readReadyGroups maxGroups)
  rw [(h.tidy p.1 p.2 hin).keyed g hg] at hkey
  obtain ⟨hends, -⟩ := readReadyGroups_ends env h.initialized h.exclusive maxGroups hread
  generalize s.readReadyGroups env maxGroups = r at hends hkey
  cases hends with
  | failed _ _ _ hno => exact hno hserved
  | delivered =>
    obtain ⟨e, he⟩ := mem_keys.mp hkey
    have htaken : p.1 ∈ (s.selected maxGroups).map Prod.fst := List.mem_map_of_mem hp
    exact ((mem_eraseAll _).mp he).2 htaken

end Success

end BufferShard

namespace BufferManager

variable {k : ℕ}

/-- If the read fails, the groups that were ready on the shards that have not failed can
still be delivered. -/
def FailureConsumesNothing (env : Fin k → Env) (m : BufferManager k) (maxGroups : Int32) : Prop :=
  ∀ e, (m.readReadyGroups env maxGroups).1 = .error e →
    ∀ i, (∃ result, ((m.shards i).readReadyGroups (env i) maxGroups).1 = .ok result) →
      ∀ g ∈ (m.shards i).readyGroups,
        ((m.readReadyGroups env maxGroups).2.shards i).Delivers (env i) g

/-- In every state reached, whatever has failed before, for a read whose scans meet no
null pointer: its failure consumes nothing exactly if the disks serve all shards, so
that it does not fail, or none with a ready group. -/
theorem failed_read_consumes_nothing_iff (env : Fin k → Env) (config : TransferQueueConfig)
    (bitCount numHashes : ℕ) (ops : Fin k → List Op) (maxGroups : Int32) :
    let m := (start k config bitCount numHashes).serve env ops
    (∀ i, ∀ p ∈ (m.shards i).selected maxGroups, p.2.Readable) →
      (m.FailureConsumesNothing env maxGroups ↔
        (∀ i, (m.shards i).Served (env i) maxGroups) ∨
          ∀ i, (m.shards i).Served (env i) maxGroups → (m.shards i).readyGroups = []) := by
  intro m hread
  have hs : m.Coherent env := coherent_serve config bitCount numHashes ops
  have hok := hs.shard_ok_iff hread
  have herror : (∃ e, (m.readReadyGroups env maxGroups).1 = .error e) ↔
      ¬∀ i, (m.shards i).Served (env i) maxGroups := by
    rw [← hs.succeeds_iff hread, Succeeds]
    cases (m.readReadyGroups env maxGroups).1 <;> simp
  constructor
  · intro hkeeps
    by_cases hall : ∀ i, (m.shards i).Served (env i) maxGroups
    · exact .inl hall
    · obtain ⟨e, he⟩ := herror.mpr hall
      refine .inr fun i hserved => ?_
      by_contra hready
      obtain ⟨g, hg, hgone⟩ := BufferShard.served_read_takes (hs i) (hread i) hserved hready
      exact hgone (hkeeps e he i ((hok i).mpr hserved) g hg)
  · rintro (hall | hnone) e he i hi g hg
    · exact absurd hall (herror.mp ⟨e, he⟩)
    · rw [hnone i ((hok i).mp hi)] at hg
      cases hg

/-- The disk of the first of two shards fails its second call, a load. -/
def halfFailing : Fin 2 → Env := fun i => if i.val = 0 then .sample [1] else .sample []

def twoOnDisk : BufferManager 2 :=
  (start 2 (.tight 1) 0 0).serve halfFailing fun i =>
    if i.val = 0 then [.write (.bare "u" "a")] else [.write (.bare "v" "b")]

theorem failed_read_consumes_nothing_iff_half :
    twoOnDisk.FailureConsumesNothing halfFailing 0 ↔
      (∀ i, (twoOnDisk.shards i).Served (halfFailing i) 0) ∨
        ∀ i, (twoOnDisk.shards i).Served (halfFailing i) 0 →
          (twoOnDisk.shards i).readyGroups = [] :=
  failed_read_consumes_nothing_iff halfFailing (.tight 1) 0 0 _ 0 (by decide +kernel)

/-- The read fails on the first shard and takes the group of the second. -/
theorem failed_read_consumes : ¬twoOnDisk.FailureConsumesNothing halfFailing 0 := by
  intro h
  let g := (TrajectoryGroup.create "b" 1).add (.bare "v" "b")
  have hfails : (twoOnDisk.readReadyGroups halfFailing 0).1 = .error .deviceError := by
    decide +kernel
  have hsecond : ((twoOnDisk.shards 1).readReadyGroups (halfFailing 1) 0).1 = .ok [g] := by
    decide +kernel
  have hready : g ∈ (twoOnDisk.shards 1).readyGroups := by decide +kernel
  obtain ⟨result, hok, hmem⟩ := h _ hfails 1 ⟨_, hsecond⟩ g hready
  have hnothing : (((twoOnDisk.readReadyGroups halfFailing 0).2.shards 1).readReadyGroups
      (halfFailing 1).repaired 0).1.toOption = some [] := by decide +kernel
  rw [hok] at hnothing
  obtain rfl := Option.some.inj hnothing
  cases hmem

end BufferManager
end TransferQueue
