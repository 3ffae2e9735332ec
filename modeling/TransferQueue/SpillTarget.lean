import TransferQueue.Refinement

/-! What a spill is for: bringing the estimated usage down to seven tenths of the limit.
How far it gets, and whether it goes further than it has to. -/

namespace TransferQueue
namespace BufferShard
open UnorderedMap

variable {env : Env}

section Freeing

def Drained (s : BufferShard) : Prop :=
  ∀ id e g, (id, e) ∈ s.groups.entries → e.groupPtr = some g → g.isComplete = false

theorem drained_iff (s : BufferShard) : s.Drained ↔ memoryReady s.groups.entries = [] := by
  rw [List.eq_nil_iff_forall_not_mem]
  constructor
  · rintro h ⟨id, g⟩ hmem
    obtain ⟨e, he, hp, hc⟩ := mem_memoryReady.mp hmem
    rw [h id e g he hp] at hc
    cases hc
  · intro h id e g he hp
    by_contra hc
    exact h (id, g) (mem_memoryReady.mpr ⟨e, he, hp, by simpa using hc⟩)

/-- What `try_spill_groups` wants freed. -/
def spillTarget (env : Env) (s : BufferShard) : ℕ :=
  sizeT (s.estimateMemoryUsage env + 2 ^ 64 - s.memoryFraction env (7 / 10))

theorem spillSelection_eq_none_iff (env : Env) (s : BufferShard) :
    s.spillSelection env = none ↔
      s.estimateMemoryUsage env ≤ s.memoryFraction env s.config.spillToDiskThreshold ∨
        s.Drained := by
  obtain ⟨chosen, rest, hsplit, hsel, hstop, -⟩ :=
    selectGroups_spec env (s.spillTarget env) s.groups.entries ⟨[], [], 0⟩ rfl
  rw [drained_iff, hsplit, List.append_eq_nil_iff]
  simp only [spillSelection]
  rw [← spillTarget, hsel]
  split
  case isTrue hle => simp [hle]
  case isFalse hlt =>
    have hrest : chosen = [] → rest = [] := fun h => by
      by_contra hne
      exact (hstop hne).1 h
    simp only [List.nil_append, List.map_eq_nil_iff, ite_eq_left_iff, reduceCtorEq, imp_false,
      not_not, hlt, false_or]
    exact ⟨fun h => ⟨h, hrest h⟩, And.left⟩

/-- The selection of a spill that takes place: complete groups in iteration order, all of
them unless the target is reached earlier, and the last one only when it is not. -/
theorem spillSelection_some {s : BufferShard} {selection : SpillSelection}
    (h : s.spillSelection env = some selection) :
    ∃ chosen rest, memoryReady s.groups.entries = chosen ++ rest ∧ chosen ≠ [] ∧
      selection = ⟨chosen.map Prod.fst, chosen.map Prod.snd, sizeT (chosenBytes env chosen)⟩ ∧
      (rest = [] ∨ s.spillTarget env ≤ sizeT (chosenBytes env chosen)) ∧
      ∀ init last, chosen = init ++ [last] → init ≠ [] →
        sizeT (chosenBytes env init) < s.spillTarget env := by
  obtain ⟨chosen, rest, hsplit, hsel, hstop, hshort⟩ :=
    selectGroups_spec env (s.spillTarget env) s.groups.entries ⟨[], [], 0⟩ rfl
  simp only [spillSelection] at h
  rw [← spillTarget, hsel] at h
  split at h
  · cases h
  · split at h
    · cases h
    · rename_i hne
      simp only [Nat.zero_add] at hstop hshort h
      refine ⟨chosen, rest, hsplit, ?_, (Option.some.inj h).symm, ?_, hshort⟩
      · rintro rfl
        exact hne rfl
      · exact or_iff_not_imp_left.mpr fun hrest => (hstop hrest).2

theorem chosen_held {s : BufferShard} {chosen rest : List (String × TrajectoryGroup)}
    (hsplit : memoryReady s.groups.entries = chosen ++ rest) :
    (chosen.map Prod.fst).Nodup ∧ ∀ p ∈ chosen, p.2.isComplete = true ∧
      ∃ e, s.groups.get? p.1 = some e ∧ e.groupPtr = some p.2 := by
  constructor
  · refine s.groups.nodup.sublist (.trans ?_ (memoryReady_keys_sublist s.groups.entries))
    rw [hsplit, List.map_append]
    exact List.sublist_append_left ..
  · intro p hp
    obtain ⟨e, he, hptr, hc⟩ := mem_memoryReady.mp (hsplit ▸ List.mem_append_left rest hp)
    exact ⟨hc, e, get?_eq_some_iff.mpr he, hptr⟩

theorem memoryTotal_set (env : Env) {s : BufferShard} {id : String} {e : GroupEntry}
    (h : s.groups.get? id = some e) (e' : GroupEntry) (diskUsageBytes : ℤ) :
    ({ s with groups := s.groups.set id e', diskUsageBytes } : BufferShard).memoryTotal env +
      memoryBytes env e = s.memoryTotal env + memoryBytes env e' := by
  have hsum := sum_set (fun _ e => memoryBytes env e) e' h
  simp only [memoryTotal, filterBytes] at hsum ⊢
  omega

theorem exists_mem_zip {α β : Type*} {as : List α} {bs : List β} (hlen : as.length = bs.length)
    {a : α} (h : a ∈ as) : ∃ b, (a, b) ∈ as.zip bs := by
  obtain ⟨i, hi, rfl⟩ := List.getElem_of_mem h
  have hi' : i < bs.length := hlen ▸ hi
  exact ⟨bs[i], List.mem_iff_getElem.mpr ⟨i, by simpa using ⟨hi, hi'⟩, by simp⟩⟩

theorem commits_moves {chosen : List (String × TrajectoryGroup)} {offsets : List ℕ}
    (hlen : chosen.length = offsets.length) (hids : (chosen.map Prod.fst).Nodup)
    {s : BufferShard}
    (hheld : ∀ p ∈ chosen, ∃ e, s.groups.get? p.1 = some e ∧ e.groupPtr = some p.2) :
    ∃ s', ((chosen.map Prod.fst).zip offsets).foldl
        (fun s p => s.commitEntry env p.1 p.2) s = s' ∧
      s'.memoryTotal env + chosenBytes env chosen = s.memoryTotal env ∧
      s'.diskUsageBytes = s.diskUsageBytes + chosenBytes env chosen ∧
      (∀ id, id ∉ chosen.map Prod.fst → s'.groups.get? id = s.groups.get? id) ∧
      ∀ p ∈ chosen.zip offsets, s'.groups.get? p.1.1 =
        (s.groups.get? p.1.1).map fun e => committed env e p.2 := by
  induction chosen generalizing offsets s with
  | nil => exact ⟨s, rfl, by simp [chosenBytes], by simp [chosenBytes], by simp, by simp⟩
  | cons p chosen ih =>
    obtain ⟨id, g⟩ := p
    cases offsets with
    | nil => simp at hlen
    | cons offset offsets =>
      obtain ⟨e, he, hp⟩ := hheld (id, g) List.mem_cons_self
      have hid : id ∉ chosen.map Prod.fst := (List.nodup_cons.mp hids).1
      have hother : ∀ id' ∈ chosen.map Prod.fst,
          (s.commitEntry env id offset).groups.get? id' = s.groups.get? id' := fun id' hmem =>
        commitEntry_get?_ne (ne_of_mem_of_not_mem hmem hid) offset
      have hbytes : memoryBytes env e = env.byteSizeLong g := by simp [memoryBytes, hp]
      have htotal : (s.commitEntry env id offset).memoryTotal env + env.byteSizeLong g =
          s.memoryTotal env := by
        rw [commitEntry_present he, ← hbytes]
        exact memoryTotal_set env he (committed env e offset) _
      have husage : (s.commitEntry env id offset).diskUsageBytes =
          s.diskUsageBytes + env.byteSizeLong g := by
        rw [commitEntry_present he]
        simp [committed, hp]
      obtain ⟨s', hfold, htotal', husage', hframe, hmoved⟩ := ih (by simpa using hlen)
        (List.nodup_cons.mp hids).2 (s := s.commitEntry env id offset) fun q hq => by
          rw [hother _ (List.mem_map_of_mem hq)]
          exact hheld q (List.mem_cons_of_mem _ hq)
      refine ⟨s', hfold, ?_, ?_, ?_, ?_⟩
      · rw [← htotal, ← htotal']
        simp only [chosenBytes, List.map_cons, List.sum_cons]
        omega
      · rw [husage', husage]
        simp only [chosenBytes, List.map_cons, List.sum_cons]
        omega
      · intro id' hid'
        obtain ⟨hne, hrest⟩ := not_or.mp (List.mem_cons.not.mp hid')
        rw [hframe id' hrest, commitEntry_get?_ne hne]
      · intro q hq
        rcases List.mem_cons.mp hq with rfl | hq
        · rw [hframe id hid, commitEntry_get?_self]
        · rw [hmoved q hq, hother _ (List.mem_map_of_mem (List.of_mem_zip hq).1)]

/-- What a spill of `bytes` that leads from `s` to `s'` has done. -/
structure Freed (env : Env) (s s' : BufferShard) (bytes : ℕ) : Prop where
  enough : s'.estimateMemoryUsage env ≤ s.memoryFraction env (7 / 10) ∨ s'.Drained
  moved : ∀ id, s'.groups.get? id = s.groups.get? id ∨
    ∃ e g offset, s.groups.get? id = some e ∧ e.groupPtr = some g ∧ g.isComplete = true ∧
      s'.groups.get? id = some (committed env e offset) ∧ s'.diskStorage.find offset = some g
  decrease : s'.estimateMemoryUsage env + bytes = s.estimateMemoryUsage env
  increase : s'.diskUsageBytes = s.diskUsageBytes + bytes

theorem trySpillGroups_ok {s s' : BufferShard} {bytes : ℕ}
    (h : s.trySpillGroups env = (.ok bytes, s')) :
    (s.spillSelection env = none ∧ bytes = 0 ∧ s' = s) ∨
      ∃ selection offsets d', s.spillSelection env = some selection ∧
        s.diskStorage.spillBatch env selection.groups = (.ok offsets, d') ∧
        bytes = selection.spilledBytes ∧ s' = (selection.keys.zip offsets).foldl
          (fun s p => s.commitEntry env p.1 p.2) { s with diskStorage := d' } := by
  rw [trySpillGroups] at h
  cases hsel : s.spillSelection env with
  | none =>
    rw [hsel] at h
    cases h
    exact .inl ⟨rfl, rfl, rfl⟩
  | some selection =>
    rw [hsel] at h
    simp only at h
    rcases hbatch : s.diskStorage.spillBatch env selection.groups with ⟨e | offsets, d'⟩ <;>
      rw [hbatch] at h
    · cases h
    · simp only [commitSpill] at h
      split at h
      next e s₁ hcommit => cases h
      next s₁ hcommit =>
        split at hcommit
        · cases hcommit
        · cases hcommit
          cases h
          exact .inr ⟨selection, offsets, d', rfl, hbatch, rfl, rfl⟩

theorem spilled_moves {s s' : BufferShard} {d' : DiskStorage} {offsets : List ℕ}
    {chosen rest : List (String × TrajectoryGroup)}
    (hsplit : memoryReady s.groups.entries = chosen ++ rest) (hne : chosen ≠ [])
    (hbatch : s.diskStorage.spillBatch env (chosen.map Prod.snd) = (.ok offsets, d'))
    (hs' : s' = ((chosen.map Prod.fst).zip offsets).foldl
      (fun s p => s.commitEntry env p.1 p.2) { s with diskStorage := d' }) :
    s'.memoryTotal env + chosenBytes env chosen = s.memoryTotal env ∧
      s'.diskUsageBytes = s.diskUsageBytes + chosenBytes env chosen ∧
      (∀ id, id ∉ chosen.map Prod.fst → s'.groups.get? id = s.groups.get? id) ∧
      ∀ p ∈ chosen, ∃ e offset, s.groups.get? p.1 = some e ∧ e.groupPtr = some p.2 ∧
        s'.groups.get? p.1 = some (committed env e offset) ∧
        s'.diskStorage.find offset = some p.2 := by
  have hi : s.diskStorage.initialized = true := by
    by_contra hi
    obtain ⟨p, chosen, rfl⟩ := List.exists_cons_of_ne_nil hne
    rw [List.map_cons, DiskStorage.spillBatch_uninitialized _ (by simpa using hi)] at hbatch
    cases hbatch
  obtain ⟨r, d'', hbatch', -, -, -, hok⟩ :=
    DiskStorage.spillBatch_cases env (chosen.map Prod.snd) hi
  rw [hbatch] at hbatch'
  cases hbatch'
  obtain ⟨hfiles, -, -⟩ := hok offsets rfl
  rw [List.forall₂_map_left_iff] at hfiles
  obtain ⟨hids, hheld⟩ := chosen_held hsplit
  obtain ⟨s₁, hfold, htotal, husage, hframe, hmoved⟩ := commits_moves hfiles.length_eq hids
    (s := { s with diskStorage := d' }) fun p hp => (hheld p hp).2
  rw [hfold] at hs'
  subst hs'
  have hdisk : s'.diskStorage = d' := hfold ▸ (commits_frame env _ _).2
  refine ⟨htotal, husage, hframe, fun p hp => ?_⟩
  obtain ⟨-, e, he, hptr⟩ := hheld p hp
  obtain ⟨offset, hpair⟩ := exists_mem_zip hfiles.length_eq hp
  refine ⟨e, offset, he, hptr, ?_, ?_⟩
  · rw [hmoved _ hpair, he, Option.map_some]
  · rw [hdisk]
    exact (List.forall₂_iff_zip.mp hfiles).2 hpair

theorem trySpillGroups_freed {s s' : BufferShard} {bytes : ℕ}
    (hfits : s.memoryTotal env < 2 ^ 64)
    (hover : s.memoryFraction env s.config.spillToDiskThreshold < s.estimateMemoryUsage env)
    (h : s.trySpillGroups env = (.ok bytes, s')) : Freed env s s' bytes := by
  rcases trySpillGroups_ok h with
    ⟨hnone, rfl, rfl⟩ | ⟨selection, offsets, d', hsel, hbatch, rfl, hs'⟩
  · have hdrained := ((spillSelection_eq_none_iff env s').mp hnone).resolve_left hover.not_ge
    exact ⟨.inr hdrained, fun id => .inl rfl, rfl, (Int.add_zero _).symm⟩
  · obtain ⟨chosen, rest, hsplit, hne, rfl, hstop, -⟩ := spillSelection_some hsel
    obtain ⟨htotal, husage, hframe, hmoved⟩ := spilled_moves hsplit hne hbatch hs'
    have hchosen : sizeT (chosenBytes env chosen) = chosenBytes env chosen :=
      Nat.mod_eq_of_lt (by omega)
    have hbefore : s.estimateMemoryUsage env = s.memoryTotal env := by
      rw [estimateMemoryUsage_eq, sizeT, Nat.mod_eq_of_lt hfits]
    have hafter : s'.estimateMemoryUsage env = s'.memoryTotal env := by
      rw [estimateMemoryUsage_eq, sizeT, Nat.mod_eq_of_lt (by omega)]
    refine ⟨?_, fun id => ?_, by rw [hafter, hbefore, hchosen]; exact htotal,
      by rw [hchosen]; exact husage⟩
    · rcases hstop with rfl | htarget
      · -- the loop ran to the end: all that was complete has left
        right
        rw [List.append_nil] at hsplit
        intro id e g hmem hptr
        by_contra hc
        by_cases hid : id ∈ chosen.map Prod.fst
        · obtain ⟨p, hp, rfl⟩ := List.mem_map.mp hid
          obtain ⟨e', offset, -, -, hset, -⟩ := hmoved p hp
          rw [get?_eq_some_iff.mpr hmem] at hset
          cases hset
          cases hptr
        · have hold := hframe id hid
          rw [get?_eq_some_iff.mpr hmem] at hold
          have hready : (id, g) ∈ memoryReady s.groups.entries :=
            mem_memoryReady.mpr ⟨e, get?_eq_some_iff.mp hold.symm, hptr, by simpa using hc⟩
          exact hid (List.mem_map.mpr ⟨_, hsplit ▸ hready, rfl⟩)
      · -- the loop broke: the target, wrapped or not, covers the excess
        left
        have hmark : s.memoryFraction env (7 / 10) < 2 ^ 64 := env.memoryBytes_lt ..
        rw [hchosen, spillTarget, hbefore, sizeT] at htarget
        omega
    · by_cases hid : id ∈ chosen.map Prod.fst
      · obtain ⟨p, hp, rfl⟩ := List.mem_map.mp hid
        obtain ⟨e, offset, he, hptr, hset, hfile⟩ := hmoved p hp
        exact .inr ⟨e, p.2, offset, he, hptr, ((chosen_held hsplit).2 p hp).1, hset, hfile⟩
      · exact .inl (hframe id hid)

/-- A spill frees what it must: down to seven tenths of the limit, or until no complete
group is in memory; and so a write that appends leaves the usage under that mark or the
threshold, or memory without complete groups. -/
theorem spill_frees (env : Env) (s : BufferShard) :
    (∀ bytes s', s.memoryTotal env < 2 ^ 64 →
        s.memoryFraction env s.config.spillToDiskThreshold < s.estimateMemoryUsage env →
        s.trySpillGroups env = (.ok bytes, s') → Freed env s s' bytes) ∧
      ∀ t s₁ s', s.writeStart env t = (.appended, s₁) → s₁.memoryTotal env < 2 ^ 64 →
        s.write env t = (.ok true, s') →
        s'.estimateMemoryUsage env ≤
            max (s.memoryFraction env s.config.spillToDiskThreshold)
              (s.memoryFraction env (7 / 10)) ∨
          s'.Drained := by
  refine ⟨fun bytes s' hfits hover h => trySpillGroups_freed hfits hover h, ?_⟩
  intro t s₁ s' hstart hfits hwrite
  have hconfig : s₁.config = s.config := by
    rw [← (writeStart_frame env t s).2, hstart]
  have hfraction : ∀ fraction, s₁.memoryFraction env fraction = s.memoryFraction env fraction :=
    fun fraction => by rw [memoryFraction, memoryFraction, hconfig]
  rw [write, hstart] at hwrite
  simp only at hwrite
  rcases hspill : s₁.trySpillGroups env with ⟨e | bytes, s₂⟩ <;> rw [hspill] at hwrite
  · cases hwrite
  · cases hwrite
    by_cases hover :
        s₁.memoryFraction env s₁.config.spillToDiskThreshold < s₁.estimateMemoryUsage env
    · have hfreed := trySpillGroups_freed hfits hover hspill
      rw [← hfraction (7 / 10)]
      exact hfreed.enough.imp_left fun hle => hle.trans (le_max_right ..)
    · have hnone := (spillSelection_eq_none_iff env s₁).mpr (.inl (not_lt.mp hover))
      rw [trySpillGroups, hnone] at hspill
      cases hspill
      rw [← hfraction, ← hconfig]
      exact .inl ((not_lt.mp hover).trans (le_max_left ..))

/-- Two groups of fifteen bytes, of which one fits: the write of the second spills. -/
theorem spill_frees_second :
    let s := ((create { groupSize := 1, uidDedup := false, maxMemoryBytes := 28 } 0 0).write
      (.sample []) (.bare "u" "a")).2
    let t := Trajectory.bare "v" "b"
    let s₁ := (s.writeStart (.sample []) t).2
    Freed (.sample []) s₁ (s₁.trySpillGroups (.sample [])).2 15 ∧
      ((s.write (.sample []) t).2.estimateMemoryUsage (.sample []) ≤
          max (s.memoryFraction (.sample []) s.config.spillToDiskThreshold)
            (s.memoryFraction (.sample []) (7 / 10)) ∨
        (s.write (.sample []) t).2.Drained) := by
  intro s t s₁
  have hfits : s₁.memoryTotal (.sample []) < 2 ^ 64 := by decide +kernel
  have hspill : (s₁.trySpillGroups (.sample [])).1 = .ok 15 := by decide +kernel
  have hstart : (s.writeStart (.sample []) t).1 = .appended := by decide +kernel
  have hwrite : (s.write (.sample []) t).1 = .ok true := by decide +kernel
  exact ⟨(spill_frees (.sample []) s₁).1 15 _ hfits (by decide +kernel) (Prod.ext hspill rfl),
    (spill_frees (.sample []) s).2 t s₁ _ (Prod.ext hstart rfl) hfits (Prod.ext hwrite rfl)⟩

end Freeing

section Minimality

/-- The shard without the groups of `keys` in memory. -/
def without (keys : List String) (s : BufferShard) : BufferShard :=
  { s with groups := s.groups.mapValues fun id e =>
      if id ∈ keys then { e with groupPtr := none } else e }

theorem without_cons {s : BufferShard} {id : String} {e : GroupEntry}
    (h : s.groups.get? id = some e) (keys : List String) :
    s.without (id :: keys) =
      ({ s with groups := s.groups.set id { e with groupPtr := none } } : BufferShard).without
        keys := by
  simp only [without, BufferShard.mk.injEq, true_and, and_true]
  refine UnorderedMap.ext ?_ rfl
  simp only [UnorderedMap.set, mapValues_entries, List.map_map, List.map_inj_left,
    Function.comp_apply, Prod.mk.injEq, true_and]
  rintro ⟨id', e'⟩ hmem
  by_cases hid : id' = id
  · subst hid
    rw [value_unique hmem (get?_eq_some_iff.mp h)]
    simp
  · simp [hid]

theorem without_total (env : Env) {chosen : List (String × TrajectoryGroup)}
    (hids : (chosen.map Prod.fst).Nodup) {s : BufferShard}
    (hheld : ∀ p ∈ chosen, ∃ e, s.groups.get? p.1 = some e ∧ e.groupPtr = some p.2) :
    (s.without (chosen.map Prod.fst)).memoryTotal env + chosenBytes env chosen =
      s.memoryTotal env := by
  induction chosen generalizing s with
  | nil =>
    have hself : s.without [] = s := by
      simp [without, mapValues_self]
    simp [hself, chosenBytes]
  | cons p chosen ih =>
    obtain ⟨id, g⟩ := p
    obtain ⟨e, he, hp⟩ := hheld (id, g) List.mem_cons_self
    have hrest := ih (List.nodup_cons.mp hids).2
      (s := { s with groups := s.groups.set id { e with groupPtr := none } }) fun q hq => by
        rw [get?_set_ne _ (ne_of_mem_of_not_mem (List.mem_map_of_mem hq)
          (List.nodup_cons.mp hids).1)]
        exact hheld q (List.mem_cons_of_mem _ hq)
    have htotal := memoryTotal_set env he { e with groupPtr := none } s.diskUsageBytes
    have hbytes : memoryBytes env e = env.byteSizeLong g := by simp [memoryBytes, hp]
    have hnone : memoryBytes env { e with groupPtr := none } = 0 := rfl
    rw [hbytes, hnone, Nat.add_zero] at htotal
    rw [List.map_cons, without_cons he, ← htotal, ← hrest]
    simp only [chosenBytes, List.map_cons, List.sum_cons]
    omega

/-- `⌊0.7 * max_memory_bytes⌋`, computed exactly. -/
def sevenTenths (config : TransferQueueConfig) : ℕ := ⌊(config.maxMemoryBytes * (7 / 10) : ℚ)⌋.toNat

/-- If the spill goes on to select groups, the subtraction of its target does not
underflow, and the usage without all but the last group selected is still over seven
tenths. -/
def SpillsSparingly (env : Env) (s : BufferShard) : Prop :=
  s.memoryFraction env s.config.spillToDiskThreshold < s.estimateMemoryUsage env →
    s.memoryFraction env (7 / 10) ≤ s.estimateMemoryUsage env ∧
      sevenTenths s.config ≤ s.estimateMemoryUsage env ∧
      ∀ selection, s.spillSelection env = some selection →
        sevenTenths s.config < (s.without selection.keys.dropLast).estimateMemoryUsage env

/-- Before some complete group in memory, those ahead of it would leave a usage above the mark
that the code has computed, but not above seven tenths. -/
def Overshoots (env : Env) (s : BufferShard) : Prop :=
  ∃ init next rest, memoryReady s.groups.entries = init ++ next :: rest ∧
    s.memoryFraction env (7 / 10) < (s.without (init.map Prod.fst)).estimateMemoryUsage env ∧
    (s.without (init.map Prod.fst)).estimateMemoryUsage env ≤ sevenTenths s.config

theorem usage_without (env : Env) {s : BufferShard} {init rest : List (String × TrajectoryGroup)}
    (hsplit : memoryReady s.groups.entries = init ++ rest)
    (hbelow : sizeT (chosenBytes env init) ≤ s.estimateMemoryUsage env) :
    (s.without (init.map Prod.fst)).estimateMemoryUsage env + sizeT (chosenBytes env init) =
      s.estimateMemoryUsage env := by
  obtain ⟨hids, hheld⟩ := chosen_held hsplit
  have htotal := without_total env hids fun p hp => (hheld p hp).2
  rw [estimateMemoryUsage_eq, sizeT, sizeT] at hbelow ⊢
  rw [estimateMemoryUsage_eq, sizeT]
  omega

theorem estimateMemoryUsage_lt (env : Env) (s : BufferShard) :
    s.estimateMemoryUsage env < 2 ^ 64 := by
  rw [estimateMemoryUsage_eq]
  exact Nat.mod_lt _ (Nat.two_pow_pos 64)

theorem spillTarget_eq {s : BufferShard}
    (h : s.memoryFraction env (7 / 10) ≤ s.estimateMemoryUsage env) :
    s.spillTarget env = s.estimateMemoryUsage env - s.memoryFraction env (7 / 10) := by
  have hsize := s.estimateMemoryUsage_lt env
  rw [spillTarget, Nat.sub_add_comm h, sizeT, Nat.add_mod_right, Nat.mod_eq_of_lt (by omega)]

theorem without_nil (s : BufferShard) : s.without [] = s := by
  simp [without, mapValues_self]

/-- If the target does not wrap, the groups before the last one selected leave the usage above
the mark, unless the last one is the first. -/
theorem selection_last {s : BufferShard}
    (hmark : s.memoryFraction env (7 / 10) ≤ s.estimateMemoryUsage env)
    {selection : SpillSelection} (hsel : s.spillSelection env = some selection) :
    ∃ init last rest, memoryReady s.groups.entries = init ++ last :: rest ∧
      selection.keys.dropLast = init.map Prod.fst ∧
      (rest = [] ∨ s.spillTarget env ≤ sizeT (chosenBytes env (init ++ [last]))) ∧
      (init = [] ∨ s.memoryFraction env (7 / 10) <
        (s.without (init.map Prod.fst)).estimateMemoryUsage env) := by
  obtain ⟨chosen, rest, hsplit, hne, rfl, hstop, hshort⟩ := spillSelection_some hsel
  obtain ⟨init, last, rfl⟩ := List.eq_nil_or_concat' chosen |>.resolve_left hne
  rw [List.append_assoc] at hsplit
  refine ⟨init, last, rest, hsplit, by simp, hstop, or_iff_not_imp_left.mpr fun hinit => ?_⟩
  have hneeded := hshort init last rfl hinit
  rw [spillTarget_eq hmark] at hneeded
  have husage := usage_without env hsplit (by omega)
  omega

theorem sparing_of_excess {s : BufferShard}
    (hmark : s.memoryFraction env (7 / 10) ≤ s.estimateMemoryUsage env)
    (hexcess : sevenTenths s.config < s.estimateMemoryUsage env)
    (hover : ¬s.Overshoots env) {selection : SpillSelection}
    (hsel : s.spillSelection env = some selection) :
    sevenTenths s.config < (s.without selection.keys.dropLast).estimateMemoryUsage env := by
  obtain ⟨init, last, rest, hsplit, hkeys, -, hinit⟩ := selection_last hmark hsel
  rw [hkeys]
  rcases hinit with rfl | habove
  · rwa [List.map_nil, without_nil]
  · by_contra hle
    exact hover ⟨init, last, rest, hsplit, habove, not_lt.mp hle⟩

theorem usage_prefix {s : BufferShard} (hfits : s.memoryTotal env < 2 ^ 64)
    {init rest : List (String × TrajectoryGroup)}
    (hsplit : memoryReady s.groups.entries = init ++ rest) :
    sizeT (chosenBytes env init) = chosenBytes env init ∧
      (s.without (init.map Prod.fst)).estimateMemoryUsage env + chosenBytes env init =
        s.estimateMemoryUsage env := by
  obtain ⟨hids, hheld⟩ := chosen_held hsplit
  have htotal := without_total env hids fun p hp => (hheld p hp).2
  rw [estimateMemoryUsage_eq, estimateMemoryUsage_eq, sizeT, sizeT, sizeT,
    Nat.mod_eq_of_lt (by omega), Nat.mod_eq_of_lt (by omega), Nat.mod_eq_of_lt hfits]
  exact ⟨rfl, htotal⟩

theorem chosenBytes_append (env : Env) (chosen chosen' : List (String × TrajectoryGroup)) :
    chosenBytes env (chosen ++ chosen') = chosenBytes env chosen + chosenBytes env chosen' := by
  rw [chosenBytes, List.map_append, List.sum_append]
  rfl

theorem not_overshoots {s : BufferShard} (hfits : s.memoryTotal env < 2 ^ 64)
    (hmark : s.memoryFraction env (7 / 10) ≤ s.estimateMemoryUsage env)
    {selection : SpillSelection} (hsel : s.spillSelection env = some selection)
    (hlast : sevenTenths s.config <
      (s.without selection.keys.dropLast).estimateMemoryUsage env) : ¬s.Overshoots env := by
  rintro ⟨init', next, rest', hsplit', habove, hbelow⟩
  obtain ⟨init, last, rest, hsplit, hkeys, hstop, -⟩ := selection_last hmark hsel
  rw [hkeys] at hlast
  obtain ⟨-, husage⟩ := usage_prefix hfits hsplit
  obtain ⟨-, husage'⟩ := usage_prefix hfits hsplit'
  have hsame : init ++ last :: rest = init' ++ next :: rest' := hsplit.symm.trans hsplit'
  rcases List.append_eq_append_iff.mp hsame with ⟨more, rfl, hrest⟩ | ⟨more, rfl, -⟩
  · cases more with
    | nil =>
      rw [List.append_nil] at hbelow
      omega
    | cons p more =>
      -- the loop has stopped at `last`, so what is left then is not above the mark
      obtain ⟨rfl, rfl⟩ := List.cons.inj hrest
      have hchosen :
          memoryReady s.groups.entries = (init ++ [last]) ++ (more ++ next :: rest') := by
        rw [hsplit, List.append_assoc]
        rfl
      obtain ⟨hsize, -⟩ := usage_prefix hfits hchosen
      have hmore : chosenBytes env (init ++ last :: more) =
          chosenBytes env (init ++ [last]) + chosenBytes env more := by
        rw [← chosenBytes_append, List.append_assoc]
        rfl
      rcases hstop with hnil | htarget
      · simp at hnil
      · rw [hsize, spillTarget_eq hmark] at htarget
        omega
  · rw [chosenBytes_append] at husage
    omega

/-- State by state: a spill is sparing exactly when it is not due, or the usage is at least the
mark and seven tenths, and there is nothing to spill or the usage is above seven tenths and
does not come to lie between the two. -/
theorem spillsSparingly_iff {s : BufferShard} (hfits : s.memoryTotal env < 2 ^ 64) :
    s.SpillsSparingly env ↔
      s.estimateMemoryUsage env ≤ s.memoryFraction env s.config.spillToDiskThreshold ∨
        s.memoryFraction env (7 / 10) ≤ s.estimateMemoryUsage env ∧
          sevenTenths s.config ≤ s.estimateMemoryUsage env ∧
          (s.Drained ∨
            sevenTenths s.config < s.estimateMemoryUsage env ∧ ¬s.Overshoots env) := by
  rw [SpillsSparingly, ← not_lt (b := s.estimateMemoryUsage env), ← imp_iff_not_or]
  refine imp_congr_right fun hover => and_congr_right fun hmark => and_congr_right fun hle => ?_
  constructor
  · intro hlast
    refine or_iff_not_imp_left.mpr fun hready => ?_
    obtain ⟨selection, hsel⟩ := Option.ne_none_iff_exists'.mp fun hnone =>
      hready (((spillSelection_eq_none_iff env s).mp hnone).resolve_left hover.not_ge)
    refine ⟨?_, not_overshoots hfits hmark hsel (hlast selection hsel)⟩
    obtain ⟨init, last, rest, hsplit, hkeys, -⟩ := selection_last hmark hsel
    have hlast' := hlast selection hsel
    obtain ⟨-, husage⟩ := usage_prefix hfits hsplit
    rw [hkeys] at hlast'
    omega
  · rintro (hdrained | ⟨hexcess, hnot⟩) selection hsel
    · rw [(spillSelection_eq_none_iff env s).mpr (.inr hdrained)] at hsel
      cases hsel
    · exact sparing_of_excess hmark hexcess hnot hsel

/-- A shard that holds one complete group and nothing else. -/
def holdingOne (config : TransferQueueConfig) : BufferShard :=
  { create config 0 0 with
    groups := UnorderedMap.empty.insert (fun _ _ => 0) "a"
      { groupPtr := some ⟨"a", [], 0, true⟩ } }

/-- The same with another complete group before it. -/
def holdingTwo (config : TransferQueueConfig) : BufferShard :=
  { holdingOne config with
    groups := (holdingOne config).groups.insert (fun _ _ => 0) "b"
      { groupPtr := some ⟨"b", [], 0, true⟩ } }

/-- The environment in which the group of "b" has `first` bytes and any other `second`. -/
def sized (env : Env) {first second : ℕ} (hfirst : 0 < first) (hsecond : 0 < second) : Env :=
  { env with
    byteSizeLong := fun g => if g.instanceId = "b" then first else second
    byteSizeLong_pos := fun g _ => by split <;> assumption }

section Sized
variable (env : Env) (config : TransferQueueConfig) {first second : ℕ} (hfirst : 0 < first)
  (hsecond : 0 < second)

theorem holdingOne_total :
    (holdingOne config).memoryTotal (sized env hfirst hsecond) = second := by
  change second + (holdingOne config).filterBytes = second
  simp [filterBytes, holdingOne, create, DedupFilter.create, DedupFilter.bloomBitCount,
    DedupFilter.size]

theorem holdingTwo_entries : (holdingTwo config).groups.entries =
    [("b", { groupPtr := some ⟨"b", [], 0, true⟩ }),
      ("a", { groupPtr := some ⟨"a", [], 0, true⟩ })] := by
  change (holdingTwo {}).groups.entries = _
  decide +kernel

theorem holdingTwo_total :
    (holdingTwo config).memoryTotal (sized env hfirst hsecond) = first + second := by
  rw [memoryTotal, UnorderedMap.sum, holdingTwo_entries]
  simp [filterBytes, holdingTwo, holdingOne, create, DedupFilter.create, DedupFilter.bloomBitCount,
    DedupFilter.size, memoryBytes, sized]

theorem holdingOne_sparing (h : (holdingOne config).SpillsSparingly (sized env hfirst hsecond))
    (hfits : second < 2 ^ 64)
    (hover : env.memoryBytes config.maxMemoryBytes config.spillToDiskThreshold < second) :
    env.memoryBytes config.maxMemoryBytes (7 / 10) ≤ second ∧ sevenTenths config < second := by
  have htotal := holdingOne_total env config hfirst hsecond
  have husage : (holdingOne config).estimateMemoryUsage (sized env hfirst hsecond) = second := by
    rw [estimateMemoryUsage_eq, htotal]
    exact Nat.mod_eq_of_lt hfits
  rw [← htotal] at hfits
  rcases (spillsSparingly_iff hfits).mp h with hle | ⟨hmark, -, hdrained | ⟨hexcess, -⟩⟩
  · exact absurd (husage ▸ hle) hover.not_ge
  · exact absurd (hdrained "a" _ ⟨"a", [], 0, true⟩ List.mem_cons_self rfl) (by simp)
  · exact ⟨husage ▸ hmark, husage ▸ hexcess⟩

theorem holdingTwo_sparing (h : (holdingTwo config).SpillsSparingly (sized env hfirst hsecond))
    (hfits : first + second < 2 ^ 64)
    (hover : env.memoryBytes config.maxMemoryBytes config.spillToDiskThreshold < first + second)
    (hsecond' : second = sevenTenths config) :
    sevenTenths config ≤ env.memoryBytes config.maxMemoryBytes (7 / 10) := by
  have htotal := holdingTwo_total env config hfirst hsecond
  have husage : (holdingTwo config).estimateMemoryUsage (sized env hfirst hsecond) =
      first + second := by
    rw [estimateMemoryUsage_eq, htotal]
    exact Nat.mod_eq_of_lt hfits
  have hready : memoryReady (holdingTwo config).groups.entries =
      [("b", ⟨"b", [], 0, true⟩)] ++ ("a", ⟨"a", [], 0, true⟩) :: [] := by
    rw [holdingTwo_entries]
    rfl
  by_contra hbelow
  rw [← htotal] at hfits
  rcases (spillsSparingly_iff hfits).mp h with hle | ⟨-, -, hdrained | ⟨-, hnot⟩⟩
  · exact absurd (husage ▸ hle) hover.not_ge
  · rw [drained_iff, hready] at hdrained
    cases hdrained
  · obtain ⟨-, hwithout⟩ := usage_prefix hfits hready
    rw [husage] at hwithout
    have hfirst' : chosenBytes (sized env hfirst hsecond) [("b", ⟨"b", [], 0, true⟩)] = first := rfl
    refine hnot ⟨_, _, _, hready, ?_, ?_⟩
    · change env.memoryBytes config.maxMemoryBytes (7 / 10) < _
      omega
    · change _ ≤ sevenTenths config
      omega

end Sized

/-- In a state whose sizes add up to a `size_t`, spilling is sparing exactly if the spill is not
due, or the usage is at least the mark and seven tenths, and there is nothing to spill or
the usage is above seven tenths and comes to lie nowhere between the two. Under a
configuration it is sparing in every state exactly if no usage is over the threshold, or
seven tenths is at most the threshold and the mark, and the mark at most one above the
threshold. -/
theorem spill_sparing_iff (env : Env) (config : TransferQueueConfig) :
    (∀ s : BufferShard, s.config = config → s.memoryTotal env < 2 ^ 64 →
      (s.SpillsSparingly env ↔
        s.estimateMemoryUsage env ≤ s.memoryFraction env config.spillToDiskThreshold ∨
          s.memoryFraction env (7 / 10) ≤ s.estimateMemoryUsage env ∧
            sevenTenths config ≤ s.estimateMemoryUsage env ∧
            (s.Drained ∨ sevenTenths config < s.estimateMemoryUsage env ∧ ¬s.Overshoots env))) ∧
      ((∀ env' : Env, env'.memoryBytes = env.memoryBytes →
          ∀ s : BufferShard, s.config = config → s.SpillsSparingly env') ↔
        let threshold := env.memoryBytes config.maxMemoryBytes config.spillToDiskThreshold
        let mark := env.memoryBytes config.maxMemoryBytes (7 / 10)
        threshold = 2 ^ 64 - 1 ∨
          sevenTenths config ≤ threshold ∧ sevenTenths config ≤ mark ∧ mark ≤ threshold + 1) := by
  refine ⟨fun s hconfig hfits => hconfig ▸ spillsSparingly_iff hfits, ?_⟩
  constructor
  · intro h threshold mark
    refine or_iff_not_imp_left.mpr fun hbelow => ?_
    have hthreshold : threshold < 2 ^ 64 := env.memoryBytes_lt ..
    obtain ⟨hmark, hseven⟩ := holdingOne_sparing env config Nat.one_pos threshold.succ_pos
      (h (sized env _ _) rfl (holdingOne config) rfl) (by omega) (Nat.lt_succ_self _)
    refine ⟨by omega, ?_, hmark⟩
    rcases Nat.eq_zero_or_pos (sevenTenths config) with hzero | hpos
    · exact hzero ▸ Nat.zero_le _
    · have hgap : 0 < threshold + 1 - sevenTenths config := by omega
      exact holdingTwo_sparing env config hgap hpos
        (h (sized env _ _) rfl (holdingTwo config) rfl) (by omega)
        (by change threshold < _; omega) rfl
  · intro hcondition env' hbytes s hconfig hover
    subst hconfig
    have husage := s.estimateMemoryUsage_lt env'
    have hmark : s.memoryFraction env' (7 / 10) =
        env.memoryBytes s.config.maxMemoryBytes (7 / 10) := congrFun (congrFun hbytes _) _
    rw [memoryFraction, hbytes] at hover
    obtain ⟨hseven, hseven', hmark'⟩ := hcondition.resolve_left (by omega)
    refine ⟨by omega, by omega, fun selection hsel => ?_⟩
    refine sparing_of_excess (by omega) (by omega) ?_ hsel
    rintro ⟨init, next, rest, -, habove, hle⟩
    omega

/-- The default threshold of eighty percent is sparing in every state. -/
theorem spill_sparing_default : (create {} 0 0).SpillsSparingly (.sample []) := by
  have hmarks : sevenTenths {} ≤ doubleBytes (8 * 1024 * 1024 * 1024) (4 / 5) ∧
      sevenTenths {} ≤ doubleBytes (8 * 1024 * 1024 * 1024) (7 / 10) ∧
        doubleBytes (8 * 1024 * 1024 * 1024) (7 / 10) ≤
          doubleBytes (8 * 1024 * 1024 * 1024) (4 / 5) + 1 := by
    decide +kernel
  exact (spill_sparing_iff (.sample []) {}).2.mpr (.inr hmarks) (.sample []) rfl (create {} 0 0) rfl

/-- With a limit of 28 bytes spilled from half of it on, the first group of fifteen bytes
meets a target of nineteen: the difference wraps, and the group is spilled. With a limit of 90
bytes and the default threshold, the mark comes out at 62: a usage of 78 bytes is brought down
to 63, seven tenths of the limit, and then the last group is spilled as well. -/
theorem spill_unsparing :
    let config : TransferQueueConfig :=
      { groupSize := 1, uidDedup := false, maxMemoryBytes := 28, spillToDiskThreshold := 1 / 2 }
    let s := ((create config 0 0).writeStart (.sample []) (.bare "u" "a")).2
    let config' : TransferQueueConfig := { groupSize := 1, uidDedup := false, maxMemoryBytes := 90 }
    let uid := "a uid that makes its group sixty-three bytes long"
    let s' := (((create config' 0 0).write (.sample []) (.bare uid "b")).2.writeStart
      (.sample []) (.bare "u" "a")).2
    (0 < config.maxMemoryBytes ∧ 0 < config.spillToDiskThreshold ∧
      s.spillTarget (.sample []) = 2 ^ 64 - 4 ∧
      (s.trySpillGroups (.sample [])).1 = .ok 15 ∧ ¬s.SpillsSparingly (.sample [])) ∧
    s'.estimateMemoryUsage (.sample []) = 78 ∧ s'.memoryFraction (.sample []) (7 / 10) = 62 ∧
      sevenTenths config' = 63 ∧ (s'.trySpillGroups (.sample [])).1 = .ok 78 ∧
      ¬s'.SpillsSparingly (.sample []) := by
  intro config s config' uid s'
  have husage : s.estimateMemoryUsage (.sample []) = 15 := by decide +kernel
  have hthreshold : s.memoryFraction (.sample []) s.config.spillToDiskThreshold = 14 := by
    decide +kernel
  have hmark : s.memoryFraction (.sample []) (7 / 10) = 19 := by decide +kernel
  refine ⟨⟨by decide, by decide +kernel, by decide +kernel, by decide +kernel, fun h => ?_⟩, ?_⟩
  · have hle := (h (by rw [hthreshold, husage]; decide)).1
    rw [hmark, husage] at hle
    exact absurd hle (by decide)
  · have husage' : s'.estimateMemoryUsage (.sample []) = 78 := by decide +kernel
    have hthreshold' : s'.memoryFraction (.sample []) s'.config.spillToDiskThreshold = 72 := by
      decide +kernel
    have hseven : sevenTenths s'.config = 63 := by decide +kernel
    have hkeys : (s'.spillSelection (.sample [])).map SpillSelection.keys = some ["a", "b"] := by
      decide +kernel
    have hwithout : (s'.without ["a"]).estimateMemoryUsage (.sample []) = 63 := by decide +kernel
    refine ⟨husage', by decide +kernel, by decide +kernel, by decide +kernel, fun h => ?_⟩
    obtain ⟨selection, hsel, hselected⟩ := Option.map_eq_some_iff.mp hkeys
    have hlast := (h (by rw [hthreshold', husage']; decide)).2.2 selection hsel
    rw [hselected, hseven] at hlast
    exact absurd (hwithout ▸ hlast) (lt_irrefl 63)

end Minimality

end BufferShard
end TransferQueue
