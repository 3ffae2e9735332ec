import TransferQueue.FaultyRuns
import TransferQueue.Library.Sharded

/-! The buffer over all cores, one shard each. A read asks every shard for the whole
limit and cuts what they gave at it, so a limited read can drop groups it has taken;
what it leaves in the shards stays ready. -/

namespace TransferQueue

/-- One shard a core. -/
structure BufferManager (smpCount : ℕ) where
  config : TransferQueueConfig
  shards : Fin smpCount → BufferShard

namespace BufferManager

variable {k : ℕ}

def start (k : ℕ) (config : TransferQueueConfig) (bitCount numHashes : ℕ) : BufferManager k where
  config
  shards _ := .create config bitCount numHashes

section Read
variable (env : Fin k → Env)

/-- The manager after each core has executed the operations submitted to it. -/
def serve (ops : Fin k → List Op) (m : BufferManager k) : BufferManager k :=
  { m with shards := fun i => (m.shards i).run (env i) (ops i) }

/-- The vector cut at the limit; its length is compared as an `int32_t`. -/
def truncate (maxGroups : Int32) (merged : List TrajectoryGroup) : List TrajectoryGroup :=
  if 0 < maxGroups ∧ maxGroups < Int32.ofNat merged.length
  then merged.take maxGroups.toNatClampNeg else merged

def readReadyGroups (m : BufferManager k) (maxGroups : Int32) :
    Except Failure (List TrajectoryGroup) × BufferManager k :=
  let r := Sharded.map (fun i shard => shard.readReadyGroups (env i) maxGroups) m.shards
  (r.1.map fun perShard => truncate maxGroups perShard.flatten, { m with shards := r.2 })

/-- The groups a read removes from the shards, in the order it merges them. -/
def removed (m : BufferManager k) (maxGroups : Int32) : List TrajectoryGroup :=
  (List.finRange k).flatMap fun i =>
    ((m.shards i).readReadyGroups (env i) maxGroups).1.toOption.getD []

def readyGroups (m : BufferManager k) : List TrajectoryGroup :=
  (List.finRange k).flatMap fun i => (m.shards i).readyGroups

/-- Every ready group is in the vector returned or still ready, and only once. -/
def LosesNothing (m : BufferManager k) (maxGroups : Int32) : Prop :=
  ∃ returned, (m.readReadyGroups env maxGroups).1 = .ok returned ∧
    (returned ++ (m.readReadyGroups env maxGroups).2.readyGroups).Perm m.readyGroups

end Read

section Truncation

theorem truncate_eq_limitTo (maxGroups : Int32) {merged : List TrajectoryGroup}
    (h : merged.length < 2 ^ 31) :
    truncate maxGroups merged = BufferShard.limitTo maxGroups 0 merged := by
  have hlen := Int32.toInt_ofNat_of_lt h
  rw [truncate, BufferShard.limitTo, Nat.sub_zero]
  by_cases hpos : 0 < maxGroups
  · obtain ⟨hzero, hclamp⟩ := BufferShard.limit_pos hpos
    simp only [hpos, true_and, if_true]
    split
    · rfl
    · rename_i hle
      rw [Int32.lt_iff_toInt_lt, hlen] at hle
      exact (List.take_of_length_le (by omega)).symm
  · simp [hpos]

end Truncation

section Drain
variable (env : Fin k → Env)

def Succeeds (m : BufferManager k) (maxGroups : Int32) : Prop :=
  ∃ returned, (m.readReadyGroups env maxGroups).1 = .ok returned

/-- A read with a positive limit takes the ready groups at the head of every shard, up
to the limit, and answers with what it took, cut at the limit. -/
structure ReadTakes (m : BufferManager k) (maxGroups : Int32) : Prop where
  answers : (m.readReadyGroups env maxGroups).1 = .ok (truncate maxGroups (m.removed env maxGroups))
  removes : (m.removed env maxGroups).Perm
    ((List.finRange k).flatMap fun i =>
      (m.shards i).readyGroups.take maxGroups.toNatClampNeg)
  leaves : ∀ i, ((m.readReadyGroups env maxGroups).2.shards i).readyGroups =
    (m.shards i).readyGroups.drop maxGroups.toNatClampNeg
  /-- Nothing is lost exactly if the shards together stay within the limit. -/
  lossless : (m.removed env maxGroups).length < 2 ^ 31 →
    (m.LosesNothing env maxGroups ↔
      (m.removed env maxGroups).length ≤ maxGroups.toNatClampNeg)

/-- Every shard is in a state of a run, whatever has failed in it. -/
def Coherent (m : BufferManager k) : Prop := ∀ i, (m.shards i).Coherent (env i)

variable {env}

theorem coherent_serve (config : TransferQueueConfig) (bitCount numHashes : ℕ)
    (ops : Fin k → List Op) :
    ((start k config bitCount numHashes).serve env ops).Coherent env := fun i =>
  (BufferShard.Coherent.create config bitCount numHashes).run (ops i)

theorem Coherent.readReadyGroups {m : BufferManager k} (hs : m.Coherent env)
    (maxGroups : Int32) : (m.readReadyGroups env maxGroups).2.Coherent env := fun i =>
  (hs i).readReadyGroups maxGroups

theorem readReadyGroups_error_iff {m : BufferManager k} {maxGroups : Int32} :
    (∃ e, (m.readReadyGroups env maxGroups).1 = .error e) ↔
      ∃ i e, ((m.shards i).readReadyGroups (env i) maxGroups).1 = .error e := by
  refine Iff.trans ?_ (Sharded.map_error_iff
    (f := fun i shard => BufferShard.readReadyGroups (env i) maxGroups shard) (s := m.shards))
  rw [BufferManager.readReadyGroups]
  cases (Sharded.map (fun i shard => BufferShard.readReadyGroups (env i) maxGroups shard)
    m.shards).1 <;> simp [Except.map]

theorem Succeeds.shard {m : BufferManager k} {maxGroups : Int32} (h : m.Succeeds env maxGroups)
    (i : Fin k) : ∃ result, ((m.shards i).readReadyGroups (env i) maxGroups).1 = .ok result := by
  obtain ⟨returned, hok⟩ := h
  cases hi : ((m.shards i).readReadyGroups (env i) maxGroups).1 with
  | ok result => exact ⟨result, rfl⟩
  | error e =>
    obtain ⟨e', he'⟩ := readReadyGroups_error_iff.mpr ⟨i, e, hi⟩
    cases hok.symm.trans he'

theorem Succeeds.answer {m : BufferManager k} {maxGroups : Int32} (h : m.Succeeds env maxGroups) :
    (m.readReadyGroups env maxGroups).1 = .ok (truncate maxGroups (m.removed env maxGroups)) := by
  choose result hread using h.shard
  have hremoved : m.removed env maxGroups = (List.finRange k).flatMap result := by
    simp only [removed, hread, Except.toOption, Option.getD_some]
  have hmap : (Sharded.map (fun i shard => shard.readReadyGroups (env i) maxGroups)
      m.shards).1 = .ok ((List.finRange k).map result) := Sharded.map_ok hread
  simp only [BufferManager.readReadyGroups, hmap, hremoved]
  rfl

/-- A read that succeeds: each shard gives its ready groups up to the limit. -/
theorem readReadyGroups_ok {m : BufferManager k} (hs : m.Coherent env) {maxGroups : Int32}
    (hok : m.Succeeds env maxGroups) :
    (m.readReadyGroups env maxGroups).1 = .ok (truncate maxGroups (m.removed env maxGroups)) ∧
      (m.removed env maxGroups).Perm ((List.finRange k).flatMap fun i =>
        BufferShard.limitTo maxGroups 0 (m.shards i).readyGroups) ∧
      ∀ i, BufferShard.limitTo maxGroups 0 (m.shards i).readyGroups ++
        ((m.readReadyGroups env maxGroups).2.shards i).readyGroups =
          (m.shards i).readyGroups := by
  choose result hread using hok.shard
  have htakes := fun i => BufferShard.readReadyGroups_takes (hs i).initialized (hs i).exclusive
    maxGroups (hread i)
  have hremoved : m.removed env maxGroups = (List.finRange k).flatMap result := by
    simp only [removed, hread, Except.toOption, Option.getD_some]
  refine ⟨hok.answer, ?_, fun i => (htakes i).2⟩
  rw [hremoved]
  exact List.Perm.flatMap_left _ fun i _ => (htakes i).1

theorem readyGroups_split {m m' : BufferManager k} {taken : Fin k → List TrajectoryGroup}
    (h : ∀ i, taken i ++ (m'.shards i).readyGroups = (m.shards i).readyGroups) :
    ((List.finRange k).flatMap taken ++ m'.readyGroups).Perm m.readyGroups := by
  have hsplit := List.flatMap_append_perm (List.finRange k) taken
    fun i => (m'.shards i).readyGroups
  simp only [h] at hsplit
  exact hsplit

theorem removed_append_readyGroups {m : BufferManager k} (hs : m.Coherent env)
    {maxGroups : Int32} (hok : m.Succeeds env maxGroups) :
    (m.removed env maxGroups ++ (m.readReadyGroups env maxGroups).2.readyGroups).Perm
      m.readyGroups := by
  obtain ⟨-, hremoves, hleaves⟩ := readReadyGroups_ok hs hok
  exact (hremoves.append_right _).trans (readyGroups_split hleaves)

theorem losesNothing_iff {m : BufferManager k} (hs : m.Coherent env) {maxGroups : Int32}
    (hok : m.Succeeds env maxGroups) (hpos : 0 < maxGroups)
    (hlen : (m.removed env maxGroups).length < 2 ^ 31) :
    m.LosesNothing env maxGroups ↔
      (m.removed env maxGroups).length ≤ maxGroups.toNatClampNeg := by
  have hanswers := (readReadyGroups_ok hs hok).1
  have htotal := removed_append_readyGroups hs hok
  have hcut := truncate_eq_limitTo maxGroups hlen
  rw [BufferShard.limitTo, if_pos hpos, Nat.sub_zero] at hcut
  rw [hcut] at hanswers
  constructor
  · rintro ⟨returned, hreturned, hall⟩
    obtain rfl := Except.ok.inj (hanswers.symm.trans hreturned)
    have hcount := hall.length_eq.trans htotal.length_eq.symm
    simp only [List.length_append, List.length_take] at hcount
    omega
  · intro hle
    rw [List.take_of_length_le hle] at hanswers
    exact ⟨_, hanswers, htotal⟩

theorem readReadyGroups_takes {m : BufferManager k} (hs : m.Coherent env) {maxGroups : Int32}
    (hok : m.Succeeds env maxGroups) (hpos : 0 < maxGroups) : m.ReadTakes env maxGroups := by
  obtain ⟨hanswers, hremoves, hleaves⟩ := readReadyGroups_ok hs hok
  simp only [BufferShard.limitTo, if_pos hpos, Nat.sub_zero] at hremoves hleaves
  refine ⟨hanswers, hremoves, fun i => ?_, losesNothing_iff hs hok hpos⟩
  exact List.append_cancel_left ((hleaves i).trans (List.take_append_drop _ _).symm)

theorem reads_partition {m : BufferManager k} (hs : m.Coherent env) {limits : List Int32}
    (hok : Machine.Along (readReadyGroups env) (Succeeds env) m limits) :
    (Machine.record (readReadyGroups env) (removed env) m limits ++
      (Machine.final (readReadyGroups env) m limits).readyGroups).Perm m.readyGroups := by
  refine Machine.record_of_along (Coherent env)
    (R := fun m l m' => (l ++ m'.readyGroups).Perm m.readyGroups) (fun _ => .refl _) ?_ ?_
    limits hs hok
  · intro m₁ m₂ m₃ l l' h h'
    rw [List.append_assoc]
    exact (h'.append_left l).trans h
  · intro m n hm hn
    exact ⟨removed_append_readyGroups hm hn, hm.readReadyGroups n⟩

theorem reads_drop {m : BufferManager k} (hs : m.Coherent env) {limits : List Int32}
    (htakes : Machine.Along (readReadyGroups env) (ReadTakes env) m limits) (i : Fin k) :
    ((Machine.final (readReadyGroups env) m limits).shards i).readyGroups =
      (m.shards i).readyGroups.drop (limits.map Int32.toNatClampNeg).sum := by
  induction limits generalizing m with
  | nil => rfl
  | cons n limits ih =>
    rw [Machine.final_cons, ih (hs.readReadyGroups n) htakes.2, htakes.1.leaves, List.drop_drop,
      List.map_cons, List.sum_cons]

/-- Whatever the distribution of the ready groups and whatever has failed before, each
read of a sequence of successful limited reads takes the ready groups at the head of
every shard and answers with them cut at the limit; no ready group is taken twice,
and none left behind is lost. -/
theorem limited_reads_drain (env : Fin k → Env) (config : TransferQueueConfig)
    (bitCount numHashes : ℕ) (ops : Fin k → List Op) (limits : List Int32) :
    let m := (start k config bitCount numHashes).serve env ops
    let final := Machine.final (readReadyGroups env) m limits
    (∀ n ∈ limits, 0 < n) → Machine.Along (readReadyGroups env) (Succeeds env) m limits →
      Machine.Along (readReadyGroups env) (ReadTakes env) m limits ∧
        (Machine.record (readReadyGroups env) (removed env) m limits ++
          final.readyGroups).Perm m.readyGroups ∧
        ∀ i, (final.shards i).readyGroups =
          (m.shards i).readyGroups.drop (limits.map Int32.toNatClampNeg).sum := by
  intro m final hpos hok
  have hs : m.Coherent env := coherent_serve config bitCount numHashes ops
  have htakes : Machine.Along (readReadyGroups env) (ReadTakes env) m limits :=
    (Machine.along_of_inv (Coherent env)
      (fun _ n hm hn => ⟨readReadyGroups_takes hm hn.1 hn.2, hm.readReadyGroups n⟩) limits hs
      (hok.and (Machine.along_of_mem hpos m))).1
  exact ⟨htakes, reads_partition hs hok, reads_drop hs htakes⟩

end Drain

section Samples

def twoReady : BufferManager 2 :=
  (start 2 { groupSize := 1, uidDedup := false } 0 0).serve (fun _ => .sample []) fun i =>
    if i = 0 then [.write (.bare "u" "a")] else [.write (.bare "v" "b")]

theorem limited_reads_drain_two :
    let env : Fin 2 → Env := fun _ => .sample []
    let final := Machine.final (readReadyGroups env) twoReady [1]
    Machine.Along (readReadyGroups env) (ReadTakes env) twoReady [1] ∧
      (Machine.record (readReadyGroups env) (removed env) twoReady [1] ++
        final.readyGroups).Perm twoReady.readyGroups ∧
      ∀ i, (final.shards i).readyGroups = (twoReady.shards i).readyGroups.drop 1 :=
  limited_reads_drain (fun _ => .sample []) { groupSize := 1, uidDedup := false } 0 0 _ [1]
    (List.forall_mem_singleton.mpr (by decide))
    ⟨⟨(twoReady.removed (fun _ => .sample []) 1).take 1, by decide +kernel⟩, trivial⟩

/-- A read of one group takes both and returns one. -/
theorem limited_read_loses : ¬ twoReady.LosesNothing (fun _ => .sample []) 1 := by
  rintro ⟨returned, hok, hall⟩
  have hone : (twoReady.readReadyGroups (fun _ => .sample []) 1).1.toOption.map List.length =
      some 1 := by decide +kernel
  have hnone : (twoReady.readReadyGroups (fun _ => .sample []) 1).2.readyGroups.length = 0 := by
    decide +kernel
  have htwo : twoReady.readyGroups.length = 2 := by decide +kernel
  have hcount := hall.length_eq
  simp only [hok, Except.toOption, Option.map_some, Option.some.injEq] at hone
  rw [List.length_append] at hcount
  omega

end Samples

end BufferManager
end TransferQueue
