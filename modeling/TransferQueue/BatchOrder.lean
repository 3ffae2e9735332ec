import TransferQueue.Alike
import TransferQueue.ManagerOps
import TransferQueue.ShardRuns

/-! Batched and single writes. A batch is split by shard and its parts run in any order; the
shards have nothing in common, so it comes to the same as writing one by one. -/

namespace TransferQueue

/-- Environments that differ in clock readings and file ids only. -/
structure Retimed (env env' : Env) : Prop where
  fault : env'.fault = env.fault
  place : env'.place = env.place
  stdHash : env'.stdHash = env.stdHash
  bytes : env'.byteSizeLong = env.byteSizeLong
  fractions : env'.memoryBytes = env.memoryBytes

/-- Nothing is seen of the clock. -/
def retimed {env env' : Env} (h : Retimed env env') : Correspondence Unit where
  env
  env'
  seen _ := ()
  seen' _ := ()
  filters := Eq
  admitted _ := True
  bytes := h.bytes
  fractions := h.fractions
  size_eq heq := heq ▸ rfl
  bits_eq heq := heq ▸ rfl
  insert_eq heq _ := by
    subst heq
    rw [h.stdHash]
    exact ⟨rfl, rfl⟩
  clear_eq heq := heq ▸ rfl

namespace BufferShard

variable {env env' : Env} {s : BufferShard}

theorem Alike.same (h : Retimed env env') (hfiled : s.Filed env) (hfiled' : s.Filed env') :
    s.Alike (retimed h) s where
  config := rfl
  filter := rfl
  groups := ⟨rfl, fun events => by
    simp only [retimed, h.place]⟩
  totalTrajectories := rfl
  totalConsumed := rfl
  diskUsageBytes := rfl
  clock _ := rfl
  faults _ := by simp only [retimed, h.fault]
  started := rfl
  filed := hfiled
  filed' := hfiled'

/-- A write that stored nothing new, or failed, does not count. -/
def counts : Except Failure Bool → Bool
  | .ok accepted => accepted
  | .error _ => false

theorem batchWriteLoop_ok {ts : List Trajectory}
    (hok : ∀ r ∈ Machine.outputs (writeStep env) s ts, ∃ accepted, r = .ok accepted)
    (written : ℕ) :
    batchWriteLoop env written ts s =
      (.ok (written + (Machine.outputs (writeStep env) s ts).countP counts),
        Machine.final (writeStep env) s ts) := by
  induction ts generalizing s written with
  | nil => rfl
  | cons t ts ih =>
    rw [Machine.outputs, List.forall_mem_cons] at hok
    obtain ⟨⟨accepted, hwrite⟩, hrest⟩ := hok
    rw [Machine.outputs, Machine.final_cons, batchWriteLoop]
    rcases hw : s.write env t with ⟨r, s₁⟩
    rw [writeStep, hw] at hwrite hrest
    simp only at hwrite
    subst hwrite
    rw [writeStep, hw]
    cases accepted with
    | true =>
      rw [List.countP_cons_of_pos rfl]
      simp only [ih hrest]
      congr 2
      omega
    | false =>
      rw [List.countP_cons_of_neg (by simp [counts])]
      simp only [ih hrest]

end BufferShard

namespace BufferManager

variable {k : ℕ} [NeZero k]

section Statement
variable (env : Fin k → Env) (stdHash : String → ℕ)

def parts (ts : List Trajectory) : List (Fin k) :=
  (List.finRange k).filter fun i => batchFor stdHash ts i ≠ []

/-- `batch_write` when the parts run in the order given. -/
def batchWriteInOrder (ts : List Trajectory) (order : List (Fin k)) (m : BufferManager k) :
    Except Failure ℕ × BufferManager k :=
  let r := Sharded.inOrder (fun i shard => shard.batchWrite (env i) (batchFor stdHash ts i)) order
    m.shards
  ((r.1.mapM id).map List.sum, { m with shards := r.2 })

def writeStep (m : BufferManager k) (t : Trajectory) : Except Failure Bool × BufferManager k :=
  m.write env stdHash t

end Statement

variable {env : Fin k → Env} {stdHash : String → ℕ} {m : BufferManager k}

theorem writes_shards (ts : List Trajectory) (m : BufferManager k) :
    Machine.outputs (writeStep env stdHash) m ts =
        Machine.outputs (Sharded.routed (fun t => shardFor stdHash t.instanceId)
          fun i => BufferShard.writeStep (env i)) m.shards ts ∧
      Machine.final (writeStep env stdHash) m ts =
        { m with shards := Machine.final (Sharded.routed (fun t => shardFor stdHash t.instanceId)
            fun i => BufferShard.writeStep (env i)) m.shards ts } := by
  induction ts generalizing m with
  | nil => exact ⟨rfl, rfl⟩
  | cons t ts ih =>
    obtain ⟨houtputs, hfinal⟩ := ih (m.write env stdHash t).2
    exact ⟨congrArg (List.cons _) houtputs, hfinal⟩

theorem writes_shard (ts : List Trajectory) (m : BufferManager k) (i : Fin k) :
    (Machine.final (writeStep env stdHash) m ts).shards i =
      Machine.final (BufferShard.writeStep (env i)) (m.shards i) (batchFor stdHash ts i) := by
  rw [(writes_shards ts m).2]
  exact Sharded.final_routed ..

theorem batchWriteInOrder_ok {ts : List Trajectory} {order : List (Fin k)}
    (horder : order.Perm (parts stdHash ts)) {total : Fin k → ℕ} {shards : Fin k → BufferShard}
    (hparts : ∀ i, (m.shards i).batchWrite (env i) (batchFor stdHash ts i) =
      (.ok (total i), shards i)) :
    m.batchWriteInOrder env stdHash ts order = (.ok (∑ i, total i), { m with shards }) := by
  have hnodup : order.Nodup := horder.nodup_iff.mpr ((List.nodup_finRange k).filter _)
  have hempty : ∀ i, batchFor stdHash ts i = [] → total i = 0 ∧ shards i = m.shards i := by
    intro i hi
    have hpart := hparts i
    rw [hi] at hpart
    obtain ⟨htotal, hshard⟩ := Prod.mk.inj hpart
    exact ⟨(Except.ok.inj htotal).symm, hshard.symm⟩
  have hresults : (order.map fun i =>
      ((m.shards i).batchWrite (env i) (batchFor stdHash ts i)).1).mapM id =
        .ok (order.map total) := by
    rw [List.mapM_map]
    exact Sharded.mapM_ok order fun i => congrArg Prod.fst (hparts i)
  have hsum : (order.map total).sum = ∑ i, total i := by
    have hfilter : ∀ l : List (Fin k),
        ((l.filter fun i => batchFor stdHash ts i ≠ []).map total).sum = (l.map total).sum := by
      intro l
      induction l with
      | nil => rfl
      | cons i l ih =>
        by_cases hi : batchFor stdHash ts i = []
        · rw [List.filter_cons_of_neg (by simpa using hi), ih, List.map_cons, List.sum_cons,
            (hempty i hi).1, Nat.zero_add]
        · rw [List.filter_cons_of_pos (by simpa using hi), List.map_cons, List.map_cons,
            List.sum_cons, List.sum_cons, ih]
    rw [(horder.map total).sum_eq, parts, hfilter, Fin.sum_univ_def]
  have hshards : (fun i => if i ∈ order then
      ((m.shards i).batchWrite (env i) (batchFor stdHash ts i)).2 else m.shards i) = shards := by
    funext i
    rw [hparts]
    split
    · rfl
    · rename_i hnot
      refine (hempty i ?_).2.symm
      by_contra hne
      exact hnot (horder.mem_iff.mpr
        (List.mem_filter.mpr ⟨List.mem_finRange i, by simpa using hne⟩))
  rw [batchWriteInOrder, Sharded.inOrder_eq _ hnodup]
  simp only [hresults, hshards, Except.map, hsum]

theorem batchWrite_ok {ts : List Trajectory} {total : Fin k → ℕ} {shards : Fin k → BufferShard}
    (hparts : ∀ i, (m.shards i).batchWrite (env i) (batchFor stdHash ts i) =
      (.ok (total i), shards i)) :
    m.batchWrite env stdHash ts = (.ok (∑ i, total i), { m with shards }) := by
  have hmap := Sharded.map_ok (s := m.shards)
    (f := fun i shard => BufferShard.batchWrite (env i) (batchFor stdHash ts i) shard)
    fun i => congrArg Prod.fst (hparts i)
  rw [batchWrite_eq, hmap, Sharded.map]
  simp only [hparts, Except.map, Fin.sum_univ_def]

theorem parts_ok {ts : List Trajectory}
    (hok : ∀ r ∈ Machine.outputs (writeStep env stdHash) m ts, ∃ accepted, r = .ok accepted)
    (i : Fin k) :
    (m.shards i).batchWrite (env i) (batchFor stdHash ts i) =
      (.ok ((Machine.outputs (BufferShard.writeStep (env i)) (m.shards i)
          (batchFor stdHash ts i)).countP BufferShard.counts),
        (Machine.final (writeStep env stdHash) m ts).shards i) := by
  rw [(writes_shards ts m).1] at hok
  have hloop := BufferShard.batchWriteLoop_ok (Sharded.forall_outputs_routed hok i) 0
  rw [Nat.zero_add] at hloop
  rw [writes_shard]
  exact hloop

/-- Batched and single writes agree. If every write of the list succeeds one by one, then
the batch, in whatever order its parts run, returns the number of those accepted and leaves
the same shards; also at other times and with other file ids, if those in use before were
drawn earlier, except for these. -/
theorem batch_as_single_writes {ts : List Trajectory}
    (hok : ∀ r ∈ Machine.outputs (writeStep env stdHash) m ts, ∃ accepted, r = .ok accepted)
    {order : List (Fin k)} (horder : order.Perm (parts stdHash ts)) :
    let count := (Machine.outputs (writeStep env stdHash) m ts).countP BufferShard.counts
    let single := Machine.final (writeStep env stdHash) m ts
    m.batchWriteInOrder env stdHash ts order = (.ok count, single) ∧
      m.batchWrite env stdHash ts = (.ok count, single) ∧
      ∀ (env' : Fin k → Env) (hretimed : ∀ i, Retimed (env i) (env' i)),
        (∀ i, (m.shards i).Filed (env i) ∧ (m.shards i).Filed (env' i)) →
        (m.batchWriteInOrder env' stdHash ts order).1 = .ok count ∧
          ∀ i, (single.shards i).Alike (retimed (hretimed i))
            ((m.batchWriteInOrder env' stdHash ts order).2.shards i) := by
  intro count single
  have hparts := parts_ok hok
  have hcount : ∑ i, (Machine.outputs (BufferShard.writeStep (env i)) (m.shards i)
      (batchFor stdHash ts i)).countP BufferShard.counts = count := by
    simp only [count, (writes_shards ts m).1]
    exact Sharded.sum_countP_routed ..
  have hsingle : single = { m with shards := single.shards } := by
    simp only [single, (writes_shards ts m).2]
  refine ⟨?_, ?_, fun env' hretimed hfiled => ?_⟩
  · rw [batchWriteInOrder_ok horder hparts, hcount]
    exact congrArg (Prod.mk _) hsingle.symm
  · rw [batchWrite_ok hparts, hcount]
    exact congrArg (Prod.mk _) hsingle.symm
  · have hloop := fun i => (BufferShard.Alike.same (hretimed i) (hfiled i).1
      (hfiled i).2).batchWriteLoop 0 fun t (_ : t ∈ batchFor stdHash ts i) => trivial
    have hparts' : ∀ i, (m.shards i).batchWrite (env' i) (batchFor stdHash ts i) =
        (.ok ((Machine.outputs (BufferShard.writeStep (env i)) (m.shards i)
          (batchFor stdHash ts i)).countP BufferShard.counts),
          ((m.shards i).batchWrite (env' i) (batchFor stdHash ts i)).2) := fun i => by
      have hfirst := congrArg Prod.fst (hparts i)
      exact Prod.ext ((hloop i).1.trans hfirst) rfl
    rw [batchWriteInOrder_ok horder hparts', hcount]
    refine ⟨rfl, fun i => ?_⟩
    have halike := (hloop i).2
    have hshard : (BufferShard.batchWriteLoop (env i) 0 (batchFor stdHash ts i) (m.shards i)).2 =
        single.shards i := congrArg Prod.snd (hparts i)
    rw [← hshard]
    exact halike

theorem retimed_sample (now : ℕ → ℤ) : Retimed (.sample []) { Env.sample [] with now } :=
  ⟨rfl, rfl, rfl, rfl, rfl⟩

/-- Two shards, a uid submitted twice, and groups that are spilled; the second part of the
batch runs first. -/
theorem batch_as_single_writes_spilled :
    let env : Fin 2 → Env := fun _ => .sample []
    let later : Fin 2 → Env := fun _ => { Env.sample [] with now := fun _ => 7 }
    let m := start 2 { groupSize := 1, maxMemoryBytes := 8 } 8 1
    let ts : List Trajectory := [.bare "u" "a", .bare "v" "bb", .bare "u" "a"]
    let count :=
      (Machine.outputs (writeStep env String.length) m ts).countP BufferShard.counts
    let single := Machine.final (writeStep env String.length) m ts
    m.batchWriteInOrder env String.length ts [1, 0] = (.ok count, single) ∧
      m.batchWrite env String.length ts = (.ok count, single) ∧
      (m.batchWriteInOrder later String.length ts [1, 0]).1 = .ok count ∧
        ∀ i, (single.shards i).Alike (retimed (retimed_sample fun _ => 7))
          ((m.batchWriteInOrder later String.length ts [1, 0]).2.shards i) := by
  intro env later m ts count single
  have hok : ∀ r ∈ Machine.outputs (writeStep env String.length) m ts,
      ∃ accepted, r = .ok accepted := by decide +kernel
  have horder : [1, 0].Perm (parts (k := 2) String.length ts) := by decide +kernel
  obtain ⟨hordered, hbatch, hlater⟩ := batch_as_single_writes hok horder
  exact ⟨hordered, hbatch, hlater later (fun _ => retimed_sample _)
    fun _ => ⟨fun _ _ h => (nomatch h), fun _ _ h => nomatch h⟩⟩

end BufferManager
end TransferQueue
