import TransferQueue.FreshStart
import TransferQueue.ShardedDedup

/-! Retries of a client. A trajectory sent again after it was accepted only moves its uid
to the front of the filter; while the filter has room for all uids in use, no later result
and no count depends on that. -/

namespace TransferQueue

/-- A step of a run with retries: an operation, or a trajectory sent again. -/
inductive Step where
  | exec (op : Op)
  | resend (t : Trajectory)

namespace Step

def toOp : Step → Op
  | exec op => op
  | resend t => .write t

def op? : Step → Option Op
  | exec op => some op
  | resend _ => none

end Step

namespace BufferShard

section Statement
variable (env : Env)

/-- The trajectories that an operation is known to have accepted. -/
def acceptedBy (s : BufferShard) (op : Op) : List Trajectory := s.accepted env op.submitted

def sentAfter (s : BufferShard) (sent : List Trajectory) : Op → List Trajectory
  | .reset => []
  | op => sent ++ s.acceptedBy env op

/-- The run without the retries, with the trajectories accepted since its last reset. -/
def track (p : BufferShard × List Trajectory) : Step → Output × BufferShard × List Trajectory
  | .exec op => ((p.1.exec env op).1, (p.1.exec env op).2, p.1.sentAfter env p.2 op)
  | .resend _ => (.done (.ok ()), p)

/-- Only what has been accepted is sent again. -/
def Sent (p : BufferShard × List Trajectory) : Step → Prop
  | .exec _ => True
  | .resend t => t ∈ p.2

instance (p : BufferShard × List Trajectory) : (step : Step) → Decidable (Sent p step)
  | .exec _ => .isTrue trivial
  | .resend t => inferInstanceAs (Decidable (t ∈ p.2))

def retry (s : BufferShard) (step : Step) : Report × BufferShard := s.report env step.toOp

def opReports (s : BufferShard) : Step → List Report
  | .exec op => [(s.report env op).1]
  | .resend _ => []

/-- A retry is refused and shows nowhere. -/
def Refused (s : BufferShard) : Step → Prop
  | .exec _ => True
  | .resend t => (s.write env t).1 = .ok false ∧
      (s.write env t).2.getStatus env = s.getStatus env ∧
      (s.write env t).2.getMetaInfo = s.getMetaInfo

end Statement

section Filters
variable {bitCount : ℕ} {U : Finset String} {f f' : DedupFilter}

/-- A filter of uids from `U` only. -/
structure Ample (bitCount : ℕ) (U : Finset String) (f : DedupFilter) : Prop where
  fitted : Fitted 100000 bitCount f
  known : f.seen ⊆ U

namespace Ample

theorem keys_nodup (h : Ample bitCount U f) : (f.lruMap.map Prod.fst).Nodup :=
  (DedupFilter.keys_perm h.fitted.linked.paired).nodup_iff.mpr h.fitted.linked.distinct

theorem size_eq (h : Ample bitCount U f) : f.size = f.seen.card := by
  rw [DedupFilter.seen, List.toFinset_card_of_nodup h.keys_nodup, List.length_map,
    DedupFilter.size]

theorem insert (h : Ample bitCount U f) (hroom : U.card ≤ 100000) (hash : String → ℕ → ℕ)
    {uid : String} (huid : uid ∈ U) :
    (f.insert hash uid).2.seen = Insert.insert uid f.seen ∧
      Ample bitCount U (f.insert hash uid).2 := by
  have hknown : Insert.insert uid f.seen ⊆ U := Finset.insert_subset huid h.known
  obtain ⟨hseen, -, -⟩ := DedupFilter.insert_seen hash h.keys_nodup
    ((Finset.card_le_card hknown).trans (h.fitted.sized ▸ hroom))
  exact ⟨hseen, h.fitted.insert hash uid, hseen ▸ hknown⟩

theorem insertAll (h : Ample bitCount U f) (hroom : U.card ≤ 100000) (env : Env)
    {ts : List Trajectory} (hts : ∀ t ∈ ts, t.uid ∈ U) :
    (BufferShard.insertAll env ts f).seen = f.seen ∪ uidsOf ts ∧
      Ample bitCount U (BufferShard.insertAll env ts f) := by
  induction ts generalizing f with
  | nil => exact ⟨(Finset.union_empty _).symm, h⟩
  | cons t ts ih =>
    rw [List.forall_mem_cons] at hts
    obtain ⟨hseen, hnext⟩ := h.insert hroom (DedupFilter.doubleHash env.stdHash) hts.1
    obtain ⟨hall, hlast⟩ := ih hnext hts.2
    refine ⟨hall.trans ?_, hlast⟩
    rw [hseen, uidsOf, uidsOf, List.map_cons, List.toFinset_cons, Finset.insert_union,
      Finset.union_insert]

theorem clear (h : Ample bitCount U f) : Ample bitCount U f.clear :=
  ⟨h.fitted.clear, Finset.empty_subset _⟩

end Ample

/-- The same uids, in whatever order they were used. -/
def retrial (env : Env) (bitCount : ℕ) (hroom : U.card ≤ 100000) : Correspondence ℤ where
  env
  env' := env
  seen := id
  seen' := id
  filters f f' := Ample bitCount U f ∧ Ample bitCount U f' ∧ f'.seen = f.seen
  admitted uid := uid ∈ U
  bytes := rfl
  fractions := rfl
  size_eq := fun ⟨h, h', hseen⟩ => by rw [h.size_eq, h'.size_eq, hseen]
  bits_eq := fun ⟨h, h', _⟩ => h'.fitted.bits.trans h.fitted.bits.symm
  insert_eq := by
    rintro f f' uid ⟨h, h', hseen⟩ huid
    obtain ⟨hnext, hample⟩ := h.insert hroom (DedupFilter.doubleHash env.stdHash) huid
    obtain ⟨hnext', hample'⟩ := h'.insert hroom (DedupFilter.doubleHash env.stdHash) huid
    refine ⟨?_, hample, hample', ?_⟩
    · rw [DedupFilter.insert_fst, DedupFilter.insert_fst, hseen]
    · rw [hnext, hnext', hseen]
  clear_eq := fun ⟨h, h', _⟩ => ⟨h.clear, h'.clear, rfl⟩

theorem retrial_timed (env : Env) (bitCount : ℕ) (hroom : U.card ≤ 100000) :
    Timed (retrial env bitCount hroom) := by
  intro now now' born born' hnow hborn
  simp only [retrial, id] at hnow hborn
  rw [hnow, hborn]

end Filters

section Runs
variable {env : Env} {bitCount : ℕ} {U : Finset String} {hroom : U.card ≤ 100000}
  {s s' : BufferShard} {sent : List Trajectory}

/-- The two runs side by side, with what may be sent again. -/
structure Abreast (env : Env) (bitCount : ℕ) (hroom : U.card ≤ 100000) (s s' : BufferShard)
    (sent : List Trajectory) : Prop where
  step : InStep (retrial env bitCount hroom) s s'
  on : s.config.uidDedup = true
  held : ∀ t ∈ sent, t.uid ∈ s.dedupFilter.seen

theorem Abreast.resend (h : Abreast env bitCount hroom s s' sent) {t : Trajectory}
    (ht : t ∈ sent) :
    (s'.write env t).1 = .ok false ∧ Abreast env bitCount hroom s (s'.write env t).2 sent := by
  obtain ⟨hample, hample', hseen⟩ := h.step.alike.filter
  have huid := h.held t ht
  have hrefused : (s'.dedupFilter.insert (DedupFilter.doubleHash env.stdHash) t.uid).1 = false := by
    rw [DedupFilter.insert_fst, hseen]
    exact decide_eq_false (not_not_intro huid)
  obtain ⟨hnext, hlast⟩ :=
    hample'.insert hroom (DedupFilter.doubleHash env.stdHash) (hample.known huid)
  have hwrite : s'.write env t = (.ok false, { s' with
      dedupFilter :=
        (s'.dedupFilter.insert (DedupFilter.doubleHash env.stdHash) t.uid).2 }) := by
    simp only [write, writeStart, dedup, h.step.alike.config, h.on, if_true, hrefused]
  rw [hwrite]
  refine ⟨rfl, ⟨{ h.step.alike with
    filter := ⟨hample, hlast, ?_⟩
    filed' := h.step.alike.filed' },
    h.step.settled, h.step.settled'.same rfl rfl⟩, h.on, h.held⟩
  rw [hnext, hseen]
  exact Finset.insert_eq_of_mem huid

theorem exec_config (hr : env.Reliable) (hs : s.Settled env) (hon : s.config.uidDedup = true)
    {op : Op} (hconfig : ∀ config, op = .updateConfig config → config.uidDedup = true) :
    (s.exec env op).2.config.uidDedup = true := by
  obtain ⟨-, -, hbuffer⟩ := exec_refines hr hs op
  have hsettings := congrArg (fun b : Buffer => b.settings.uidDedup) hbuffer
  cases op with
  | write t => exact (congrArg TransferQueueConfig.uidDedup (write_frame env t s).2).trans hon
  | batchWrite ts =>
    obtain ⟨hloop, -⟩ := batchWriteLoop_refines hr hs 0 ts
    simp only [BufferShard.exec, batchWrite, hloop, Prod.map, id]
    rw [(writes_filter ts s).1, hon]
  | updateConfig config => exact hconfig config rfl
  | _ => exact hsettings.trans hon

theorem accepted_sublist (env : Env) (ts : List Trajectory) (s : BufferShard) :
    (s.accepted env ts).Sublist ts := by
  induction ts generalizing s with
  | nil => exact .slnil
  | cons t ts ih =>
    have haccepted : s.accepted env (t :: ts) =
        (if (s.write env t).1 = .ok true then [t] else []) ++
          (s.write env t).2.accepted env ts := rfl
    rw [haccepted]
    split
    · exact (ih _).cons_cons t
    · exact (ih _).cons t

theorem Abreast.held_after (h : Abreast env bitCount hroom s s' sent) (hr : env.Reliable) {op : Op}
    (hop : ∀ t ∈ op.submitted, t.uid ∈ U) :
    ∀ t ∈ s.sentAfter env sent op, t.uid ∈ (s.exec env op).2.dedupFilter.seen := by
  obtain ⟨hample, -, -⟩ := h.step.alike.filter
  obtain ⟨hseen, -⟩ := hample.insertAll hroom env hop
  have hfilter := exec_filter hr h.step.settled op
  intro t ht
  cases op with
  | reset => cases ht
  | _ =>
    simp only [h.on, if_true] at hfilter
    rw [hfilter, hseen, Finset.mem_union]
    rcases List.mem_append.mp ht with hold | hnew
    · exact .inl (h.held t hold)
    · exact .inr (mem_uidsOf.mpr ⟨t, (accepted_sublist env _ s).subset hnew, rfl⟩)

theorem Abreast.exec (h : Abreast env bitCount hroom s s' sent) (hr : env.Reliable) {op : Op}
    (hop : ∀ t ∈ op.submitted, t.uid ∈ U)
    (hconfig : ∀ config, op = .updateConfig config → config.uidDedup = true) :
    (s'.report env op).1 = (s.report env op).1 ∧
      Abreast env bitCount hroom (s.report env op).2 (s'.report env op).2
        (s.sentAfter env sent op) := by
  obtain ⟨hreport, hstep⟩ := h.step.report (retrial_timed env bitCount hroom) hr hr hop
  exact ⟨hreport, hstep, exec_config hr h.step.settled h.on hconfig, h.held_after hr hop⟩

/-- Step by step, the run with the retries reports what the run without them does. -/
theorem Abreast.run (h : Abreast env bitCount hroom s s' sent) (hr : env.Reliable)
    {steps : List Step}
    (hconfigs : ∀ config, .exec (.updateConfig config) ∈ steps → config.uidDedup = true)
    (huids : ∀ op, .exec op ∈ steps → ∀ t ∈ op.submitted, t.uid ∈ U)
    (hsent : Machine.Along (track env) Sent (s, sent) steps) :
    Machine.record (retry env) (opReports env) s' steps =
        Machine.outputs (report env) s (steps.filterMap Step.op?) ∧
      Machine.Along (retry env) (Refused env) s' steps := by
  induction steps generalizing s s' sent with
  | nil => exact ⟨rfl, trivial⟩
  | cons step steps ih =>
    have hconfigs' := fun config hmem => hconfigs config (List.mem_cons_of_mem step hmem)
    have huids' := fun op hmem => huids op (List.mem_cons_of_mem step hmem)
    cases step with
    | exec op =>
      obtain ⟨hreport, hnext⟩ := h.exec hr (huids op (List.mem_cons_self ..))
        fun config heq => hconfigs config (heq ▸ List.mem_cons_self ..)
      obtain ⟨hreports, halong⟩ := ih hnext hconfigs' huids' hsent.2
      exact ⟨congrArg₂ List.cons hreport hreports, trivial, halong⟩
    | resend t =>
      obtain ⟨hrefused, hnext⟩ := h.resend hsent.1
      obtain ⟨hreports, halong⟩ := ih hnext hconfigs' huids' hsent.2
      refine ⟨hreports, ⟨hrefused, ?_, ?_⟩, halong⟩
      · exact hnext.step.alike.getStatus.trans h.step.alike.getStatus.symm
      · exact hnext.step.alike.getMetaInfo.trans h.step.alike.getMetaInfo.symm

/-- Client retries are harmless. On a working disk, with the dedup check on throughout and
no more uids in use than the filter holds, trajectories accepted since the last reset may be
sent again at any time: every such write is refused and shows in no count, and all other
operations report what they would have reported without it. -/
theorem retries_harmless (hr : env.Reliable) {config : TransferQueueConfig}
    (hon : config.uidDedup = true) (bitCount numHashes : ℕ) {steps : List Step}
    (hconfigs : ∀ config, .exec (.updateConfig config) ∈ steps → config.uidDedup = true)
    (hroom : (uidsOf ((steps.filterMap Step.op?).flatMap Op.submitted)).card ≤ 100000)
    (hsent : Machine.Along (track env) Sent (create config bitCount numHashes, []) steps) :
    Machine.record (retry env) (opReports env) (create config bitCount numHashes) steps =
        Machine.outputs (report env) (create config bitCount numHashes)
          (steps.filterMap Step.op?) ∧
      Machine.Along (retry env) (Refused env) (create config bitCount numHashes) steps := by
  have hample : Ample bitCount (uidsOf ((steps.filterMap Step.op?).flatMap Op.submitted))
      (create config bitCount numHashes).dedupFilter :=
    ⟨⟨DedupFilter.create_linked .., rfl, List.length_replicate⟩, Finset.empty_subset _⟩
  have halike : (create config bitCount numHashes).Alike (retrial env bitCount hroom)
      (create config bitCount numHashes) := {
    config := rfl
    filter := ⟨hample, hample, rfl⟩
    groups := .refl _
    totalTrajectories := rfl
    totalConsumed := rfl
    diskUsageBytes := rfl
    clock := fun _ => rfl
    faults := fun _ => rfl
    started := rfl
    filed := .of_settled (.create ..)
    filed' := .of_settled (.create ..) }
  have habreast : Abreast env bitCount hroom (create config bitCount numHashes)
      (create config bitCount numHashes) [] :=
    ⟨⟨halike, .create .., .create ..⟩, hon, fun t ht => nomatch ht⟩
  refine habreast.run hr hconfigs (fun op hop t ht => ?_) hsent
  exact mem_uidsOf.mpr ⟨t, List.mem_flatMap.mpr
    ⟨op, List.mem_filterMap.mpr ⟨_, hop, rfl⟩, ht⟩, rfl⟩

/-- A trajectory sent again after its group was spilled, and once more after it was read. -/
theorem retries_harmless_spilled :
    let config : TransferQueueConfig := { groupSize := 1, maxMemoryBytes := 8 }
    let steps : List Step := [.exec (.write (.bare "u" "a")), .resend (.bare "u" "a"),
      .exec (.readReadyGroups 0), .resend (.bare "u" "a")]
    let env := Env.sample []
    Machine.record (retry env) (opReports env) (create config 8 1) steps =
        Machine.outputs (report env) (create config 8 1) (steps.filterMap Step.op?) ∧
      Machine.Along (retry env) (Refused env) (create config 8 1) steps :=
  retries_harmless Env.sample_reliable rfl 8 1 (by simp) (by decide +kernel) (by decide +kernel)

end Runs

end BufferShard
end TransferQueue
