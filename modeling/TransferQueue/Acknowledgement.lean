import TransferQueue.Conservation

/-! What an acknowledged write means. A write resolving to true has stored and counted
its trajectory, except when the group of its instance is on disk: then the
trajectory is dropped and the write resolves to true all the same. -/

namespace TransferQueue

namespace Buffer

variable {env : Env}

theorem write_acknowledged {b : Buffer} {t : Trajectory}
    (h : (b.write env false t).1 = true) :
    (b.write env false t).2.content t.instanceId = b.content t.instanceId ++ [t] ∧
      (b.write env false t).2.totalTrajectories = b.totalTrajectories + 1 := by
  have hcontent := congrFun (dedup_content env t.uid b) t.instanceId
  have htotal := dedup_totalTrajectories env t.uid b
  rw [write] at h ⊢
  rcases hb : b.dedup env t.uid with ⟨fresh, b'⟩
  rw [hb] at h hcontent htotal
  cases fresh with
  | false => cases h
  | true =>
    refine ⟨?_, (append_totalTrajectories t b').trans (by rw [← htotal])⟩
    rw [← hcontent]
    exact append_content_self t b'

theorem write_duplicate {b : Buffer} {ignored : Bool} {t : Trajectory}
    (h : (b.write env ignored t).1 = false) :
    (b.write env ignored t).2.totalTrajectories = b.totalTrajectories := by
  have htotal := dedup_totalTrajectories env t.uid b
  rw [write] at h ⊢
  rcases hb : b.dedup env t.uid with ⟨fresh, b'⟩
  rw [hb] at h htotal
  cases fresh with
  | false => exact htotal
  | true => cases ignored <;> cases h

theorem write_ignored (t : Trajectory) (b : Buffer) :
    (b.write env true t).2.totalTrajectories = b.totalTrajectories := by
  have htotal := dedup_totalTrajectories env t.uid b
  rw [write]
  rcases hb : b.dedup env t.uid with ⟨fresh, b'⟩
  rw [hb] at htotal
  cases fresh <;> exact htotal

end Buffer

namespace BufferShard

section Statement
variable (env : Env)

/-- If the write is acknowledged, its trajectory is in the content of its instance and
has been counted. -/
def WriteStored (s : BufferShard) (t : Trajectory) : Prop :=
  (s.write env t).1 = .ok true →
    t ∈ (s.write env t).2.content t.instanceId ∧
      (s.write env t).2.totalTrajectories = s.totalTrajectories + 1

/-- The same for an operation; a batch moreover returns the increase of the counter. -/
def AcknowledgedStored (s : BufferShard) : Op → Prop
  | .write t => s.WriteStored env t
  | .batchWrite ts =>
    Machine.Along (writeStep env) (WriteStored env) s ts ∧
      match (s.batchWrite env ts).1 with
      | .ok n => (s.batchWrite env ts).2.totalTrajectories = s.totalTrajectories + n
      | .error _ => True
  | _ => True

/-- No write of the operation passes the dedup check and finds its group on disk. -/
def Undropped (s : BufferShard) : Op → Prop
  | .write t => s.drops env t = false
  | .batchWrite ts => Machine.Along (writeStep env) (fun s t => s.drops env t = false) s ts
  | _ => True

instance (s : BufferShard) (t : Trajectory) : Decidable (s.WriteStored env t) :=
  inferInstanceAs (Decidable (_ → _))

instance (s : BufferShard) : (op : Op) → Decidable (s.Undropped env op)
  | .write t => inferInstanceAs (Decidable (s.drops env t = false))
  | .batchWrite ts =>
    inferInstanceAs
      (Decidable (Machine.Along (writeStep env) (fun s t => s.drops env t = false) s ts))
  | .readReadyGroups _ | .checkGroupTimeouts | .deleteInstance _ | .reset | .updateConfig _ =>
    .isTrue trivial

end Statement

variable {env : Env}

theorem write_totalTrajectories (hr : env.Reliable) {s : BufferShard} (hs : s.Settled env)
    {t : Trajectory} (h : s.drops env t = false) :
    (s.write env t).2.totalTrajectories =
      s.totalTrajectories + if (s.write env t).1 = .ok true then 1 else 0 := by
  obtain ⟨hok, -, hbuffer⟩ := write_buffer hr hs t
  rw [h] at hok hbuffer
  have htotal : (s.write env t).2.totalTrajectories =
      (s.buffer.write env false t).2.totalTrajectories := by rw [← hbuffer]; rfl
  rw [htotal, hok]
  cases hack : (s.buffer.write env false t).1 with
  | true => exact (Buffer.write_acknowledged hack).2.trans (by simp [buffer])
  | false => exact (Buffer.write_duplicate hack).trans (by simp [buffer])

/-- One write: it stores what it acknowledges exactly when it is not dropped. -/
theorem writeStored_iff (hr : env.Reliable) {s : BufferShard} (hs : s.Settled env)
    (t : Trajectory) : s.WriteStored env t ↔ s.drops env t = false := by
  obtain ⟨hok, -, hbuffer⟩ := write_buffer hr hs t
  constructor
  · intro hstored
    by_contra hdrops
    rw [Bool.not_eq_false] at hdrops
    have hfresh : (s.dedup env t.uid).1 = true := by
      rw [drops_eq, Bool.and_eq_true] at hdrops
      exact hdrops.1
    obtain ⟨s', hwrite, -⟩ := write_refines hr hs t
    have hack : (s.write env t).1 = .ok true := by rw [hwrite, hfresh]
    rw [hdrops] at hbuffer
    have htotal : (s.write env t).2.totalTrajectories = s.totalTrajectories :=
      (congrArg Buffer.totalTrajectories hbuffer).trans (Buffer.write_ignored t s.buffer)
    have hcount := (hstored hack).2
    omega
  · intro hdrops hack
    rw [hdrops] at hok hbuffer
    have hfresh : (s.buffer.write env false t).1 = true := by
      rw [hok] at hack
      exact Except.ok.inj hack
    obtain ⟨hcontent, htotal⟩ := Buffer.write_acknowledged hfresh
    refine ⟨?_, (congrArg Buffer.totalTrajectories hbuffer).trans htotal⟩
    rw [content_eq, hbuffer, hcontent]
    exact List.mem_append_right _ (List.mem_singleton_self t)

theorem batch_counted (hr : env.Reliable) {s : BufferShard} (hs : s.Settled env)
    (written : ℕ) {ts : List Trajectory}
    (h : Machine.Along (writeStep env) (fun s t => s.drops env t = false) s ts) :
    ∃ n s', batchWriteLoop env written ts s = (.ok (written + n), s') ∧
      s'.totalTrajectories = s.totalTrajectories + n := by
  induction ts generalizing s written with
  | nil => exact ⟨0, s, rfl, by simp⟩
  | cons t ts ih =>
    have htotal := write_totalTrajectories hr hs h.1
    obtain ⟨hok, hs', -⟩ := write_buffer hr hs t
    rw [batchWriteLoop]
    rcases hw : s.write env t with ⟨r, s₁⟩
    have hrest : Machine.Along (writeStep env) (fun s t => s.drops env t = false) s₁ ts := by
      have := h.2
      rwa [writeStep, hw] at this
    rw [hw] at htotal hok hs'
    simp only at htotal hok hs'
    subst hok
    cases hack : (s.buffer.write env (s.drops env t) t).1 with
    | true =>
      obtain ⟨n, s', hloop, hcount⟩ := ih hs' (written + 1) hrest
      refine ⟨n + 1, s', ?_, ?_⟩
      · simp only [hloop, Nat.add_assoc, Nat.add_comm 1 n]
      · rw [hcount, htotal, hack]
        simp
        omega
    | false =>
      obtain ⟨n, s', hloop, hcount⟩ := ih hs' written hrest
      refine ⟨n, s', hloop, ?_⟩
      rw [hcount, htotal, hack]
      simp

theorem acknowledgedStored_iff (hr : env.Reliable) {s : BufferShard} (hs : s.Steady env)
    (op : Op) : s.AcknowledgedStored env op ↔ s.Undropped env op := by
  cases op with
  | write t => exact writeStored_iff hr hs.settled t
  | batchWrite ts =>
    have hwrites := Machine.along_iff_of_inv (Steady env) (P := WriteStored env)
      (Q := fun s t => s.drops env t = false) (fun s t hs => hs.write hr t)
      (fun s t hs => writeStored_iff hr hs.settled t) ts hs
    refine ⟨fun h => hwrites.mp h.1, fun h => ⟨hwrites.mpr h, ?_⟩⟩
    obtain ⟨n, s', hloop, hcount⟩ := batch_counted hr hs.settled 0 h
    rw [batchWrite, hloop, Nat.zero_add]
    exact hcount
  | _ => exact Iff.rfl

/-- Along a sequential run on a working disk every acknowledged write is stored and every
batch returns the increase of the counter, if and only if no write that passes the dedup
check is addressed to an instance whose group is on disk at that time. -/
theorem acknowledged_stored_iff_undropped (hr : env.Reliable) (config : TransferQueueConfig)
    (bitCount numHashes : ℕ) (ops : List Op) :
    Machine.Along (exec env) (AcknowledgedStored env) (create config bitCount numHashes) ops ↔
      Machine.Along (exec env) (Undropped env) (create config bitCount numHashes) ops :=
  Machine.along_iff_of_inv (Steady env) (fun _ op hs => hs.exec hr op)
    (fun _ op hs => acknowledgedStored_iff hr hs op) ops (.create config bitCount numHashes)

/-- With groups of two on a machine with memory to spare, nothing is dropped. -/
theorem acknowledged_stored_iff_undropped_pair :
    Machine.Along (exec (.sample [])) (AcknowledgedStored (.sample []))
      (create { groupSize := 2 } 8 1) [.write (.bare "u" "a"), .write (.bare "v" "a")] :=
  (acknowledged_stored_iff_undropped Env.sample_reliable _ _ _ _).mpr (by decide +kernel)

/-- A group of one is complete, and spilled, as soon as it is written; the next write to
its instance is acknowledged and lost. -/
theorem acknowledged_not_stored :
    ¬Machine.Along (exec (.sample [])) (AcknowledgedStored (.sample []))
      (create (.tight 1) 0 0) [.write (.bare "u" "a"), .write (.bare "v" "a")] := by
  intro h
  have hsecond : WriteStored (.sample []) _ _ := h.2.1
  exact absurd hsecond (by decide +kernel)

end BufferShard
end TransferQueue
