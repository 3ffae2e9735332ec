import TransferQueue.ServerReads
import TransferQueue.SoundGroups

/-! What the reads of a server return: complete groups, each made of trajectories of one
instance that clients have asked to write. -/

namespace TransferQueue

namespace Core
variable {env : Env}

/-- A core expires no groups: there is no request for it. -/
theorem checkGroupTimeouts_not_mem (env : Env) (s : Core) (input : Input) :
    .checkGroupTimeouts ∉ s.actions env input := by
  have hbatch : ∀ (ts : List Trajectory) (t : System),
      .checkGroupTimeouts ∉ System.batchActions env ts t := by
    intro ts
    induction ts with
    | nil => simp [System.batchActions]
    | cons t' ts ih =>
      intro t
      rw [System.batchActions]
      cases t.writeAnswer env t' with
      | none => simp
      | some b => simpa using ih _
  cases input with
  | ask call request =>
    rw [actions]
    split
    · exact List.not_mem_nil
    · cases request with
      | batchWrite ts => exact hbatch ts s.system
      | _ => simp [System.actions]
  | resume i => rw [actions]; split <;> simp
  | configure config => rw [actions]; split <;> simp

/-- Whatever a core delivers is full. -/
theorem delivered_full (env : Env) (config : TransferQueueConfig) (bitCount numHashes : ℕ)
    (inputs : List Input) :
    let s := Machine.final (Core.step env) (create config bitCount numHashes) inputs
    ∀ g ∈ s.log.flatMap Event.groups, g.Full s.log := by
  intro s g hg
  have hfollows : s.Follows ((System.create config bitCount numHashes).run env _) :=
    (Follows.create config bitCount numHashes).run inputs
  have hnone : .checkGroupTimeouts ∉ Machine.record (Core.step env) (actions env)
      (create config bitCount numHashes) inputs := by
    intro hmem
    obtain ⟨s', input, hone⟩ := Machine.mem_record hmem
    exact checkGroupTimeouts_not_mem env s' input hone
  have hformed := System.WellFormed.run env config bitCount numHashes hnone
  have hlog : s.log = ((System.create config bitCount numHashes).run env _).log :=
    congrArg System.log hfollows.1
  rw [hlog] at hg ⊢
  obtain ⟨event, hevent, hgroup⟩ := List.mem_flatMap.mp hg
  cases event with
  | delivered groups => exact hformed.delivered groups hevent g hgroup
  | _ => exact absurd hgroup List.not_mem_nil

end Core

namespace Server
variable {k : ℕ} [NeZero k]

/-- In every run, whatever overlaps and whatever fails, a call returns complete groups only,
and what is in them are trajectories of their instance, appended on its core as some request
has asked for. -/
theorem returned_groups_full (env : Fin k → Env) (stdHash : String → ℕ)
    (config : TransferQueueConfig) (bitCount numHashes : ℕ) (actions : List (ServerAction k)) :
    let s := (create k config bitCount numHashes).run env stdHash actions
    s.crashed = false → ∀ call ∈ s.calls, ∀ g ∈ call.returned stdHash,
      g.isComplete = true ∧ g.trajectories ≠ [] ∧ g.groupSize ≤ g.trajectories.length ∧
        ∀ t ∈ g.trajectories, t.instanceId = g.instanceId ∧
          (∃ request ∈ s.requests, t ∈ request.trajectories) ∧
          .appended t ∈ (s.cores (BufferManager.shardFor stdHash g.instanceId)).log := by
  intro s hup call hcall g hg
  obtain ⟨hs, hb⟩ := books_run Account.deliveries config bitCount numHashes actions hup
  have hmerged : g ∈ call.merged := by
    rw [← (hs.kinds hcall).returned_append_withheld stdHash]
    exact List.mem_append_left _ hg
  have hdelivered : g ∈ ∑ i, ((s.cores i).log.flatMap Event.groups : Multiset TrajectoryGroup) := by
    rw [deliveries_merged hb]
    have hmem : (call.merged : Multiset TrajectoryGroup) ∈
        s.calls.map fun call => (call.merged : Multiset TrajectoryGroup) :=
      List.mem_map.mpr ⟨call, hcall, rfl⟩
    exact Multiset.mem_of_le (List.le_sum_of_mem hmem) (Multiset.mem_coe.mpr hmerged)
  obtain ⟨i, -, hi⟩ := Multiset.mem_sum.mp hdelivered
  have hfull : g.Full (s.cores i).log := by
    have hcore : s.cores i = Machine.final (Core.step (env i)) _ _ := run_core i _ actions
    rw [hcore] at hi ⊢
    exact Core.delivered_full (env i) config bitCount numHashes _ g (Multiset.mem_coe.mp hi)
  have hroute : ∀ t ∈ g.trajectories, BufferManager.shardFor stdHash g.instanceId = i := by
    intro t ht
    obtain ⟨hinstance, happended⟩ := hfull.sound.members t ht
    exact hinstance ▸ (appended_requested env stdHash config bitCount numHashes actions i t
      happended).2
  refine ⟨hfull.isComplete, hfull.sound.nonempty, hfull.size_le, fun t ht => ?_⟩
  obtain ⟨hinstance, happended⟩ := hfull.sound.members t ht
  have hrequested := appended_requested env stdHash config bitCount numHashes actions i t happended
  exact ⟨hinstance, hrequested.1, hroute t ht ▸ happended⟩

theorem returned_groups_full_overlapping :
    let s := (create 2 (.tight 1) 0 0).run (fun _ => .sample []) sampleHash (overlapping 0 1)
    ∀ call ∈ s.calls, ∀ g ∈ call.returned sampleHash,
      g.isComplete = true ∧ g.trajectories ≠ [] ∧ g.groupSize ≤ g.trajectories.length ∧
        ∀ t ∈ g.trajectories, t.instanceId = g.instanceId ∧
          (∃ request ∈ s.requests, t ∈ request.trajectories) ∧
          .appended t ∈ (s.cores (BufferManager.shardFor sampleHash g.instanceId)).log :=
  returned_groups_full (fun _ => .sample []) sampleHash (.tight 1) 0 0 (overlapping 0 1)
    (by decide +kernel)

end Server
end TransferQueue
