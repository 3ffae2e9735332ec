import TransferQueue.ManagerOps

/-! Blocking reads. A blocking read polls for ready groups until it finds one or its
deadline has passed, and then reads; in between others run, and its read is not repeated
when they have taken everything. -/

namespace TransferQueue
open UnorderedMap

/-- Where a blocking read is: about to poll, about to compare the clock after a poll that
found nothing, asleep, about to read, or done. -/
inductive BlockingPhase where
  | poll
  | check
  | sleep (wake : ℤ)
  | read
  | resolved (r : Except Failure (List TrajectoryGroup))
  deriving DecidableEq

structure BlockingRead where
  maxGroups : Int32
  deadline : ℤ
  phase : BlockingPhase
  deriving DecidableEq

/-- The buffer with blocking reads in flight, and the steady clock in nanoseconds. -/
structure Polling (k : ℕ) where
  manager : BufferManager k
  clock : ℤ
  reads : List BlockingRead

/-- What can happen: any other request, time passing, a new blocking read, or the next step
of one in flight. -/
inductive PollingAction where
  | request (r : Request)
  | tick (nanoseconds : ℕ)
  | readBlocking (maxGroups timeoutMs : Int32)
  | resume (i : ℕ)

namespace BufferShard

variable {env : Env} {s : BufferShard}

theorem Coherent.read_empty_iff (h : s.Coherent env) (maxGroups : Int32) :
    (s.readReadyGroups env maxGroups).1 = .ok [] ↔ s.hasReadyGroups = false := by
  have hready : s.hasReadyGroups = false ↔
      (s.groups.entries.filter fun p => p.2.isComplete) = [] := by
    simp [hasReadyGroups, List.filter_eq_nil_iff]
  rw [hready]
  constructor
  · intro hempty
    by_contra hne
    obtain ⟨p, hp⟩ := List.exists_mem_of_ne_nil _ (limitTo_ne_nil maxGroups hne)
    have hresolved : (s.readReadyGroups env maxGroups).1 ≠ .error .nullDereference :=
      fun hnull => nomatch hempty.symm.trans hnull
    have hread := readable_of_resolved hresolved
    obtain ⟨hends, -⟩ := readReadyGroups_ends env h.initialized h.exclusive maxGroups hread
    generalize s.readReadyGroups env maxGroups = r at hempty hends
    cases hends with
    | failed => cases hempty
    | delivered loaded d' served files =>
      obtain ⟨g, hg⟩ := served.group hp (hread p hp)
      have hmem : g ∈ (s.scanOf maxGroups).result ++ loaded :=
        (delivered_perm files).mem_iff.mpr (List.mem_filterMap.mpr ⟨p, hp, hg⟩)
      rw [Except.ok.inj hempty] at hmem
      cases hmem
  · intro hnone
    have hselected : s.selected maxGroups = [] :=
      List.eq_nil_of_sublist_nil (hnone ▸ limitTo_sublist _ _ _)
    obtain ⟨hends, -⟩ := readReadyGroups_ends env h.initialized h.exclusive maxGroups
      (by simp [hselected])
    obtain ⟨result, hok⟩ := hends.ok_iff.mpr (by simp [Served, hselected, filesOf])
    obtain ⟨hperm, -⟩ := readReadyGroups_takes h.initialized h.exclusive maxGroups hok
    have hgroups : limitTo maxGroups 0 s.readyGroups = [] :=
      List.eq_nil_of_sublist_nil ((limitTo_sublist _ _ _).trans (by simp [readyGroups, hnone]))
    rw [hgroups] at hperm
    rw [hok, List.perm_nil.mp hperm]

end BufferShard

namespace BufferManager

variable {k : ℕ} {env : Fin k → Env} {m : BufferManager k}

theorem truncate_eq_nil_iff {maxGroups : Int32} {merged : List TrajectoryGroup} :
    truncate maxGroups merged = [] ↔ merged = [] := by
  rw [truncate]
  split
  · rename_i hcut
    have hlimit := BufferShard.limit_pos hcut.1
    rw [List.take_eq_nil_iff]
    exact ⟨fun h => h.resolve_left (by omega), .inr⟩
  · exact Iff.rfl

theorem Coherent.read_empty_iff (h : m.Coherent env) (maxGroups : Int32) :
    (m.readReadyGroups env maxGroups).1 = .ok [] ↔ m.hasReadyGroups = false := by
  have hshards : m.hasReadyGroups = false ↔ ∀ i, (m.shards i).hasReadyGroups = false := by
    rw [← Bool.not_eq_true, hasReadyGroups_iff, not_exists]
    simp only [Bool.not_eq_true]
  rw [hshards]
  constructor
  · intro hempty i
    have hok : m.Succeeds env maxGroups := ⟨[], hempty⟩
    have hremoved : m.removed env maxGroups = [] :=
      truncate_eq_nil_iff.mp (Except.ok.inj (hok.answer.symm.trans hempty))
    obtain ⟨result, hread⟩ := hok.shard i
    have hresult := List.flatMap_eq_nil_iff.mp hremoved i (List.mem_finRange i)
    rw [hread] at hresult
    exact ((h i).read_empty_iff maxGroups).mp (hread.trans (congrArg _ hresult))
  · intro hnone
    have hshard := fun i => ((h i).read_empty_iff maxGroups).mpr (hnone i)
    have hmap : (Sharded.map (fun i shard => shard.readReadyGroups (env i) maxGroups)
        m.shards).1 = .ok ((List.finRange k).map fun _ => []) := Sharded.map_ok hshard
    have hflat : ((List.finRange k).map fun _ => ([] : List TrajectoryGroup)).flatten = [] := by
      simp
    rw [BufferManager.readReadyGroups, hmap]
    exact congrArg _ (truncate_eq_nil_iff.mpr hflat)

end BufferManager

namespace Polling

variable {k : ℕ} [NeZero k] (env : Fin k → Env) (stdHash : String → ℕ)

/-- The next step of a blocking read; between two polls it sleeps for ten milliseconds. -/
def advance (s : Polling k) (read : BlockingRead) : BlockingRead × BufferManager k :=
  match read.phase with
  | .poll =>
    ({ read with phase := if s.manager.hasReadyGroups then .read else .check }, s.manager)
  | .check =>
    ({ read with
      phase := if read.deadline ≤ s.clock then .read else .sleep (s.clock + 10 * 1000000) },
      s.manager)
  | .sleep wake => ({ read with phase := if wake ≤ s.clock then .poll else .sleep wake }, s.manager)
  | .read =>
    let r := s.manager.readReadyGroups env read.maxGroups
    ({ read with phase := .resolved r.1 }, r.2)
  | .resolved _ => (read, s.manager)

def step (s : Polling k) : PollingAction → Unit × Polling k
  | .request r => ((), { s with manager := (s.manager.respond env stdHash r).2 })
  | .tick nanoseconds => ((), { s with clock := s.clock + nanoseconds })
  | .readBlocking maxGroups timeoutMs =>
    ((), { s with
      reads := s.reads ++ [⟨maxGroups, s.clock + timeoutMs.toInt * 1000000, .poll⟩] })
  | .resume i =>
    match s.reads[i]? with
    | none => ((), s)
    | some read =>
      let r := s.advance env read
      ((), { s with manager := r.2, reads := s.reads.set i r.1 })

def reading (s : Polling k) : PollingAction → Option BlockingRead
  | .resume i => s.reads[i]?.filter fun read => decide (read.phase = .read)
  | _ => none

/-- A blocking read that comes back empty has reached its deadline. -/
def NotEarly (s : Polling k) (a : PollingAction) : Prop :=
  ∀ read ∈ s.reading a,
    (s.advance env read).1.phase = .resolved (.ok []) → read.deadline ≤ s.clock

/-- Before the deadline, others have left a group that is ready. -/
def StillReady (s : Polling k) (a : PollingAction) : Prop :=
  ∀ read ∈ s.reading a, s.clock < read.deadline → s.manager.hasReadyGroups = true

instance (s : Polling k) (a : PollingAction) : Decidable (s.NotEarly env a) :=
  inferInstanceAs (Decidable (∀ read ∈ s.reading a,
    (s.advance env read).1.phase = .resolved (.ok []) → read.deadline ≤ s.clock))

instance (s : Polling k) (a : PollingAction) : Decidable (s.StillReady a) :=
  inferInstanceAs (Decidable (∀ read ∈ s.reading a,
    s.clock < read.deadline → s.manager.hasReadyGroups = true))

variable {env stdHash}

omit [NeZero k] in
theorem notEarly_iff {s : Polling k} (h : s.manager.Coherent env) (a : PollingAction) :
    s.NotEarly env a ↔ s.StillReady a := by
  refine forall₂_congr fun read hread => ?_
  have hphase : read.phase = .read := by
    cases a with
    | resume i =>
      rw [reading, Option.mem_def, Option.filter_eq_some_iff] at hread
      simpa using hread.2
    | _ => cases hread
  have hempty : (s.advance env read).1.phase = .resolved (.ok []) ↔
      s.manager.hasReadyGroups = false := by
    rw [← h.read_empty_iff read.maxGroups, advance, hphase]
    exact ⟨BlockingPhase.resolved.inj, congrArg _⟩
  rw [hempty]
  constructor
  · intro hlate hbefore
    by_contra hnone
    exact absurd (hlate (by simpa using hnone)) (not_le.mpr hbefore)
  · intro hready hnone
    by_contra hbefore
    rw [hready (not_le.mp hbefore)] at hnone
    cases hnone

theorem coherent_step {s : Polling k} (h : s.manager.Coherent env) (a : PollingAction) :
    (s.step env stdHash a).2.manager.Coherent env := by
  cases a with
  | request r => exact h.respond r
  | tick nanoseconds => exact h
  | readBlocking maxGroups timeoutMs => exact h
  | resume i =>
    rw [step]
    cases s.reads[i]? with
    | none => exact h
    | some read =>
      simp only [advance]
      cases read.phase with
      | read => exact h.readReadyGroups read.maxGroups
      | _ => exact h

/-- Over every interleaving of blocking reads and other requests, whichever device calls
fail, no blocking read comes back empty before its deadline if and only if each that reads
before its deadline does so while a group is ready. -/
theorem blocking_read_not_early_iff (config : TransferQueueConfig) (bitCount numHashes : ℕ)
    (clock : ℤ) (actions : List PollingAction) :
    Machine.Along (step env stdHash) (NotEarly env)
        ⟨.start k config bitCount numHashes, clock, []⟩ actions ↔
      Machine.Along (step env stdHash) StillReady
        ⟨.start k config bitCount numHashes, clock, []⟩ actions :=
  Machine.along_iff_of_inv (fun s : Polling k => s.manager.Coherent env)
    (fun _ a hs => coherent_step hs a) (fun _ a hs => notEarly_iff hs a) actions
    fun _ => .create config bitCount numHashes

section Samples

/-- Two blocking reads wait when a group becomes ready; both find it, one gets it. -/
def window : List PollingAction :=
  [.readBlocking 0 1000, .readBlocking 0 1000, .request (.write (.bare "u" "a")), .resume 0,
    .resume 1, .resume 0, .resume 1]

/-- With a second group before the second of them reads, both get one. -/
theorem blocking_read_not_early_iff_two :
    Machine.Along (step (k := 1) (fun _ => .sample []) fun _ => 0) (NotEarly fun _ => .sample [])
      ⟨.start 1 { groupSize := 1 } 8 1, 0, []⟩
      (window.take 6 ++ [.request (.write (.bare "v" "b")), .resume 1]) :=
  (blocking_read_not_early_iff { groupSize := 1 } 8 1 0 _).mpr (by decide +kernel)

theorem blocking_read_early :
    let s := Machine.final (step (k := 1) (fun _ => .sample []) fun _ => 0)
      ⟨.start 1 { groupSize := 1 } 8 1, 0, []⟩ window
    s.clock = 0 ∧ s.reads[1]? = some ⟨0, 1000 * 1000000, .resolved (.ok [])⟩ ∧
      ¬Machine.Along (step (k := 1) (fun _ => .sample []) fun _ => 0)
        (NotEarly fun _ => .sample []) ⟨.start 1 { groupSize := 1 } 8 1, 0, []⟩ window := by
  decide +kernel

end Samples

end Polling
end TransferQueue
