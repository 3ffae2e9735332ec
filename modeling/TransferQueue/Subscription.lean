import TransferQueue.ManagerOps
import TransferQueue.ReadLosses

/-! Streaming to a subscriber. Every round takes a batch of groups out of the buffer and
sends them one by one. Nothing keeps the batch alive while a send is waited for, and what
the loop has not sent when it ends is not put back. -/

namespace TransferQueue

/-- What becomes of a message: it is taken at once; it is taken, but the loop has to wait, for
the sink or for the reactor to let it go on; or it is refused, at once or later. -/
inductive SendOutcome where
  | ready
  | pending
  | refused
  deriving DecidableEq

/-- A subscriber's loop: the buffer, the calls of its sink and the groups sent so far. The
last field is history: the groups that were ready before its reads and no longer after. -/
structure Subscription (k : ℕ) where
  manager : BufferManager k
  sends : ℕ := 0
  sent : List TrajectoryGroup := []
  taken : Multiset TrajectoryGroup := 0

/-- Why the loop ends. -/
inductive StreamFailure where
  | read (failure : Failure)
  | send
  | useAfterFree
  deriving DecidableEq

namespace BufferManager

variable {k : ℕ}

def cutOff (maxGroups : Int32) (merged : List TrajectoryGroup) : List TrajectoryGroup :=
  merged.drop (truncate maxGroups merged).length

theorem truncate_append_cutOff (maxGroups : Int32) (merged : List TrajectoryGroup) :
    truncate maxGroups merged ++ cutOff maxGroups merged = merged := by
  have hprefix : truncate maxGroups merged <+: merged := by
    rw [truncate]
    split
    · exact List.take_prefix _ _
    · exact List.prefix_refl _
  calc truncate maxGroups merged ++ cutOff maxGroups merged
      = merged.take (truncate maxGroups merged).length ++ cutOff maxGroups merged :=
        congrArg (· ++ _) (List.prefix_iff_eq_take.mp hprefix)
    _ = merged := List.take_append_drop _ _

theorem cutOff_eq_nil_iff {maxGroups : Int32} (hpos : 0 < maxGroups)
    (merged : List TrajectoryGroup) :
    cutOff maxGroups merged = [] ↔ Int32.ofNat merged.length ≤ maxGroups := by
  rw [cutOff, List.drop_eq_nil_iff, truncate, ← Int32.not_lt]
  split
  · rename_i hcut
    refine iff_of_false ?_ (not_not_intro hcut.2)
    have hlimit := BufferShard.limit_pos hpos
    have hlt := Int32.lt_iff_toInt_lt.mp hcut.2
    have hle : (Int32.ofNat merged.length).toInt ≤ merged.length := by
      rw [Int32.toInt_ofNat', Int.bmod_def, Int32.size]
      split <;> omega
    rw [List.length_take]
    omega
  · rename_i hfits
    exact iff_of_true le_rfl fun hlt => hfits ⟨hpos, hlt⟩

/-- How many groups the shards give together to a read that they serve. -/
def found (m : BufferManager k) (maxGroups : Int32) : ℕ :=
  ((List.finRange k).map fun i =>
    (BufferShard.limitTo maxGroups 0 (m.shards i).readyGroups).length).sum

theorem length_removed {env : Fin k → Env} {m : BufferManager k} (h : m.Coherent env)
    {maxGroups : Int32} (hok : m.Succeeds env maxGroups) :
    (m.removed env maxGroups).length = m.found maxGroups := by
  rw [(readReadyGroups_ok h hok).2.1.length_eq, List.length_flatMap]
  rfl

end BufferManager

namespace Subscription

variable {k : ℕ} [NeZero k]

section Loop
variable (env : Fin k → Env) (stdHash : String → ℕ) (sink : ℕ → SendOutcome)

/-- `sink(serialize_proto(group))`; the outcome of the `n`-th call is given. It says whether the
loop had to wait. -/
def send (group : TrajectoryGroup) (s : Subscription k) :
    Except StreamFailure Bool × Subscription k :=
  let s' := { s with sends := s.sends + 1 }
  match sink s.sends with
  | .ready => (.ok false, { s' with sent := s.sent ++ [group] })
  | .pending => (.ok true, { s' with sent := s.sent ++ [group] })
  | .refused => (.error .send, s')

/-- The buffer after what others have asked of it while the loop was waiting. -/
def meanwhile (others : List Request) (s : Subscription k) : BufferManager k :=
  Machine.final (BufferManager.respond env stdHash) s.manager others

/-- One round. The vector of the groups is a parameter of the continuation that starts the
sends. -/
def round (prefetch : Int32) (others : List Request) (s : Subscription k) :
    Except StreamFailure Unit × Subscription k :=
  let m := meanwhile env stdHash others s
  let r := m.readReadyGroups env prefetch
  let s' := { s with
    manager := r.2
    taken := s.taken + ((m.readyGroups : Multiset TrajectoryGroup) - r.2.readyGroups) }
  match r.1 with
  | .error e => (.error (.read e), s')
  | .ok groups => DoForEach.doForEachFreed .useAfterFree (send sink) groups s'

def prefetchOf (prefetchGroups : Int32) : Int32 := if 0 < prefetchGroups then prefetchGroups else 1

/-- `keep_doing` runs until a round fails. -/
def handleSubscribe (prefetchGroups : Int32) (rounds : List (List Request))
    (m : BufferManager k) : Except StreamFailure (List Unit) × Subscription k :=
  DoForEach.doForEach (round env stdHash sink (prefetchOf prefetchGroups)) rounds { manager := m }

end Loop

section Conditions
variable (env : Fin k → Env) (stdHash : String → ℕ) (sink : ℕ → SendOutcome)

/-- The read of a round meets no null pointer. -/
def Resolves (prefetch : Int32) (others : List Request) (s : Subscription k) : Prop :=
  ∀ i, ∀ p ∈ ((meanwhile env stdHash others s).shards i).selected prefetch, p.2.Readable

instance (prefetch : Int32) (others : List Request) (s : Subscription k) :
    Decidable (Resolves env stdHash prefetch others s) :=
  inferInstanceAs (Decidable (∀ _, ∀ _ ∈ _, _))

/-- The sink takes the next `n` messages, all but the last at once. -/
def Takes (sends n : ℕ) : Prop :=
  ∀ j < n, sink (sends + j) = .ready ∨ sink (sends + j) = .pending ∧ j + 1 = n

/-- The disks serve the read of a round, what the shards give fits the limit, and the sink takes
it; or a disk fails the read before it has taken anything. -/
def Spares (prefetch : Int32) (others : List Request) (s : Subscription k) : Prop :=
  let m := meanwhile env stdHash others s
  ((∀ i, (m.shards i).Served (env i) prefetch) ∧
      Int32.ofNat (m.found prefetch) ≤ prefetch ∧ Takes sink s.sends (m.found prefetch)) ∨
    (¬∀ i, (m.shards i).Served (env i) prefetch) ∧ ∀ i, (m.shards i).Untouched (env i) prefetch

end Conditions

variable {env : Fin k → Env} {stdHash : String → ℕ} {sink : ℕ → SendOutcome}

section Sends
omit [NeZero k]

theorem takes_succ_iff (sends n : ℕ) : Takes sink sends (n + 1) ↔
    (sink sends = .ready ∨ sink sends = .pending ∧ n = 0) ∧ Takes sink (sends + 1) n := by
  rw [Takes, Nat.forall_lt_succ_left, Takes]
  have hnext : ∀ j, sends + (j + 1) = sends + 1 + j := fun j => by omega
  have hlast : ∀ j, j + 1 + 1 = n + 1 ↔ j + 1 = n := fun j => by omega
  have hfirst : 0 + 1 = n + 1 ↔ n = 0 := by omega
  rw [hfirst, Nat.add_zero]
  exact and_congr_right fun _ => forall₂_congr fun j _ => by rw [hnext, hlast]

/-- The groups of a batch are sent in order up to the first that is refused or that the loop
has to wait for; all of them exactly if the sink takes them. -/
theorem sendAll (sink : ℕ → SendOutcome) (groups : List TrajectoryGroup) (s : Subscription k) :
    ∃ passed rest s', (DoForEach.doForEachFreed .useAfterFree (send sink) groups s).2 = s' ∧
      groups = passed ++ rest ∧ s'.manager = s.manager ∧ s'.taken = s.taken ∧
      s'.sent = s.sent ++ passed ∧ (rest = [] ↔ Takes sink s.sends groups.length) := by
  induction groups generalizing s with
  | nil => exact ⟨[], [], s, rfl, rfl, rfl, rfl, (List.append_nil _).symm, by simp [Takes]⟩
  | cons group groups ih =>
    rw [List.length_cons, DoForEach.doForEachFreed]
    simp only [takes_succ_iff]
    cases hsink : sink s.sends with
    | refused =>
      refine ⟨[], group :: groups, { s with sends := s.sends + 1 }, ?_, rfl, rfl, rfl,
        (List.append_nil _).symm, by simp⟩
      simp [send, hsink]
    | pending =>
      refine ⟨[group], groups, { s with sends := s.sends + 1, sent := s.sent ++ [group] }, ?_, rfl,
        rfl, rfl, rfl, ?_⟩
      · by_cases hlast : groups = [] <;>
          simp [send, hsink, hlast, DoForEach.doForEachFreed]
      · simp +contextual [Takes]
    | ready =>
      obtain ⟨passed, rest, s', hall, rfl, hmanager, htaken, hsent, hrest⟩ :=
        ih { s with sends := s.sends + 1, sent := s.sent ++ [group] }
      refine ⟨group :: passed, rest, s', ?_, rfl, hmanager, htaken, ?_, ?_⟩
      · simpa [send, hsink] using hall
      · rw [hsent, List.append_assoc]
        rfl
      · simpa using hrest

end Sends

section Rounds

/-- What holds between two rounds. -/
structure Streaming (env : Fin k → Env) (s : Subscription k) : Prop where
  coherent : s.manager.Coherent env
  sent_le : (s.sent : Multiset TrajectoryGroup) ≤ s.taken

/-- Every group taken has been sent. -/
def NothingLost (s : Subscription k) : Prop := s.taken = (s.sent : Multiset TrajectoryGroup)

omit [NeZero k] in
instance (s : Subscription k) : Decidable s.NothingLost :=
  inferInstanceAs (Decidable (_ = _))

omit [NeZero k] in
theorem add_eq_add_iff {taken sent : Multiset TrajectoryGroup} (h : sent ≤ taken)
    (passed left : Multiset TrajectoryGroup) :
    taken + (passed + left) = sent + passed ↔ taken = sent ∧ left = 0 := by
  obtain ⟨before, rfl⟩ := Multiset.le_iff_exists_add.mp h
  have hsum : sent + before + (passed + left) = sent + passed + (before + left) := by
    ac_rfl
  rw [hsum, add_eq_left, add_eq_zero, add_eq_left]

/-- A round whose read succeeds: what it takes is sent, is left of the batch or was cut off. -/
theorem round_served (sink : ℕ → SendOutcome) {prefetch : Int32} (hpos : 0 < prefetch)
    {others : List Request} {s : Subscription k}
    (hm : (meanwhile env stdHash others s).Coherent env)
    (hok : (meanwhile env stdHash others s).Succeeds env prefetch) :
    ∃ (passed left : List TrajectoryGroup) (s' : Subscription k),
      (round env stdHash sink prefetch others s).2 = s' ∧
      s'.manager = ((meanwhile env stdHash others s).readReadyGroups env prefetch).2 ∧
      s'.taken = s.taken +
        ((passed : Multiset TrajectoryGroup) + (left : Multiset TrajectoryGroup)) ∧
      s'.sent = s.sent ++ passed ∧
      (left = [] ↔ Int32.ofNat ((meanwhile env stdHash others s).found prefetch) ≤ prefetch ∧
        Takes sink s.sends ((meanwhile env stdHash others s).found prefetch)) := by
  rw [round]
  generalize meanwhile env stdHash others s = m at hm hok ⊢
  have htaken : (m.readyGroups : Multiset TrajectoryGroup) -
      ((m.readReadyGroups env prefetch).2.readyGroups : Multiset TrajectoryGroup) =
        (m.removed env prefetch : Multiset TrajectoryGroup) := by
    rw [← Multiset.coe_eq_coe.mpr (BufferManager.removed_append_readyGroups hm hok),
      ← Multiset.coe_add, add_tsub_cancel_right]
  rw [← BufferManager.length_removed hm hok, ← BufferManager.cutOff_eq_nil_iff hpos]
  have hsplit := BufferManager.truncate_append_cutOff prefetch (m.removed env prefetch)
  obtain ⟨passed, rest, s', hall, hbatch, hmanager, htaken', hsent, hrest⟩ := sendAll sink
    (BufferManager.truncate prefetch (m.removed env prefetch))
    { s with
      manager := (m.readReadyGroups env prefetch).2
      taken := s.taken + (m.removed env prefetch : Multiset TrajectoryGroup) }
  refine ⟨passed, rest ++ BufferManager.cutOff prefetch (m.removed env prefetch), s', ?_,
    hmanager, ?_, hsent, ?_⟩
  · simp only [hok.answer, htaken, hall]
  · rw [htaken', Multiset.coe_add, ← List.append_assoc, ← hbatch, hsplit]
  · rw [List.append_eq_nil_iff, and_comm]
    refine and_congr_right fun hnone => hrest.trans ?_
    rw [hnone, List.append_nil] at hsplit
    rw [hsplit]

/-- A round keeps the loop in order, and loses nothing exactly if it is one that spares. -/
theorem round_nothingLost {prefetch : Int32} (hpos : 0 < prefetch) (others : List Request)
    (s : Subscription k) (hs : s.Streaming env)
    (hread : Resolves env stdHash prefetch others s) :
    (round env stdHash sink prefetch others s).2.Streaming env ∧
      ((round env stdHash sink prefetch others s).2.NothingLost ↔
        s.NothingLost ∧ Spares env stdHash sink prefetch others s) := by
  have hm : (meanwhile env stdHash others s).Coherent env :=
    Machine.final_inv (BufferManager.Coherent env ·) (fun _ request h => h.respond request) others
      hs.coherent
  have hm' := hm.readReadyGroups prefetch
  rw [Spares, ← hm.succeeds_iff hread]
  by_cases hok : (meanwhile env stdHash others s).Succeeds env prefetch
  · obtain ⟨passed, left, s', hround, hmanager, htaken, hsent, hleft⟩ :=
      round_served sink hpos hm hok
    rw [hround, NothingLost, htaken, hsent, ← Multiset.coe_add, add_eq_add_iff hs.sent_le,
      Multiset.coe_eq_zero, hleft]
    refine ⟨⟨hmanager ▸ hm', ?_⟩, by simp [NothingLost, hok]⟩
    rw [htaken, hsent, ← Multiset.coe_add, ← add_assoc]
    exact (add_le_add_left hs.sent_le _).trans (le_add_right le_rfl)
  · have hlost := hm.lost_eq_zero_iff hread
    obtain ⟨e, hfails⟩ : ∃ e,
        ((meanwhile env stdHash others s).readReadyGroups env prefetch).1 = .error e := by
      cases hr : ((meanwhile env stdHash others s).readReadyGroups env prefetch).1 with
      | ok groups => exact absurd ⟨groups, hr⟩ hok
      | error e => exact ⟨e, rfl⟩
    have htotal := add_eq_add_iff hs.sent_le 0
      (((meanwhile env stdHash others s).readyGroups : Multiset TrajectoryGroup) -
        ((meanwhile env stdHash others s).readReadyGroups env prefetch).2.readyGroups)
    rw [zero_add, add_zero, hlost] at htotal
    simp only [round, hfails, NothingLost, htotal, hok]
    exact ⟨⟨hm', le_add_right hs.sent_le⟩, by simp⟩

/-- Whatever comes in while the loop waits, whichever device calls fail and whatever becomes of
the messages, as long as the reads meet no null pointer: between two rounds and when the loop
has ended, every group that its reads took out of the buffer has been sent, exactly if every
round that was run spares its groups. -/
theorem stream_loses_nothing_iff (env : Fin k → Env) (stdHash : String → ℕ)
    (sink : ℕ → SendOutcome) (config : TransferQueueConfig) (bitCount numHashes : ℕ)
    (prefetchGroups : Int32) (rounds : List (List Request))
    (resolves : DoForEach.Along (round env stdHash sink (prefetchOf prefetchGroups))
      (Resolves env stdHash (prefetchOf prefetchGroups)) rounds
      { manager := .start k config bitCount numHashes }) :
    (handleSubscribe env stdHash sink prefetchGroups rounds
        (.start k config bitCount numHashes)).2.NothingLost ↔
      DoForEach.Along (round env stdHash sink (prefetchOf prefetchGroups))
        (Spares env stdHash sink (prefetchOf prefetchGroups)) rounds
        { manager := .start k config bitCount numHashes } := by
  have hpos : 0 < prefetchOf prefetchGroups := by
    rw [prefetchOf]
    split
    · assumption
    · decide
  have hstart : (Subscription.mk (BufferManager.start k config bitCount numHashes) 0 [] 0).Streaming
      env := ⟨fun _ => .create config bitCount numHashes, le_rfl⟩
  exact (DoForEach.doForEach_along_iff (round_nothingLost hpos) rounds hstart resolves).trans
    (and_iff_right rfl)

/-- Two groups are ready, and the sink takes the first at once and the second later. -/
theorem stream_loses_nothing_iff_two :
    let sink : ℕ → SendOutcome := fun n => if n = 0 then .ready else .pending
    let start : BufferManager 1 := .start 1 { groupSize := 1 } 8 1
    let rounds : List (List Request) := [[.batchWrite [.bare "u" "a", .bare "v" "b"]], []]
    (handleSubscribe (fun _ => .sample []) (fun _ => 0) sink 2 rounds start).2.NothingLost ↔
      DoForEach.Along (round (fun _ => .sample []) (fun _ => 0) sink (prefetchOf 2))
        (Spares (fun _ => .sample []) (fun _ => 0) sink (prefetchOf 2)) rounds
        { manager := start } :=
  stream_loses_nothing_iff _ _ _ _ 8 1 2 _ (by decide +kernel)

/-- The loop waits for the first of two messages and reads the second group from freed memory;
the sink refuses the second message; with two cores, a group is cut off although the sink
takes everything, and a read that fails on one disk has taken the group of the other. -/
theorem stream_loses :
    let start : BufferManager 1 := .start 1 { groupSize := 1 } 8 1
    let rounds : List (List Request) := [[.batchWrite [.bare "u" "a", .bare "v" "b"]], []]
    let freed := handleSubscribe (fun _ => .sample []) (fun _ => 0)
      (fun n => if n = 0 then .pending else .ready) 2 rounds start
    let refused := handleSubscribe (fun _ => .sample []) (fun _ => 0)
      (fun n => if n = 0 then .ready else .refused) 2 rounds start
    let cut := handleSubscribe (k := 2) (fun _ => .sample []) String.length (fun _ => .ready) 1
      [[.batchWrite [.bare "u" "a", .bare "v" "bb"]]] (.start 2 { groupSize := 1 } 8 1)
    let failed := handleSubscribe (k := 2) (fun i => .sample (if i.val = 0 then [1] else []))
      String.length (fun _ => .ready) 2 [[.batchWrite [.bare "u" "a", .bare "v" "bb"]]]
      (.start 2 (.tight 1) 0 0)
    (freed.1 = .error .useAfterFree ∧ ¬freed.2.NothingLost ∧ freed.2.sent.length = 1 ∧
      freed.2.manager.readyGroups = []) ∧
    (refused.1 = .error .send ∧ ¬refused.2.NothingLost) ∧
    (cut.1 = .ok [()] ∧ ¬cut.2.NothingLost) ∧
    failed.1 = .error (.read .deviceError) ∧ ¬failed.2.NothingLost := by
  decide +kernel

end Rounds

end Subscription
end TransferQueue
