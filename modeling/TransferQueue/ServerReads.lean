import Mathlib.Algebra.Order.Group.Multiset
import Mathlib.Algebra.BigOperators.Group.Multiset.Basic
import TransferQueue.ServerAccounts
import TransferQueue.Subscription

/-! Reads on a server. Every group that a core delivers is handed to one call, and a call
returns what it was handed, but for what the limit cuts off and what comes with a failure. -/

namespace TransferQueue

namespace Event

def groups : Event → List TrajectoryGroup
  | delivered gs => gs
  | _ => []

theorem groups_of_written {event : Event} (h : event.written? ≠ none) : event.groups = [] := by
  cases event <;> first | rfl | exact absurd rfl h

end Event

/-- Groups delivered are groups handed out. Nothing is owed: a suspended read has delivered
nothing yet. -/
def Account.deliveries : Account (Multiset TrajectoryGroup) where
  brings event := event.groups
  hands response := response.given
  owes _ := 0
  balanced h := by
    have hwrites : ∀ events : List Event, (∀ event ∈ events, event.written? ≠ none) →
        (events.map fun event => (event.groups : Multiset TrajectoryGroup)).sum = 0 := by
      intro events hevents
      refine List.sum_eq_zero fun groups hgroups => ?_
      obtain ⟨event, hmem, rfl⟩ := List.mem_map.mp hgroups
      rw [Event.groups_of_written (hevents event hmem)]
      rfl
    cases h with
    | written b event event_eq =>
      have hnone := hwrites [event] (by simp [event_eq])
      simpa [Response.given] using hnone
    | counted _ writes => simpa [Response.given] using hwrites _ writes
    | told response plain =>
      rcases plain with ⟨b, rfl⟩ | ⟨status, rfl⟩ | rfl <;> simp [Response.given]
    | removing answer plain todo => rcases plain with rfl | rfl <;> simp [Response.given]
    | committed startedAt written ids =>
      simp [Response.given, Event.groups, Function.comp_def]
    | _ => simp [Response.given, Event.groups]
  owes_remove _ := rfl
  hands_done _ := rfl

namespace Call
variable {k : ℕ}

/-- What the cores have handed to a call, in the order of the cores. -/
def merged (c : Call k) : List TrajectoryGroup :=
  (List.finRange k).flatMap fun i => (c.answers i).toList.flatMap Response.given

variable [NeZero k] (stdHash : String → ℕ)

def returned (c : Call k) : List TrajectoryGroup :=
  (c.response stdHash).toList.flatMap Response.given

/-- What a call was handed and does not return. -/
def withheld (c : Call k) : List TrajectoryGroup := c.merged.drop (c.returned stdHash).length

def Kinds (c : Call k) : Prop := ∀ i, ∀ response ∈ c.answers i, response.kind = c.request.kind

variable {stdHash} {c : Call k}

theorem collect_groups {answers : List Response} {perShard : List (List TrajectoryGroup)}
    (h : collect Response.groups? answers = .ok perShard) :
    perShard.flatten = answers.flatMap Response.given := by
  induction answers generalizing perShard with
  | nil =>
    obtain rfl : [] = perShard := Except.ok.inj h
    rfl
  | cons answer answers ih =>
    cases answer with
    | groups r =>
      rw [collect, List.filterMap_cons_some (f := Response.groups?) rfl, List.mapM_cons] at h
      cases r with
      | error e => cases h
      | ok gs =>
        cases hrest : collect Response.groups? answers with
        | error e =>
          rw [collect] at hrest
          rw [hrest] at h
          cases h
        | ok rest =>
          have hflatten := ih hrest
          rw [collect] at hrest
          rw [hrest] at h
          obtain rfl := Except.ok.inj h
          rw [List.flatten_cons, hflatten, List.flatMap_cons]
          rfl
    | _ => exact ih h

theorem collect_error {answers : List Response} {e : Failure}
    (h : collect Response.groups? answers = .error e) : ∃ e, .groups (.error e) ∈ answers := by
  obtain ⟨r, hr, e', he'⟩ := (Sharded.mapM_error_iff _).mp ⟨e, h⟩
  obtain ⟨answer, hanswer, hgroups⟩ := List.mem_filterMap.mp hr
  cases answer <;> cases hgroups
  obtain rfl : r = .error e' := he'
  exact ⟨e', hanswer⟩

omit [NeZero k] in
theorem merged_eq (c : Call k) :
    c.merged = ((List.finRange k).filterMap c.answers).flatMap Response.given := by
  rw [merged]
  induction List.finRange k with
  | nil => rfl
  | cons i cores ih =>
    rw [List.flatMap_cons, ih]
    cases hi : c.answers i with
    | none => rw [List.filterMap_cons_none hi]; rfl
    | some response => rw [List.filterMap_cons_some hi]; simp

theorem given_of_kind {response : Response} (h : response.kind ≠ .groups) :
    response.given = [] := by
  cases response <;> first | rfl | exact absurd rfl h

omit [NeZero k] in
theorem Kinds.merged_eq_nil (h : c.Kinds) (hrequest : c.request.kind ≠ .groups) :
    c.merged = [] := by
  refine List.flatMap_eq_nil_iff.mpr fun i _ => List.flatMap_eq_nil_iff.mpr fun response hr => ?_
  exact given_of_kind (h i response (Option.mem_toList.mp hr) ▸ hrequest)

theorem Kinds.returned_eq_nil (h : c.Kinds) (hrequest : c.request.kind ≠ .groups) :
    c.returned stdHash = [] := by
  refine List.flatMap_eq_nil_iff.mpr fun response hr => given_of_kind ?_
  have hresponse := Option.mem_toList.mp hr
  rw [Call.response] at hresponse
  split at hresponse
  · have hkind : response.kind = c.request.kind := by
      have hall := h
      cases hc : c.request with
      | write t =>
        rw [hc] at hresponse
        exact hc ▸ h _ response hresponse
      | deleteInstance id =>
        rw [hc] at hresponse
        exact hc ▸ h _ response hresponse
      | _ => rw [hc] at hresponse; cases hresponse; rfl
    exact hkind ▸ hrequest
  · cases hresponse

variable (stdHash) in
theorem response_read {maxGroups : Int32} (hrequest : c.request = .readReadyGroups maxGroups) :
    c.response stdHash = none ∨
      (∃ e, c.response stdHash = some (.groups (.error e)) ∧
        ∃ i e', c.answers i = some (.groups (.error e'))) ∨
      c.response stdHash = some (.groups (.ok (BufferManager.truncate maxGroups c.merged))) := by
  rw [response, hrequest]
  split
  · rw [combine]
    cases hcollect : collect Response.groups? ((List.finRange k).filterMap c.answers) with
    | error e =>
      obtain ⟨e', he'⟩ := collect_error hcollect
      obtain ⟨i, -, hi⟩ := List.mem_filterMap.mp he'
      exact .inr (.inl ⟨e, rfl, i, e', hi⟩)
    | ok perShard =>
      refine .inr (.inr ?_)
      rw [merged_eq, ← collect_groups hcollect]
      rfl
  · exact .inl rfl

variable (stdHash) in
theorem Kinds.returned_append_withheld (h : c.Kinds) :
    c.returned stdHash ++ c.withheld stdHash = c.merged := by
  by_cases hkind : c.request.kind = .groups
  · cases hc : c.request with
    | readReadyGroups maxGroups =>
      rcases response_read stdHash hc with hnone | ⟨e, he, -⟩ | hok
      · simp [returned, withheld, hnone]
      · simp [returned, withheld, he, Response.given]
      · have hreturned : c.returned stdHash = BufferManager.truncate maxGroups c.merged := by
          simp [returned, hok, Response.given]
        rw [withheld, hreturned]
        exact BufferManager.truncate_append_cutOff maxGroups c.merged
    | _ => rw [hc] at hkind; cases hkind
  · rw [withheld, h.returned_eq_nil hkind, h.merged_eq_nil hkind]
    rfl

/-- Why a group is withheld. -/
theorem Kinds.withheld_cause (h : c.Kinds) (hheld : c.withheld stdHash ≠ []) :
    c.response stdHash = none ∨ (∃ i e, c.answers i = some (.groups (.error e))) ∨
      ∃ maxGroups, c.request = .readReadyGroups maxGroups ∧ 0 < maxGroups ∧
        maxGroups < Int32.ofNat c.merged.length := by
  by_cases hkind : c.request.kind = .groups
  · cases hc : c.request with
    | readReadyGroups maxGroups =>
      rcases response_read stdHash hc with hnone | ⟨e, -, i, e', he'⟩ | hok
      · exact .inl hnone
      · exact .inr (.inl ⟨i, e', he'⟩)
      · refine .inr (.inr ⟨maxGroups, rfl, ?_⟩)
        by_contra hcut
        refine hheld ?_
        simp [withheld, returned, hok, Response.given, BufferManager.truncate, if_neg hcut]
    | _ => rw [hc] at hkind; cases hkind
  · rw [withheld, h.merged_eq_nil hkind] at hheld
    exact absurd List.drop_nil hheld

end Call

namespace Server
variable {k : ℕ}

section Sums
variable {M : Type*} [AddCancelCommMonoid M] (A : Account M)

theorem coe_flatMap {α β : Type*} (l : List α) (f : α → List β) :
    ((l.flatMap f : List β) : Multiset β) = (l.map fun a => (f a : Multiset β)).sum := by
  induction l with
  | nil => rfl
  | cons a l ih =>
    rw [List.flatMap_cons, ← Multiset.coe_add, ih]
    rfl

theorem sum_hands (c : Call k) :
    ∑ i, ((c.answers i).toList.map Account.deliveries.hands).sum =
      (c.merged : Multiset TrajectoryGroup) := by
  rw [Call.merged, coe_flatMap, Fin.sum_univ_def]
  exact congrArg List.sum (List.map_congr_left fun i _ => (coe_flatMap _ _).symm)

theorem income_deliveries (s : Core) :
    Account.deliveries.income s = (s.log.flatMap Event.groups : Multiset TrajectoryGroup) :=
  (coe_flatMap _ _).symm

end Sums

variable [NeZero k] {env : Fin k → Env} {stdHash : String → ℕ}

theorem Consistent.kinds {s : Server k} {asked : Option (ℕ × Fin k)}
    (h : s.Consistent stdHash asked) {call : Call k} (hcall : call ∈ s.calls) : call.Kinds := by
  obtain ⟨c, hc⟩ := List.mem_iff_getElem?.mp hcall
  exact fun i response hr => (h.answers_kind i c call hc response hr).1

omit [NeZero k] in
theorem deliveries_merged {s : Server k} (hb : s.Booked Account.deliveries) :
    (∑ i, ((s.cores i).log.flatMap Event.groups : Multiset TrajectoryGroup)) =
      (s.calls.map fun call => (call.merged : Multiset TrajectoryGroup)).sum := by
  have hcore : ∀ i, ((s.cores i).log.flatMap Event.groups : Multiset TrajectoryGroup) =
      paid Account.deliveries i s.calls := by
    intro i
    rw [← income_deliveries, hb i, Account.owed]
    simp [Account.deliveries]
  rw [Finset.sum_congr rfl fun i _ => hcore i, sum_paid]
  exact congrArg List.sum (List.map_congr_left fun call _ => sum_hands call)

/-- What the cores have delivered, the calls have returned or withheld. -/
theorem deliveries_returned {s : Server k} (hs : s.Consistent stdHash none)
    (hb : s.Booked Account.deliveries) :
    (∑ i, ((s.cores i).log.flatMap Event.groups : Multiset TrajectoryGroup)) =
      (s.calls.map fun call =>
        (call.returned stdHash : Multiset TrajectoryGroup) + call.withheld stdHash).sum := by
  rw [deliveries_merged hb]
  refine congrArg List.sum (List.map_congr_left fun call hcall => ?_)
  rw [Multiset.coe_add, (hs.kinds hcall).returned_append_withheld stdHash]

/-- In every run, whatever overlaps and whatever fails, every group that a core has delivered is
returned by exactly one call or withheld from it; and it is withheld only while the call is
under way, when a core has failed it, or beyond its limit. -/
theorem reads_account (env : Fin k → Env) (stdHash : String → ℕ) (config : TransferQueueConfig)
    (bitCount numHashes : ℕ) (actions : List (ServerAction k)) :
    let s := (create k config bitCount numHashes).run env stdHash actions
    s.crashed = false →
      (∑ i, ((s.cores i).log.flatMap Event.groups : Multiset TrajectoryGroup)) =
          (s.calls.map fun call =>
            (call.returned stdHash : Multiset TrajectoryGroup) + call.withheld stdHash).sum ∧
        ∀ call ∈ s.calls, call.withheld stdHash ≠ [] →
          call.response stdHash = none ∨ (∃ i e, call.answers i = some (.groups (.error e))) ∨
            ∃ maxGroups, call.request = .readReadyGroups maxGroups ∧ 0 < maxGroups ∧
              maxGroups < Int32.ofNat call.merged.length := by
  intro s hup
  obtain ⟨hs, hb⟩ := books_run Account.deliveries config bitCount numHashes actions hup
  exact ⟨deliveries_returned hs hb, fun call hcall => (hs.kinds hcall).withheld_cause⟩

section Once

/-- If the step resumes a spill that commits, no read has taken since the copy what it
commits. -/
def CommitsUntaken (s : Server k) : ServerAction k → Prop
  | .resume i j => (s.cores i).system.CommitsUntaken (.resume j)
  | _ => True

instance (s : Server k) : ∀ a, Decidable (s.CommitsUntaken a)
  | .resume i j => inferInstanceAs (Decidable ((s.cores i).system.CommitsUntaken (.resume j)))
  | .call _ => .isTrue trivial
  | .arrive _ _ => .isTrue trivial
  | .configure _ => .isTrue trivial

theorem commitsUntaken_of_ne {s : System} {a : Action} (h : ∀ j, a ≠ .resume j) :
    s.CommitsUntaken a := by
  intro commit hcommit
  obtain ⟨-, j, rfl, -⟩ := System.committing_eq_some.mp (Option.mem_def.mp hcommit)
  exact absurd rfl (h j)

theorem actions_commitUntaken (env : Env) (core : Core) {input : Core.Input}
    (h : ∀ j, input ≠ .resume j) :
    Machine.Along (System.step env) System.CommitsUntaken core.system (core.actions env input) := by
  have hnone : ∀ a ∈ core.actions env input, ∀ j, a ≠ .resume j := by
    rintro a ha j rfl
    cases input with
    | ask call request =>
      rw [Core.actions] at ha
      split at ha
      · cases ha
      · exact System.resume_not_mem_actions _ _ _ ha
    | resume j' => exact h j' rfl
    | configure config =>
      rw [Core.actions] at ha
      split at ha <;> simp at ha
  exact (Machine.along_of_mem hnone core.system).mono fun _ _ => commitsUntaken_of_ne

theorem CommitsUntaken.core {s : Server k} {a : ServerAction k} (h : s.CommitsUntaken a)
    (i : Fin k) :
    Machine.Along (Core.step (env i)) (fun core input =>
      Machine.Along (System.step (env i)) System.CommitsUntaken core.system
        (core.actions (env i) input)) (s.cores i) (s.inputs stdHash i a) := by
  rcases inputs_cases stdHash i s a with
    hnone | ⟨c, request, -, -, hask⟩ | ⟨j, rfl, hresume⟩ | ⟨config, hconfig⟩
  · rw [hnone]
    trivial
  · rw [hask]
    exact ⟨actions_commitUntaken (env i) _ (by simp), trivial⟩
  · rw [hresume]
    refine ⟨?_, trivial⟩
    change Machine.Along _ _ (s.cores i).system (Core.actions (env i) (s.cores i) (.resume j))
    rw [Core.actions]
    split
    · trivial
    · exact ⟨h, trivial⟩
  · rw [hconfig]
    exact ⟨actions_commitUntaken (env i) _ (by simp), trivial⟩

theorem core_commitsUntaken (config : TransferQueueConfig) (bitCount numHashes : ℕ)
    {actions : List (ServerAction k)}
    (h : Machine.Along (step env stdHash) CommitsUntaken (create k config bitCount numHashes)
      actions) (i : Fin k) :
    ∃ taken, Machine.Along (System.step (env i)) System.CommitsUntaken
        (.create config bitCount numHashes) taken ∧
      ((((create k config bitCount numHashes).run env stdHash actions).cores i).Follows
        ((System.create config bitCount numHashes).run (env i) taken)) := by
  have halong := (Machine.along_record
    (step_core i)).mpr
      (h.mono fun s a ha => CommitsUntaken.core ha i)
  have hfollows := Core.Follows.create config bitCount numHashes
  refine ⟨_, hfollows.along halong, ?_⟩
  rw [run_core]
  exact hfollows.run _

def weigh (t : Trajectory) : Multiset TrajectoryGroup →+ ℕ :=
  Multiset.sumAddMonoidHom.comp (Multiset.mapAddMonoidHom (TrajectoryGroup.weight t))

theorem weigh_coe (t : Trajectory) (groups : List TrajectoryGroup) :
    weigh t groups = (trajectoriesOf groups).count t := by
  rw [trajectoriesOf, List.count_flatMap]
  rfl

theorem delivered_eq (log : List Event) :
    delivered log = trajectoriesOf (log.flatMap Event.groups) := by
  rw [delivered, trajectoriesOf, List.flatMap_assoc]
  refine List.flatMap_congr fun event _ => ?_
  cases event <;> rfl

theorem count_returned_le {call : Call k} (h : call.Kinds) (t : Trajectory) :
    (trajectoriesOf (call.returned stdHash)).count t ≤ weigh t call.merged := by
  rw [← h.returned_append_withheld stdHash, weigh_coe, trajectoriesOf_append,
    List.count_append]
  exact Nat.le_add_right ..

/-- What all calls together return is no more than what the cores have delivered. -/
theorem returned_le_delivered {s : Server k} (hs : s.Consistent stdHash none)
    (hb : s.Booked Account.deliveries) (t : Trajectory) :
    (trajectoriesOf (s.calls.flatMap fun call => call.returned stdHash)).count t ≤
      ∑ i, (delivered (s.cores i).log).count t := by
  have hcores := congrArg (weigh t) (deliveries_merged hb)
  rw [map_sum, map_list_sum] at hcores
  calc (trajectoriesOf (s.calls.flatMap fun call => call.returned stdHash)).count t
      = (s.calls.map fun call => (trajectoriesOf (call.returned stdHash)).count t).sum := by
        rw [trajectoriesOf, List.flatMap_assoc, List.count_flatMap]
        rfl
    _ ≤ (s.calls.map fun call => weigh t call.merged).sum :=
        List.sum_le_sum fun call hcall => count_returned_le (hs.kinds hcall) t
    _ = ∑ i, (delivered (s.cores i).log).count t := by
        simp only [delivered_eq, ← weigh_coe]
        rw [hcores, List.map_map]
        rfl

/-- In every run whose spills commit only what no read has taken since the copy, everything
that the calls return holds a trajectory at most as often as its core has appended it. -/
theorem returned_at_most_once (env : Fin k → Env) (stdHash : String → ℕ)
    (config : TransferQueueConfig) (bitCount numHashes : ℕ) (actions : List (ServerAction k))
    (h : Machine.Along (step env stdHash) CommitsUntaken (create k config bitCount numHashes)
      actions) (t : Trajectory) :
    let s := (create k config bitCount numHashes).run env stdHash actions
    s.crashed = false →
      (trajectoriesOf (s.calls.flatMap fun call => call.returned stdHash)).count t ≤
        (s.cores (BufferManager.shardFor stdHash t.instanceId)).log.count (.appended t) := by
  intro s hup
  obtain ⟨hs, hb⟩ := books_run Account.deliveries config bitCount numHashes actions hup
  have hcore : ∀ i, (delivered (s.cores i).log).count t ≤ (s.cores i).log.count (.appended t) := by
    intro i
    obtain ⟨taken, halong, hfollows⟩ := core_commitsUntaken config bitCount numHashes h i
    have hkept := System.along_keeps (fun _ _ => Balanced.change)
      (fun s a _ _ hstep => System.permits_commit hstep)
      (Balanced.create t config bitCount numHashes (env i)) halong
    have hlog : (s.cores i).log =
        ((System.create config bitCount numHashes).run (env i) taken).log :=
      congrArg System.log hfollows.1
    rw [hlog]
    exact (View.delivered_le_tally t _).trans hkept.2.tally_le
  calc (trajectoriesOf (s.calls.flatMap fun call => call.returned stdHash)).count t
      ≤ ∑ i, (delivered (s.cores i).log).count t := returned_le_delivered hs hb t
    _ ≤ ∑ i, (s.cores i).log.count (.appended t) := Finset.sum_le_sum fun i _ => hcore i
    _ = (s.cores (BufferManager.shardFor stdHash t.instanceId)).log.count (.appended t) := by
        refine Finset.sum_eq_single _ (fun i _ hi => ?_) (by simp)
        refine List.count_eq_zero.mpr fun hmem => hi ?_
        exact (appended_requested env stdHash config bitCount numHashes actions i t hmem).2.symm

end Once

section Samples

theorem reads_account_overlapping :
    let s := (create 2 (.tight 1) 0 0).run (fun _ => .sample []) sampleHash (overlapping 0 1)
    (∑ i, ((s.cores i).log.flatMap Event.groups : Multiset TrajectoryGroup)) =
        (s.calls.map fun call =>
          (call.returned sampleHash : Multiset TrajectoryGroup) + call.withheld sampleHash).sum ∧
      ∀ call ∈ s.calls, call.withheld sampleHash ≠ [] →
        call.response sampleHash = none ∨ (∃ i e, call.answers i = some (.groups (.error e))) ∨
          ∃ maxGroups, call.request = .readReadyGroups maxGroups ∧ 0 < maxGroups ∧
            maxGroups < Int32.ofNat call.merged.length :=
  reads_account (fun _ => .sample []) sampleHash (.tight 1) 0 0 (overlapping 0 1)
    (by decide +kernel)

theorem returned_at_most_once_overlapping :
    let s := (create 2 (.tight 1) 0 0).run (fun _ => .sample []) sampleHash (overlapping 0 1)
    let t : Trajectory := .bare "v" "b"
    (trajectoriesOf (s.calls.flatMap fun call => call.returned sampleHash)).count t ≤
      (s.cores (BufferManager.shardFor sampleHash t.instanceId)).log.count (.appended t) :=
  returned_at_most_once (fun _ => .sample []) sampleHash (.tight 1) 0 0 (overlapping 0 1)
    (by decide +kernel) (.bare "v" "b") (by decide +kernel)

end Samples

end Server
end TransferQueue
