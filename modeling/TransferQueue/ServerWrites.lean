import TransferQueue.ServerAccounts

/-! Writes on a server. What the cores accept is what the calls are told has been written, or
what has failed to be spilled, or what is still being spilled. -/

namespace TransferQueue

/-- A write that resolves to true, now or after its spill, unless that fails. -/
def Event.accepted (event : Event) : Bool := event.written? = some true

/-- The accepted writes that an answer settles; a write whose spill fails has been accepted
too. -/
def Response.settles : Response → ℕ
  | written (.ok b) => b.toNat
  | written (.error _) => 1
  | counted (.ok n) => n
  | _ => 0

/-- A spill is a write that is not settled. -/
def Task.unsettled : Task → ℕ
  | spill _ _ _ => 1
  | _ => 0

theorem sum_map_toNat {α : Type*} (p : α → Bool) (l : List α) :
    (l.map fun a => (p a).toNat).sum = l.countP p := by
  induction l with
  | nil => rfl
  | cons a l ih =>
    rw [List.map_cons, List.sum_cons, ih, List.countP_cons, Nat.add_comm]
    cases p a <;> rfl

/-- Accepted writes are settled by an answer or still being spilled. -/
def Account.writes : Account ℕ where
  brings event := event.accepted.toNat
  hands response := response.settles
  owes task := task.unsettled
  balanced h := by
    cases h with
    | written b event event_eq =>
      cases b <;> simp [Event.accepted, event_eq, Response.settles]
    | counted _ writes =>
      simp only [sum_map_toNat, Event.accepted]
      rfl
    | told response plain =>
      rcases plain with ⟨b, rfl⟩ | ⟨status, rfl⟩ | rfl <;> simp [Response.settles]
    | removing answer plain todo =>
      rcases plain with rfl | rfl <;> simp [Response.settles, Task.unsettled]
    | committed startedAt written ids =>
      simp [Response.settles, Event.accepted, Event.written?, Task.unsettled, Function.comp_def]
    | _ => simp [Response.settles, Event.accepted, Event.written?, Task.unsettled]
  owes_remove _ := rfl
  hands_done _ := rfl

namespace Call
variable {k : ℕ}

def settled (c : Call k) : ℕ := ∑ i, ((c.answers i).toList.map Response.settles).sum

variable [NeZero k] {stdHash : String → ℕ} {c : Call k}

theorem settles_of_kind {kind : Kind} {response : Response} (h : kind.Admits response)
    (hkind : kind ≠ .written ∧ kind ≠ .counted) : response.settles = 0 := by
  obtain ⟨rfl, -⟩ := h
  cases response <;> first | rfl | exact absurd rfl hkind.1 | exact absurd rfl hkind.2

theorem collect_counted {answers : List Response}
    (h : ∀ response ∈ answers, Kind.counted.Admits response) :
    (collect Response.counted? answers).map List.sum =
      .ok (answers.map Response.settles).sum := by
  induction answers with
  | nil => rfl
  | cons answer answers ih =>
    have hrest := ih fun response hr => h response (List.mem_cons_of_mem _ hr)
    obtain ⟨hkind, hok⟩ := h answer List.mem_cons_self
    cases answer with
    | counted r =>
      cases r with
      | error e => exact absurd rfl (hok e)
      | ok n =>
        rw [collect] at hrest
        rw [collect, List.filterMap_cons_some (f := Response.counted?) rfl, List.mapM_cons]
        cases hmap : (answers.filterMap Response.counted?).mapM id with
        | error e =>
          rw [hmap] at hrest
          cases hrest
        | ok counts =>
          rw [hmap] at hrest
          have hsum : counts.sum = (answers.map Response.settles).sum := Except.ok.inj hrest
          rw [List.map_cons, List.sum_cons, ← hsum]
          rfl
    | _ => cases hkind

omit [NeZero k] in
theorem settled_eq_sum (c : Call k) :
    c.settled = (((List.finRange k).filterMap c.answers).map Response.settles).sum := by
  rw [settled, Fin.sum_univ_def]
  induction List.finRange k with
  | nil => rfl
  | cons i cores ih =>
    rw [List.map_cons, List.sum_cons, ih]
    cases hi : c.answers i with
    | none => rw [List.filterMap_cons_none hi]; simp
    | some response => rw [List.filterMap_cons_some hi]; simp

omit [NeZero k] in
theorem settled_eq_zero (h : ∀ i, ∀ response ∈ c.answers i, c.request.kind.Admits response)
    (hkind : c.request.kind ≠ .written ∧ c.request.kind ≠ .counted) : c.settled = 0 := by
  refine Finset.sum_eq_zero fun i _ => List.sum_eq_zero fun n hn => ?_
  obtain ⟨response, hresponse, rfl⟩ := List.mem_map.mp hn
  exact settles_of_kind (h i response (Option.mem_toList.mp hresponse)) hkind

/-- What a call is told settles what its cores have settled. -/
theorem settled_eq (h : ∀ i, ∀ response ∈ c.answers i, c.request.kind.Admits response)
    (hmeant : ∀ i, (c.answers i).isSome = true → (part stdHash c.request i).isSome = true)
    {response : Response} (hresponse : c.response stdHash = some response) :
    c.settled = response.settles := by
  rw [Call.response] at hresponse
  split at hresponse
  · cases hc : c.request with
    | write t =>
      rw [hc] at hresponse
      have hcore : c.answers (BufferManager.shardFor stdHash t.instanceId) = some response :=
        hresponse
      rw [settled, Finset.sum_eq_single (BufferManager.shardFor stdHash t.instanceId)
        (fun i _ hi => ?_) (by simp), hcore]
      · simp
      · cases hi' : c.answers i with
        | none => rfl
        | some response' =>
          have hpart := hmeant i (by rw [hi']; rfl)
          rw [hc, part, if_neg (Ne.symm hi)] at hpart
          cases hpart
    | batchWrite ts =>
      rw [hc] at hresponse
      obtain rfl := Option.some.inj hresponse
      rw [collect_counted fun response hr => ?_, settled_eq_sum]
      · rfl
      · obtain ⟨i, -, hi⟩ := List.mem_filterMap.mp hr
        have hadmits := h i response hi
        rwa [hc] at hadmits
    | deleteInstance id =>
      rw [hc] at h hresponse
      have hcore := h _ response hresponse
      rw [settles_of_kind hcore (by simp [Request.kind])]
      exact settled_eq_zero (hc ▸ h) (by simp [hc, Request.kind])
    | _ =>
      rw [hc] at hresponse
      obtain rfl := Option.some.inj hresponse
      exact settled_eq_zero h (by simp [hc, Request.kind])
  · cases hresponse

end Call

namespace Server
variable {k : ℕ} [NeZero k]

/-- In every run, whatever overlaps and whatever fails, the writes that the cores have accepted
are those that their answers settle and those still being spilled; and what a call is told in
the end settles exactly its own. -/
theorem writes_account (env : Fin k → Env) (stdHash : String → ℕ) (config : TransferQueueConfig)
    (bitCount numHashes : ℕ) (actions : List (ServerAction k)) :
    let s := (create k config bitCount numHashes).run env stdHash actions
    s.crashed = false →
      ∑ i, (s.cores i).log.countP Event.accepted =
          (s.calls.map Call.settled).sum +
            ∑ i, ((s.cores i).tasks.map fun p => p.2.unsettled).sum ∧
        ∀ call ∈ s.calls, ∀ response, call.response stdHash = some response →
          call.settled = response.settles := by
  intro s hup
  obtain ⟨hs, hb⟩ := books_run Account.writes config bitCount numHashes actions hup
  constructor
  · have hcore : ∀ i, (s.cores i).log.countP Event.accepted =
        paid Account.writes i s.calls + ((s.cores i).tasks.map fun p => p.2.unsettled).sum :=
      fun i => (sum_map_toNat _ _).symm.trans (hb i)
    rw [Finset.sum_congr rfl fun i _ => hcore i, Finset.sum_add_distrib, sum_paid]
    rfl
  · intro call hcall response hresponse
    obtain ⟨c, hc⟩ := List.mem_iff_getElem?.mp hcall
    refine Call.settled_eq (fun i => hs.answers_kind i c call hc) (fun i hi => ?_) hresponse
    refine hs.meant i c call hc ?_
    have honce := hs.once i c call hc
    obtain ⟨answer, hanswer⟩ := Option.isSome_iff_exists.mp hi
    rw [hanswer] at honce
    cases hr : call.reached i with
    | true => rfl
    | false =>
      rw [hr] at honce
      simp at honce

theorem writes_account_overlapping :
    let s := (create 2 (.tight 1) 0 0).run (fun _ => .sample []) sampleHash (overlapping 0 1)
    ∑ i, (s.cores i).log.countP Event.accepted =
        (s.calls.map Call.settled).sum +
          ∑ i, ((s.cores i).tasks.map fun p => p.2.unsettled).sum ∧
      ∀ call ∈ s.calls, ∀ response, call.response sampleHash = some response →
        call.settled = response.settles :=
  writes_account (fun _ => .sample []) sampleHash (.tight 1) 0 0 (overlapping 0 1)
    (by decide +kernel)

end Server
end TransferQueue
