import TransferQueue.ConfigUpdates
import TransferQueue.CoreRuns

/-! The server. A call goes to every core that it concerns, and resolves when they have all
answered. The messages to the cores arrive in any order, and between them and the
resumptions on the cores anything else can happen. The configuration is one object that
all shards refer to. -/

namespace TransferQueue

/-- A request, the cores that it has reached, and what they have answered. -/
structure Call (k : ℕ) where
  request : Request
  reached : Fin k → Bool
  answers : Fin k → Option Response

/-- One core a shard, and the calls in the order of their requests. -/
structure Server (k : ℕ) where
  config : TransferQueueConfig
  cores : Fin k → Core
  calls : List (Call k)

/-- A request comes in, its message arrives at a core, a core resumes a suspended operation,
or the configuration is changed. -/
inductive ServerAction (k : ℕ) where
  | call (request : Request)
  | arrive (c : ℕ) (i : Fin k)
  | resume (i : Fin k) (j : ℕ)
  | configure (req : ConfigRequest)

namespace Response

def counted? : Response → Option (Except Failure ℕ)
  | counted r => some r
  | _ => none

def groups? : Response → Option (Except Failure (List TrajectoryGroup))
  | groups r => some r
  | _ => none

def ready? : Response → Option Bool
  | ready b => some b
  | _ => none

def done? : Response → Option (Except Failure Unit)
  | done r => some r
  | _ => none

def status? : Response → Option BufferShard.BufferStatus
  | status r => some r
  | _ => none

def given : Response → List TrajectoryGroup
  | groups (.ok gs) => gs
  | _ => []

end Response

namespace Call
variable {k : ℕ}

def create (request : Request) : Call k := ⟨request, fun _ => false, fun _ => none⟩

def reach (i : Fin k) (c : Call k) : Call k :=
  { c with reached := Function.update c.reached i true }

def answer (i : Fin k) (response : Response) (c : Call k) : Call k :=
  { c with answers := Function.update c.answers i (some response) }

/-- The results among some answers, or the first failure. -/
def collect {α : Type} (result? : Response → Option (Except Failure α)) (answers : List Response) :
    Except Failure (List α) :=
  (answers.filterMap result?).mapM id

variable [NeZero k] (stdHash : String → ℕ)

def part (request : Request) (i : Fin k) : Option Request :=
  match request with
  | .write t =>
    if BufferManager.shardFor stdHash t.instanceId = i then some (.write t) else none
  | .batchWrite ts =>
    match BufferManager.batchFor stdHash ts i with
    | [] => none
    | batch => some (.batchWrite batch)
  | .readReadyGroups maxGroups => some (.readReadyGroups maxGroups)
  | .hasReadyGroups => some .hasReadyGroups
  | .deleteInstance id =>
    if BufferManager.shardFor stdHash id = i then some (.deleteInstance id) else none
  | .reset => some .reset
  | .getStatus => some .getStatus

/-- What the answers of the cores make together. -/
def combine (request : Request) (answers : Fin k → Option Response) : Option Response :=
  let all := (List.finRange k).filterMap answers
  match request with
  | .write t => answers (BufferManager.shardFor stdHash t.instanceId)
  | .batchWrite _ => some (.counted ((collect Response.counted? all).map List.sum))
  | .readReadyGroups maxGroups =>
    some (.groups ((collect Response.groups? all).map fun perShard =>
      BufferManager.truncate maxGroups perShard.flatten))
  | .hasReadyGroups =>
    some (.ready ((all.filterMap Response.ready?).foldl (fun a b => a || b) false))
  | .deleteInstance id => answers (BufferManager.shardFor stdHash id)
  | .reset => some (.done ((collect Response.done? all).map fun _ => ()))
  | .getStatus =>
    some (.status ((all.filterMap Response.status?).foldl BufferManager.addStatus
      ⟨0, 0, 0, 0, 0, 0⟩))

/-- Every core that the request concerns has answered. -/
def Answered (c : Call k) : Prop :=
  ∀ i, (part stdHash c.request i).isSome = true → (c.answers i).isSome = true

instance (c : Call k) : Decidable (c.Answered stdHash) :=
  inferInstanceAs
    (Decidable (∀ i, (part stdHash c.request i).isSome = true → (c.answers i).isSome = true))

/-- What the call has resolved to. -/
def response (c : Call k) : Option Response :=
  if c.Answered stdHash then combine stdHash c.request c.answers else none

end Call

namespace Server
variable {k : ℕ}

def create (k : ℕ) (config : TransferQueueConfig) (bitCount numHashes : ℕ) : Server k :=
  ⟨config, fun _ => .create config bitCount numHashes, []⟩

def requests (s : Server k) : List Request := s.calls.map Call.request

/-- The process is down when it has come down on some core. -/
def crashed (s : Server k) : Bool := decide (∃ i, (s.cores i).crashed = true)

def record (i : Fin k) (output : Option (ℕ × Response)) (calls : List (Call k)) : List (Call k) :=
  match output with
  | none => calls
  | some (c, response) => calls.modify c (Call.answer i response)

section Steps
variable (env : Fin k → Env)

def turn (i : Fin k) (input : Core.Input) (s : Server k) : Server k :=
  let r := (s.cores i).step (env i) input
  { s with cores := Function.update s.cores i r.2, calls := record i r.1 s.calls }

variable [NeZero k] (stdHash : String → ℕ)

def message (s : Server k) (c : ℕ) (i : Fin k) : Option Request :=
  match s.calls[c]? with
  | none => none
  | some call => if call.reached i then none else Call.part stdHash call.request i

def act (s : Server k) : ServerAction k → Server k
  | .call request => { s with calls := s.calls ++ [.create request] }
  | .arrive c i =>
    match s.message stdHash c i with
    | none => s
    | some request =>
      turn env i (.ask c request) { s with calls := s.calls.modify c (Call.reach i) }
  | .resume i j => turn env i (.resume j) s
  | .configure req =>
    let config := s.config.update req
    { s with config, cores := fun i => ((s.cores i).step (env i) (.configure config)).2 }

/-- Nothing happens when the process is down. -/
def step (s : Server k) (a : ServerAction k) : Unit × Server k :=
  ((), if s.crashed then s else s.act env stdHash a)

def run (s : Server k) (actions : List (ServerAction k)) : Server k :=
  Machine.final (step env stdHash) s actions

def responseOf (c : ℕ) (s : Server k) : Option Response :=
  s.calls[c]?.bind (Call.response stdHash)

end Steps

section Projection
variable [NeZero k] (env : Fin k → Env) (stdHash : String → ℕ)

def dispatch (i : Fin k) (s : Server k) : ServerAction k → List Core.Input
  | .call _ => []
  | .arrive c i' =>
    if i' = i then (s.message stdHash c i).toList.map fun request => .ask c request else []
  | .resume i' j => if i' = i then [.resume j] else []
  | .configure req => [.configure (s.config.update req)]

def inputs (i : Fin k) (s : Server k) (a : ServerAction k) : List Core.Input :=
  if s.crashed then [] else s.dispatch stdHash i a

variable {env} {stdHash}

omit [NeZero k] in
theorem turn_core (i i' : Fin k) (input : Core.Input) (s : Server k) :
    (turn env i' input s).cores i =
      if i' = i then ((s.cores i).step (env i) input).2 else s.cores i := by
  rw [turn]
  by_cases h : i' = i
  · subst h
    rw [if_pos rfl]
    exact Function.update_self ..
  · rw [if_neg h]
    exact Function.update_of_ne (Ne.symm h) ..

theorem step_core (i : Fin k) (s : Server k) (a : ServerAction k) :
    (s.step env stdHash a).2.cores i =
      Machine.final (Core.step (env i)) (s.cores i) (s.inputs stdHash i a) := by
  rw [step, inputs]
  cases s.crashed with
  | true => rfl
  | false =>
    simp only [Bool.false_eq_true, if_false]
    cases a with
    | call request => rfl
    | arrive c i' =>
      rw [act, dispatch]
      by_cases h : i' = i
      · subst h
        cases s.message stdHash c i' with
        | none => simp
        | some request => simp [turn_core]
      · cases s.message stdHash c i' with
        | none => simp [h]
        | some request => simp [turn_core, h]
    | resume i' j =>
      rw [act, turn_core, dispatch]
      by_cases h : i' = i <;> simp [h]
    | configure req => rfl

theorem message_eq {s : Server k} {c : ℕ} {call : Call k} (h : s.calls[c]? = some call)
    (i : Fin k) :
    s.message stdHash c i =
      if call.reached i then none else Call.part stdHash call.request i := by
  rw [message, h]

theorem message_part {s : Server k} {c : ℕ} {i : Fin k} {request : Request}
    (h : s.message stdHash c i = some request) :
    ∃ whole ∈ s.requests, Call.part stdHash whole i = some request := by
  rw [message] at h
  split at h
  · cases h
  · rename_i call hcall
    exact ⟨call.request, List.mem_map_of_mem (List.mem_of_getElem? hcall),
      (Option.ite_none_left_eq_some.mp h).2⟩

variable (stdHash) in
theorem inputs_cases (i : Fin k) (s : Server k) (a : ServerAction k) :
    s.inputs stdHash i a = [] ∨
      (∃ c request, a = .arrive c i ∧ s.message stdHash c i = some request ∧
        s.inputs stdHash i a = [.ask c request]) ∨
      (∃ j, a = .resume i j ∧ s.inputs stdHash i a = [.resume j]) ∨
      ∃ config, s.inputs stdHash i a = [.configure config] := by
  rw [inputs]
  cases s.crashed with
  | true => exact .inl rfl
  | false =>
    simp only [Bool.false_eq_true, if_false]
    cases a with
    | call request => exact .inl rfl
    | arrive c i' =>
      rw [dispatch]
      by_cases h : i' = i
      · cases hm : s.message stdHash c i with
        | none => exact .inl (by simp)
        | some request => exact .inr (.inl ⟨c, request, by rw [h], hm, by simp [h]⟩)
      · exact .inl (if_neg h)
    | resume i' j =>
      rw [dispatch]
      by_cases h : i' = i
      · exact .inr (.inr (.inl ⟨j, by rw [h], if_pos h⟩))
      · exact .inl (if_neg h)
    | configure req => exact .inr (.inr (.inr ⟨_, rfl⟩))

/-- A core sees of a run of the server what is meant for it, in order. -/
theorem run_core (i : Fin k) (s : Server k) (actions : List (ServerAction k)) :
    (s.run env stdHash actions).cores i = Machine.final (Core.step (env i)) (s.cores i)
      (Machine.record (step env stdHash) (inputs stdHash i) s actions) :=
  @Machine.final_record _ _ _ _ _ _ _ _ (fun s => s.cores i) _ (step_core i) s actions

end Projection

section Requests
variable [NeZero k] {env : Fin k → Env} {stdHash : String → ℕ}

omit [NeZero k] in
theorem map_modify {α β : Type*} {l : List α} {c : ℕ} {f : α → α} {g : α → β}
    (h : ∀ a, g (f a) = g a) : (l.modify c f).map g = l.map g := by
  induction l generalizing c with
  | nil => rw [List.modify_nil]
  | cons b l ih => cases c <;> simp [h, ih]

omit [NeZero k] in
theorem turn_requests (i : Fin k) (input : Core.Input) (s : Server k) :
    (turn env i input s).requests = s.requests := by
  rw [requests, turn]
  rcases ((s.cores i).step (env i) input).1 with _ | ⟨c, response⟩
  · rfl
  · exact map_modify fun _ => rfl

variable (env stdHash) in
theorem requests_extend (s : Server k) (a : ServerAction k) :
    s.requests <+: (s.step env stdHash a).2.requests := by
  rw [step]
  split
  · exact List.prefix_rfl
  · cases a with
    | call request =>
      change s.requests <+: (s.calls ++ [Call.create request]).map Call.request
      rw [List.map_append]
      exact List.prefix_append _ _
    | arrive c i =>
      rw [act]
      cases s.message stdHash c i with
      | none => exact List.prefix_rfl
      | some part =>
        have hreach : ({ s with calls := s.calls.modify c (Call.reach i) } : Server k).requests =
            s.requests := map_modify fun _ => rfl
        rw [turn_requests, hreach]
    | resume i j => exact (turn_requests i (.resume j) s).symm ▸ List.prefix_rfl
    | configure req => exact List.prefix_rfl

theorem requests_step {s : Server k} {request : Request} (h : request ∈ s.requests)
    (a : ServerAction k) : request ∈ (s.step env stdHash a).2.requests :=
  (requests_extend env stdHash s a).mem h

theorem part_trajectories {request part : Request} {i : Fin k}
    (h : Call.part stdHash request i = some part) {t : Trajectory} (ht : t ∈ part.trajectories) :
    t ∈ request.trajectories ∧ BufferManager.shardFor stdHash t.instanceId = i := by
  cases request with
  | write t' =>
    obtain ⟨hi, hpart⟩ := Option.ite_none_right_eq_some.mp h
    cases hpart
    exact ⟨ht, by rwa [List.mem_singleton.mp ht]⟩
  | batchWrite ts =>
    rw [Call.part] at h
    split at h
    · cases h
    · rename_i hbatch
      cases h
      rw [Request.trajectories, BufferManager.batchFor] at ht
      obtain ⟨hmem, hshard⟩ := List.mem_filter.mp ht
      exact ⟨hmem, by simpa using hshard⟩
  | deleteInstance id =>
    obtain ⟨-, hpart⟩ := Option.ite_none_right_eq_some.mp h
    cases hpart
    cases ht
  | _ => cases h; cases ht

variable (env stdHash) in
/-- In every run, a core appends only what some request writes and what is routed to it. -/
theorem appended_requested (config : TransferQueueConfig) (bitCount numHashes : ℕ)
    (actions : List (ServerAction k)) :
    let s := (create k config bitCount numHashes).run env stdHash actions
    ∀ i t, .appended t ∈ (s.cores i).log →
      (∃ request ∈ s.requests, t ∈ request.trajectories) ∧
        BufferManager.shardFor stdHash t.instanceId = i := by
  refine Machine.final_inv (fun s : Server k => ∀ i t, .appended t ∈ (s.cores i).log →
    (∃ request ∈ s.requests, t ∈ request.trajectories) ∧
      BufferManager.shardFor stdHash t.instanceId = i) (fun s a h i t hmem => ?_) actions ?_
  swap
  · exact fun _ _ hmem => absurd hmem List.not_mem_nil
  have hold : .appended t ∈ (s.cores i).log →
      (∃ request ∈ (s.step env stdHash a).2.requests, t ∈ request.trajectories) ∧
        BufferManager.shardFor stdHash t.instanceId = i := by
    intro hmem
    obtain ⟨⟨request, hrequest, ht⟩, hi⟩ := h i t hmem
    exact ⟨⟨request, requests_step hrequest a, ht⟩, hi⟩
  rw [step_core] at hmem
  rcases inputs_cases stdHash i s a with
    hnone | ⟨c, part, -, hm, hask⟩ | ⟨j, -, hresume⟩ | ⟨config, hconfig⟩
  · rw [hnone] at hmem
    exact hold hmem
  · rw [hask] at hmem
    rcases Core.step_appended (env i) hmem with hmem | ⟨c', part', hinput, ht⟩
    · exact hold hmem
    · cases hinput
      obtain ⟨request, hrequest, hpart⟩ := message_part hm
      obtain ⟨ht, hi⟩ := part_trajectories hpart ht
      exact ⟨⟨request, requests_step hrequest a, ht⟩, hi⟩
  · rw [hresume] at hmem
    exact hold ((Core.step_appended (env i) hmem).resolve_right (by simp))
  · rw [hconfig] at hmem
    exact hold ((Core.step_appended (env i) hmem).resolve_right (by simp))

end Requests

section Samples

/-- The instance "b" belongs to the second of two cores. -/
def sampleHash (id : String) : ℕ := if id = "b" then 1 else 0

/-- Two writes that spill, and a read that arrives at one core after the spill and at the other
in its middle. -/
def overlapping {k : ℕ} (i j : Fin k) : List (ServerAction k) :=
  [.call (.write (.bare "u" "a")), .call (.write (.bare "v" "b")), .arrive 0 i, .arrive 1 j,
    .resume i 0, .call (.readReadyGroups 0), .arrive 2 j, .resume i 0, .arrive 2 i, .resume j 0,
    .resume i 0, .resume i 0, .resume i 0, .resume i 0, .resume j 0]

end Samples

end Server
end TransferQueue
