import TransferQueue.Library.Machine
import TransferQueue.Protobuf

/-! The client's end of a stream. One flag guards `subscribe`, is the condition of the
receive loop and is how `unsubscribe` asks it to stop, and it is set only when the RPC
returns. Calls, RPCs and messages come in any order. -/

namespace TransferQueue

structure SubscribeRequest where
  prefetchGroups : Int32
  deriving DecidableEq

def SubscribeRequest.encode (request : SubscribeRequest) : List UInt8 :=
  encodeInt32 0x08 request.prefetchGroups.toInt

/-- How far a call has come. The loop that `subscribe` leaves behind runs under the number
of its call. -/
inductive ClientTask where
  | sink (serialized : List UInt8)
  | rpc
  | receiving
  | calling
  | failing (reason : Failure)
  | stopping (task : Option ℕ)

namespace ClientTask

def subscribes : ClientTask → Bool
  | .sink _ | .rpc => true
  | _ => false

def loops : ClientTask → Bool
  | .receiving | .calling => true
  | _ => false

/-- A loop whose future has not resolved: a failed one still has its handler to run. -/
def unresolved : ClientTask → Bool
  | .receiving | .calling | .failing _ => true
  | _ => false

def waits : ClientTask → Bool
  | .sink _ | .rpc | .stopping _ => true
  | _ => false

end ClientTask

/-- `streamingTask` is the call whose loop the future is of, and `assigning` the call that
is inside its assignment. `asked` is history: the loops that `unsubscribe` found running. -/
structure TransferQueueClient where
  connected : Bool
  streamingActive : Bool
  streamingTask : Option ℕ
  assigning : Option ℕ
  calls : ℕ
  tasks : ℕ → Option ClientTask
  asked : ℕ → Bool

/-- What an awaited future gives. -/
inductive Awaited where
  | done
  | message (data : Option (List UInt8))
  | fails (reason : Failure)

inductive ClientAction where
  | subscribe (prefetchGroups : Int32)
  | unsubscribe
  | assign
  | proceed (c : ℕ) (outcome : Awaited)

/-- What the client asks of the network and of its caller, and how its calls end. -/
inductive ClientEffect where
  | makeStreamSink (c : ℕ)
  | call (c : ℕ) (serialized : List UInt8)
  | receive (c : ℕ)
  | callback (c : ℕ) (group : TrajectoryGroup)
  | resolved (c : ℕ)
  | failed (c : ℕ) (reason : Failure)
  deriving DecidableEq

namespace TransferQueueClient

def new (connected : Bool) : TransferQueueClient :=
  ⟨connected, false, none, none, 0, fun _ => none, fun _ => false⟩

def running (s : TransferQueueClient) (c : ℕ) : Bool := (s.tasks c).any ClientTask.loops

def unresolved (s : TransferQueueClient) (c : ℕ) : Bool := (s.tasks c).any ClientTask.unresolved

def subscribing (s : TransferQueueClient) (c : ℕ) : Bool := (s.tasks c).any ClientTask.subscribes

def set (s : TransferQueueClient) (c : ℕ) (task : Option ClientTask) : TransferQueueClient :=
  { s with tasks := Function.update s.tasks c task }

section Steps
variable (requests : Codec SubscribeRequest) (codec : Codec TrajectoryGroup)

def subscribe (prefetchGroups : Int32) (s : TransferQueueClient) :
    List ClientEffect × TransferQueueClient :=
  let c := s.calls
  let s := { s with calls := s.calls + 1 }
  if !s.connected then ([.failed c (.runtimeError "Client not connected")], s)
  else if s.streamingActive then ([.failed c (.runtimeError "Already subscribed")], s)
  else
    match requests.serialize ⟨prefetchGroups⟩ with
    | none => ([.failed c (.runtimeError "Failed to serialize request")], s)
    | some serialized => ([.makeStreamSink c], s.set c (some (.sink serialized)))

/-- The call takes the future of the loop out of `streaming_task_` and waits for it. -/
def unsubscribe (s : TransferQueueClient) : List ClientEffect × TransferQueueClient :=
  let c := s.calls
  let s := { s with calls := s.calls + 1 }
  if !s.connected then ([.failed c (.runtimeError "Client not connected")], s)
  else if !s.streamingActive then ([.resolved c], s)
  else
    ([], { s.set c (some (.stopping s.streamingTask)) with
      streamingActive := false
      streamingTask := none
      asked := fun d => s.asked d || s.running d })

/-- The condition of `do_until` and, if it does not hold, the next receive. -/
def doUntil (c : ℕ) (s : TransferQueueClient) : List ClientEffect × TransferQueueClient :=
  if !s.streamingActive then ([], s.set c none) else ([.receive c], s.set c (some .receiving))

/-- The loop may run on, and its callback call the client, before `streaming_task_` is
assigned; no other RPC returns meanwhile. -/
def proceed (c : ℕ) (outcome : Awaited) (s : TransferQueueClient) :
    List ClientEffect × TransferQueueClient :=
  match s.tasks c, outcome with
  | some (.sink serialized), .done => ([.call c serialized], s.set c (some .rpc))
  | some (.sink _), .fails e => ([.failed c e], s.set c none)
  | some .rpc, .done =>
    if s.assigning.isSome then ([], s)
    else
      let r := doUntil c { s with streamingActive := true }
      (r.1, { r.2 with assigning := some c })
  | some .rpc, .fails e => ([.failed c e], s.set c none)
  | some .receiving, .message none =>
    ([], s.set c (some (.failing (.runtimeError "Stream ended"))))
  | some .receiving, .message (some data) =>
    match codec.parse data with
    | none => ([], s.set c (some (.failing (.runtimeError "Failed to parse trajectory group"))))
    | some group => ([.callback c group], s.set c (some .calling))
  | some .receiving, .fails e => ([], s.set c (some (.failing e)))
  | some .calling, .done => doUntil c s
  | some .calling, .fails e => ([], s.set c (some (.failing e)))
  | some (.failing _), _ => ([], { s.set c none with streamingActive := false })
  | some (.stopping task), _ =>
    if task.any s.unresolved then ([], s) else ([.resolved c], s.set c none)
  | _, _ => ([], s)

/-- `subscribe` resolves once it has assigned the loop's future. -/
def assign (s : TransferQueueClient) : List ClientEffect × TransferQueueClient :=
  match s.assigning with
  | none => ([], s)
  | some c => ([.resolved c], { s with streamingTask := some c, assigning := none })

def step (s : TransferQueueClient) : ClientAction → List ClientEffect × TransferQueueClient
  | .subscribe prefetchGroups => s.subscribe requests prefetchGroups
  | .unsubscribe => s.unsubscribe
  | .assign => s.assign
  | .proceed c outcome => s.proceed codec c outcome

end Steps

section Moves

theorem any_update (tasks : ℕ → Option ClientTask) (c d : ℕ) (task : Option ClientTask)
    (p : ClientTask → Bool) :
    (Function.update tasks c task d).any p = if d = c then task.any p else (tasks d).any p := by
  rw [Function.update_apply]
  split_ifs <;> rfl

theorem any_of_set {s : TransferQueueClient} {c : ℕ} {task : Option ClientTask}
    {p : ClientTask → Bool} (hp : task.any p = true → (s.tasks c).any p = true) {d : ℕ}
    (hd : ((s.set c task).tasks d).any p = true) : (s.tasks d).any p = true := by
  simp only [set, any_update] at hd
  split_ifs at hd with hdc
  · exact hdc ▸ hp hd
  · exact hd

theorem eq_of_set {s : TransferQueueClient} {c : ℕ} {task : Option ClientTask}
    {p : ClientTask → Bool} (hno : ∀ d, (s.tasks d).any p = false) {d : ℕ}
    (hd : ((s.set c task).tasks d).any p = true) : d = c := by
  by_contra hne
  simp only [set, any_update] at hd
  rw [if_neg hne, hno d] at hd
  cases hd

theorem unresolved_of_running {s : TransferQueueClient} {c : ℕ} (h : s.running c = true) :
    s.unresolved c = true := by
  unfold running at h
  unfold unresolved
  cases ht : s.tasks c with
  | none => simp [ht] at h
  | some task => cases task <;> simp_all [ClientTask.loops, ClientTask.unresolved]

theorem waits_of_subscribing {s : TransferQueueClient} {c : ℕ} (h : s.subscribing c = true) :
    (s.tasks c).any ClientTask.waits = true := by
  unfold subscribing at h
  cases ht : s.tasks c with
  | none => simp [ht] at h
  | some task => cases task <;> simp_all [ClientTask.subscribes, ClientTask.waits]

theorem subscribing_of_running {s : TransferQueueClient} {c : ℕ} (h : s.running c = true) :
    s.subscribing c = false := by
  unfold running at h
  unfold subscribing
  cases ht : s.tasks c with
  | none => rfl
  | some task => cases task <;> simp_all [ClientTask.loops, ClientTask.subscribes]

def Returns (s : TransferQueueClient) (c : ℕ) : ClientAction → Prop
  | .proceed d .done => d = c ∧ s.tasks c = some .rpc ∧ s.assigning = none
  | _ => False

theorem Returns.subscribing {s : TransferQueueClient} {c : ℕ} {a : ClientAction}
    (h : s.Returns c a) : s.subscribing c = true := by
  cases a with
  | proceed d o =>
    cases o with
    | done => simp [TransferQueueClient.subscribing, h.2.1, ClientTask.subscribes]
    | message data => cases h
    | fails e => cases h
  | _ => cases h

def Silent (effects : List ClientEffect) : Prop := ∀ c, ClientEffect.receive c ∉ effects

theorem silent_nil : Silent [] := fun _ => List.not_mem_nil

/-- What a step can do. -/
inductive Move (s : TransferQueueClient) :
    ClientAction → List ClientEffect → TransferQueueClient → Prop where
  | stays {a effects} (quiet : Silent effects) : Move s a effects s
  | refused {a effects} (quiet : Silent effects) : Move s a effects { s with calls := s.calls + 1 }
  | subscribed {p effects serialized} (quiet : Silent effects) (off : s.streamingActive = false) :
      Move s (.subscribe p) effects
        { s.set s.calls (some (.sink serialized)) with calls := s.calls + 1 }
  | unsubscribed (on : s.streamingActive = true) :
      Move s .unsubscribe []
        { s.set s.calls (some (.stopping s.streamingTask)) with
          calls := s.calls + 1
          streamingActive := false
          streamingTask := none
          asked := fun d => s.asked d || s.running d }
  | called {c o effects} (quiet : Silent effects) (hc : s.subscribing c = true) :
      Move s (.proceed c o) effects (s.set c (some .rpc))
  | gaveUp {c o effects} (quiet : Silent effects) (hc : s.subscribing c = true) :
      Move s (.proceed c o) effects (s.set c none)
  | returned {c} (returns : s.Returns c (.proceed c .done)) :
      Move s (.proceed c .done) [.receive c]
        { s.set c (some .receiving) with streamingActive := true, assigning := some c }
  | received {c o effects} (quiet : Silent effects) (hc : s.running c = true) :
      Move s (.proceed c o) effects (s.set c (some .calling))
  | continued {c o} (hc : s.running c = true) (on : s.streamingActive = true) :
      Move s (.proceed c o) [.receive c] (s.set c (some .receiving))
  | stopped {c o} (hc : s.running c = true) (off : s.streamingActive = false) :
      Move s (.proceed c o) [] (s.set c none)
  | broke {c o e} (hc : s.running c = true) :
      Move s (.proceed c o) [] (s.set c (some (.failing e)))
  | handled {c o} (hc : s.unresolved c = true) :
      Move s (.proceed c o) [] { s.set c none with streamingActive := false }
  | resolved {c o task effects} (quiet : Silent effects) (hc : s.tasks c = some (.stopping task))
      (ended : task.any s.unresolved = false) : Move s (.proceed c o) effects (s.set c none)
  | assigned {c effects} (quiet : Silent effects) (hc : s.assigning = some c) :
      Move s .assign effects { s with streamingTask := some c, assigning := none }

variable {requests : Codec SubscribeRequest} {codec : Codec TrajectoryGroup}

theorem subscribe_move (p : Int32) (s : TransferQueueClient) :
    Move s (.subscribe p) (s.subscribe requests p).1 (s.subscribe requests p).2 := by
  rw [subscribe]
  split_ifs with hc ha
  · exact .refused (by simp [Silent])
  · exact .refused (by simp [Silent])
  · cases requests.serialize ⟨p⟩ with
    | none => exact .refused (by simp [Silent])
    | some serialized => exact .subscribed (by simp [Silent]) (by simpa using ha)

theorem unsubscribe_move (s : TransferQueueClient) :
    Move s .unsubscribe s.unsubscribe.1 s.unsubscribe.2 := by
  rw [unsubscribe]
  split_ifs with hc ha
  · exact .refused (by simp [Silent])
  · exact .refused (by simp [Silent])
  · exact .unsubscribed (by simpa using ha)

theorem assign_move (s : TransferQueueClient) : Move s .assign s.assign.1 s.assign.2 := by
  rw [assign]
  cases ha : s.assigning with
  | none => exact .stays (by simp [Silent])
  | some c => exact .assigned (by simp [Silent]) ha

theorem doUntil_move {c : ℕ} (o : Awaited) {s : TransferQueueClient} (h : s.running c = true) :
    Move s (.proceed c o) (s.doUntil c).1 (s.doUntil c).2 := by
  rw [doUntil]
  split_ifs with ha
  · exact .stopped h (by simpa using ha)
  · exact .continued h (by simpa using ha)

theorem proceed_move (c : ℕ) (o : Awaited) (s : TransferQueueClient) :
    Move s (.proceed c o) (s.proceed codec c o).1 (s.proceed codec c o).2 := by
  cases ht : s.tasks c with
  | none => simpa [proceed, ht] using .stays silent_nil
  | some task =>
    cases task with
    | sink serialized =>
      have hs : s.subscribing c = true := by simp [subscribing, ht, ClientTask.subscribes]
      cases o with
      | done => simpa [proceed, ht] using .called (by simp [Silent]) hs
      | message data => simpa [proceed, ht] using .stays silent_nil
      | fails e => simpa [proceed, ht] using .gaveUp (by simp [Silent]) hs
    | rpc =>
      have hs : s.subscribing c = true := by simp [subscribing, ht, ClientTask.subscribes]
      cases o with
      | done =>
        cases ha : s.assigning with
        | some d => simpa [proceed, ht, ha] using .stays silent_nil
        | none => simpa [proceed, ht, ha, doUntil, set] using .returned ⟨rfl, ht, ha⟩
      | message data => simpa [proceed, ht] using .stays silent_nil
      | fails e => simpa [proceed, ht] using .gaveUp (by simp [Silent]) hs
    | receiving =>
      have hr : s.running c = true := by simp [running, ht, ClientTask.loops]
      cases o with
      | done => simpa [proceed, ht] using .stays silent_nil
      | message data =>
        cases data with
        | none => simpa [proceed, ht] using .broke hr
        | some data =>
          cases hp : codec.parse data with
          | none => simpa [proceed, ht, hp] using .broke hr
          | some group => simpa [proceed, ht, hp] using .received (by simp [Silent]) hr
      | fails e => simpa [proceed, ht] using .broke hr
    | calling =>
      have hr : s.running c = true := by simp [running, ht, ClientTask.loops]
      cases o with
      | done => simpa [proceed, ht] using doUntil_move .done hr
      | message data => simpa [proceed, ht] using .stays silent_nil
      | fails e => simpa [proceed, ht] using .broke hr
    | failing e =>
      simpa [proceed, ht] using .handled (by simp [unresolved, ht, ClientTask.unresolved])
    | stopping task =>
      cases hu : task.any s.unresolved with
      | true => simpa [proceed, ht, hu] using .stays silent_nil
      | false => simpa [proceed, ht, hu] using .resolved (by simp [Silent]) ht hu

theorem step_move (s : TransferQueueClient) (a : ClientAction) :
    Move s a (step requests codec s a).1 (step requests codec s a).2 := by
  cases a with
  | subscribe p => exact subscribe_move p s
  | unsubscribe => exact unsubscribe_move s
  | assign => exact assign_move s
  | proceed c o => exact proceed_move c o s

theorem step_returns {s : TransferQueueClient} {c : ℕ} {a : ClientAction} (h : s.Returns c a) :
    (step requests codec s a).2 =
      { s.set c (some .receiving) with streamingActive := true, assigning := some c } := by
  cases a with
  | proceed d o =>
    cases o with
    | done =>
      obtain ⟨rfl, ht, ha⟩ := h
      simp [step, proceed, ht, ha, doUntil, set]
    | message data => cases h
    | fails e => cases h
  | _ => cases h

end Moves

section Single
variable (requests : Codec SubscribeRequest) (codec : Codec TrajectoryGroup)

def AtMostOne (s : TransferQueueClient) : Prop :=
  ∀ c d, s.running c = true → s.running d = true → c = d

/-- The step leaves at most one loop running, and no loop that `unsubscribe` asked to stop
starts another receive in it. -/
def Single (s : TransferQueueClient) (a : ClientAction) : Prop :=
  (step requests codec s a).2.AtMostOne ∧
    ∀ c, s.asked c = true → ClientEffect.receive c ∉ (step requests codec s a).1

/-- An RPC that returns finds no loop running. -/
def ReturnsAlone (s : TransferQueueClient) (a : ClientAction) : Prop :=
  ∀ c, s.Returns c a → ∀ d, s.running d = false

variable {requests codec}

def Fresh (s : TransferQueueClient) : Prop := ∀ c, s.calls ≤ c → s.tasks c = none

theorem Fresh.lt {s : TransferQueueClient} (h : s.Fresh) {c : ℕ} {p : ClientTask → Bool}
    (hp : (s.tasks c).any p = true) : c < s.calls := by
  by_contra hle
  rw [h c (by omega)] at hp
  cases hp

theorem Fresh.move {s : TransferQueueClient} (h : s.Fresh) {c : ℕ} (hc : c < s.calls)
    (task : Option ClientTask) (d : ℕ) (hd : s.calls ≤ d) : (s.set c task).tasks d = none := by
  simp only [set, Function.update_apply]
  rw [if_neg (by omega)]
  exact h d hd

theorem Fresh.call {s : TransferQueueClient} (h : s.Fresh) (task : Option ClientTask) (d : ℕ)
    (hd : s.calls + 1 ≤ d) : (s.set s.calls task).tasks d = none := by
  simp only [set, Function.update_apply]
  rw [if_neg (by omega)]
  exact h d (by omega)

/-- The loops asked to stop have begun, and the flag is down as long as one of them runs. -/
structure Guarded (s : TransferQueueClient) : Prop where
  one : s.AtMostOne
  off : ∀ c, s.asked c = true → s.running c = true → s.streamingActive = false
  begun : ∀ c, s.asked c = true → c < s.calls ∧ s.subscribing c = false
  fresh : s.Fresh

theorem new_guarded (connected : Bool) : (new connected).Guarded where
  one _ _ h _ := by cases h
  off _ h _ := by cases h
  begun _ h := by cases h
  fresh _ _ := rfl

theorem Guarded.of_le {s s' : TransferQueueClient} (h : s.Guarded)
    (hr : ∀ d, s'.running d = true → s.running d = true)
    (ha : s.streamingActive = false → s'.streamingActive = false) (hq : s'.asked = s.asked)
    (hs : ∀ d, s'.subscribing d = true → s.subscribing d = true ∨ d = s.calls)
    (hc : s.calls ≤ s'.calls) (hf : ∀ d, s'.calls ≤ d → s'.tasks d = none) : s'.Guarded where
  one c d hc hd := h.one c d (hr c hc) (hr d hd)
  off c hasked hrun := ha (h.off c (hq ▸ hasked) (hr c hrun))
  begun c hasked := by
    obtain ⟨hlt, hno⟩ := h.begun c (hq ▸ hasked)
    refine ⟨by omega, ?_⟩
    by_contra hyes
    rcases hs c (by simpa using hyes) with hold | rfl
    · simp [hold] at hno
    · omega
  fresh := hf

theorem Guarded.move {s : TransferQueueClient} (h : s.Guarded) {c : ℕ} (hc : c < s.calls)
    (task : Option ClientTask) (hr : task.any ClientTask.loops = true → s.running c = true)
    (hs : task.any ClientTask.subscribes = true → s.subscribing c = true) :
    (s.set c task).Guarded := by
  refine h.of_le (fun d hd => ?_) id rfl (fun d hd => .inl ?_) le_rfl (h.fresh.move hc task)
  · exact any_of_set (p := ClientTask.loops) hr hd
  · exact any_of_set (p := ClientTask.subscribes) hs hd

theorem Guarded.unsubscribed {s : TransferQueueClient} (h : s.Guarded) :
    Guarded { s.set s.calls (some (.stopping s.streamingTask)) with
      calls := s.calls + 1
      streamingActive := false
      streamingTask := none
      asked := fun d => s.asked d || s.running d } := by
  have hrun : ∀ d, (s.set s.calls (some (.stopping s.streamingTask))).running d = true →
      s.running d = true := by
    intro d hd
    exact any_of_set (p := ClientTask.loops) (fun hloop => by cases hloop) hd
  refine ⟨fun c d hc hd => h.one c d (hrun c hc) (hrun d hd), fun _ _ _ => rfl, fun c hc => ?_,
    h.fresh.call _⟩
  have hbegun : c < s.calls ∧ s.subscribing c = false := by
    rcases Bool.or_eq_true_iff.mp hc with hasked | hrunning
    · exact h.begun c hasked
    · exact ⟨h.fresh.lt hrunning, subscribing_of_running hrunning⟩
  refine ⟨Nat.lt_succ_of_lt hbegun.1, ?_⟩
  simp only [subscribing, set, any_update]
  rw [if_neg hbegun.1.ne]
  exact hbegun.2

theorem Guarded.returned {s : TransferQueueClient} (h : s.Guarded) {c : ℕ}
    (alone : ∀ d, s.running d = false) (hrpc : s.tasks c = some .rpc) :
    Guarded { s.set c (some .receiving) with streamingActive := true, assigning := some c } := by
  have hsub : s.subscribing c = true := by simp [subscribing, hrpc, ClientTask.subscribes]
  have honly : ∀ d, (s.set c (some .receiving)).running d = true → d = c :=
    fun _ hd => eq_of_set (p := ClientTask.loops) alone hd
  have hnew : ∀ d, s.asked d = true → d ≠ c := by
    rintro d hd rfl
    simp [(h.begun d hd).2] at hsub
  refine ⟨fun d e hd he => (honly d hd).trans (honly e he).symm,
    fun d hd hrun => absurd (honly d hrun) (hnew d hd), fun d hd => ⟨(h.begun d hd).1, ?_⟩,
    h.fresh.move (h.fresh.lt hsub) _⟩
  simp only [subscribing, set, any_update]
  rw [if_neg (hnew d hd)]
  exact (h.begun d hd).2

theorem Move.guarded {s s' : TransferQueueClient} {a : ClientAction} {effects : List ClientEffect}
    (hm : Move s a effects s') (h : s.Guarded) (alone : s.ReturnsAlone a) : s'.Guarded := by
  cases hm with
  | stays => exact h
  | refused =>
    refine h.of_le (fun _ => id) id rfl (fun _ => .inl) (Nat.le_succ _) (fun d hd => ?_)
    exact h.fresh d (Nat.le_of_succ_le hd)
  | subscribed _ off =>
    refine h.of_le (fun d hd => ?_) id rfl (fun d hd => ?_) (Nat.le_succ _) (h.fresh.call _)
    · exact any_of_set (p := ClientTask.loops) (fun hloop => by cases hloop) hd
    · simp only [subscribing, set, any_update] at hd
      split_ifs at hd with hdc
      · exact .inr hdc
      · exact .inl hd
  | unsubscribed on => exact h.unsubscribed
  | called _ hc => exact h.move (h.fresh.lt hc) _ (by simp [ClientTask.loops]) (fun _ => hc)
  | gaveUp _ hc => exact h.move (h.fresh.lt hc) none (by simp) (by simp)
  | returned returns => exact h.returned (alone _ returns) returns.2.1
  | received _ hc =>
    exact h.move (h.fresh.lt hc) _ (fun _ => hc) (by simp [ClientTask.subscribes])
  | continued hc on =>
    exact h.move (h.fresh.lt hc) _ (fun _ => hc) (by simp [ClientTask.subscribes])
  | stopped hc off => exact h.move (h.fresh.lt hc) none (by simp) (by simp)
  | broke hc =>
    exact h.move (h.fresh.lt hc) _ (by simp [ClientTask.loops]) (by simp [ClientTask.subscribes])
  | handled hc =>
    have hset := h.move (h.fresh.lt hc) none (by simp) (by simp)
    exact hset.of_le (fun _ => id) (fun _ => rfl) rfl (fun _ => .inl) le_rfl hset.fresh
  | @resolved c _ task _ _ hc ended =>
    exact h.move (h.fresh.lt (p := fun _ => true) (by simp [hc])) none (by simp) (by simp)
  | assigned _ hc => exact h.of_le (fun _ => id) id rfl (fun _ => .inl) le_rfl h.fresh

theorem Move.receive {s s' : TransferQueueClient} {a : ClientAction} {effects : List ClientEffect}
    (hm : Move s a effects s') {c : ℕ} (hmem : ClientEffect.receive c ∈ effects) :
    s.Returns c a ∨ s.running c = true ∧ s.streamingActive = true := by
  cases hm with
  | returned returns =>
    obtain rfl := ClientEffect.receive.inj (List.mem_singleton.mp hmem)
    exact .inl returns
  | continued hc on =>
    obtain rfl := ClientEffect.receive.inj (List.mem_singleton.mp hmem)
    exact .inr ⟨hc, on⟩
  | unsubscribed | stopped | broke | handled => cases hmem
  | stays quiet | refused quiet | subscribed quiet | called quiet | gaveUp quiet
  | received quiet | resolved quiet | assigned quiet => exact absurd hmem (quiet c)

theorem Guarded.single {s : TransferQueueClient} (h : s.Guarded) {a : ClientAction}
    (alone : s.ReturnsAlone a) :
    s.Single requests codec a ∧ (step requests codec s a).2.Guarded := by
  have hm : Move s a _ _ := @step_move requests codec s a
  have h' := hm.guarded h alone
  refine ⟨⟨h'.one, fun c hasked hc => ?_⟩, h'⟩
  rcases hm.receive hc with returns | ⟨hrunning, hactive⟩
  · have hsub := returns.subscribing
    rw [(h.begun c hasked).2] at hsub
    cases hsub
  · rw [h.off c hasked hrunning] at hactive
    cases hactive

/-- A loop that runs while another RPC returns runs beside the new loop. -/
theorem Single.returnsAlone {s : TransferQueueClient} {a : ClientAction}
    (h : s.Single requests codec a) : s.ReturnsAlone a := by
  intro c returns d
  by_contra hd
  have hrun : s.running d = true := by simpa using hd
  have hdc : d ≠ c := by
    rintro rfl
    have hsub := returns.subscribing
    rw [subscribing_of_running hrun] at hsub
    cases hsub
  have hafter := @step_returns requests codec s c a returns
  refine hdc (h.1 d c ?_ ?_)
  · rw [hafter]
    simp only [running, set, any_update]
    rw [if_neg hdc]
    exact hrun
  · rw [hafter]
    simp [running, set, ClientTask.loops]

/-- One subscription at a time. In every run of a client, at most one loop runs and no loop
asked to stop receives again if and only if no RPC returns while a loop runs. -/
theorem one_subscription_iff (requests : Codec SubscribeRequest) (codec : Codec TrajectoryGroup)
    (connected : Bool) (actions : List ClientAction) :
    Machine.Along (step requests codec) (Single requests codec) (new connected) actions ↔
      Machine.Along (step requests codec) ReturnsAlone (new connected) actions := by
  constructor
  · exact Machine.Along.mono fun _ _ => Single.returnsAlone
  · intro h
    exact (Machine.along_of_inv Guarded (fun _ _ hs alone => hs.single alone) actions
      (new_guarded connected) h).1

/-- Of two calls that overlap both pass the guard, and both loops run. A loop that was asked
to stop reads the flag that the next subscription has put up, and receives again. -/
theorem loops_side_by_side :
    let group : TrajectoryGroup := ⟨"q", [.bare "u" "q"], 1, true⟩
    let requests : Codec SubscribeRequest := .ofEncoding SubscribeRequest.encode [⟨1⟩]
    let codec : Codec TrajectoryGroup := .sample [group]
    let overlapping : List ClientAction := [.subscribe 1, .subscribe 1, .proceed 0 .done,
      .proceed 1 .done, .proceed 0 .done, .assign, .proceed 1 .done]
    let revived : List ClientAction := [.subscribe 1, .proceed 0 .done, .proceed 0 .done, .assign,
      .unsubscribe, .subscribe 1, .proceed 2 .done, .proceed 2 .done, .assign,
      .proceed 0 (.message (some (group.encode fun _ => 0))), .proceed 0 .done]
    let two := Machine.final (step requests codec) (new true) overlapping
    let old := Machine.final (step requests codec) (new true) revived.dropLast
    (two.running 0 = true ∧ two.running 1 = true) ∧
      ¬Machine.Along (step requests codec) (Single requests codec) (new true) overlapping ∧
      (old.asked 0 = true ∧
        ClientEffect.receive 0 ∈ (step requests codec old (.proceed 0 .done)).1) ∧
      ¬Machine.Along (step requests codec) (Single requests codec) (new true) revived := by
  intro group requests codec overlapping revived two old
  have htwo : two.running 0 = true ∧ two.running 1 = true := by decide +kernel
  have hagain : old.asked 0 = true ∧
      ClientEffect.receive 0 ∈ (step requests codec old (.proceed 0 .done)).1 := by
    decide +kernel
  refine ⟨htwo, fun h => ?_, hagain, fun h => ?_⟩
  · have hlast := @Machine.Along.last _ _ _ _ _ _ overlapping.dropLast (.proceed 1 .done) h
    cases hlast.1 0 1 htwo.1 htwo.2
  · have hlast := @Machine.Along.last _ _ _ _ _ _ revived.dropLast (.proceed 0 .done) h
    exact hlast.2 0 hagain.1 hagain.2

end Single

section Awaited

def InProgress (s : TransferQueueClient) (c : ℕ) : Prop :=
  (s.tasks c).any ClientTask.waits = true ∨ s.assigning = some c

/-- A call is made when no earlier one is in progress. -/
def OneByOne (s : TransferQueueClient) : ClientAction → Prop
  | .subscribe _ | .unsubscribe => ∀ c, ¬ s.InProgress c
  | _ => True

/-- A loop whose future has not resolved has the flag up and its future kept, or some
`unsubscribe` waits for it. -/
structure Orderly (s : TransferQueueClient) : Prop where
  fresh : s.Fresh
  one : ∀ c d, s.InProgress c → s.InProgress d → c = d
  loop : ∀ c d, s.unresolved c = true → s.unresolved d = true → c = d
  alone : ∀ c d, s.subscribing c = true → s.unresolved d = false
  inside : ∀ c d, s.assigning = some c → s.unresolved d = true → d = c
  held : ∀ d, s.unresolved d = true →
    s.streamingActive = true ∧ (s.streamingTask = some d ∨ s.assigning = some d) ∨
      ∃ e, s.tasks e = some (.stopping (some d))

theorem new_orderly (connected : Bool) : (new connected).Orderly where
  fresh _ _ := rfl
  one _ _ h := by rcases h with h | h <;> cases h
  loop _ _ h := by cases h
  alone _ _ h := by cases h
  inside _ _ h := by cases h
  held _ h := by cases h

/-- Under such calls no loop is left when `subscribe` passes its guard. -/
theorem Orderly.quiet {s : TransferQueueClient} (h : s.Orderly) (idle : ∀ c, ¬ s.InProgress c)
    (off : s.streamingActive = false) (d : ℕ) : s.unresolved d = false := by
  by_contra hd
  rcases h.held d (by simpa using hd) with ⟨hon, -⟩ | ⟨e, he⟩
  · rw [off] at hon
    cases hon
  · exact idle e (.inl (by simp [he, ClientTask.waits]))

theorem Orderly.move {s : TransferQueueClient} (h : s.Orderly) {c : ℕ} (task : Option ClientTask)
    (hc : c < s.calls)
    (hw : task.any ClientTask.waits = true → (s.tasks c).any ClientTask.waits = true)
    (hs : task.any ClientTask.subscribes = true → s.subscribing c = true)
    (hu : task.any ClientTask.unresolved = true → s.unresolved c = true)
    (hover : ∀ d, s.tasks c = some (.stopping (some d)) → s.unresolved d = false) :
    (s.set c task).Orderly := by
  have hloop : ∀ d, (s.set c task).unresolved d = true → s.unresolved d = true :=
    fun d hd => any_of_set (p := ClientTask.unresolved) hu hd
  have hprogress : ∀ d, (s.set c task).InProgress d → s.InProgress d :=
    fun d hd => hd.imp_left (any_of_set hw)
  refine ⟨h.fresh.move hc task, fun d e hd he => h.one d e (hprogress d hd) (hprogress e he),
    fun d e hd he => h.loop d e (hloop d hd) (hloop e he), fun d e hd => ?_,
    fun d e hd he => h.inside d e hd (hloop e he), fun d hd => ?_⟩
  · by_contra he
    have hno := h.alone d e (any_of_set (p := ClientTask.subscribes) hs hd)
    rw [hloop e (by simpa using he)] at hno
    cases hno
  · rcases h.held d (hloop d hd) with hup | ⟨e, he⟩
    · exact .inl hup
    · have hec : e ≠ c := by
        rintro rfl
        have hno := hover d he
        rw [hloop d hd] at hno
        cases hno
      exact .inr ⟨e, by simp [set, hec, he]⟩

theorem Orderly.subscribed {s : TransferQueueClient} (h : s.Orderly)
    (idle : ∀ c, ¬ s.InProgress c) (off : s.streamingActive = false) (serialized : List UInt8) :
    Orderly { s.set s.calls (some (.sink serialized)) with calls := s.calls + 1 } := by
  have hnone : ∀ d, (s.set s.calls (some (.sink serialized))).unresolved d = true → False := by
    intro d hd
    have hold : s.unresolved d = true :=
      any_of_set (p := ClientTask.unresolved) (fun hu => by cases hu) hd
    rw [h.quiet idle off d] at hold
    cases hold
  have honly : ∀ d, (s.set s.calls (some (.sink serialized))).InProgress d → d = s.calls :=
    fun d hd => by_contra fun hne => idle d (hd.imp_left (by simp [set, hne]))
  exact ⟨h.fresh.call _, fun d e hd he => (honly d hd).trans (honly e he).symm,
    fun d _ hd => (hnone d hd).elim, fun _ e _ => Bool.eq_false_iff.mpr (hnone e),
    fun _ e _ he => (hnone e he).elim, fun d hd => (hnone d hd).elim⟩

theorem Orderly.unsubscribed {s : TransferQueueClient} (h : s.Orderly)
    (idle : ∀ c, ¬ s.InProgress c) :
    Orderly { s.set s.calls (some (.stopping s.streamingTask)) with
      calls := s.calls + 1
      streamingActive := false
      streamingTask := none
      asked := fun d => s.asked d || s.running d } := by
  have hloop : ∀ d, (s.set s.calls (some (.stopping s.streamingTask))).unresolved d = true →
      s.unresolved d = true :=
    fun d hd => any_of_set (p := ClientTask.unresolved) (fun hu => by cases hu) hd
  have honly : ∀ d, (s.set s.calls (some (.stopping s.streamingTask))).InProgress d →
      d = s.calls :=
    fun d hd => by_contra fun hne => idle d (hd.imp_left (by simp [set, hne]))
  refine ⟨h.fresh.call _, fun d e hd he => (honly d hd).trans (honly e he).symm,
    fun d e hd he => h.loop d e (hloop d hd) (hloop e he), fun d e hd => ?_,
    fun d _ hd => (idle d (.inr hd)).elim, fun d hd => .inr ?_⟩
  · have hold : s.subscribing d = true :=
      any_of_set (p := ClientTask.subscribes) (fun hu => by cases hu) hd
    exact (idle d (.inl (waits_of_subscribing hold))).elim
  · rcases h.held d (hloop d hd) with ⟨-, hkept | hinside⟩ | ⟨e, he⟩
    · exact ⟨s.calls, by simp [set, hkept]⟩
    · exact (idle d (.inr hinside)).elim
    · exact (idle e (.inl (by simp [he, ClientTask.waits]))).elim

theorem Orderly.returned {s : TransferQueueClient} (h : s.Orderly) {c : ℕ}
    (hrpc : s.tasks c = some .rpc) :
    Orderly { s.set c (some .receiving) with streamingActive := true, assigning := some c } := by
  have hsub : s.subscribing c = true := by simp [subscribing, hrpc, ClientTask.subscribes]
  have hcalled : s.InProgress c := .inl (waits_of_subscribing hsub)
  have hnew : ∀ d, (s.set c (some .receiving)).unresolved d = true → d = c :=
    fun _ hd => eq_of_set (p := ClientTask.unresolved) (fun e => h.alone c e hsub) hd
  have honly : ∀ d, ((s.set c (some .receiving)).tasks d).any ClientTask.waits = true → d = c :=
    fun d hd => h.one d c (.inl (any_of_set (fun hw => by cases hw) hd)) hcalled
  have hprogress : ∀ d, InProgress { s.set c (some .receiving) with
      streamingActive := true, assigning := some c } d → d = c := by
    rintro d (hd | hd)
    · exact honly d hd
    · exact (Option.some.inj hd).symm
  refine ⟨h.fresh.move (h.fresh.lt hsub) _,
    fun d e hd he => (hprogress d hd).trans (hprogress e he).symm,
    fun d e hd he => (hnew d hd).trans (hnew e he).symm, fun d e hd => ?_,
    fun d e hd he => (hnew e he).trans (Option.some.inj hd), fun d hd => ?_⟩
  · obtain rfl := honly d (waits_of_subscribing (s := s.set c (some .receiving)) hd)
    simp [subscribing, set, ClientTask.subscribes] at hd
  · exact .inl ⟨rfl, .inr (congrArg some (hnew d hd).symm)⟩

theorem Orderly.handled {s : TransferQueueClient} (h : s.Orderly) {c : ℕ}
    (hc : s.unresolved c = true) :
    Orderly { s.set c none with streamingActive := false } := by
  have hmoved : (s.set c none).Orderly := by
    refine h.move none (h.fresh.lt hc) (fun hw => by cases hw) (fun hs => by cases hs)
      (fun hu => by cases hu) (fun d hd => ?_)
    simp [unresolved, hd, ClientTask.unresolved] at hc
  refine { hmoved with held := fun d hd => ?_ }
  have hold : s.unresolved d = true :=
    any_of_set (p := ClientTask.unresolved) (fun hu => by cases hu) hd
  obtain rfl := h.loop d c hold hc
  simp [unresolved, set] at hd

theorem Orderly.assigned {s : TransferQueueClient} (h : s.Orderly) {c : ℕ}
    (hc : s.assigning = some c) :
    Orderly { s with streamingTask := some c, assigning := none } where
  fresh := h.fresh
  one d e hd he := h.one d e (hd.imp_right fun h => by cases h) (he.imp_right fun h => by cases h)
  loop := h.loop
  alone := h.alone
  inside _ _ hd := by cases hd
  held d hd := by
    rcases h.held d hd with ⟨hon, -⟩ | hstop
    · exact .inl ⟨hon, .inl (congrArg some (h.inside c d hc hd).symm)⟩
    · exact .inr hstop

theorem Orderly.loops {s : TransferQueueClient} (h : s.Orderly) {c : ℕ} (hc : s.running c = true)
    (task : Option ClientTask) (hw : task.any ClientTask.waits = false)
    (hs : task.any ClientTask.subscribes = false) : (s.set c task).Orderly := by
  refine h.move task (h.fresh.lt hc) (by simp [hw]) (by simp [hs])
    (fun _ => unresolved_of_running hc) (fun d hd => ?_)
  simp [running, hd, ClientTask.loops] at hc

theorem Move.orderly {s s' : TransferQueueClient} {a : ClientAction} {effects : List ClientEffect}
    (hm : Move s a effects s') (h : s.Orderly) (idle : s.OneByOne a) : s'.Orderly := by
  cases hm with
  | stays => exact h
  | refused => exact { h with fresh := fun c hc => h.fresh c (Nat.le_of_succ_le hc) }
  | subscribed _ off => exact h.subscribed idle off _
  | unsubscribed on => exact h.unsubscribed idle
  | called _ hc =>
    refine h.move _ (h.fresh.lt hc) (fun _ => waits_of_subscribing hc) (fun _ => hc)
      (by simp [ClientTask.unresolved]) (fun d hd => ?_)
    simp [subscribing, hd, ClientTask.subscribes] at hc
  | gaveUp _ hc =>
    refine h.move none (h.fresh.lt hc) (by simp) (by simp) (by simp) (fun d hd => ?_)
    simp [subscribing, hd, ClientTask.subscribes] at hc
  | returned returns => exact h.returned returns.2.1
  | received _ hc =>
    exact h.loops hc _ (by simp [ClientTask.waits]) (by simp [ClientTask.subscribes])
  | continued hc =>
    exact h.loops hc _ (by simp [ClientTask.waits]) (by simp [ClientTask.subscribes])
  | stopped hc => exact h.loops hc none rfl rfl
  | broke hc =>
    exact h.loops hc _ (by simp [ClientTask.waits]) (by simp [ClientTask.subscribes])
  | handled hc => exact h.handled hc
  | @resolved c _ task _ _ hc ended =>
    refine h.move none (h.fresh.lt (p := fun _ => true) (by simp [hc])) (by simp) (by simp)
      (by simp) (fun d hd => ?_)
    cases hc.symm.trans hd
    exact ended
  | assigned _ hc => exact h.assigned hc

theorem Orderly.returnsAlone {s : TransferQueueClient} (h : s.Orderly) (a : ClientAction) :
    s.ReturnsAlone a := by
  intro c returns d
  by_contra hd
  have hrun : s.running d = true := by simpa using hd
  have hno := h.alone c d returns.subscribing
  rw [unresolved_of_running hrun] at hno
  cases hno

theorem calls_one_by_one (requests : Codec SubscribeRequest) (codec : Codec TrajectoryGroup)
    (connected : Bool) {actions : List ClientAction}
    (h : Machine.Along (step requests codec) OneByOne (new connected) actions) :
    Machine.Along (step requests codec) (Single requests codec) (new connected) actions := by
  have hkept : ∀ s a, s.Orderly ∧ s.Guarded → s.OneByOne a →
      s.Single requests codec a ∧
        (step requests codec s a).2.Orderly ∧ (step requests codec s a).2.Guarded := by
    rintro s a ⟨ho, hg⟩ hone
    obtain ⟨hsingle, hg'⟩ := @Guarded.single requests codec s hg a (ho.returnsAlone a)
    exact ⟨hsingle, (step_move s a).orderly ho hone, hg'⟩
  exact (Machine.along_of_inv _ hkept actions ⟨new_orderly connected, new_guarded connected⟩ h).1

end Awaited

end TransferQueueClient
end TransferQueue
