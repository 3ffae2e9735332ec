import TransferQueue.Handlers
import TransferQueue.ServerCalls

/-! Runs of the server with its handlers. The server takes part in them as in a run of its own,
and every call belongs to one session, which waits for it or has its answer. -/

namespace TransferQueue

namespace Phase
variable {clock : ℤ} {fresh : ℕ} {response : ℕ → Option Response}

variable (clock fresh) in
theorem begin_awaits (job : Job) :
    (job.begin clock fresh).1.awaits = (job.begin clock fresh).2.map fun _ => fresh := by
  cases job <;> rfl

variable (clock fresh) in
theorem begin_empty (job : Job) :
    (job.begin clock fresh).1.replied = [] ∧ (job.begin clock fresh).1.held = [] := by
  cases job <;> exact ⟨rfl, rfl⟩

variable (clock fresh response) in
/-- A session that goes on has what it waited for, keeps all groups that it got with it, and
waits for the call that it makes, if it makes one. -/
theorem next_cases (phase : Phase) :
    phase.next clock fresh response = (phase, none) ∨
      ((∀ c ∈ phase.awaits, (response c).isSome = true) ∧
        (phase.next clock fresh response).1.awaits =
          (phase.next clock fresh response).2.map (fun _ => fresh) ∧
        (phase.next clock fresh response).1.replied ++ (phase.next clock fresh response).1.held =
          phase.replied ++ phase.held ++
            (phase.awaits.bind response).toList.flatMap Response.given) := by
  cases phase with
  | calling c =>
    rw [next]
    cases hc : response c with
    | none => exact .inl rfl
    | some result => exact .inr (by simp [awaits, hc, replied, held])
  | polling poll c =>
    rw [next]
    cases hc : response c with
    | none => exact .inl rfl
    | some result =>
      cases result with
      | ready b =>
        refine .inr ?_
        cases b with
        | true => simp [awaits, hc, replied, held, Poll.read, Response.given]
        | false =>
          simp only
          split <;> simp [awaits, hc, replied, held, Poll.read, Response.given]
      | _ => exact .inl rfl
  | sleeping poll wake =>
    rw [next]
    split
    · exact .inr (by simp [awaits, replied, held])
    · exact .inl rfl
  | reading poll c =>
    rw [next]
    cases hc : response c with
    | none => exact .inl rfl
    | some result =>
      refine .inr ?_
      cases result with
      | groups r =>
        cases r with
        | error e => simp [awaits, hc, replied, held]
        | ok groups =>
          simp only
          split
          · split
            · rename_i hempty
              simp [awaits, hc, replied, held, Poll.round, Poll.begin, Response.given, hempty]
            · simp [awaits, hc, replied, held, Response.given]
          · simp [awaits, hc, replied, held]
      | _ => simp [awaits, hc, replied, held]
  | sending poll rest =>
    cases rest with
    | nil => exact .inr (by simp [next, awaits, replied, held, Poll.round, Poll.begin])
    | cons group rest => exact .inl rfl
  | configured => exact .inr (by simp [next, awaits, replied, held, Response.given])
  | _ => exact .inl rfl

end Phase

namespace Server
variable {k : ℕ} [NeZero k] {env : Fin k → Env} {stdHash : String → ℕ} {s : Server k}

theorem step_call (hup : s.crashed = false) (request : Request) :
    (s.step env stdHash (.call request)).2 = { s with calls := s.calls ++ [.create request] } := by
  rw [step, hup]
  rfl

theorem step_length {a : ServerAction k} (ha : ∀ request, a ≠ .call request) :
    (s.step env stdHash a).2.calls.length = s.calls.length := by
  rw [step]
  split
  · rfl
  · cases a with
    | call request => exact absurd rfl (ha request)
    | arrive c i =>
      rw [act]
      split
      · rfl
      · exact (record_length ..).trans (List.length_modify ..)
    | resume i j => exact record_length ..
    | configure req => rfl

end Server

namespace Deployment
variable {k : ℕ} [NeZero k] {env : Fin k → Env} {stdHash : String → ℕ} {json : Json}
  {codecs : RpcCodecs}

section Projection

variable (stdHash json codecs) in
def dispatch (s : Deployment k) : DeploymentAction k → List (ServerAction k)
  | .accept source =>
    match source.job json codecs with
    | .error _ => []
    | .ok (.configure req) => [.configure req]
    | .ok job => (job.begin s.clock s.fresh).2.toList.map .call
  | .proceed n =>
    (s.sessions[n]?).toList.flatMap fun session =>
      (session.phase.next s.clock s.fresh fun c => s.server.responseOf stdHash c).2.toList.map .call
  | .sink _ _ | .tick _ => []
  | .arrive c i => [.arrive c i]
  | .resume i j => [.resume i j]

variable (stdHash json codecs) in
def serverActions (s : Deployment k) (a : DeploymentAction k) : List (ServerAction k) :=
  if s.server.crashed then [] else s.dispatch stdHash json codecs a

theorem ask_server (n : ℕ) (request : Option Request) (s : Deployment k) :
    (ask env stdHash n request s).server =
      Machine.final (Server.step env stdHash) s.server (request.toList.map .call) := by
  cases request <;> rfl

theorem step_server (s : Deployment k) (a : DeploymentAction k) :
    (s.step env stdHash json codecs a).2.server =
      Machine.final (Server.step env stdHash) s.server (s.serverActions stdHash json codecs a) := by
  rw [step, serverActions]
  cases s.server.crashed with
  | true => rfl
  | false =>
    simp only [Bool.false_eq_true, if_false]
    cases a with
    | accept source =>
      rw [act, accept, dispatch]
      cases source.job json codecs with
      | error what => rfl
      | ok job =>
        simp only
        rw [ask_server]
        cases job <;> rfl
    | proceed n =>
      rw [act, proceed, dispatch]
      cases s.sessions[n]? with
      | none => rfl
      | some session =>
        simp only
        rw [ask_server]
        simp
    | _ => rfl

variable (env stdHash json codecs) in
/-- The server of a run of the deployment has a run of its own. -/
theorem run_server (s : Deployment k) (actions : List (DeploymentAction k)) :
    (s.run env stdHash json codecs actions).server =
      s.server.run env stdHash
        (Machine.record (step env stdHash json codecs) (serverActions stdHash json codecs) s
          actions) :=
  Machine.final_record step_server s actions

end Projection

section Rule

def asked (env : Fin k → Env) (stdHash : String → ℕ) (server : Server k) (callers : List ℕ) (n : ℕ)
    (request : Option Request) : Server k × List ℕ :=
  match request with
  | none => (server, callers)
  | some request => ((server.step env stdHash (.call request)).2, callers ++ [n])

variable (env stdHash json codecs) in
/-- What a property of the sessions, the server and the callers has to fulfil to hold in every
run: steps of the server and of other sessions keep it, a new session has it, and a session
that goes on or whose sink answers keeps it. -/
structure SessionRule (P : Server k → List ℕ → ℕ → Session → Prop) : Prop where
  serve {server : Server k} {callers : List ℕ} {n : ℕ} {session : Session} (a : ServerAction k)
    (consistent : server.crashed = false → server.Consistent stdHash none)
    (h : P server callers n session) : P (server.step env stdHash a).2 callers n session
  other {server : Server k} {callers : List ℕ} {n m : ℕ} {session : Session} (hm : m ≠ n)
    (h : P server callers n session) : P server (callers ++ [m]) n session
  refused {server : Server k} {callers : List ℕ} {n : ℕ} {source : Source} {what : String}
    (unknown : n ∉ callers) (job : source.job json codecs = .error what) :
    P server callers n ⟨source, .refused what, [], []⟩
  start {server : Server k} {callers : List ℕ} {n : ℕ} {source : Source} {job : Job} (clock : ℤ)
    {fresh : ℕ} (unknown : n ∉ callers) (job_eq : source.job json codecs = .ok job)
    (fresh_eq : fresh = server.calls.length) (callers_eq : callers.length = fresh)
    (up : (job.begin clock fresh).2.isSome = true → server.crashed = false) :
    P (asked env stdHash server callers n (job.begin clock fresh).2).1
      (asked env stdHash server callers n (job.begin clock fresh).2).2 n
      ⟨source, (job.begin clock fresh).1, [], []⟩
  go {server : Server k} {callers : List ℕ} {n : ℕ} {session : Session} (clock : ℤ) {fresh : ℕ}
    {move : Move} (next : session.phase.next clock fresh
      (fun c => server.responseOf stdHash c) = move)
    (fresh_eq : fresh = server.calls.length) (callers_eq : callers.length = fresh)
    (up : server.crashed = false) (consistent : server.Consistent stdHash none)
    (h : P server callers n session) :
    P (asked env stdHash server callers n move.2).1 (asked env stdHash server callers n move.2).2 n
      { session with phase := move.1 }
  sink {server : Server k} {callers : List ℕ} {n : ℕ} {session : Session} (outcome : SendOutcome)
    (h : P server callers n session) : P server callers n (session.sink outcome)

/-- Every call has a caller, and every session has the property. -/
structure Wired (stdHash : String → ℕ) (P : Server k → List ℕ → ℕ → Session → Prop)
    (s : Deployment k) : Prop where
  consistent : s.server.crashed = false → s.server.Consistent stdHash none
  callers : s.callers.length = s.server.calls.length
  owners : ∀ n ∈ s.callers, n < s.sessions.length
  sessions : ∀ n session, s.sessions[n]? = some session → P s.server s.callers n session

namespace Wired
variable {P : Server k → List ℕ → ℕ → Session → Prop} {s : Deployment k}

theorem create (config : TransferQueueConfig) (bitCount numHashes : ℕ) :
    (create k config bitCount numHashes).Wired stdHash P where
  consistent _ := .create config bitCount numHashes
  callers := rfl
  owners _ hmem := absurd hmem List.not_mem_nil
  sessions n session hsession := by simp [Deployment.create] at hsession

theorem consistent_step (h : s.Wired stdHash P) (a : ServerAction k)
    (hup : (s.server.step env stdHash a).2.crashed = false) :
    (s.server.step env stdHash a).2.Consistent stdHash none := by
  refine (h.consistent ?_).step a hup
  by_contra hdown
  rw [Server.step, if_pos (by simpa using hdown)] at hup
  exact hdown hup

end Wired

namespace SessionRule
variable {P : Server k → List ℕ → ℕ → Session → Prop} {s : Deployment k}
  (rule : SessionRule env stdHash json codecs P)
include rule

theorem serves (h : s.Wired stdHash P) {a : ServerAction k} (ha : ∀ request, a ≠ .call request) :
    ({ s with server := (s.server.step env stdHash a).2 } : Deployment k).Wired stdHash P where
  consistent := h.consistent_step a
  callers := h.callers.trans (Server.step_length ha).symm
  owners := h.owners
  sessions n session hsession := rule.serve a h.consistent (h.sessions n session hsession)

theorem moves (h : s.Wired stdHash P) {n : ℕ} {session : Session} {sessions : List Session}
    {request : Option Request} (hup : request.isSome = true → s.server.crashed = false)
    (hself : sessions[n]? = some session)
    (hothers : ∀ m, m ≠ n → sessions[m]? = s.sessions[m]?)
    (hlength : s.sessions.length ≤ sessions.length)
    (hP : P (asked env stdHash s.server s.callers n request).1
      (asked env stdHash s.server s.callers n request).2 n session) :
    (ask env stdHash n request { s with sessions }).Wired stdHash P := by
  cases request with
  | none =>
    refine ⟨h.consistent, h.callers, fun m hm => (h.owners m hm).trans_le hlength,
      fun m session' hsession' => ?_⟩
    by_cases hm : m = n
    · subst hm
      obtain rfl := Option.some.inj (hself.symm.trans hsession')
      exact hP
    · exact h.sessions m session' (hothers m hm ▸ hsession')
  | some request =>
    constructor
    case consistent => exact h.consistent_step (.call request)
    case callers =>
      rw [ask, Server.step_call (hup rfl)]
      simp [h.callers]
    case owners =>
      intro m hm
      rcases List.mem_append.mp hm with hold | hnew
      · exact (h.owners m hold).trans_le hlength
      · rw [List.mem_singleton.mp hnew]
        exact (List.getElem?_eq_some_iff.mp hself).1
    case sessions =>
      intro m session' hsession'
      by_cases hm : m = n
      · subst hm
        obtain rfl := Option.some.inj (hself.symm.trans hsession')
        exact hP
      · have hold : s.sessions[m]? = some session' := hothers m hm ▸ hsession'
        exact rule.serve _ h.consistent (rule.other (Ne.symm hm) (h.sessions m session' hold))

theorem accepts (h : s.Wired stdHash P) (hup : s.server.crashed = false) (source : Source) :
    (accept env stdHash json codecs source s).Wired stdHash P := by
  have hnew : ∀ (s : Deployment k), s.Wired stdHash P → ∀ (session : Session)
      (request : Option Request), (request.isSome = true → s.server.crashed = false) →
      P (asked env stdHash s.server s.callers s.sessions.length request).1
        (asked env stdHash s.server s.callers s.sessions.length request).2
        s.sessions.length session →
      (ask env stdHash s.sessions.length request
        { s with sessions := s.sessions ++ [session] }).Wired stdHash P := by
    intro s h session request hup hP
    refine rule.moves h hup (by simp) (fun m hm => ?_) (by simp) hP
    by_cases hlt : m < s.sessions.length
    · exact List.getElem?_append_left hlt
    · rw [List.getElem?_eq_none (by simp; omega), List.getElem?_eq_none (by omega)]
  have hunknown : ∀ s : Deployment k, s.Wired stdHash P → s.sessions.length ∉ s.callers :=
    fun s h hmem => (h.owners _ hmem).ne rfl
  rw [Deployment.accept]
  cases hjob : source.job json codecs with
  | error what => exact hnew s h _ none (by simp) (rule.refused (hunknown s h) hjob)
  | ok job =>
    have hstart : ∀ s : Deployment k, s.Wired stdHash P →
        ((job.begin s.clock s.fresh).2.isSome = true → s.server.crashed = false) →
        (ask env stdHash s.sessions.length (job.begin s.clock s.fresh).2
          { s with
            sessions := s.sessions ++ [⟨source, (job.begin s.clock s.fresh).1, [], []⟩] }).Wired
          stdHash P := fun s h hup =>
      hnew s h _ _ hup (rule.start s.clock (hunknown s h) hjob rfl h.callers hup)
    cases job with
    | configure req => exact hstart _ (rule.serves h (by simp)) (fun hsome => by cases hsome)
    | _ => exact hstart s h fun _ => hup

theorem proceeds (h : s.Wired stdHash P) (hup : s.server.crashed = false) (n : ℕ) :
    (proceed env stdHash n s).Wired stdHash P := by
  rw [Deployment.proceed]
  cases hsession : s.sessions[n]? with
  | none => exact h
  | some session =>
    exact rule.moves h (fun _ => hup)
      (List.getElem?_set_self (List.getElem?_eq_some_iff.mp hsession).1)
      (fun m hm => List.getElem?_set_ne hm.symm) (by simp)
      (rule.go s.clock rfl rfl h.callers hup (h.consistent hup) (h.sessions n session hsession))

theorem sinks (h : s.Wired stdHash P) (n : ℕ) (outcome : SendOutcome) :
    ({ s with sessions := s.sessions.modify n (Session.sink outcome) } : Deployment k).Wired
      stdHash P where
  consistent := h.consistent
  callers := h.callers
  owners m hm := (h.owners m hm).trans_eq (List.length_modify ..).symm
  sessions m session' hsession' := by
    by_cases hm : n = m
    · subst hm
      rw [List.getElem?_modify_eq] at hsession'
      obtain ⟨session, hsession, rfl⟩ := Option.map_eq_some_iff.mp hsession'
      exact rule.sink outcome (h.sessions n session hsession)
    · rw [List.getElem?_modify_ne _ _ hm] at hsession'
      exact h.sessions m session' hsession'

theorem step (h : s.Wired stdHash P) (a : DeploymentAction k) :
    (s.step env stdHash json codecs a).2.Wired stdHash P := by
  rw [Deployment.step]
  cases hup : s.server.crashed with
  | true => simpa using h
  | false =>
    simp only [Bool.false_eq_true, if_false]
    cases a with
    | accept source => exact rule.accepts h hup source
    | proceed n => exact rule.proceeds h hup n
    | sink n outcome => exact rule.sinks h n outcome
    | tick nanoseconds => exact ⟨h.consistent, h.callers, h.owners, h.sessions⟩
    | arrive c i => exact rule.serves h (by simp)
    | resume i j => exact rule.serves h (by simp)

/-- The rule of runs. -/
theorem run (config : TransferQueueConfig) (bitCount numHashes : ℕ)
    (actions : List (DeploymentAction k)) :
    ((Deployment.create k config bitCount numHashes).run env stdHash json codecs actions).Wired
      stdHash P :=
  Machine.final_inv (Wired stdHash P) (fun _ a h => rule.step h a) actions
    (Wired.create config bitCount numHashes)

end SessionRule
end Rule

end Deployment
end TransferQueue
