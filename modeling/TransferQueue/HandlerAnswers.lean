import TransferQueue.HandlerAccounts

/-! What the handlers answer. A session knows the call that its result is of, so it has an
answer for every result that such a call can have; and what a client reads in answers and
messages is what the session has handed on. -/

namespace TransferQueue

theorem Outcome.done_of_kind {answer : Option Response} {events : List Event}
    {after : Option Task} (h : Outcome none answer events after) {response : Response}
    (hanswer : answer = some response) (hkind : response.kind = .done) :
    response = .done (.ok ()) := by
  cases h with
  | told response plain =>
    obtain rfl := Option.some.inj hanswer
    rcases plain with ⟨b, rfl⟩ | ⟨status, rfl⟩ | rfl
    · cases hkind
    · cases hkind
    · rfl
  | removing answer plain todo =>
    rcases plain with rfl | rfl
    · cases hanswer
    · exact (Option.some.inj hanswer).symm
  | spilling => cases hanswer
  | reading => cases hanswer
  | _ => cases hanswer; cases hkind

namespace Core
variable {s s' : Core} {input : Input} {output : Option (ℕ × Response)}

/-- A call that asks for a deletion is answered at once, and nothing waits on its behalf. -/
theorem Moves.deletion (hm : s.Moves input output s') {c : ℕ}
    (hasks : ∀ request, input = .ask c request → ∃ id, request = .deleteInstance id)
    (htasks : ∀ task, (some c, task) ∉ s.tasks) :
    (∀ response, output = some (c, response) → response = .done (.ok ())) ∧
      ∀ task, (some c, task) ∉ s'.tasks := by
  cases hm with
  | idle quiet tasks log => exact ⟨by simp, fun task => tasks ▸ htasks task⟩
  | @asked call request answer events after s' outcome log tasks waits answered kind detached =>
    rw [tasks]
    by_cases hc : call = c
    · subst hc
      obtain ⟨id, rfl⟩ := hasks request rfl
      constructor
      · intro response houtput
        obtain ⟨response', hanswer, hpair⟩ := Option.map_eq_some_iff.mp houtput
        obtain ⟨-, rfl⟩ := Prod.mk.inj hpair
        exact outcome.done_of_kind hanswer (kind.1 response' hanswer).1
      · intro task hmem
        rcases List.mem_append.mp hmem with hold | hnew
        · exact htasks task hold
        · simp [callerOf] at hnew
    · constructor
      · intro response houtput
        obtain ⟨response', -, hpair⟩ := Option.map_eq_some_iff.mp houtput
        exact absurd (Prod.mk.inj hpair).1 hc
      · intro task hmem
        rcases List.mem_append.mp hmem with hold | hnew
        · exact htasks task hold
        · obtain ⟨task', -, hpair⟩ := List.mem_map.mp hnew
          have hcaller := (Prod.mk.inj hpair).1
          cases request <;> simp [callerOf, hc] at hcaller
  | @resumed i caller task answer events after s' found outcome log tasks =>
    have hcaller : caller ≠ some c := fun heq =>
      htasks task (heq ▸ List.mem_of_getElem? found)
    rw [tasks]
    constructor
    · intro response houtput
      obtain ⟨call, hcall, hanswer⟩ := Option.bind_eq_some_iff.mp houtput
      obtain ⟨response', -, hpair⟩ := Option.map_eq_some_iff.mp hanswer
      exact absurd ((Prod.mk.inj hpair).1 ▸ hcall) hcaller
    · intro task' hmem
      rcases List.mem_append.mp hmem with hold | hnew
      · exact htasks task' (List.mem_of_mem_eraseIdx hold)
      · obtain ⟨task'', -, hpair⟩ := List.mem_map.mp hnew
        exact hcaller (Prod.mk.inj hpair).1

end Core

namespace Server
variable {k : ℕ}

/-- Deletions are answered at once, whatever becomes of the files. -/
def DeletesAtOnce (s : Server k) : Prop :=
  ∀ (c : ℕ) (call : Call k) (id : String), s.calls[c]? = some call →
    call.request = .deleteInstance id → ∀ i,
      (∀ response ∈ call.answers i, response = .done (.ok ())) ∧
        ∀ task, (some c, task) ∉ (s.cores i).tasks

namespace DeletesAtOnce
variable {env : Fin k → Env} {s : Server k}

theorem turn (h : s.DeletesAtOnce) {i : Fin k} {input : Core.Input}
    (hup : (turn env i input s).crashed = false)
    (hasks : ∀ (c : ℕ) (call : Call k) (id : String), s.calls[c]? = some call →
      call.request = .deleteInstance id →
      ∀ request, input = .ask c request → ∃ id, request = .deleteInstance id) :
    (turn env i input s).DeletesAtOnce := by
  obtain ⟨-, hm⟩ := Core.step_moves (crashed_turn hup)
  intro c call' id hcall' hdelete i'
  obtain ⟨call, hcall, hrequest, -, hothers, hanswer⟩ := mem_record hcall'
  have hold := h c call id hcall (hrequest ▸ hdelete)
  rw [turn_core]
  by_cases hi : i = i'
  · subst hi
    obtain ⟨houtput, htasks⟩ :=
      hm.deletion (hasks c call id hcall (hrequest ▸ hdelete)) (hold i).2
    rw [if_pos rfl]
    refine ⟨fun response hresponse => ?_, htasks⟩
    rcases hanswer with ⟨hkeep, -⟩ | ⟨response', hnew, hsome⟩
    · exact (hold i).1 response (hkeep ▸ hresponse)
    · obtain rfl := Option.some.inj (hsome.symm.trans hresponse)
      exact houtput response' hnew
  · rw [if_neg hi, hothers i' (Ne.symm hi)]
    exact hold i'

variable [NeZero k] {stdHash : String → ℕ}

theorem step (h : s.DeletesAtOnce) (hs : s.Consistent stdHash none) (a : ServerAction k)
    (hup : (s.step env stdHash a).2.crashed = false) :
    (s.step env stdHash a).2.DeletesAtOnce := by
  rw [Server.step] at hup ⊢
  cases hc : s.crashed with
  | true => simpa [hc] using h
  | false =>
    simp only [hc, Bool.false_eq_true, if_false] at hup ⊢
    cases a with
    | call request =>
      intro c call id hcall hdelete i
      by_cases hlt : c < s.calls.length
      · rw [act, List.getElem?_append_left hlt] at hcall
        exact h c call id hcall hdelete i
      · rw [act, List.getElem?_append_right (not_lt.mp hlt)] at hcall
        obtain rfl := List.mem_singleton.mp (List.mem_of_getElem? hcall)
        refine ⟨by simp [Call.create], fun task hmem => ?_⟩
        refine absurd (hs.known i c (not_lt.mp hlt)) (Nat.ne_of_gt ?_)
        exact List.countP_pos_iff.mpr ⟨_, hmem, by simp⟩
    | arrive c i =>
      rw [act] at hup ⊢
      cases hm : s.message stdHash c i with
      | none => exact h
      | some request =>
        rw [hm] at hup
        have hreach :
            ({ s with calls := s.calls.modify c (Call.reach i) } : Server k).DeletesAtOnce := by
          intro c' call' id hcall' hdelete i'
          rw [List.getElem?_modify] at hcall'
          obtain ⟨call, hcall, rfl⟩ := Option.map_eq_some_iff.mp hcall'
          have hold := h c' call id hcall (by split at hdelete <;> exact hdelete) i'
          split <;> exact hold
        refine hreach.turn hup fun c' call' id hcall' hdelete request' hinput => ?_
        cases hinput
        rw [List.getElem?_modify_eq] at hcall'
        obtain ⟨call, hcall, rfl⟩ := Option.map_eq_some_iff.mp hcall'
        have hpart := (Option.ite_none_left_eq_some.mp ((message_eq hcall i).symm.trans hm)).2
        have hrequest : call.request = .deleteInstance id := hdelete
        rw [hrequest, Call.part] at hpart
        exact ⟨id, (Option.some.inj (Option.ite_none_right_eq_some.mp hpart).2).symm⟩
    | resume i j => exact h.turn hup fun _ _ _ _ _ _ hinput => by cases hinput
    | configure req =>
      intro c call id hcall hdelete i
      have htasks : ((s.cores i).step (env i) (.configure (s.config.update req))).2.tasks =
          (s.cores i).tasks := by
        rw [Core.step]
        split <;> rfl
      rw [act]
      exact ⟨(h c call id hcall hdelete i).1, htasks ▸ (h c call id hcall hdelete i).2⟩

variable (env stdHash) in
theorem run (config : TransferQueueConfig) (bitCount numHashes : ℕ)
    (actions : List (ServerAction k)) :
    let s := (create k config bitCount numHashes).run env stdHash actions
    s.crashed = false → s.Consistent stdHash none ∧ s.DeletesAtOnce := by
  refine Machine.final_inv
    (fun s : Server k => s.crashed = false → s.Consistent stdHash none ∧ s.DeletesAtOnce)
    (fun s a h hup => ?_) actions fun _ =>
      ⟨.create config bitCount numHashes, fun _ _ _ hcall => by simp [create] at hcall⟩
  have hbefore : s.crashed = false := by
    by_contra hdown
    rw [Server.step, if_pos (by simpa using hdown)] at hup
    exact hdown hup
  obtain ⟨hs, hd⟩ := h hbefore
  exact ⟨hs.step a hup, hd.step hs a hup⟩

end DeletesAtOnce

variable [NeZero k] {stdHash : String → ℕ} {s : Server k}

/-- What a call has resolved to is of its kind, and a deletion succeeds. -/
theorem Consistent.result (hs : s.Consistent stdHash none) (hd : s.DeletesAtOnce) {c : ℕ}
    {request : Request} (hrequest : s.requests[c]? = some request) {response : Response}
    (hresponse : s.responseOf stdHash c = some response) :
    response.kind = request.kind ∧
      ∀ id, request = .deleteInstance id → response = .done (.ok ()) := by
  rw [requests, List.getElem?_map] at hrequest
  obtain ⟨call, hcall, rfl⟩ := Option.map_eq_some_iff.mp hrequest
  rw [responseOf, hcall, Option.bind_some, Call.response] at hresponse
  obtain ⟨-, hcombine⟩ := Option.ite_none_right_eq_some.mp hresponse
  have hkind := fun i => hs.answers_kind i c call hcall response
  cases hr : call.request with
  | write t =>
    rw [hr, Call.combine] at hcombine
    exact ⟨hr ▸ (hkind _ hcombine).1, by simp⟩
  | deleteInstance id =>
    rw [hr, Call.combine] at hcombine
    exact ⟨hr ▸ (hkind _ hcombine).1, fun _ _ => (hd c call id hcall hr _).1 response hcombine⟩
  | _ =>
    rw [hr, Call.combine] at hcombine
    exact ⟨Option.some.inj hcombine ▸ rfl, by simp⟩

end Server

section Jobs
variable {json : Json} {codecs : RpcCodecs}

/-- What a request asks for. -/
inductive Source.Asks : Source → Job → Prop where
  | write (body : String) (t : Trajectory) : Asks (.http (.write body)) (.call (.write t))
  | getRolloutData (body : String) :
      Asks (.http (.getRolloutData body)) (.call (.readReadyGroups 100))
  | config (body : String) (req : ConfigRequest) : Asks (.http (.config body)) (.configure req)
  | reset (body : String) : Asks (.http (.reset body)) (.call .reset)
  | deleteInstance (instanceId : String) :
      Asks (.http (.deleteInstance instanceId)) (.call (.deleteInstance instanceId))
  | batchWrite (data : List UInt8) (ts : List Trajectory) :
      Asks (.rpc .batchWrite data) (.call (.batchWrite ts))
  | batchRead (data : List UInt8) (maxGroups : Int32) :
      Asks (.rpc .batchRead data) (.call (.readReadyGroups maxGroups))
  | batchReadBlocking (data : List UInt8) (maxGroups timeoutMs : Int32) :
      Asks (.rpc .batchRead data) (.readBlocking maxGroups timeoutMs)
  | getStatus (data : List UInt8) : Asks (.rpc .getStatus data) (.call .getStatus)
  | subscribe (data : List UInt8) (prefetchGroups : Int32) :
      Asks (.rpc .subscribe data) (.subscribe prefetchGroups)

theorem exists_of_map_eq_ok {ε α β : Type*} {f : α → β} {x : Except ε α} {b : β}
    (h : x.map f = .ok b) : ∃ a, x = .ok a ∧ f a = b := by
  cases x with
  | error e => cases h
  | ok a => exact ⟨a, rfl, Except.ok.inj h⟩

theorem Source.asks_of_job {source : Source} {job : Job} (h : source.job json codecs = .ok job) :
    source.Asks job := by
  cases source with
  | http call =>
    rw [Source.job] at h
    cases call with
    | write body =>
      rw [HttpHandler.job] at h
      split at h
      · cases h
      · cases h
        exact .write body _
    | getRolloutData body =>
      cases h
      exact .getRolloutData body
    | config body =>
      rw [HttpHandler.job] at h
      split at h
      · cases h
      · cases h
        exact .config body _
    | reset body =>
      cases h
      exact .reset body
    | deleteInstance instanceId =>
      rw [HttpHandler.job] at h
      split at h
      · cases h
      · cases h
        exact .deleteInstance instanceId
  | rpc verb data =>
    cases verb with
    | batchWrite =>
      obtain ⟨req, -, rfl⟩ := exists_of_map_eq_ok h
      exact .batchWrite data _
    | batchRead =>
      obtain ⟨req, -, rfl⟩ := exists_of_map_eq_ok h
      cases hblock : req.block with
      | true => simpa only [hblock] using .batchReadBlocking data req.maxGroups req.timeoutMs
      | false => simpa only [hblock] using .batchRead data req.maxGroups
    | getStatus =>
      cases h
      exact .getStatus data
    | subscribe =>
      obtain ⟨req, -, rfl⟩ := exists_of_map_eq_ok h
      exact .subscribe data _

end Jobs

section Sessions
variable {k : ℕ}

/-- The polls of a blocking read and of a stream. -/
def Poll.Of (poll : Poll) : Job → Prop
  | .readBlocking _ _ => poll.streams = false
  | .subscribe _ => poll.streams = true
  | _ => False

variable [NeZero k]

/-- The result of a job is that of its call, and that of a stream is never that of a read that
succeeds. -/
def Job.Results (stdHash : String → ℕ) (server : Server k) (job : Job) (response : Response) :
    Prop :=
  (∃ req, job = .configure req ∧ response = .done (.ok ())) ∨
    ∃ c request, server.requests[c]? = some request ∧
      server.responseOf stdHash c = some response ∧
      (job = .call request ∨ ∃ poll : Poll, poll.Of job ∧
        request = .readReadyGroups poll.maxGroups ∧
        (poll.streams = true → ∀ groups, response ≠ .groups (.ok groups)))

/-- A session does what its job asks for, and knows the calls that it has made for it. -/
def Phase.Follows (stdHash : String → ℕ) (server : Server k) (job : Job) : Phase → Prop
  | .refused _ => False
  | .calling c => ∃ request, job = .call request ∧ server.requests[c]? = some request
  | .polling poll c => poll.Of job ∧ server.requests[c]? = some .hasReadyGroups
  | .sleeping poll _ => poll.Of job
  | .reading poll c =>
    poll.Of job ∧ server.requests[c]? = some (.readReadyGroups poll.maxGroups)
  | .sending poll _ => poll.Of job ∧ poll.streams = true
  | .configured => ∃ req, job = .configure req
  | .ended response => job.Results stdHash server response
  | .broken => True

/-- Only streams send anything. -/
structure Session.Follows (stdHash : String → ℕ) (server : Server k) (job : Job)
    (session : Session) : Prop where
  phase : session.phase.Follows stdHash server job
  sent : session.sent ≠ [] → ∃ prefetch, job = .subscribe prefetch

section Runs
variable {env : Fin k → Env} {stdHash : String → ℕ} {json : Json} {codecs : RpcCodecs}
  {server server' : Server k} {job : Job} {phase : Phase}

theorem Phase.Follows.mono (h : phase.Follows stdHash server job)
    (hrequests : server.requests <+: server'.requests)
    (hresponses : ∀ c response, server.responseOf stdHash c = some response →
      server'.responseOf stdHash c = some response) : phase.Follows stdHash server' job := by
  have hstays : ∀ {c : ℕ} {request : Request}, server.requests[c]? = some request →
      server'.requests[c]? = some request := fun hc => by
    obtain ⟨more, hmore⟩ := hrequests
    rw [← hmore, List.getElem?_append_left (List.getElem?_eq_some_iff.mp hc).1]
    exact hc
  cases phase with
  | calling c => exact h.imp fun request => .imp_right hstays
  | polling poll c => exact h.imp_right hstays
  | reading poll c => exact h.imp_right hstays
  | ended response =>
    refine h.imp_right ?_
    rintro ⟨c, request, hc, hresponse, hjob⟩
    exact ⟨c, request, hstays hc, hresponses c response hresponse, hjob⟩
  | _ => exact h

theorem requests_asked {callers : List ℕ} {n : ℕ} {asks : Option Request}
    (hup : asks.isSome = true → server.crashed = false) :
    ∀ request ∈ asks, (Deployment.asked env stdHash server callers n asks).1.requests[
      server.calls.length]? = some request := by
  rintro request rfl
  rw [Deployment.asked, Server.step_call (hup rfl), Server.requests]
  simp [Call.create]

variable (env) in
theorem asked_keeps (hs : server.Consistent stdHash none) (callers : List ℕ) (n : ℕ)
    (asks : Option Request) :
    server.requests <+: (Deployment.asked env stdHash server callers n asks).1.requests ∧
      ∀ c response, server.responseOf stdHash c = some response →
        (Deployment.asked env stdHash server callers n asks).1.responseOf stdHash c =
          some response := by
  cases asks with
  | none => exact ⟨List.prefix_rfl, fun _ _ hresponse => hresponse⟩
  | some request =>
    exact ⟨Server.requests_extend .., fun _ _ hresponse =>
      Server.responseOf_step (fun _ => hs) _ hresponse⟩

/-- The first move of a job. -/
theorem Job.begin_follows {clock : ℤ} {server' : Server k}
    (hasked : ∀ request ∈ (job.begin clock server.calls.length).2,
      server'.requests[server.calls.length]? = some request) :
    (job.begin clock server.calls.length).1.Follows stdHash server' job := by
  cases job with
  | call request => exact ⟨request, rfl, hasked request rfl⟩
  | readBlocking maxGroups timeoutMs => exact ⟨rfl, hasked _ rfl⟩
  | subscribe prefetchGroups => exact ⟨rfl, hasked _ rfl⟩
  | configure req => exact ⟨req, rfl⟩

theorem Poll.Of.subscribe {poll : Poll} (h : poll.Of job) (hstreams : poll.streams = true) :
    ∃ prefetch, job = .subscribe prefetch := by
  cases job with
  | readBlocking maxGroups timeoutMs => exact absurd (h.symm.trans hstreams) Bool.false_ne_true
  | subscribe prefetch => exact ⟨prefetch, rfl⟩
  | _ => cases h

theorem Poll.Of.round {clock : ℤ} {fresh : ℕ} {poll : Poll} (h : poll.Of job)
    (hstreams : poll.streams = true)
    (hasked : server.requests[fresh]? = some .hasReadyGroups) :
    (Poll.round clock fresh poll.maxGroups).1.Follows stdHash server job := by
  obtain ⟨prefetch, rfl⟩ := h.subscribe hstreams
  exact ⟨rfl, hasked⟩

theorem Phase.reading_follows {clock : ℤ} {fresh : ℕ} {response : ℕ → Option Response}
    {poll : Poll} {c : ℕ} (h : (reading poll c).Follows stdHash server job)
    (hresponses : ∀ c result, response c = some result →
      server.responseOf stdHash c = some result)
    (hasked : ∀ request ∈ ((reading poll c).next clock fresh response).2,
      server.requests[fresh]? = some request) :
    ((reading poll c).next clock fresh response).1.Follows stdHash server job := by
  obtain ⟨hof, hrequest⟩ := h
  rw [next] at hasked ⊢
  cases hc : response c with
  | none => exact ⟨hof, hrequest⟩
  | some result =>
    have hends : (poll.streams = true → ∀ groups, result ≠ .groups (.ok groups)) →
        job.Results stdHash server result := fun hplain =>
      .inr ⟨c, _, hrequest, hresponses c result hc, .inr ⟨poll, hof, rfl, hplain⟩⟩
    rw [hc] at hasked
    cases result with
    | groups r =>
      cases r with
      | error e => exact hends fun _ _ => by simp
      | ok groups =>
        simp only at hasked ⊢
        cases hstreams : poll.streams with
        | false => exact hends fun htrue => absurd (hstreams.symm.trans htrue) Bool.false_ne_true
        | true =>
          simp only [hstreams, if_true] at hasked ⊢
          split
          · rename_i hempty
            rw [if_pos hempty] at hasked
            exact hof.round hstreams (hasked _ rfl)
          · exact ⟨hof, hstreams⟩
    | _ => exact hends fun _ _ => by simp

theorem Phase.next_follows {clock : ℤ} {fresh : ℕ} {response : ℕ → Option Response}
    (h : phase.Follows stdHash server job)
    (hresponses : ∀ c result, response c = some result →
      server.responseOf stdHash c = some result)
    (hasked : ∀ request ∈ (phase.next clock fresh response).2,
      server.requests[fresh]? = some request) :
    (phase.next clock fresh response).1.Follows stdHash server job := by
  cases phase with
  | calling c =>
    obtain ⟨request, hjob, hrequest⟩ := h
    rw [next]
    cases hc : response c with
    | none => exact ⟨request, hjob, hrequest⟩
    | some result => exact .inr ⟨c, request, hrequest, hresponses c result hc, .inl hjob⟩
  | polling poll c =>
    rw [next] at hasked ⊢
    cases hc : response c with
    | none => exact h
    | some result =>
      rw [hc] at hasked
      cases result with
      | ready b =>
        cases b with
        | true => exact ⟨h.1, hasked _ rfl⟩
        | false =>
          simp only at hasked ⊢
          split
          · rename_i hdeadline
            rw [if_pos hdeadline] at hasked
            exact ⟨h.1, hasked _ rfl⟩
          · exact h.1
      | _ => exact h
  | sleeping poll wake =>
    rw [next] at hasked ⊢
    split
    · rename_i hwake
      rw [if_pos hwake] at hasked
      exact ⟨h, hasked _ rfl⟩
    · exact h
  | reading poll c => exact reading_follows h hresponses hasked
  | sending poll rest =>
    cases rest with
    | nil => exact h.1.round h.2 (hasked _ rfl)
    | cons group rest => exact h
  | configured => exact .inl (h.imp fun _ hjob => ⟨hjob, rfl⟩)
  | _ => exact h

theorem Session.Follows.mono {session : Session} (h : session.Follows stdHash server job)
    (hrequests : server.requests <+: server'.requests)
    (hresponses : ∀ c response, server.responseOf stdHash c = some response →
      server'.responseOf stdHash c = some response) : session.Follows stdHash server' job :=
  ⟨h.phase.mono hrequests hresponses, h.sent⟩

theorem Session.Follows.sink {session : Session} (h : session.Follows stdHash server job)
    (outcome : SendOutcome) : (session.sink outcome).Follows stdHash server job := by
  obtain ⟨source, phase, sent, dropped⟩ := session
  rw [Session.sink]
  split
  · rename_i poll group rest hphase
    obtain rfl : phase = .sending poll (group :: rest) := hphase
    have hsubscribe := h.phase.1.subscribe h.phase.2
    cases outcome with
    | ready => exact ⟨h.phase, fun _ => hsubscribe⟩
    | pending =>
      dsimp only
      split
      · exact ⟨h.phase, fun _ => hsubscribe⟩
      · exact ⟨trivial, fun _ => hsubscribe⟩
    | refused => exact ⟨trivial, fun _ => hsubscribe⟩
  · exact h

theorem Session.sink_source (outcome : SendOutcome) (session : Session) :
    (session.sink outcome).source = session.source := by
  rw [Session.sink]
  split
  · cases outcome with
    | pending =>
      dsimp only
      split <;> rfl
    | _ => rfl
  · rfl

/-- A session is refused for the reason that its request gives, or follows its job. -/
def Session.AsAsked (stdHash : String → ℕ) (json : Json) (codecs : RpcCodecs) (server : Server k)
    (session : Session) : Prop :=
  match session.source.job json codecs with
  | .error what => session.phase = .refused what ∧ session.sent = []
  | .ok job => session.Follows stdHash server job

theorem Session.AsAsked.mono {session : Session}
    (h : session.AsAsked stdHash json codecs server)
    (hrequests : server.requests <+: server'.requests)
    (hresponses : ∀ c response, server.responseOf stdHash c = some response →
      server'.responseOf stdHash c = some response) :
    session.AsAsked stdHash json codecs server' := by
  rw [AsAsked] at h ⊢
  cases hjob : session.source.job json codecs with
  | error what => simpa only [hjob] using h
  | ok job =>
    rw [hjob] at h
    exact Follows.mono h hrequests hresponses

variable (env stdHash json codecs) in
theorem Session.AsAsked.rule :
    Deployment.SessionRule env stdHash json codecs fun server _ _ session =>
      session.AsAsked stdHash json codecs server where
  serve a consistent h := h.mono (Server.requests_extend ..) fun _ _ hresponse =>
    Server.responseOf_step consistent a hresponse
  other _ h := h
  refused {server _ _ source what} _ job := by
    rw [AsAsked, job]
    exact ⟨rfl, rfl⟩
  start {server callers n source job} clock fresh _ job_eq fresh_eq _ up := by
    rw [AsAsked, job_eq, fresh_eq]
    rw [fresh_eq] at up
    exact ⟨Job.begin_follows (requests_asked up), by simp⟩
  go {server callers n session} clock fresh move next fresh_eq _ up consistent h := by
    subst next fresh_eq
    obtain ⟨hrequests, hresponses⟩ := asked_keeps env consistent callers n
      (session.phase.next clock server.calls.length fun c => server.responseOf stdHash c).2
    have hmono := h.mono hrequests hresponses
    rw [AsAsked] at hmono ⊢
    cases hjob : session.source.job json codecs with
    | error what =>
      simp only [hjob] at hmono ⊢
      rw [hmono.1]
      exact ⟨rfl, hmono.2⟩
    | ok job =>
      simp only [hjob] at hmono ⊢
      exact ⟨Phase.next_follows hmono.phase hresponses (requests_asked fun _ => up), hmono.sent⟩
  sink {server callers n session} outcome h := by
    rw [AsAsked, session.sink_source]
    rw [AsAsked] at h
    cases hjob : session.source.job json codecs with
    | error what =>
      simp only [hjob] at h ⊢
      obtain ⟨source, phase, sent, dropped⟩ := session
      obtain ⟨rfl, rfl⟩ := h
      exact ⟨rfl, rfl⟩
    | ok job =>
      simp only [hjob] at h ⊢
      exact h.sink outcome

end Runs

section Answers
variable {stdHash : String → ℕ} {server : Server k}

/-- The results that a job can have. -/
def Job.Admits (response : Response) : Job → Prop
  | .call request =>
    response.kind = request.kind ∧ ∀ id, request = .deleteInstance id → response = .done (.ok ())
  | .readBlocking _ _ => response.kind = .groups
  | .subscribe _ => ∃ e, response = .groups (.error e)
  | .configure _ => response = .done (.ok ())

theorem Job.Results.admits {job : Job} {response : Response}
    (h : job.Results stdHash server response) (hs : server.Consistent stdHash none)
    (hd : server.DeletesAtOnce) : job.Admits response := by
  rcases h with ⟨req, rfl, rfl⟩ | ⟨c, request, hrequest, hresponse, hjob⟩
  · rfl
  · have hresult := hs.result hd hrequest hresponse
    rcases hjob with rfl | ⟨poll, hof, rfl, hplain⟩
    · exact hresult
    · cases job with
      | readBlocking maxGroups timeoutMs => exact hresult.1
      | subscribe prefetchGroups =>
        cases response with
        | groups r =>
          cases r with
          | error e => exact ⟨e, rfl⟩
          | ok groups => exact absurd rfl (hplain hof groups)
        | _ => cases hresult.1
      | _ => cases hof

variable {json : Json} {codecs : RpcCodecs} (systemError : Failure → String)

/-- A request gets an answer, whatever its job results in. -/
theorem Source.Asks.answer_isSome {source : Source} {job : Job} (h : source.Asks job)
    {response : Response} (hadmits : job.Admits response) :
    (source.answer json codecs systemError response).isSome = true := by
  cases h with
  | write body t =>
    cases response with
    | written r => cases r <;> rfl
    | _ => cases hadmits.1
  | config body req =>
    obtain rfl : response = .done (.ok ()) := hadmits
    rfl
  | reset body =>
    cases response with
    | done r => cases r <;> rfl
    | _ => cases hadmits.1
  | deleteInstance instanceId =>
    obtain rfl := hadmits.2 instanceId rfl
    rfl
  | batchWrite data ts =>
    cases response with
    | counted r => cases r <;> rfl
    | _ => cases hadmits.1
  | getStatus data =>
    cases response with
    | status status => rfl
    | _ => cases hadmits.1
  | subscribe data prefetch =>
    obtain ⟨e, rfl⟩ := hadmits
    rfl
  | batchReadBlocking data maxGroups timeoutMs =>
    cases response with
    | groups r => cases r <;> rfl
    | _ => cases hadmits
  | _ =>
    cases response with
    | groups r => cases r <;> rfl
    | _ => cases hadmits.1

end Answers

section Clients
variable (json : Json) (codecs : RpcCodecs) (systemError : Failure → String)

/-- The groups that a client of an RPC reads: in the reply to a read, or one in each message of
a stream. -/
def Session.received (session : Session) : List TrajectoryGroup :=
  match session.source with
  | .rpc .batchRead _ =>
    match session.answer json codecs systemError with
    | some (.rpc (.data bytes)) =>
      ((codecs.batchReadResult.parse bytes).map BatchReadResult.groups).getD []
    | _ => []
  | .rpc .subscribe _ => (session.messages codecs).filterMap codecs.trajectoryGroup.parse
  | _ => []

/-- Protobuf serialises the groups, in a reply and one by one, and parses what it has written. -/
structure RpcCodecs.Carries (groups : List TrajectoryGroup) : Prop where
  result : codecs.batchReadResult.Inverts
  result_serializes : (codecs.batchReadResult.serialize ⟨true, "", groups⟩).isSome = true
  group : codecs.trajectoryGroup.Inverts
  group_serializes : ∀ g ∈ groups, (codecs.trajectoryGroup.serialize g).isSome = true

/-- How a session answers: when it has ended there is an answer, and the client gets with it the
groups that the session has handed on, flattened in JSON or group by group in an RPC. -/
structure Session.Answers (session : Session) : Prop where
  answered : ∀ response, session.phase = .ended response →
    (session.answer json codecs systemError).isSome = true
  http : ∀ call, session.source = .http call → Deployment.handed session ≠ [] →
    session.answer json codecs systemError =
      some (.http (HttpHandler.jsonReply json (.rolloutData true "OK"
        ((Deployment.handed session).flatMap TrajectoryGroup.trajectories))))
  rpc : ∀ verb data, session.source = .rpc verb data →
    codecs.Carries (Deployment.handed session) →
    session.received json codecs systemError = Deployment.handed session

variable {json codecs systemError} {stdHash : String → ℕ} {server : Server k}

variable (codecs) in
theorem RpcHandler.parse_serializeProto {α : Type} {codec : Codec α} (h : codec.Inverts) {msg : α}
    (hsome : (codec.serialize msg).isSome = true) :
    codec.parse (serializeProto codecs codec msg) = some msg := by
  obtain ⟨data, hdata⟩ := Option.isSome_iff_exists.mp hsome
  rw [serializeProto, hdata]
  exact h msg data hdata

variable (codecs) in
theorem Session.parse_messages {session : Session} (h : codecs.Carries session.sent) :
    (session.messages codecs).filterMap codecs.trajectoryGroup.parse = session.sent := by
  rw [messages, List.filterMap_map]
  have hparse : ∀ g ∈ session.sent,
      (codecs.trajectoryGroup.parse ∘ RpcHandler.serializeProto codecs codecs.trajectoryGroup) g =
        some g := fun g hg =>
    RpcHandler.parse_serializeProto codecs h.group (h.group_serializes g hg)
  rw [List.filterMap_congr hparse, List.filterMap_some]

theorem Phase.replied_cases (phase : Phase) :
    phase.replied = [] ∨ ∃ groups, phase = .ended (.groups (.ok groups)) := by
  cases phase with
  | ended response =>
    cases response with
    | groups r =>
      cases r with
      | error e => exact .inl rfl
      | ok groups => exact .inr ⟨groups, rfl⟩
    | _ => exact .inl rfl
  | _ => exact .inl rfl

/-- A session that was accepted with this job. -/
structure Session.Conforms (job : Job) (session : Session) : Prop where
  asks : session.source.Asks job
  accepted : ∀ what, session.phase ≠ .refused what
  admits : ∀ response, session.phase = .ended response → job.Admits response
  sent : session.sent ≠ [] → ∃ prefetch, job = .subscribe prefetch

theorem Session.Follows.conforms {session : Session} {job : Job}
    (h : session.Follows stdHash server job) (hasks : session.source.Asks job)
    (hs : server.Consistent stdHash none) (hd : server.DeletesAtOnce) : session.Conforms job := by
  have hphase := h.phase
  refine ⟨hasks, fun what hrefused => ?_, fun response hended => ?_, h.sent⟩
  · rwa [hrefused] at hphase
  · rw [hended] at hphase
    exact Job.Results.admits hphase hs hd

namespace Session.Conforms
variable {session : Session} {job : Job}

theorem sent_eq_nil (h : session.Conforms job) (hjob : ∀ prefetch, job ≠ .subscribe prefetch) :
    session.sent = [] := by
  by_contra hne
  obtain ⟨prefetch, heq⟩ := h.sent hne
  exact hjob prefetch heq

theorem replied_eq_nil (h : session.Conforms job)
    (hjob : ∀ groups, ¬job.Admits (.groups (.ok groups))) : session.phase.replied = [] := by
  refine session.phase.replied_cases.resolve_right ?_
  rintro ⟨groups, hended⟩
  exact hjob groups (h.admits _ hended)

theorem answer_http (h : session.Conforms job) {call : HttpCall}
    (hsource : session.source = .http call) (hhanded : Deployment.handed session ≠ []) :
    session.answer json codecs systemError =
      some (.http (HttpHandler.jsonReply json (.rolloutData true "OK"
        ((Deployment.handed session).flatMap TrajectoryGroup.trajectories)))) := by
  have hasks := h.asks
  rw [hsource] at hasks
  have hsent : session.sent = [] := h.sent_eq_nil (by rintro prefetch rfl; cases hasks)
  rw [Deployment.handed, hsent, List.nil_append] at hhanded ⊢
  rcases session.phase.replied_cases with hnone | ⟨groups, hended⟩
  · exact absurd hnone hhanded
  · rw [Session.answer, hended, hsource]
    have hresult := h.admits _ hended
    cases hasks with
    | getRolloutData body => rfl
    | config body req => cases hresult
    | _ => cases hresult.1

theorem received_read (h : session.Conforms job) {data : List UInt8}
    (hsource : session.source = .rpc .batchRead data)
    (hjob : ∀ prefetch, job ≠ .subscribe prefetch)
    (hkind : ∀ response, job.Admits response → response.kind = .groups)
    (hcarries : codecs.Carries (Deployment.handed session)) :
    session.received json codecs systemError = Deployment.handed session := by
  have hanswer := h.admits
  have haccepted := h.accepted
  rw [Deployment.handed, h.sent_eq_nil hjob, List.nil_append] at hcarries ⊢
  rw [received, hsource]
  simp only [Session.answer, hsource]
  cases hphase : session.phase with
  | refused what => exact absurd hphase (haccepted what)
  | ended response =>
    rw [hphase] at hcarries
    have hgroups := hkind response (hanswer response hphase)
    cases response with
    | groups r =>
      cases r with
      | error e => rfl
      | ok groups =>
        have hparse := RpcHandler.parse_serializeProto codecs hcarries.result
          hcarries.result_serializes
        exact congrArg (fun result => (result.map BatchReadResult.groups).getD []) hparse
    | _ => cases hgroups
  | _ => rfl

theorem received_eq (h : session.Conforms job) {verb : Verb} {data : List UInt8}
    (hsource : session.source = .rpc verb data)
    (hcarries : codecs.Carries (Deployment.handed session)) :
    session.received json codecs systemError = Deployment.handed session := by
  have hasks := h.asks
  rw [hsource] at hasks
  cases hasks with
  | batchRead data maxGroups =>
    exact h.received_read hsource (by simp) (fun response hadmits => hadmits.1) hcarries
  | batchReadBlocking data maxGroups timeoutMs =>
    exact h.received_read hsource (by simp) (fun response hadmits => hadmits) hcarries
  | subscribe data prefetchGroups =>
    have hreplied := h.replied_eq_nil fun groups => by
      rintro ⟨e, he⟩
      cases he
    rw [Deployment.handed, hreplied, List.append_nil] at hcarries ⊢
    rw [received, hsource]
    exact Session.parse_messages codecs hcarries
  | _ =>
    have hreplied := h.replied_eq_nil fun groups hgroups => by cases hgroups.1
    rw [Deployment.handed, h.sent_eq_nil (by simp), hreplied, received, hsource]
    rfl

end Session.Conforms

theorem Session.AsAsked.answers {session : Session}
    (h : session.AsAsked stdHash json codecs server) (hs : server.Consistent stdHash none)
    (hd : server.DeletesAtOnce) : session.Answers json codecs systemError := by
  rw [AsAsked] at h
  cases hjob : session.source.job json codecs with
  | error what =>
    simp only [hjob] at h
    obtain ⟨source, phase, sent, dropped⟩ := session
    obtain ⟨rfl, rfl⟩ := h
    refine ⟨by simp, fun _ _ hhanded => absurd rfl hhanded, fun verb data hsource _ => ?_⟩
    obtain rfl : source = .rpc verb data := hsource
    cases verb <;> rfl
  | ok job =>
    simp only [hjob] at h
    have hconforms := h.conforms (Source.asks_of_job hjob) hs hd
    constructor
    case answered =>
      intro response hended
      rw [Session.answer, hended]
      exact hconforms.asks.answer_isSome systemError (hconforms.admits response hended)
    case http => exact fun call hsource hhanded => hconforms.answer_http hsource hhanded
    case rpc => exact fun verb data hsource hcarries => hconforms.received_eq hsource hcarries

end Clients
end Sessions

section Samples

/-- A body is the name of an instance and of its trajectory. -/
def Json.sample : Json where
  writeRequest body := .ok ⟨body, body, [], 0, []⟩
  configRequest _ := .error "INVALID_ARGUMENT"
  print _ := .ok ""

/-- One message of each type, but of the groups those given. -/
def RpcCodecs.sample (known : List TrajectoryGroup) : RpcCodecs where
  batchWriteRequest := .ofEncoding (fun _ => []) [⟨[]⟩]
  batchWriteResponse := .ofEncoding (fun _ => []) [⟨true, 0⟩]
  batchReadRequest := .ofEncoding (fun _ => []) [⟨10, true, 1000⟩]
  batchReadResult := .ofEncoding (fun _ => []) [⟨true, "", known⟩]
  bufferStatus := ⟨fun _ => some [], fun _ => none⟩
  trajectoryGroup := .sample known
  subscribeRequest := .ofEncoding (fun _ => []) [⟨2⟩]
  unfilled := []

namespace Deployment

/-- A write that spills on core `i`, and next to it a stream that polls while the group is in
memory, reads it from its file and sends it. -/
def streamed {k : ℕ} (i j : Fin k) : List (DeploymentAction k) :=
  [.accept (.http (.write "a")), .arrive 0 i, .accept (.rpc .subscribe []), .arrive 1 i,
    .arrive 1 j, .proceed 1, .resume i 0, .resume i 0, .proceed 0, .arrive 2 i, .arrive 2 j,
    .resume i 0, .resume i 0, .resume i 0, .resume i 0, .proceed 1, .sink 1 .ready, .proceed 1]

end Deployment
end Samples

namespace Deployment
variable {k : ℕ} [NeZero k]

/-- In every run, whatever overlaps and whatever fails, every group that a core has delivered is
in the reply or among the messages of one session, in its hands, dropped with the batch in the
middle of which its stream has broken, or withheld by the manager; and every session that has
ended answers, so that its client reads the groups that the session has handed on. -/
theorem sessions_account (env : Fin k → Env) (stdHash : String → ℕ) (json : Json)
    (codecs : RpcCodecs) (systemError : Failure → String) (config : TransferQueueConfig)
    (bitCount numHashes : ℕ) (actions : List (DeploymentAction k)) :
    let s := (create k config bitCount numHashes).run env stdHash json codecs actions
    s.server.crashed = false →
      (∑ i, ((s.server.cores i).log.flatMap Event.groups : Multiset TrajectoryGroup)) =
          (s.sessions.map fun session =>
            (handed session : Multiset TrajectoryGroup) + s.inHand stdHash session +
              session.dropped).sum +
            (s.server.calls.map fun call =>
              (call.withheld stdHash : Multiset TrajectoryGroup)).sum ∧
        ∀ session ∈ s.sessions, session.Answers json codecs systemError ∧
          (session.dropped ≠ [] → session.phase = .broken) := by
  intro s hup
  obtain ⟨hgroups, hdropped⟩ :=
    groups_account env stdHash json codecs config bitCount numHashes actions hup
  have hserver : s.server = (Server.create k config bitCount numHashes).run env stdHash _ :=
    run_server env stdHash json codecs (create k config bitCount numHashes) actions
  obtain ⟨hs, hd⟩ := Server.DeletesAtOnce.run env stdHash config bitCount numHashes _
    (hserver ▸ hup)
  rw [← hserver] at hs hd
  have hwired := (Session.AsAsked.rule env stdHash json codecs).run config bitCount numHashes
    actions
  refine ⟨hgroups, fun session hsession => ⟨?_, hdropped session hsession⟩⟩
  obtain ⟨n, hn⟩ := List.getElem?_of_mem hsession
  exact Session.AsAsked.answers (hwired.sessions n session hn) hs hd

theorem sessions_account_streamed :
    let group : TrajectoryGroup := ⟨"a", [.bare "a" "a"], 1, true⟩
    let s := (create 2 (.tight 1) 0 0).run (fun _ => .sample []) Server.sampleHash .sample
      (.sample [group]) (streamed 0 1)
    (∑ i, ((s.server.cores i).log.flatMap Event.groups : Multiset TrajectoryGroup)) =
        (s.sessions.map fun session =>
          (handed session : Multiset TrajectoryGroup) + s.inHand Server.sampleHash session +
            session.dropped).sum +
          (s.server.calls.map fun call =>
            (call.withheld Server.sampleHash : Multiset TrajectoryGroup)).sum ∧
      ∀ session ∈ s.sessions, session.Answers .sample (.sample [group]) (fun _ => "") ∧
        (session.dropped ≠ [] → session.phase = .broken) :=
  sessions_account (fun _ => .sample []) Server.sampleHash .sample _ _ (.tight 1) 0 0
    (streamed 0 1) (by decide +kernel)

end Deployment
end TransferQueue
