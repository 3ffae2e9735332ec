import TransferQueue.Completion
import TransferQueue.ServerProgress

/-! Requests that do not overlap. When nothing is under way, a request gets the answer of the
sequential buffer and leaves its state behind, in whatever order its messages arrive and its
operations on different cores are resumed, and whatever disk calls fail. -/

namespace TransferQueue

namespace Call
variable {k : ℕ}

theorem filterMap_answers {β : Type} (result? : Response → Option β)
    {response : Fin k → Response} {result : Fin k → β}
    (h : ∀ i, result? (response i) = some (result i)) :
    ((List.finRange k).filterMap fun i => some (response i)).filterMap result? =
      (List.finRange k).map result := by
  rw [List.filterMap_filterMap]
  simp only [Option.bind_some, h]
  exact congrFun (List.filterMap_eq_map (f := result)) _

theorem collect_map {α : Type} {result? : Response → Option (Except Failure α)}
    {response : Fin k → Response} {result : Fin k → Except Failure α}
    (h : ∀ i, result? (response i) = some (result i)) :
    collect result? ((List.finRange k).filterMap fun i => some (response i)) =
      (List.finRange k).mapM result := by
  rw [collect, filterMap_answers _ h, List.mapM_map]
  rfl

theorem collect_sum {answers : Fin k → Option Response} {result : Fin k → Except Failure ℕ}
    (h : ∀ i, (answers i = none ∧ result i = .ok 0) ∨ answers i = some (.counted (result i)))
    (cores : List (Fin k)) :
    (collect Response.counted? (cores.filterMap answers)).map List.sum =
      (cores.mapM result).map List.sum := by
  induction cores with
  | nil => rfl
  | cons i cores ih =>
    rw [collect] at ih ⊢
    rw [List.mapM_cons]
    rcases h i with ⟨hnone, hzero⟩ | hsome
    · rw [List.filterMap_cons_none hnone, ih, hzero]
      cases cores.mapM result with
      | error e => rfl
      | ok ns => exact congrArg Except.ok (Nat.zero_add _).symm
    · rw [List.filterMap_cons_some hsome, List.filterMap_cons_some (by rfl), List.mapM_cons]
      cases hi : result i with
      | error e => rfl
      | ok n =>
        revert ih
        cases cores.mapM result <;>
          cases ((cores.filterMap answers).filterMap Response.counted?).mapM id <;>
            simp [Except.map, pure, Except.pure, bind, Except.bind]

end Call

section Manager
variable {k : ℕ} [NeZero k] (env : Fin k → Env) (stdHash : String → ℕ)

theorem BufferManager.respond_part (m : BufferManager k) (request : Request) (i : Fin k) :
    (m.respond env stdHash request).2.shards i =
      ((Call.part stdHash request i).map fun part =>
        ((m.shards i).respond (env i) part).2).getD (m.shards i) := by
  have hupdate : ∀ (j : Fin k) (part : Request),
      Function.update m.shards j ((m.shards j).respond (env j) part).2 i =
        ((if j = i then some part else none).map fun part =>
          ((m.shards i).respond (env i) part).2).getD (m.shards i) := by
    intro j part
    by_cases h : j = i
    · subst h
      rw [Function.update_self, if_pos rfl]
      rfl
    · rw [Function.update_of_ne (Ne.symm h), if_neg h]
      rfl
  cases request with
  | write t => exact hupdate _ (.write t)
  | deleteInstance id => exact hupdate _ (.deleteInstance id)
  | batchWrite ts =>
    rw [respond, batchWrite_eq, Call.part]
    cases hbatch : batchFor stdHash ts i with
    | nil => simp [Sharded.map, hbatch, BufferShard.batchWrite, BufferShard.batchWriteLoop]
    | cons t batch => simp [Sharded.map, hbatch, BufferShard.respond]
  | _ => rfl

theorem BufferManager.respond_config (m : BufferManager k) (request : Request) :
    (m.respond env stdHash request).2.config = m.config := by cases request <;> rfl

theorem BufferManager.combine_respond (m : BufferManager k) (request : Request) :
    Call.combine stdHash request (fun i => (Call.part stdHash request i).map fun part =>
      ((m.shards i).respond (env i) part).1) = some (m.respond env stdHash request).1 := by
  cases request with
  | write t =>
    rw [Call.combine, Call.part, if_pos rfl]
    rfl
  | deleteInstance id =>
    rw [Call.combine, Call.part, if_pos rfl]
    rfl
  | batchWrite ts =>
    rw [Call.combine, respond, batchWrite_eq]
    refine congrArg (fun r => some (Response.counted r)) (Call.collect_sum (fun i => ?_) _)
    simp only [Call.part]
    cases hbatch : batchFor stdHash ts i with
    | nil => exact .inl ⟨rfl, rfl⟩
    | cons t batch => exact .inr rfl
  | readReadyGroups maxGroups =>
    rw [Call.combine]
    simp only [Call.part, Option.map_some]
    rw [Call.collect_map (fun i => rfl)]
    rfl
  | reset =>
    rw [Call.combine]
    simp only [Call.part, Option.map_some]
    rw [Call.collect_map (fun i => rfl)]
    rfl
  | hasReadyGroups =>
    rw [Call.combine]
    simp only [Call.part, Option.map_some]
    rw [Call.filterMap_answers Response.ready? (fun i => rfl), List.foldl_map]
    rfl
  | getStatus =>
    rw [Call.combine]
    simp only [Call.part, Option.map_some]
    rw [Call.filterMap_answers Response.status? (fun i => rfl), List.foldl_map]
    rfl

end Manager

namespace Core
variable {env : Env}

/-- A core that has been asked for `part` by call `c` when its shard was `before`: the operation
is under way, answered but for the removal of a file, or over. -/
inductive Serving (env : Env) (before : BufferShard) (part : Request) (c : ℕ) (s : Core) :
    Option Response → Prop where
  | waiting (task : Task) (tasks : s.tasks = [(some c, task)])
      (complete : task.complete env s.shard = before.respond env part) :
      Serving env before part c s none
  | detached (task : Task) (response : Response) (tasks : s.tasks = [(none, task)])
      (complete : before.respond env part = (response, (task.complete env s.shard).2)) :
      Serving env before part c s (some response)
  | finished (response : Response) (tasks : s.tasks = [])
      (complete : before.respond env part = (response, s.shard)) :
      Serving env before part c s (some response)

/-- A core while call `c` is the only one: as it was before the message of the call reaches it,
and serving its part from then on. -/
def Stage (env : Env) (before : BufferShard) (part : Option Request) (c : ℕ) (reached : Bool)
    (answered : Option Response) (s : Core) : Prop :=
  (reached = false ∧ answered = none ∧ s.tasks = [] ∧ s.shard = before) ∨
    ∃ request, part = some request ∧ reached = true ∧ Serving env before request c s answered

variable {s : Core} {c : ℕ} {part : Request}

theorem ask_serving (hc : s.crashed = false) (htasks : s.tasks = [])
    (hup : (s.step env (.ask c part)).2.crashed = false) :
    ∃ answer : Option Response,
      (s.step env (.ask c part)).1 = answer.map (fun response => (c, response)) ∧
        Serving env s.shard part c (s.step env (.ask c part)).2 answer := by
  rw [step, hc, if_neg Bool.false_ne_true] at hup ⊢
  have hsystem : s.system.tasks = [] := by rw [system, htasks]; rfl
  have hshard : (s.act env (.ask c part)).2.shard = (s.system.start env part).2.shard := rfl
  have hadopt : ∀ tasks, (s.system.start env part).2.tasks = tasks →
      (s.act env (.ask c part)).2.tasks = tasks.map fun task => (callerOf c part, task) := by
    rintro tasks rfl
    exact (adopt_system (by rw [htasks]; rfl)).2.trans (by rw [htasks]; rfl)
  refine ⟨(s.system.start env part).1, rfl, ?_⟩
  rcases s.system.start_complete env part hc hup with ⟨response, hanswer, hsame, hrespond⟩ |
    ⟨task, hanswer, hafter, hcomplete⟩ | ⟨id, task, rfl, hanswer, hafter, hrespond⟩
  · rw [hanswer]
    exact .finished response (hadopt [] (hsame.trans hsystem)) hrespond
  · rw [hanswer]
    refine .waiting task ((hadopt [task] (by rw [hafter, hsystem]; rfl)).trans ?_) hcomplete
    cases part with
    | deleteInstance id => cases hanswer
    | _ => rfl
  · rw [hanswer]
    exact .detached task _ (hadopt [task] (by rw [hafter, hsystem]; rfl)) hrespond

variable (env) in
theorem resume_lone {caller : Option ℕ} {task : Task} (htasks : s.tasks = [(caller, task)])
    (j : ℕ) : s.act env (.resume j) = (none, s) ∨
      ∃ answer : Option Response, (s.act env (.resume j)).1 =
          caller.bind (fun call => answer.map fun response => (call, response)) ∧
        ((answer = none ∧ ∃ task', (s.act env (.resume j)).2.tasks = [(caller, task')] ∧
            task'.complete env (s.act env (.resume j)).2.shard = task.complete env s.shard) ∨
          ∃ response, answer = some response ∧ (s.act env (.resume j)).2.tasks = [] ∧
            task.complete env s.shard = (response, (s.act env (.resume j)).2.shard)) := by
  cases j with
  | succ j => exact .inl (by simp [act, htasks])
  | zero =>
    refine .inr ?_
    let system : System := { s.system with tasks := [] }
    have hact : s.act env (.resume 0) =
        (caller.bind (fun call => (system.answer env task).map fun response => (call, response)),
          adopt caller [] (system.resumeTask env task)) := by
      simp [act, htasks, system]
    have hadopt : ∀ tasks, (system.resumeTask env task).tasks = tasks →
        (adopt caller [] (system.resumeTask env task)).tasks =
          tasks.map fun task => (caller, task) := by
      rintro tasks rfl
      rfl
    rw [hact]
    refine ⟨system.answer env task, rfl, ?_⟩
    rcases system.resumeTask_nears env task with
      ⟨hanswer, task', hafter, hcomplete⟩ | ⟨response, hanswer, hafter, hcomplete⟩
    · exact .inl ⟨hanswer, task', hadopt [task'] hafter, hcomplete⟩
    · exact .inr ⟨response, hanswer, hadopt [] hafter, hcomplete⟩

theorem Serving.resume {before : BufferShard} {answered : Option Response}
    (h : Serving env before part c s answered) (hc : s.crashed = false) (j : ℕ) :
    ∃ answer : Option Response,
      (s.step env (.resume j)).1 = answer.map (fun response => (c, response)) ∧
        Serving env before part c (s.step env (.resume j)).2 (answer.or answered) := by
  rw [step, hc, if_neg Bool.false_ne_true]
  cases h with
  | waiting task tasks complete =>
    rcases resume_lone env tasks j with hsame | ⟨answer, houtput, hend⟩
    · rw [hsame]
      exact ⟨none, rfl, .waiting task tasks complete⟩
    · refine ⟨answer, houtput, ?_⟩
      rcases hend with ⟨rfl, task', htasks, hcomplete⟩ | ⟨response, rfl, htasks, hcomplete⟩
      · exact .waiting task' htasks (hcomplete.trans complete)
      · exact .finished response htasks (complete.symm.trans hcomplete)
  | detached task response tasks complete =>
    rcases resume_lone env tasks j with hsame | ⟨answer, houtput, hend⟩
    · rw [hsame]
      exact ⟨none, rfl, .detached task response tasks complete⟩
    · refine ⟨none, houtput, ?_⟩
      rcases hend with ⟨rfl, task', htasks, hcomplete⟩ | ⟨response', rfl, htasks, hcomplete⟩
      · exact .detached task' response htasks (by rw [complete, hcomplete])
      · exact .finished response htasks (by rw [complete, hcomplete])
  | finished response tasks complete =>
    have hsame : s.act env (.resume j) = (none, s) := by simp [act, tasks]
    rw [hsame]
    exact ⟨none, rfl, .finished response tasks complete⟩

theorem Serving.over {before : BufferShard} {answered : Option Response}
    (h : Serving env before part c s answered) (htasks : s.tasks = []) :
    ∃ response, before.respond env part = (response, s.shard) ∧ answered = some response := by
  cases h with
  | waiting task tasks complete => simp [tasks] at htasks
  | detached task response tasks complete => simp [tasks] at htasks
  | finished response tasks complete => exact ⟨response, complete, rfl⟩

end Core

def ServerAction.inner {k : ℕ} : ServerAction k → Bool
  | arrive _ _ => true
  | resume _ _ => true
  | _ => false

namespace Server
variable {k : ℕ}

def manager (s : Server k) : BufferManager k := ⟨s.config, fun i => (s.cores i).shard⟩

variable [NeZero k] {env : Fin k → Env} {stdHash : String → ℕ} {s : Server k}

section Alone

def Quiet (stdHash : String → ℕ) (s : Server k) : Prop :=
  s.crashed = false ∧ (∀ i, (s.cores i).tasks = []) ∧ ∀ call ∈ s.calls, ∀ i,
    (Call.part stdHash call.request i).isSome = true → call.reached i = true

instance (s : Server k) : Decidable (s.Quiet stdHash) :=
  inferInstanceAs (Decidable (s.crashed = false ∧ (∀ i, (s.cores i).tasks = []) ∧
    ∀ call ∈ s.calls, ∀ i,
      (Call.part stdHash call.request i).isSome = true → call.reached i = true))

/-- Call `c` is the only one under way since the buffer was `m`. -/
structure Alone (env : Fin k → Env) (stdHash : String → ℕ) (m : BufferManager k)
    (request : Request) (c : ℕ) (s : Server k) : Prop where
  config : s.config = m.config
  others : ∀ c' i, c' ≠ c → s.message stdHash c' i = none
  stages : ∃ call : Call k, s.calls[c]? = some call ∧ call.request = request ∧
    ∀ i, Core.Stage (env i) (m.shards i) (Call.part stdHash request i) c (call.reached i)
      (call.answers i) (s.cores i)

omit [NeZero k] in
theorem turn_alone {i : Fin k} {input : Core.Input} {c : ℕ} {call : Call k}
    {answer : Option Response} (hcall : s.calls[c]? = some call)
    (houtput : ((s.cores i).step (env i) input).1 = answer.map fun response => (c, response)) :
    (∀ c', c' ≠ c → (turn env i input s).calls[c']? = s.calls[c']?) ∧
      ∃ call' : Call k, (turn env i input s).calls[c]? = some call' ∧
        call'.request = call.request ∧ call'.reached = call.reached ∧
        call'.answers i = answer.or (call.answers i) ∧
        ∀ i', i' ≠ i → call'.answers i' = call.answers i' := by
  have hcalls : (turn env i input s).calls =
      record i (answer.map fun response => (c, response)) s.calls := by rw [turn, houtput]
  rw [hcalls]
  cases answer with
  | none => exact ⟨fun _ _ => rfl, call, hcall, rfl, rfl, rfl, fun _ _ => rfl⟩
  | some response =>
    rw [Option.map_some, record]
    refine ⟨fun c' hc' => List.getElem?_modify_ne _ _ (Ne.symm hc'), call.answer i response, ?_,
      rfl, rfl, Function.update_self .., fun i' hi => Function.update_of_ne hi ..⟩
    rw [List.getElem?_modify_eq, hcall]
    rfl

variable {m : BufferManager k} {request : Request} {c : ℕ}

theorem message_congr {s' : Server k} {c : ℕ} (h : s'.calls[c]? = s.calls[c]?) (i : Fin k) :
    s'.message stdHash c i = s.message stdHash c i := by rw [message, message, h]

theorem alone_turn {i : Fin k} {input : Core.Input} (call : Call k) (answer : Option Response)
    (hconfig : s.config = m.config) (hothers : ∀ c' i, c' ≠ c → s.message stdHash c' i = none)
    (hcall : s.calls[c]? = some call) (hrequest : call.request = request)
    (hstages : ∀ i', i' ≠ i → Core.Stage (env i') (m.shards i') (Call.part stdHash request i') c
      (call.reached i') (call.answers i') (s.cores i'))
    (houtput : ((s.cores i).step (env i) input).1 = answer.map fun response => (c, response))
    (hstage : Core.Stage (env i) (m.shards i) (Call.part stdHash request i) c (call.reached i)
      (answer.or (call.answers i)) ((s.cores i).step (env i) input).2) :
    (turn env i input s).Alone env stdHash m request c := by
  obtain ⟨hsame, call', hcall', hrequest', hreached', hanswer, hanswers⟩ :=
    turn_alone hcall houtput
  refine ⟨hconfig, fun c' i' hc' => (message_congr (hsame c' hc') i').trans (hothers c' i' hc'),
    call', hcall', hrequest'.trans hrequest, fun i' => ?_⟩
  rw [turn_core, hreached']
  by_cases hi : i = i'
  · subst hi
    rw [if_pos rfl, hanswer]
    exact hstage
  · rw [if_neg hi, hanswers i' (Ne.symm hi)]
    exact hstages i' (Ne.symm hi)

theorem Alone.step (h : s.Alone env stdHash m request c) {a : ServerAction k}
    (ha : a.inner = true) (hup : (s.step env stdHash a).2.crashed = false) :
    (s.step env stdHash a).2.Alone env stdHash m request c := by
  have hc : s.crashed = false := by
    by_contra hdown
    rw [Server.step, if_pos (Bool.eq_true_of_not_eq_false hdown)] at hup
    exact hdown hup
  have hcores : ∀ i, (s.cores i).crashed = false := by
    rw [crashed, decide_eq_false_iff_not, not_exists] at hc
    exact fun i => Bool.eq_false_of_not_eq_true (hc i)
  rw [Server.step, hc, if_neg Bool.false_ne_true] at hup ⊢
  obtain ⟨call, hcall, hrequest, hstages⟩ := h.stages
  cases a with
  | call request => cases ha
  | configure req => cases ha
  | arrive c' i =>
    rw [act] at hup ⊢
    cases hm : s.message stdHash c' i with
    | none => exact h
    | some part =>
      rw [hm] at hup
      have hc' : c' = c := by
        by_contra hne
        rw [h.others c' i hne] at hm
        cases hm
      subst hc'
      rw [message_eq hcall, hrequest] at hm
      obtain ⟨hreached, hpart⟩ := Option.ite_none_left_eq_some.mp hm
      rcases hstages i with ⟨-, hnone, htasks, hshard⟩ | ⟨part', -, hreached', -⟩
      · obtain ⟨answer, houtput, hserving⟩ :=
          Core.ask_serving (hcores i) htasks (crashed_turn hup)
        have hmodify : (s.calls.modify c' (Call.reach i))[c']? = some (call.reach i) := by
          rw [List.getElem?_modify_eq, hcall]
          rfl
        refine alone_turn (call.reach i) answer h.config (fun c'' i' hne => ?_) hmodify hrequest
          (fun i' hi => ?_) houtput (.inr ⟨part, hpart, Function.update_self .., ?_⟩)
        · refine (message_congr ?_ i').trans (h.others c'' i' hne)
          exact List.getElem?_modify_ne _ _ (Ne.symm hne)
        · have hsame : (call.reach i).reached i' = call.reached i' := Function.update_of_ne hi ..
          rw [hsame]
          exact hstages i'
        · rw [← hshard]
          have hanswers : (call.reach i).answers i = none := hnone
          rw [hanswers, Option.or_none]
          exact hserving
      · exact absurd hreached' hreached
  | resume i j =>
    rw [act] at hup ⊢
    rcases hstages i with ⟨hreached, hnone, htasks, hshard⟩ | ⟨part, hpart, hreached, hserving⟩
    · have hidle : (s.cores i).step (env i) (.resume j) = (none, s.cores i) := by
        rw [Core.step, hcores i, if_neg Bool.false_ne_true, Core.act, htasks]
        rfl
      refine alone_turn call none h.config h.others hcall hrequest (fun i' _ => hstages i')
        (by rw [hidle]; rfl) (.inl ⟨hreached, hnone, ?_⟩)
      rw [hidle]
      exact ⟨htasks, hshard⟩
    · obtain ⟨answer, houtput, hnext⟩ := hserving.resume (hcores i) j
      exact alone_turn call answer h.config h.others hcall hrequest (fun i' _ => hstages i') houtput
        (.inr ⟨part, hpart, hreached, hnext⟩)

theorem Quiet.alone (h : s.Quiet stdHash) (request : Request) :
    ({ s with calls := s.calls ++ [.create request] } : Server k).Alone env stdHash s.manager
      request s.calls.length := by
  obtain ⟨hc, htasks, hreached⟩ := h
  refine ⟨rfl, fun c' i hc' => ?_, .create request, List.getElem?_concat_length .., rfl, fun i =>
    .inl ⟨rfl, rfl, htasks i, rfl⟩⟩
  rw [message]
  cases hcall : (s.calls ++ [.create request])[c']? with
  | none => rfl
  | some call =>
    have hlt : c' < s.calls.length := by
      have hle := (List.getElem?_eq_some_iff.mp hcall).1
      rw [List.length_append, List.length_singleton] at hle
      omega
    rw [List.getElem?_append_left hlt] at hcall
    have hall := hreached call (List.mem_of_getElem? hcall) i
    cases hpart : Call.part stdHash call.request i with
    | none => simp [hpart]
    | some part => simp [hall (by rw [hpart]; rfl)]

/-- When everything is over, the call has the answer of the sequential buffer, and the shards are
its shards. -/
theorem Alone.over (h : s.Alone env stdHash m request c) (hquiet : s.Quiet stdHash) :
    s.responseOf stdHash c = some (m.respond env stdHash request).1 ∧
      s.manager = (m.respond env stdHash request).2 := by
  obtain ⟨call, hcall, hrequest, hstages⟩ := h.stages
  have hcore : ∀ i, (s.cores i).shard =
        ((Call.part stdHash request i).map fun part =>
          ((m.shards i).respond (env i) part).2).getD (m.shards i) ∧
      call.answers i = (Call.part stdHash request i).map fun part =>
        ((m.shards i).respond (env i) part).1 := by
    intro i
    rcases hstages i with ⟨hreached, hnone, -, hshard⟩ | ⟨part, hpart, -, hserving⟩
    · have hpart : Call.part stdHash request i = none := by
        by_contra hsome
        have hall := hquiet.2.2 call (List.mem_of_getElem? hcall) i
        rw [hrequest, hreached] at hall
        cases hall (Option.isSome_iff_ne_none.mpr hsome)
      rw [hpart]
      exact ⟨hshard, hnone⟩
    · obtain ⟨response, hcomplete, hanswer⟩ := hserving.over (hquiet.2.1 i)
      rw [hpart, hanswer, Option.map_some, Option.map_some, Option.getD_some, hcomplete]
      exact ⟨rfl, rfl⟩
  have hanswers : call.answers = fun i => (Call.part stdHash request i).map fun part =>
      ((m.shards i).respond (env i) part).1 := funext fun i => (hcore i).2
  have hall : call.Answered stdHash := by
    intro i hpart
    rw [hanswers]
    simpa [hrequest] using hpart
  constructor
  · rw [responseOf, hcall, Option.bind_some, Call.response, if_pos hall, hrequest, hanswers]
    exact BufferManager.combine_respond env stdHash m request
  · have hconfig : s.config = (m.respond env stdHash request).2.config :=
      h.config.trans (BufferManager.respond_config env stdHash m request).symm
    have hshards : (fun i => (s.cores i).shard) = (m.respond env stdHash request).2.shards := by
      funext i
      rw [BufferManager.respond_part]
      exact (hcore i).1
    rw [manager, hconfig, hshards]

variable (env) in
theorem Quiet.idle (h : s.Quiet stdHash) {a : ServerAction k} (ha : a.inner = true) :
    (s.step env stdHash a).2 = s := by
  obtain ⟨hc, htasks, hreached⟩ := h
  have hcores : ∀ i, (s.cores i).crashed = false := by
    rw [crashed, decide_eq_false_iff_not, not_exists] at hc
    exact fun i => Bool.eq_false_of_not_eq_true (hc i)
  rw [Server.step, hc, if_neg Bool.false_ne_true]
  cases a with
  | call request => cases ha
  | configure req => cases ha
  | arrive c i =>
    have hnone : s.message stdHash c i = none := by
      rw [message]
      cases hcall : s.calls[c]? with
      | none => rfl
      | some call =>
        have hall := hreached call (List.mem_of_getElem? hcall) i
        cases hpart : Call.part stdHash call.request i with
        | none => simp [hpart]
        | some part => simp [hall (by rw [hpart]; rfl)]
    rw [act, hnone]
  | resume i j =>
    have hidle : (s.cores i).step (env i) (.resume j) = (none, s.cores i) := by
      rw [Core.step, hcores i, if_neg Bool.false_ne_true, Core.act, htasks]
      rfl
    rw [act, turn, hidle]
    simp [record]

variable (env) in
theorem Quiet.configure (h : s.Quiet stdHash) (req : ConfigRequest) :
    (s.step env stdHash (.configure req)).2.Quiet stdHash ∧
      (s.step env stdHash (.configure req)).2.manager = s.manager.updateConfig req := by
  obtain ⟨hc, htasks, hreached⟩ := h
  have hcores : ∀ i, (s.cores i).crashed = false := by
    rw [crashed, decide_eq_false_iff_not, not_exists] at hc
    exact fun i => Bool.eq_false_of_not_eq_true (hc i)
  have hstep : ∀ i config, ((s.cores i).step (env i) (.configure config)).2 =
      { s.cores i with shard := (s.cores i).shard.updateConfig config } := by
    intro i config
    rw [Core.step, hcores i, if_neg Bool.false_ne_true]
    rfl
  rw [Server.step, hc, if_neg Bool.false_ne_true, act]
  simp only [hstep]
  refine ⟨⟨?_, htasks, hreached⟩, rfl⟩
  rw [crashed, decide_eq_false_iff_not, not_exists]
  exact fun i => by simp [hcores i]

end Alone

/-- A request, and what happens until the next one. -/
structure Round (k : ℕ) where
  request : HttpRequest
  schedule : List (ServerAction k)
  inner : ∀ a ∈ schedule, a.inner = true

section Rounds
variable (env) (stdHash)

/-- A request is handed to the server, which then runs for a while; what it has resolved to. -/
def serve (s : Server k) (round : Round k) : Option Response × Server k :=
  match round.request with
  | .buffer request =>
    let s' := s.run env stdHash (.call request :: round.schedule)
    (s'.responseOf stdHash s.calls.length, s')
  | .config (.error status) =>
    (some (.done (.error (.runtimeError ("Invalid JSON: " ++ status)))),
      s.run env stdHash round.schedule)
  | .config (.ok body) =>
    (some (.done (.ok ())), s.run env stdHash (.configure body.message :: round.schedule))

def EndsQuiet (s : Server k) (round : Round k) : Prop :=
  (s.serve env stdHash round).2.Quiet stdHash

instance (s : Server k) (round : Round k) : Decidable (s.EndsQuiet env stdHash round) :=
  inferInstanceAs (Decidable ((s.serve env stdHash round).2.Quiet stdHash))

variable {env} {stdHash}

theorem run_crashed (h : s.crashed = true) (actions : List (ServerAction k)) :
    s.run env stdHash actions = s :=
  Machine.final_inv (· = s) (fun s' a heq => by subst heq; simp [step, h]) actions rfl

theorem Alone.run {m : BufferManager k} {request : Request} {c : ℕ}
    (h : s.Alone env stdHash m request c) {actions : List (ServerAction k)}
    (hinner : ∀ a ∈ actions, a.inner = true)
    (hup : (s.run env stdHash actions).crashed = false) :
    (s.run env stdHash actions).Alone env stdHash m request c := by
  induction actions generalizing s with
  | nil => exact h
  | cons a actions ih =>
    have hnext : (s.step env stdHash a).2.crashed = false := by
      by_contra hdown
      have hdown := Bool.eq_true_of_not_eq_false hdown
      have hsame : s.run env stdHash (a :: actions) = (s.step env stdHash a).2 :=
        run_crashed hdown actions
      rw [hsame, hdown] at hup
      cases hup
    exact ih (h.step (hinner a List.mem_cons_self) hnext)
      (fun a' ha' => hinner a' (List.mem_cons_of_mem _ ha')) hup

theorem Quiet.run (h : s.Quiet stdHash) {actions : List (ServerAction k)}
    (hinner : ∀ a ∈ actions, a.inner = true) : s.run env stdHash actions = s := by
  induction actions with
  | nil => rfl
  | cons a actions ih =>
    have hidle := h.idle env (hinner a List.mem_cons_self)
    have hrest := ih fun a' ha' => hinner a' (List.mem_cons_of_mem _ ha')
    rw [Server.run, Machine.final_cons, hidle]
    exact hrest

/-- A round that ends with nothing under way is a step of the sequential buffer. -/
theorem Quiet.serve (h : s.Quiet stdHash) {round : Round k}
    (hend : s.EndsQuiet env stdHash round) :
    (s.serve env stdHash round).1 = some (s.manager.handle env stdHash round.request).1 ∧
      (s.serve env stdHash round).2.manager = (s.manager.handle env stdHash round.request).2 := by
  obtain ⟨request, schedule, hinner⟩ := round
  rw [EndsQuiet, Server.serve] at hend
  rw [Server.serve]
  cases request with
  | buffer request =>
    have hcall : (s.step env stdHash (.call request)).2 =
        { s with calls := s.calls ++ [.create request] } := by
      rw [step, h.1, if_neg Bool.false_ne_true]
      rfl
    have hrun : s.run env stdHash (.call request :: schedule) =
        Server.run env stdHash { s with calls := s.calls ++ [.create request] } schedule := by
      rw [Server.run, Machine.final_cons, hcall]
      rfl
    simp only [hrun] at hend ⊢
    exact ((h.alone request).run hinner hend.1).over hend
  | config body =>
    cases body with
    | error status => exact ⟨rfl, congrArg manager (h.run hinner)⟩
    | ok body =>
      obtain ⟨hquiet, hmanager⟩ := h.configure env body.message
      exact ⟨rfl, (congrArg manager (hquiet.run hinner)).trans hmanager⟩

variable (env) (stdHash)

/-- Requests that come one after the other, each when nothing is under way any more, get the
answers of the sequential buffer and leave its configuration and its shards behind: for all
orders in which messages arrive and operations are resumed, and whatever fails. -/
theorem requests_in_turn (config : TransferQueueConfig) (bitCount numHashes : ℕ)
    (rounds : List (Round k)) :
    let s := create k config bitCount numHashes
    let m := BufferManager.start k config bitCount numHashes
    let requests := rounds.map Round.request
    Machine.Along (serve env stdHash) (EndsQuiet env stdHash) s rounds →
      Machine.outputs (serve env stdHash) s rounds =
          (Machine.outputs (BufferManager.handle env stdHash) m requests).map some ∧
        (Machine.final (serve env stdHash) s rounds).manager =
          Machine.final (BufferManager.handle env stdHash) m requests := by
  intro s m requests hrounds
  have hquiet : s.Quiet stdHash :=
    ⟨decide_eq_false (by rintro ⟨i, hi⟩; cases hi), fun _ => rfl, by rintro call hcall; cases hcall⟩
  have hsame : s.manager = m := rfl
  clear_value s m
  induction rounds generalizing s m with
  | nil => exact ⟨rfl, hsame⟩
  | cons round rounds ih =>
    obtain ⟨houtput, hmanager⟩ := hquiet.serve hrounds.1
    rw [hsame] at houtput hmanager
    obtain ⟨houtputs, hfinal⟩ := ih _ _ hrounds.2 hrounds.1 hmanager
    refine ⟨?_, hfinal⟩
    have hrequests : requests = round.request :: rounds.map Round.request := rfl
    rw [hrequests, Machine.outputs, Machine.outputs, List.map_cons, houtput, houtputs]

end Rounds

section Samples

/-- A write that spills, a read that reaches the two cores in the other order, and the switch of
the dedup check. -/
def inTurn {k : ℕ} (i j : Fin k) : List (Round k) :=
  [⟨.buffer (.write (.bare "u" "a")), [.arrive 0 i, .resume i 0, .resume i 0],
      by simp [ServerAction.inner]⟩,
    ⟨.buffer (.batchWrite []), [], by simp⟩,
    ⟨.buffer (.readReadyGroups 0),
      [.arrive 2 j, .arrive 2 i, .resume i 0, .resume i 0, .resume i 0, .resume i 0],
      by simp [ServerAction.inner]⟩,
    ⟨.config (.ok { uidDedup := some true }), [], by simp⟩]

theorem requests_in_turn_four :
    let env : Fin 2 → Env := fun _ => .sample []
    let s := create 2 (.tight 1) 0 0
    let m := BufferManager.start 2 (.tight 1) 0 0
    let rounds : List (Round 2) := inTurn 0 1
    Machine.outputs (serve env sampleHash) s rounds =
        (Machine.outputs (BufferManager.handle env sampleHash) m
          (rounds.map Round.request)).map some ∧
      (Machine.final (serve env sampleHash) s rounds).manager =
        Machine.final (BufferManager.handle env sampleHash) m (rounds.map Round.request) :=
  requests_in_turn (fun _ => .sample []) sampleHash (.tight 1) 0 0 (inTurn 0 1) (by decide +kernel)

end Samples

end Server
end TransferQueue
