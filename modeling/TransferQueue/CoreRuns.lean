import Mathlib.Algebra.BigOperators.Group.List.Basic
import Mathlib.Data.List.Perm.Basic
import Mathlib.Tactic.Abel
import TransferQueue.ShardCalls

/-! Runs of one core. Without the calls that wait, a run of a core is an interleaving of its
shard; with them, what the shard hands out and takes in is what the calls are told. -/

namespace TransferQueue

section Projection
variable {env : Env}

namespace System

def batchActions (env : Env) : List Trajectory → System → List Action
  | [], _ => []
  | t :: ts, s =>
    .write t ::
      match s.writeAnswer env t with
      | some _ => batchActions env ts (s.startWrite env t)
      | none => []

def actions (env : Env) (s : System) : Request → List Action
  | .write t => [.write t]
  | .batchWrite ts => batchActions env ts s
  | .readReadyGroups maxGroups => [.readReadyGroups maxGroups]
  | .deleteInstance id => [.deleteInstance id]
  | .reset => [.reset]
  | .hasReadyGroups | .getStatus => []

theorem resume_not_mem_actions (s : System) (request : Request) (i : ℕ) :
    .resume i ∉ s.actions env request := by
  have hbatch : ∀ (ts : List Trajectory) (s : System), .resume i ∉ batchActions env ts s := by
    intro ts
    induction ts with
    | nil => simp [batchActions]
    | cons t ts ih =>
      intro s
      rw [batchActions]
      cases s.writeAnswer env t with
      | none => simp
      | some b => simpa using ih _
  cases request with
  | batchWrite ts => exact hbatch ts s
  | _ => simp [actions]

theorem run_one {s : System} (hc : s.crashed = false) (a : Action) :
    s.run env [a] = s.act env a := by
  rw [run, Machine.final_cons, Machine.final_nil, step, hc]
  rfl

theorem run_crashed {s : System} (hc : s.crashed = true) (as : List Action) :
    s.run env as = s :=
  Machine.final_inv (fun s' => s' = s) (fun s' a h => by rw [h, step, hc, if_pos rfl]) as rfl

variable (env) in
/-- A batch is a sequence of writes, and a crash if one of them spills. -/
theorem batchWriteLoop_run {s : System} (hc : s.crashed = false) (written : ℕ)
    (ts : List Trajectory) :
    (s.run env (batchActions env ts s)).crashed = false ∧
      (batchWriteLoop env written ts s).2 = { s.run env (batchActions env ts s) with
        crashed := (batchWriteLoop env written ts s).2.crashed } := by
  induction ts generalizing s written with
  | nil => exact ⟨hc, by rw [batchWriteLoop, batchActions]; rfl⟩
  | cons t ts ih =>
    have hc' : (s.startWrite env t).crashed = false := (startWrite_crashed env t s).trans hc
    have hrun : ∀ as, s.run env (.write t :: as) = (s.startWrite env t).run env as := fun as => by
      rw [run, Machine.final_cons, step, hc]
      rfl
    rw [batchWriteLoop, batchActions, hrun]
    cases s.writeAnswer env t with
    | none => exact ⟨hc', rfl⟩
    | some b => cases b with
      | true => exact ih hc' (written + 1)
      | false => exact ih hc' written

variable (env) in
/-- A request is its actions, up to a crash of the process. -/
theorem start_run {s : System} (hc : s.crashed = false) (request : Request) :
    (s.start env request).2 = { s.run env (s.actions env request) with
        crashed := (s.start env request).2.crashed } ∧
      ((s.run env (s.actions env request)).crashed = true →
        (s.start env request).2.crashed = true) := by
  cases request with
  | batchWrite ts =>
    obtain ⟨hrun, hloop⟩ := batchWriteLoop_run env hc 0 ts
    exact ⟨hloop, fun h => by rw [actions, hrun] at h; cases h⟩
  | write t => exact (run_one hc (.write t)).symm ▸ ⟨rfl, id⟩
  | readReadyGroups maxGroups => exact (run_one hc (.readReadyGroups maxGroups)).symm ▸ ⟨rfl, id⟩
  | deleteInstance id => exact (run_one hc (.deleteInstance id)).symm ▸ ⟨rfl, fun h => h⟩
  | reset => exact (run_one hc .reset).symm ▸ ⟨rfl, id⟩
  | hasReadyGroups => exact ⟨rfl, id⟩
  | getStatus => exact ⟨rfl, id⟩

end System
end Projection

namespace Core
variable {env : Env}

section Projection

def actions (env : Env) (s : Core) : Input → List Action
  | .ask _ request => if s.crashed then [] else s.system.actions env request
  | .resume i => if s.crashed then [] else [.resume i]
  | .configure config => if s.crashed then [] else [.updateConfig config]

/-- The core goes with an interleaving of its shard, until the process comes down. -/
def Follows (s : Core) (t : System) : Prop :=
  s.system = { t with crashed := s.crashed } ∧ (t.crashed = true → s.crashed = true)

theorem Follows.create (config : TransferQueueConfig) (bitCount numHashes : ℕ) :
    (create config bitCount numHashes).Follows (.create config bitCount numHashes) :=
  ⟨rfl, fun h => by cases h⟩

theorem adopt_system {caller : Option ℕ} {kept : List (Option ℕ × Task)} {s : System}
    {tasks : List Task} (h : s.tasks = kept.map Prod.snd ++ tasks) :
    (adopt caller kept s).system = s ∧
      (adopt caller kept s).tasks = kept ++ tasks.map fun task => (caller, task) := by
  have hdrop : s.tasks.drop kept.length = tasks := by
    rw [h, List.drop_append_of_le_length (by simp)]
    simp
  refine ⟨?_, by rw [adopt, hdrop]⟩
  rw [system, adopt, hdrop, List.map_append, List.map_map]
  simp [Function.comp_def, ← h]

variable (env) in
theorem ask_system (call : ℕ) (request : Request) (s : Core) :
    (s.act env (.ask call request)).2.system = (s.system.start env request).2 := by
  rcases s.system.start_steps env request with
    ⟨events, after, -, -, -, htasks, -⟩ | ⟨-, -, events, after, -, -, htasks⟩
  · exact (adopt_system htasks).1
  · exact (adopt_system htasks).1

variable (env) in
theorem resume_system {s : Core} {i : ℕ} {caller : Option ℕ} {task : Task}
    (h : s.tasks[i]? = some (caller, task)) :
    (s.act env (.resume i)).2.system =
      ({ s.system with tasks := s.system.tasks.eraseIdx i } : System).resumeTask env task := by
  have htasks : (s.tasks.eraseIdx i).map Prod.snd = s.system.tasks.eraseIdx i := by
    rw [system, List.eraseIdx_map]
  obtain ⟨events, after, -, -, -, hafter, -⟩ := System.resumeTask_steps env
    { s.system with tasks := (s.tasks.eraseIdx i).map Prod.snd } task
  rw [act, h]
  simp only
  rw [(adopt_system hafter).1, htasks]

theorem act_follows {s : Core} (hc : s.crashed = false) (input : Input) :
    (s.act env input).2.Follows (s.system.run env (s.actions env input)) := by
  have hcrashed : s.system.crashed = false := hc
  cases input with
  | ask call request =>
    obtain ⟨hrun, hdown⟩ := System.start_run env hcrashed request
    have hsystem := ask_system env call request s
    rw [actions, hc, if_neg Bool.false_ne_true]
    exact ⟨hsystem.trans (hrun.trans rfl), hdown⟩
  | resume i =>
    rw [actions, hc, if_neg Bool.false_ne_true, System.run_one hcrashed]
    cases htask : s.tasks[i]? with
    | none =>
      have hnone : s.system.tasks[i]? = none := by rw [system, List.getElem?_map, htask]; rfl
      rw [act, htask, System.act, hnone]
      exact ⟨rfl, id⟩
    | some p =>
      have hsome : s.system.tasks[i]? = some p.2 := by rw [system, List.getElem?_map, htask]; rfl
      have hsystem := resume_system env htask
      have hact : s.system.act env (.resume i) = (s.act env (.resume i)).2.system := by
        rw [hsystem, System.act, hsome]
      rw [hact]
      exact ⟨rfl, id⟩
  | configure config =>
    rw [actions, hc, if_neg Bool.false_ne_true, System.run_one hcrashed]
    exact ⟨rfl, id⟩

theorem Follows.same {s : Core} {t : System} (h : s.Follows t) (hc : s.crashed = false) :
    s.system = t := by
  have ht : t.crashed = false := by
    by_contra hdown
    rw [h.2 (by simpa using hdown)] at hc
    cases hc
  rw [h.1, hc, ← ht]

variable (env) in
theorem Follows.step {s : Core} {t : System} (h : s.Follows t) (input : Input) :
    (s.step env input).2.Follows (t.run env (s.actions env input)) := by
  rw [Core.step]
  cases hc : s.crashed with
  | true =>
    have hnone : s.actions env input = [] := by cases input <;> simp [actions, hc]
    rw [hnone, if_pos rfl]
    exact h
  | false =>
    rw [if_neg Bool.false_ne_true, ← h.same hc]
    exact act_follows hc input

theorem Follows.run {s : Core} {t : System} (h : s.Follows t) (inputs : List Input) :
    (Machine.final (Core.step env) s inputs).Follows
      (t.run env (Machine.record (Core.step env) (actions env) s inputs)) := by
  induction inputs generalizing s t with
  | nil => exact h
  | cons input inputs ih =>
    rw [Machine.final_cons, Machine.record]
    have hrun := ih (h.step env input)
    rwa [System.run, System.run, ← Machine.final_append] at hrun

theorem Follows.along {Q : System → Action → Prop} {s : Core} {t : System} (h : s.Follows t)
    {inputs : List Input}
    (hQ : Machine.Along (Core.step env)
      (fun s input => Machine.Along (System.step env) Q s.system (s.actions env input)) s inputs) :
    Machine.Along (System.step env) Q t
      (Machine.record (Core.step env) (actions env) s inputs) := by
  induction inputs generalizing s t with
  | nil => trivial
  | cons input inputs ih =>
    refine Machine.along_append.mpr ⟨?_, ih (h.step env input) hQ.2⟩
    cases hc : s.crashed with
    | true =>
      have hnone : s.actions env input = [] := by cases input <;> simp [actions, hc]
      rw [hnone]
      trivial
    | false => exact h.same hc ▸ hQ.1

end Projection

section Moves

/-- What a step of a core does, if the process stays up. -/
inductive Moves (s : Core) : Input → Option (ℕ × Response) → Core → Prop where
  | idle {input : Input} {s' : Core}
      (quiet : (∃ config, input = .configure config) ∨ ∃ i, input = .resume i ∧ s.tasks[i]? = none)
      (tasks : s'.tasks = s.tasks) (log : s'.log = s.log) : Moves s input none s'
  | asked {call : ℕ} {request : Request} {answer : Option Response} {events : List Event}
      {after : Option Task} {s' : Core} (outcome : Outcome none answer events after)
      (log : s'.log = events ++ s.log)
      (tasks : s'.tasks = s.tasks ++ after.toList.map fun task => (callerOf call request, task))
      (waits : answer = none ∨ after = none ∨ callerOf call request = none)
      (answered : callerOf call request = none → answer ≠ none)
      (kind : request.kind.Fits answer after)
      (detached : callerOf call request = none → ∀ task ∈ after, ∃ todo, task = .remove todo) :
      Moves s (.ask call request) (answer.map fun response => (call, response)) s'
  | resumed {i : ℕ} {caller : Option ℕ} {task : Task} {answer : Option Response}
      {events : List Event} {after : Option Task} {s' : Core}
      (found : s.tasks[i]? = some (caller, task))
      (outcome : Outcome (some task) answer events after) (log : s'.log = events ++ s.log)
      (tasks : s'.tasks = s.tasks.eraseIdx i ++ after.toList.map fun task => (caller, task)) :
      Moves s (.resume i) (caller.bind fun call => answer.map fun response => (call, response)) s'

theorem step_moves {s : Core} {input : Input} (hup : (s.step env input).2.crashed = false) :
    s.crashed = false ∧ s.Moves input (s.step env input).1 (s.step env input).2 := by
  cases hc : s.crashed with
  | true =>
    rw [step, hc, if_pos rfl, hc] at hup
    cases hup
  | false =>
    rw [step, hc, if_neg Bool.false_ne_true] at hup ⊢
    refine ⟨rfl, ?_⟩
    cases input with
    | ask call request =>
      rcases s.system.start_steps env request with
        ⟨events, after, houtcome, hkind, hlog, htasks, -⟩ | ⟨hdown, -⟩
      · refine .asked houtcome hlog (adopt_system htasks).2 ?_ ?_ hkind ?_
        · by_cases hanswer : (s.system.start env request).1 = none
          · exact .inl hanswer
          · rcases s.system.start_suspends env request hanswer with hsame | ⟨id, rfl⟩
            · refine .inr (.inl ?_)
              cases after with
              | none => rfl
              | some task => simp [hsame] at htasks
            · exact .inr (.inr rfl)
        · intro hcaller
          cases request with
          | deleteInstance id => exact Option.some_ne_none _
          | _ => cases hcaller
        · rintro hcaller task rfl
          cases request with
          | deleteInstance id => exact s.system.startDelete_task id htasks
          | _ => cases hcaller
      · exact absurd (hup.symm.trans hdown) Bool.false_ne_true
    | resume i =>
      cases htask : s.tasks[i]? with
      | none =>
        rw [act, htask]
        exact .idle (.inr ⟨i, rfl, htask⟩) rfl rfl
      | some p =>
        obtain ⟨events, after, houtcome, -, hlog, htasks, -⟩ := System.resumeTask_steps env
          { s.system with tasks := (s.tasks.eraseIdx i).map Prod.snd } p.2
        rw [act, htask]
        exact .resumed htask houtcome hlog (adopt_system htasks).2
    | configure config => exact .idle (.inl ⟨config, rfl⟩) rfl rfl

variable (env) in
theorem step_down {s : Core} {input : Input} (hc : s.crashed = false)
    (hdown : (s.step env input).2.crashed = true) :
    (s.step env input).1 = none ∧ ∃ events, (∀ event ∈ events, event.written? ≠ none) ∧
      (s.step env input).2.log = events ++ s.log := by
  rw [step, hc, if_neg Bool.false_ne_true] at hdown ⊢
  cases input with
  | ask call request =>
    rcases s.system.start_steps env request with
      ⟨events, after, -, -, -, -, hcrashed⟩ | ⟨-, hanswer, events, after, hwrites, hlog, -⟩
    · exact absurd (hdown.symm.trans (hcrashed.trans hc)) (by simp)
    · exact ⟨by rw [act, hanswer]; rfl, events, hwrites, hlog⟩
  | resume i =>
    cases htask : s.tasks[i]? with
    | none => simp [act, htask, hc] at hdown
    | some p =>
      obtain ⟨events, after, -, -, -, -, hcrashed⟩ := System.resumeTask_steps env
        { s.system with tasks := (s.tasks.eraseIdx i).map Prod.snd } p.2
      rw [act, htask] at hdown
      exact absurd (hdown.symm.trans (hcrashed.trans hc)) (by simp)
  | configure config => exact absurd (hdown.symm.trans hc) (by simp)

variable (env) in
theorem step_appended {s : Core} {input : Input} {t : Trajectory}
    (h : .appended t ∈ (s.step env input).2.log) :
    .appended t ∈ s.log ∨ ∃ call request, input = .ask call request ∧ t ∈ request.trajectories := by
  rw [step] at h
  split at h
  · exact .inl h
  · cases input with
    | ask call request =>
      exact (s.system.start_appended env request h).imp_right fun hmem => ⟨call, request, rfl, hmem⟩
    | resume i =>
      rw [act] at h
      cases htask : s.tasks[i]? with
      | none =>
        rw [htask] at h
        exact .inl h
      | some p =>
        rw [htask] at h
        obtain ⟨events, after, houtcome, -, hlog, -⟩ := System.resumeTask_steps env
          { s.system with tasks := (s.tasks.eraseIdx i).map Prod.snd } p.2
        have hmem : .appended t ∈ (System.resumeTask env
            { s.system with tasks := (s.tasks.eraseIdx i).map Prod.snd } p.2).log := h
        rw [hlog] at hmem
        exact (List.mem_append.mp hmem).elim
          (fun hmem => absurd hmem (houtcome.appends_nothing t)) .inl
    | configure config => exact .inl h

/-- The tasks for which nobody waits are removals. -/
def Attended (s : Core) : Prop := ∀ task, (none, task) ∈ s.tasks → ∃ todo, task = .remove todo

def waiting (s : Core) (call : ℕ) : ℕ := s.tasks.countP fun p => p.1 = some call

def Input.asks (call : ℕ) : Input → Bool
  | ask call' _ => call' = call
  | _ => false

theorem countP_eraseIdx {α : Type*} {l : List α} {i : ℕ} {a : α} (p : α → Bool)
    (h : l[i]? = some a) : l.countP p = (l.eraseIdx i).countP p + (p a).toNat := by
  obtain ⟨hlt, rfl⟩ := List.getElem?_eq_some_iff.mp h
  rw [← (List.getElem_cons_eraseIdx_perm hlt).countP_eq, List.countP_cons]
  cases p l[i] <;> rfl

theorem Moves.waiting {s s' : Core} {input : Input} {output : Option (ℕ × Response)}
    (hm : s.Moves input output s') (call : ℕ) :
    s'.waiting call + output.toList.countP (fun p => p.1 = call) =
      s.waiting call + (input.asks call).toNat := by
  cases hm with
  | idle quiet tasks log =>
    have hasks : input.asks call = false := by
      rcases quiet with ⟨config, rfl⟩ | ⟨i, rfl, -⟩ <;> rfl
    simp [Core.waiting, tasks, hasks]
  | @asked call' request answer events after _ outcome log tasks waits answered kind detached =>
    have hafter := outcome.suspends
    rw [Core.waiting, tasks, List.countP_append, Core.waiting, Nat.add_assoc]
    refine congrArg _ ?_
    cases hcaller : callerOf call' request with
    | none =>
      have hanswer := answered hcaller
      cases answer <;> cases after <;> simp_all [Input.asks, Bool.toNat]
    | some caller =>
      have hsame : caller = call' := by
        cases request <;> simp_all [callerOf]
      subst hsame
      cases answer <;> cases after <;> simp_all [Input.asks, Bool.toNat]
  | @resumed i caller task answer events after _ found outcome log tasks =>
    obtain ⟨hanswered, -⟩ := outcome.of_task
    have hafter := outcome.suspends
    rw [Core.waiting, tasks, List.countP_append, Core.waiting, countP_eraseIdx _ found,
      Nat.add_assoc, Nat.add_assoc]
    refine congrArg _ ?_
    cases caller with
    | none => cases after <;> simp [Input.asks]
    | some caller => cases answer <;> cases after <;> simp_all [Input.asks, Bool.toNat]

theorem Moves.kinds {s s' : Core} {input : Input} {output : Option (ℕ × Response)}
    (hm : s.Moves input output s') {kind : ℕ → Kind}
    (hask : ∀ call request, input = .ask call request → request.kind = kind call)
    (h : ∀ call task, (some call, task) ∈ s.tasks → task.kind = kind call) :
    (∀ p ∈ output, (kind p.1).Admits p.2) ∧
      ∀ call task, (some call, task) ∈ s'.tasks → task.kind = kind call := by
  cases hm with
  | idle quiet tasks log => exact ⟨by simp, fun call task hmem => h call task (tasks ▸ hmem)⟩
  | @asked call request answer events after _ outcome log tasks waits answered fits detached =>
    have hkind := hask call request rfl
    refine ⟨?_, fun call' task hmem => ?_⟩
    · intro p hp
      obtain ⟨response, hresponse, rfl⟩ := Option.map_eq_some_iff.mp hp
      exact hkind ▸ fits.1 response hresponse
    · rw [tasks] at hmem
      rcases List.mem_append.mp hmem with hold | hnew
      · exact h call' task hold
      · obtain ⟨task', hafter, heq⟩ := List.mem_map.mp hnew
        obtain ⟨hcaller, rfl⟩ := Prod.mk.inj heq
        have hcall : call = call' := by cases request <;> simp_all [callerOf]
        rw [fits.2 task' (Option.mem_toList.mp hafter), hkind, hcall]
  | @resumed i caller task answer events after _ found outcome log tasks =>
    obtain ⟨-, fits⟩ := outcome.of_task
    have hmem := List.mem_of_getElem? found
    refine ⟨?_, fun call' task' hmem' => ?_⟩
    · intro p hp
      obtain ⟨call, rfl, hp⟩ := Option.bind_eq_some_iff.mp hp
      obtain ⟨response, hresponse, rfl⟩ := Option.map_eq_some_iff.mp hp
      exact h call task hmem ▸ fits.1 response hresponse
    · rw [tasks] at hmem'
      rcases List.mem_append.mp hmem' with hold | hnew
      · exact h call' task' (List.mem_of_mem_eraseIdx hold)
      · obtain ⟨task'', hafter, heq⟩ := List.mem_map.mp hnew
        obtain ⟨rfl, rfl⟩ := Prod.mk.inj heq
        rw [fits.2 task'' (Option.mem_toList.mp hafter), h call' task hmem]

end Moves

end Core

/-- A way to keep accounts of a core: what its events bring in, what its answers hand out,
and what is owed to the calls that wait for its suspended operations. -/
structure Account (M : Type*) [AddCancelCommMonoid M] where
  brings : Event → M
  hands : Response → M
  owes : Task → M
  balanced : ∀ {before answer events after}, Outcome before answer events after →
    (events.map brings).sum + (before.toList.map owes).sum =
      (answer.toList.map hands).sum + (after.toList.map owes).sum
  owes_remove : ∀ todo, owes (.remove todo) = 0
  hands_done : ∀ r, hands (.done r) = 0

namespace Account
variable {M : Type*} [AddCancelCommMonoid M] (A : Account M)

def income (s : Core) : M := (s.log.map A.brings).sum

def owed (s : Core) : M := (s.tasks.map fun p => A.owes p.2).sum

def paid (output : Option (ℕ × Response)) : M := (output.toList.map fun p => A.hands p.2).sum

end Account

namespace Core
variable {env : Env} {M : Type*} [AddCancelCommMonoid M] (A : Account M)

theorem Moves.attended {s s' : Core} {input : Input} {output : Option (ℕ × Response)}
    (hm : s.Moves input output s') (h : s.Attended) : s'.Attended := by
  intro task hmem
  cases hm with
  | idle _ tasks => exact h task (tasks ▸ hmem)
  | asked outcome log tasks waits answered kind detached =>
    rw [tasks] at hmem
    rcases List.mem_append.mp hmem with hold | hnew
    · exact h task hold
    · obtain ⟨task', hafter, heq⟩ := List.mem_map.mp hnew
      obtain ⟨hcaller, rfl⟩ := Prod.mk.inj heq
      exact detached hcaller task' (Option.mem_toList.mp hafter)
  | resumed found outcome log tasks =>
    rw [tasks] at hmem
    rcases List.mem_append.mp hmem with hold | hnew
    · exact h task (List.mem_of_mem_eraseIdx hold)
    · obtain ⟨task', hafter, heq⟩ := List.mem_map.mp hnew
      cases heq
      obtain ⟨todo, rfl⟩ := h _ (List.mem_of_getElem? found)
      exact outcome.of_remove.1 task (Option.mem_toList.mp hafter)

theorem sum_eraseIdx {α : Type*} {l : List α} {i : ℕ} {a : α} (f : α → M) (h : l[i]? = some a) :
    (l.map f).sum = f a + ((l.eraseIdx i).map f).sum := by
  obtain ⟨hlt, rfl⟩ := List.getElem?_eq_some_iff.mp h
  rw [← List.sum_cons, ← List.map_cons]
  exact ((List.getElem_cons_eraseIdx_perm hlt).map f).sum_eq.symm

theorem Moves.account {s s' : Core} {input : Input} {output : Option (ℕ × Response)}
    (hm : s.Moves input output s') (h : s.Attended) :
    A.income s' + A.owed s = A.income s + A.paid output + A.owed s' := by
  cases hm with
  | idle _ tasks log => simp [Account.income, Account.owed, Account.paid, tasks, log]
  | @asked call request answer events after _ outcome log tasks waits answered kind detached =>
    have hbalanced := A.balanced outcome
    have howed : A.owed s' = A.owed s + (after.toList.map A.owes).sum := by
      rw [Account.owed, tasks, List.map_append, List.sum_append, List.map_map]
      rfl
    have hpaid : A.paid (answer.map fun response => (call, response)) =
        (answer.toList.map A.hands).sum := by cases answer <;> rfl
    simp only [Option.toList_none, List.map_nil, List.sum_nil, add_zero] at hbalanced
    rw [howed, hpaid, Account.income, log, List.map_append, List.sum_append, hbalanced]
    simp only [Account.income]
    abel
  | @resumed i caller task answer events after _ found outcome log tasks =>
    have hbalanced := A.balanced outcome
    have howed : A.owed s' + A.owes task = A.owed s + (after.toList.map A.owes).sum := by
      rw [Account.owed, Account.owed, tasks, List.map_append, List.sum_append, List.map_map,
        sum_eraseIdx (fun p : Option ℕ × Task => A.owes p.2) found]
      simp only [Function.comp_def]
      abel
    have hpaid : A.paid (caller.bind fun call => answer.map fun response => (call, response)) =
        (answer.toList.map A.hands).sum := by
      cases caller with
      | some call => cases answer <;> rfl
      | none =>
        obtain ⟨todo, rfl⟩ := h _ (List.mem_of_getElem? found)
        cases answer with
        | none => rfl
        | some response =>
          obtain ⟨r, rfl⟩ := outcome.of_remove.2 response rfl
          simp [Account.paid, A.hands_done]
    have hincome : A.income s' = (events.map A.brings).sum + A.income s := by
      rw [Account.income, log, List.map_append, List.sum_append]
      rfl
    rw [Option.toList_some, List.map_singleton, List.sum_singleton] at hbalanced
    rw [hpaid, hincome]
    refine add_right_cancel (b := A.owes task) ?_
    calc (events.map A.brings).sum + A.income s + A.owed s + A.owes task
        = ((events.map A.brings).sum + A.owes task) + (A.income s + A.owed s) := by abel
      _ = ((answer.toList.map A.hands).sum + (after.toList.map A.owes).sum) +
            (A.income s + A.owed s) := by rw [hbalanced]
      _ = A.income s + (answer.toList.map A.hands).sum +
            (A.owed s + (after.toList.map A.owes).sum) := by abel
      _ = A.income s + (answer.toList.map A.hands).sum + (A.owed s' + A.owes task) := by rw [howed]
      _ = _ := by abel

end Core
end TransferQueue
