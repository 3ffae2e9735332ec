import Mathlib.Algebra.BigOperators.Group.Finset.Basic
import Mathlib.Algebra.Order.BigOperators.Group.Finset
import Mathlib.Data.Prod.Lex
import TransferQueue.Library.Progress
import TransferQueue.ServerCalls

/-! Every call is answered. A message that arrives leaves one suspended operation at most, and
every resumption brings that operation one disk call closer to its end, whatever other
calls do; so a call is answered if its messages arrive and its operations are resumed. -/

namespace TransferQueue

section Work

/-- The resumptions that an operation still needs, if no disk call fails. -/
def Task.work : Task → ℕ
  | spill _ todo _ => todo.length + 1
  | load _ todo loaded => 2 * todo.length + loaded.length + 2
  | unlink _ todo _ => todo.length + 1
  | remove todo => todo.length + 1

theorem Outcome.work {task : Task} {answer : Option Response} {events : List Event}
    {after : Option Task} (h : Outcome (some task) answer events after) :
    (after.toList.map Task.work).sum < task.work := by
  cases h with
  | loaded read offset todo loaded group =>
    simp [Task.work]
    omega
  | _ => simp [Task.work]

namespace Core
variable {s s' : Core} {input : Input} {output : Option (ℕ × Response)} {call : ℕ}

def work (call : ℕ) (s : Core) : ℕ :=
  (s.tasks.map fun p => if p.1 = some call then p.2.work else 0).sum

/-- The step resumes an operation that a call waits for. -/
def Resumes (call : ℕ) (s : Core) : Input → Prop
  | .resume i => ∃ task, s.tasks[i]? = some (some call, task)
  | _ => False

theorem Moves.work (hm : s.Moves input output s') (hasks : input.asks call = false) :
    s'.work call ≤ s.work call ∧ (s.Resumes call input → s'.work call < s.work call) := by
  cases hm with
  | idle quiet tasks log =>
    have hsame : s'.work call = s.work call := by rw [Core.work, tasks, Core.work]
    refine ⟨hsame.le, ?_⟩
    rcases quiet with ⟨config, rfl⟩ | ⟨i, rfl, hnone⟩
    · exact False.elim
    · rintro ⟨task, htask⟩
      rw [hnone] at htask
      cases htask
  | @asked call' request answer events after _ outcome log tasks waits answered kind detached =>
    have hother : callerOf call' request ≠ some call := by
      intro hcaller
      have hsame : call' = call := by cases request <;> simp_all [callerOf]
      simp [Input.asks, hsame] at hasks
    refine ⟨le_of_eq ?_, False.elim⟩
    rw [Core.work, tasks, List.map_append, List.sum_append, Core.work]
    cases after <;> simp [hother]
  | @resumed i caller task answer events after _ found outcome log tasks =>
    have hbefore := sum_eraseIdx (fun p => if p.1 = some call then p.2.work else 0) found
    have hafter : s'.work call = ((s.tasks.eraseIdx i).map fun p =>
        if p.1 = some call then p.2.work else 0).sum +
          if caller = some call then (after.toList.map Task.work).sum else 0 := by
      rw [Core.work, tasks, List.map_append, List.sum_append]
      cases after <;> simp
    have hwork := outcome.work
    rw [hafter, Core.work, hbefore]
    by_cases hcaller : caller = some call
    · simp only [hcaller, if_true]
      exact ⟨by omega, fun _ => by omega⟩
    · simp only [hcaller, if_false]
      refine ⟨by omega, fun hresumes => ?_⟩
      obtain ⟨task', htask'⟩ := hresumes
      rw [found] at htask'
      cases htask'
      exact absurd rfl hcaller

end Core

end Work

namespace Server
variable {k : ℕ} [NeZero k] {env : Fin k → Env} {stdHash : String → ℕ} {s : Server k}

section Measure
variable (stdHash)

def unsent (c : ℕ) (s : Server k) : ℕ :=
  (Finset.univ.filter fun i => (s.message stdHash c i).isSome = true).card

omit [NeZero k] in
def work (c : ℕ) (s : Server k) : ℕ := ∑ i, (s.cores i).work c

/-- A step of a call: its message arrives at a core, or a core resumes what it waits for. -/
def Owns (c : ℕ) (s : Server k) : ServerAction k → Prop
  | .arrive c' i => c' = c ∧ (s.message stdHash c i).isSome = true
  | .resume i j => (s.cores i).Resumes c (.resume j)
  | _ => False

variable {stdHash}

theorem Consistent.able (h : s.Consistent stdHash none) {c : ℕ} {call : Call k}
    (hcall : s.calls[c]? = some call) (hopen : call.response stdHash = none) :
    ∃ a, s.Owns stdHash c a := by
  have hnot : ¬call.Answered stdHash := by
    intro hall
    rw [Call.response, if_pos hall] at hopen
    cases hc : call.request with
    | write t =>
      have hpart := hall (BufferManager.shardFor stdHash t.instanceId)
        (by rw [hc, Call.part, if_pos rfl]; rfl)
      rw [hc, Call.combine] at hopen
      rw [hopen] at hpart
      cases hpart
    | deleteInstance id =>
      have hpart := hall (BufferManager.shardFor stdHash id)
        (by rw [hc, Call.part, if_pos rfl]; rfl)
      rw [hc, Call.combine] at hopen
      rw [hopen] at hpart
      cases hpart
    | _ => rw [hc] at hopen; cases hopen
  simp only [Call.Answered, not_forall, Bool.not_eq_true, Option.isSome_eq_false_iff,
    Option.isNone_iff_eq_none] at hnot
  obtain ⟨i, hpart, hnone⟩ := hnot
  cases hr : call.reached i with
  | false =>
    refine ⟨.arrive c i, rfl, ?_⟩
    rw [message_eq hcall]
    simpa [hr] using hpart
  | true =>
    have honce := h.once i c call hcall
    rw [hnone, hr] at honce
    have hpos : 0 < (s.cores i).waiting c := by
      simp at honce
      omega
    obtain ⟨p, hmem, hp⟩ := List.countP_pos_iff.mp hpos
    obtain ⟨j, hj⟩ := List.mem_iff_getElem?.mp hmem
    refine ⟨.resume i j, p.2, ?_⟩
    rw [hj, ← of_decide_eq_true hp]

/-- Steps of others leave the work of a call as it is. -/
theorem core_work {a : ServerAction k} {c : ℕ} {i : Fin k}
    (hup : ((s.step env stdHash a).2.cores i).crashed = false)
    (hnot : ¬(a = .arrive c i ∧ (s.message stdHash c i).isSome = true)) :
    ((s.step env stdHash a).2.cores i).work c ≤ (s.cores i).work c ∧
      (s.crashed = false → ∀ j, a = .resume i j → (s.cores i).Resumes c (.resume j) →
        ((s.step env stdHash a).2.cores i).work c < (s.cores i).work c) := by
  have hone : ∀ input, ((s.step env stdHash a).2.cores i) = ((s.cores i).step (env i) input).2 →
      input.asks c = false →
        ((s.step env stdHash a).2.cores i).work c ≤ (s.cores i).work c ∧
          ((s.cores i).Resumes c input →
            ((s.step env stdHash a).2.cores i).work c < (s.cores i).work c) := by
    intro input hcore hasks
    rw [hcore] at hup ⊢
    exact (Core.step_moves hup).2.work hasks
  rw [step_core] at hone hup ⊢
  rcases inputs_cases stdHash i s a with
    hnone | ⟨c', request, ha, hm, hask⟩ | ⟨j, ha, hresume⟩ | ⟨config, hconfig⟩
  · refine ⟨by rw [hnone]; exact le_refl _, fun hc j ha _ => ?_⟩
    rw [ha, inputs, hc] at hnone
    simp [dispatch] at hnone
  · have hother : c' ≠ c := by
      rintro rfl
      exact hnot ⟨ha, by rw [hm]; rfl⟩
    refine ⟨(hone (.ask c' request) (by rw [hask]; rfl) (by simp [Core.Input.asks, hother])).1, ?_⟩
    rintro - j rfl
    cases ha
  · obtain ⟨hle, hlt⟩ := hone (.resume j) (by rw [hresume]; rfl) rfl
    refine ⟨hle, fun _ j' hj' hresumes => hlt ?_⟩
    rw [ha] at hj'
    cases hj'
    exact hresumes
  · refine ⟨(hone (.configure config) (by rw [hconfig]; rfl) rfl).1, ?_⟩
    rintro hc j rfl
    rw [inputs, hc] at hconfig
    simp [dispatch] at hconfig

theorem Consistent.message_step (h : s.crashed = false → s.Consistent stdHash none)
    {a : ServerAction k} {c : ℕ} (hc : c < s.calls.length) {i : Fin k}
    (hm : ((s.step env stdHash a).2.message stdHash c i).isSome = true) :
    (s.message stdHash c i).isSome = true ∧ ¬(s.crashed = false ∧ a = .arrive c i) := by
  have hcall := List.getElem?_eq_getElem hc
  obtain ⟨call', hcall', hrequest, -, hreached⟩ := step_calls env h a hcall
  rw [message_eq hcall'] at hm
  have hnot : call'.reached i = false := by
    by_contra hr
    rw [if_pos (by simpa using hr)] at hm
    cases hm
  have hsome : (s.message stdHash c i).isSome = true := by
    have hbefore : s.calls[c].reached i = false := by
      by_contra hr
      rw [(hreached i).mpr (.inl (by simpa using hr))] at hnot
      cases hnot
    rw [message_eq hcall]
    simpa [hbefore, hnot, hrequest] using hm
  refine ⟨hsome, ?_⟩
  rintro ⟨hup, ha⟩
  rw [(hreached i).mpr (.inr ⟨hup, ha, hsome⟩)] at hnot
  cases hnot

/-- The measure of a call: first its messages under way, then its work. -/
def measure (stdHash : String → ℕ) (c : ℕ) (s : Server k) : ℕ ×ₗ ℕ :=
  toLex (s.unsent stdHash c, s.work c)

/-- No step raises the measure of a call, and its own steps lower it. -/
theorem Consistent.measure_step (h : s.Consistent stdHash none) (hc : s.crashed = false)
    {a : ServerAction k} {c : ℕ} (hlt : c < s.calls.length)
    (hup : (s.step env stdHash a).2.crashed = false) :
    (s.step env stdHash a).2.measure stdHash c ≤ s.measure stdHash c ∧
      (s.Owns stdHash c a → (s.step env stdHash a).2.measure stdHash c < s.measure stdHash c) := by
  have hcores : ∀ i, ((s.step env stdHash a).2.cores i).crashed = false := by
    rw [crashed, decide_eq_false_iff_not, not_exists] at hup
    exact fun i => Bool.eq_false_of_not_eq_true (hup i)
  have hsubset : (Finset.univ.filter fun i =>
      ((s.step env stdHash a).2.message stdHash c i).isSome = true) ⊆
        Finset.univ.filter fun i => (s.message stdHash c i).isSome = true := by
    intro i hi
    rw [Finset.mem_filter] at hi ⊢
    exact ⟨hi.1, (message_step (fun _ => h) hlt hi.2).1⟩
  by_cases hown : ∃ i, a = .arrive c i ∧ (s.message stdHash c i).isSome = true
  · obtain ⟨i, rfl, hm⟩ := hown
    have hfewer : (s.step env stdHash (.arrive c i)).2.unsent stdHash c < s.unsent stdHash c := by
      refine Finset.card_lt_card ⟨hsubset, fun hback => ?_⟩
      have hi := hback (Finset.mem_filter.mpr ⟨Finset.mem_univ i, hm⟩)
      exact (message_step (fun _ => h) hlt (Finset.mem_filter.mp hi).2).2 ⟨hc, rfl⟩
    have hless : (s.step env stdHash (.arrive c i)).2.measure stdHash c < s.measure stdHash c :=
      Prod.Lex.toLex_lt_toLex.mpr (.inl hfewer)
    exact ⟨hless.le, fun _ => hless⟩
  · have hwork := fun i => core_work (c := c) (hcores i) fun hi => hown ⟨i, hi⟩
    have hle : (s.step env stdHash a).2.work c ≤ s.work c :=
      Finset.sum_le_sum fun i _ => (hwork i).1
    have hunsent : (s.step env stdHash a).2.unsent stdHash c ≤ s.unsent stdHash c :=
      Finset.card_le_card hsubset
    have hlex : ∀ {n n' w w' : ℕ}, n' ≤ n → w' ≤ w →
        (toLex (n', w') : ℕ ×ₗ ℕ) ≤ toLex (n, w) ∧
          (w' < w → (toLex (n', w') : ℕ ×ₗ ℕ) < toLex (n, w)) := by
      intro n n' w w' hn hw
      rw [Prod.Lex.toLex_le_toLex, Prod.Lex.toLex_lt_toLex]
      simp only
      omega
    obtain ⟨hmeasure, hstrict⟩ := hlex hunsent hle
    refine ⟨hmeasure, fun howns => hstrict ?_⟩
    cases a with
    | arrive c' i => exact absurd ⟨i, by rw [howns.1], howns.2⟩ hown
    | resume i j =>
      exact Finset.sum_lt_sum (fun i _ => (hwork i).1)
        ⟨i, Finset.mem_univ i, (hwork i).2 hc j rfl howns⟩
    | _ => exact howns.elim

end Measure

section Answers

variable (env : Fin k → Env) (stdHash : String → ℕ)

/-- The process is down, or call `c` has resolved. -/
def Settled (c : ℕ) (s : Server k) : Prop :=
  s.crashed = true ∨ (s.responseOf stdHash c).isSome = true

/-- In every infinite run in which the messages of a call arrive and its operations are resumed,
whatever other calls do and whatever fails, the process comes down or the call resolves, once
and for all. -/
theorem calls_answered (config : TransferQueueConfig) (bitCount numHashes : ℕ)
    (actions : ℕ → ServerAction k) {c n : ℕ} :
    let states := Machine.trace (step env stdHash) (create k config bitCount numHashes) actions
    c < (states n).calls.length →
    Machine.Fair (step env stdHash) (create k config bitCount numHashes) actions
      (Owns stdHash c) →
    ∃ m, n ≤ m ∧ ((states m).crashed = true ∨
      ∃ response, ∀ m', m ≤ m' → (states m').responseOf stdHash c = some response) := by
  intro states hlt hfair
  have hconsistent : ∀ m, (states m).crashed = false → (states m).Consistent stdHash none := by
    intro m
    have hstate : states m = (create k config bitCount numHashes).run env stdHash
        ((List.range m).map actions) := Machine.trace_eq_final ..
    rw [hstate]
    exact consistent_run config bitCount numHashes _
  have hnext : ∀ m, states (m + 1) = ((states m).step env stdHash (actions m)).2 := fun _ => rfl
  have hlength : ∀ d, c < (states (n + d)).calls.length := by
    intro d
    induction d with
    | zero => exact hlt
    | succ d ih =>
      obtain ⟨call', hcall', -⟩ := Consistent.step_calls env (hconsistent (n + d))
        (actions (n + d)) (List.getElem?_eq_getElem ih)
      exact (List.getElem?_eq_some_iff.mp hcall').1
  have hknown : ∀ m, n ≤ m → c < (states m).calls.length := by
    intro m hm
    obtain ⟨d, rfl⟩ := Nat.exists_eq_add_of_le hm
    exact hlength d
  have hup : ∀ {m}, ¬(states m).Settled stdHash c → (states m).crashed = false := fun hnot =>
    Bool.eq_false_of_not_eq_true fun hdown => hnot (.inl hdown)
  obtain ⟨m, hm, hsettled⟩ : ∃ m, n ≤ m ∧ (states m).Settled stdHash c := by
    refine Machine.progress (measure stdHash c) hfair (fun m hm hnot => ?_)
      (fun m hm hnot hnot' => ?_) (fun m hm hnot hnot' => ?_)
    · refine (hconsistent m (hup hnot)).able (List.getElem?_eq_getElem (hknown m hm)) ?_
      by_contra hsome
      refine hnot (.inr (Option.isSome_iff_ne_none.mpr fun hnone => hsome ?_))
      rwa [responseOf, List.getElem?_eq_getElem (hknown m hm)] at hnone
    · exact ((hconsistent m (hup hnot)).measure_step (hup hnot) (hknown m hm) (hup hnot')).1
    · exact ((hconsistent m (hup hnot)).measure_step (hup hnot) (hknown m hm) (hup hnot')).2
  refine ⟨m, hm, hsettled.imp_right fun hsome => ?_⟩
  obtain ⟨response, hresponse⟩ := Option.isSome_iff_exists.mp hsome
  refine ⟨response, fun m' hm' => ?_⟩
  obtain ⟨d, rfl⟩ := Nat.exists_eq_add_of_le hm'
  clear hm'
  induction d with
  | zero => exact hresponse
  | succ d ih => exact responseOf_step (hconsistent (m + d)) (actions (m + d)) ih

end Answers

section Samples

def writeAndResume : ℕ → ServerAction 1
  | 0 => .call (.write (.bare "u" "a"))
  | 1 => .arrive 0 0
  | _ => .resume 0 0

def writeStates : ℕ → Server 1 :=
  Machine.trace (step (fun _ => .sample []) sampleHash) (create 1 (.tight 1) 0 0) writeAndResume

theorem writeStates_tasks (i : Fin 1) : ((writeStates 4).cores i).tasks = [] :=
  List.isEmpty_iff.mp (by revert i; decide +kernel)

theorem writeStates_end (n : ℕ) : writeStates (n + 4) = writeStates 4 := by
  induction n with
  | zero => rfl
  | succ n ih =>
    have hstep : writeStates (n + 1 + 4) =
        (step (fun _ => .sample []) sampleHash (writeStates (n + 4)) (.resume 0 0)).2 := rfl
    have hcore : ((writeStates 4).cores 0).act (.sample []) (.resume 0) =
        (none, (writeStates 4).cores 0) := by
      rw [Core.act, writeStates_tasks]
      rfl
    rw [hstep, ih, step]
    split
    · rfl
    · rw [act, turn, Core.step]
      split
      · simp [record]
      · rw [hcore]
        simp [record]

theorem calls_answered_write :
    let states := Machine.trace (step (fun _ => .sample []) sampleHash) (create 1 (.tight 1) 0 0)
      writeAndResume
    ∃ m, 1 ≤ m ∧ ((states m).crashed = true ∨
      ∃ response, ∀ m', m ≤ m' → (states m').responseOf sampleHash 0 = some response) := by
  refine calls_answered (fun _ => .sample []) sampleHash (.tight 1) 0 0 writeAndResume
    (by decide +kernel) fun n hable => ?_
  by_cases hn : n ≤ 3
  · have htask : ((writeStates 3).cores 0).tasks[0]?.map Prod.fst = some (some 0) := by
      decide +kernel
    obtain ⟨p, hp, hcaller⟩ := Option.map_eq_some_iff.mp htask
    exact ⟨3, hn, p.2, hp.trans (by rw [← hcaller])⟩
  · obtain ⟨d, rfl⟩ := Nat.exists_eq_add_of_le' (Nat.lt_of_not_le hn)
    obtain ⟨a, ha⟩ := hable (d + 4) le_rfl
    have hend : Owns sampleHash 0 (writeStates 4) a := writeStates_end d ▸ ha
    exfalso
    cases a with
    | arrive c i =>
      have hnone : ∀ i, ((writeStates 4).message sampleHash 0 i).isSome = false := by decide +kernel
      exact absurd (hend.2.symm.trans (hnone i)) (by simp)
    | resume i j =>
      obtain ⟨task, htask⟩ := hend
      rw [writeStates_tasks] at htask
      simp at htask
    | _ => exact hend

end Samples
end Server
end TransferQueue
