import TransferQueue.Server

/-! The calls of a server and its cores agree: a message that has arrived is answered, or one
suspended operation will answer it, and an answer is never replaced. -/

namespace TransferQueue
namespace Server
variable {k : ℕ}

section Record
variable {i : Fin k} {output : Option (ℕ × Response)} {calls : List (Call k)} {c : ℕ}

theorem record_length : (record i output calls).length = calls.length := by
  rcases output with _ | ⟨c, response⟩
  · rfl
  · exact List.length_modify ..

theorem mem_record {call' : Call k} (h : (record i output calls)[c]? = some call') :
    ∃ call, calls[c]? = some call ∧ call'.request = call.request ∧
      call'.reached = call.reached ∧ (∀ i', i' ≠ i → call'.answers i' = call.answers i') ∧
      ((call'.answers i = call.answers i ∧ ∀ p ∈ output, p.1 ≠ c) ∨
        ∃ response, output = some (c, response) ∧ call'.answers i = some response) := by
  rcases output with _ | ⟨c', response⟩
  · exact ⟨call', h, rfl, rfl, fun _ _ => rfl, .inl ⟨rfl, by simp⟩⟩
  · rw [record] at h
    by_cases hc : c' = c
    · subst hc
      rw [List.getElem?_modify_eq] at h
      obtain ⟨call, hcall, rfl⟩ := Option.map_eq_some_iff.mp h
      exact ⟨call, hcall, rfl, rfl, fun i' hi => Function.update_of_ne hi ..,
        .inr ⟨response, rfl, Function.update_self ..⟩⟩
    · rw [List.getElem?_modify_ne _ _ hc] at h
      exact ⟨call', h, rfl, rfl, fun _ _ => rfl, .inl ⟨rfl, by simpa using hc⟩⟩

theorem exists_record {call : Call k} (h : calls[c]? = some call) :
    ∃ call' : Call k, (record i output calls)[c]? = some call' ∧ call'.request = call.request ∧
      call'.reached = call.reached ∧ (∀ i', i' ≠ i → call'.answers i' = call.answers i') ∧
      ((call'.answers i = call.answers i ∧ ∀ p ∈ output, p.1 ≠ c) ∨
        ∃ response, output = some (c, response) ∧ call'.answers i = some response) := by
  have hlt : c < (record i output calls).length := by
    rw [record_length]
    exact (List.getElem?_eq_some_iff.mp h).1
  have hcall' := List.getElem?_eq_getElem hlt
  obtain ⟨old, hold, hrest⟩ := mem_record hcall'
  obtain rfl := Option.some.inj (h.symm.trans hold)
  exact ⟨_, hcall', hrest⟩

end Record

variable [NeZero k] {env : Fin k → Env} {stdHash : String → ℕ}

/-- Calls and cores agree; the message `asked` has arrived and is not served yet. -/
structure Consistent (stdHash : String → ℕ) (asked : Option (ℕ × Fin k)) (s : Server k) : Prop where
  attended : ∀ i, (s.cores i).Attended
  once : ∀ (i : Fin k) (c : ℕ) (call : Call k), s.calls[c]? = some call →
    (call.answers i).toList.length + (s.cores i).waiting c +
      (if asked = some (c, i) then 1 else 0) = (call.reached i).toNat
  known : ∀ i (c : ℕ), s.calls.length ≤ c → (s.cores i).waiting c = 0
  meant : ∀ (i : Fin k) (c : ℕ) (call : Call k), s.calls[c]? = some call → call.reached i = true →
    (Call.part stdHash call.request i).isSome = true
  answers_kind : ∀ (i : Fin k) (c : ℕ) (call : Call k), s.calls[c]? = some call →
    ∀ response ∈ call.answers i, call.request.kind.Admits response
  tasks_kind : ∀ (i : Fin k) (c : ℕ) (call : Call k), s.calls[c]? = some call →
    ∀ task, (some c, task) ∈ (s.cores i).tasks → task.kind = call.request.kind

/-- The input of a core serves the message that has arrived there, or none has. -/
structure Serves (asked : Option (ℕ × Fin k)) (i : Fin k) (input : Core.Input) (s : Server k) :
    Prop where
  asks : ∀ c, (if asked = some (c, i) then 1 else 0) = (input.asks c).toNat
  others : ∀ c i', i' ≠ i → asked ≠ some (c, i')
  kind : ∀ c request, input = .ask c request →
    ∃ call : Call k, s.calls[c]? = some call ∧ request.kind = call.request.kind

omit [NeZero k] in
theorem Serves.resume (s : Server k) (i : Fin k) (j : ℕ) : s.Serves none i (.resume j) :=
  ⟨fun c => by simp [Core.Input.asks], fun c i' _ => by simp, by simp⟩

omit [NeZero k] in
theorem Serves.asks_known {asked : Option (ℕ × Fin k)} {i : Fin k} {input : Core.Input}
    {s : Server k} (h : s.Serves asked i input) {c : ℕ} (hc : s.calls.length ≤ c) :
    input.asks c = false := by
  cases input with
  | ask c' request =>
    refine decide_eq_false fun heq => ?_
    obtain ⟨call, hsome, -⟩ := h.kind c' request rfl
    exact absurd (List.getElem?_eq_some_iff.mp hsome).1 (by omega)
  | _ => rfl

theorem part_kind {request part : Request} {i : Fin k}
    (h : Call.part stdHash request i = some part) : part.kind = request.kind := by
  cases request with
  | write t =>
    obtain ⟨-, hpart⟩ := Option.ite_none_right_eq_some.mp h
    cases hpart
    rfl
  | deleteInstance id =>
    obtain ⟨-, hpart⟩ := Option.ite_none_right_eq_some.mp h
    cases hpart
    rfl
  | batchWrite ts =>
    rw [Call.part] at h
    split at h
    · cases h
    · cases h
      rfl
  | _ => cases h; rfl

omit [NeZero k] in
theorem crashed_turn {i : Fin k} {input : Core.Input} {s : Server k}
    (hup : (turn env i input s).crashed = false) :
    ((s.cores i).step (env i) input).2.crashed = false := by
  rw [crashed, decide_eq_false_iff_not, not_exists] at hup
  have hi := hup i
  rw [turn_core, if_pos rfl] at hi
  exact Bool.eq_false_of_not_eq_true hi

namespace Consistent
variable {asked : Option (ℕ × Fin k)} {s : Server k}

theorem create (config : TransferQueueConfig) (bitCount numHashes : ℕ) :
    Consistent stdHash none (create k config bitCount numHashes) where
  attended _ _ h := absurd h List.not_mem_nil
  once _ _ _ h := by simp [Server.create] at h
  known _ _ _ := rfl
  meant _ _ _ h := by simp [Server.create] at h
  answers_kind _ _ _ h := by simp [Server.create] at h
  tasks_kind _ _ _ h := by simp [Server.create] at h

theorem answered (h : s.Consistent stdHash asked) {i : Fin k} {input : Core.Input}
    (hserves : s.Serves asked i input) {core : Core} {c : ℕ} {response : Response}
    (hm : (s.cores i).Moves input (some (c, response)) core) :
    ∃ call : Call k, s.calls[c]? = some call ∧ call.answers i = none ∧ core.waiting c = 0 ∧
      call.reached i = true := by
  have hwaiting := hm.waiting c
  have hone : [(c, response)].countP (fun p => p.1 = c) = 1 := by simp
  rw [Option.toList_some, hone] at hwaiting
  cases hcall : s.calls[c]? with
  | none =>
    have hlength := List.getElem?_eq_none_iff.mp hcall
    rw [h.known i c hlength, hserves.asks_known hlength] at hwaiting
    simp at hwaiting
  | some call =>
    have honce := h.once i c call hcall
    rw [hserves.asks] at honce
    have hle : (call.reached i).toNat ≤ 1 := Bool.toNat_le _
    refine ⟨call, rfl, List.length_eq_zero_iff.mp ?_ |> Option.toList_eq_nil_iff.mp, by omega, ?_⟩
    · omega
    · cases hr : call.reached i with
      | true => rfl
      | false =>
        rw [hr, Bool.toNat_false] at honce
        omega

theorem turn (h : s.Consistent stdHash asked) {i : Fin k} {input : Core.Input}
    (hserves : s.Serves asked i input) (hup : (Server.turn env i input s).crashed = false) :
    (Server.turn env i input s).Consistent stdHash none := by
  obtain ⟨-, hm⟩ := Core.step_moves (crashed_turn hup)
  let kind : ℕ → Kind := fun c => ((s.calls[c]?).map fun call => call.request.kind).getD .done
  have htasks : ∀ c task, (some c, task) ∈ (s.cores i).tasks → task.kind = kind c := by
    intro c task hmem
    by_cases hc : c < s.calls.length
    · have hcall := List.getElem?_eq_getElem hc
      rw [h.tasks_kind i c _ hcall task hmem]
      simp only [kind, hcall, Option.map_some, Option.getD_some]
    · refine absurd (h.known i c (not_lt.mp hc)) (Nat.ne_of_gt ?_)
      exact List.countP_pos_iff.mpr ⟨_, hmem, by simp⟩
  obtain ⟨houtput, htasks'⟩ := hm.kinds (fun c request hinput => by
    obtain ⟨call, hcall, hsame⟩ := hserves.kind c request hinput
    simp only [kind, hcall, Option.map_some, Option.getD_some, hsame]) htasks
  refine ⟨fun i' => ?_, fun i' c call' hcall' => ?_, fun i' c hc => ?_, fun i' c call' hcall' => ?_,
    fun i' c call' hcall' => ?_, fun i' c call' hcall' => ?_⟩
  · rw [turn_core]
    split
    · rename_i hi
      exact hi ▸ hm.attended (h.attended i)
    · exact h.attended i'
  · obtain ⟨call, hcall, -, hreached, hsame, hanswer⟩ := mem_record hcall'
    have honce := h.once i' c call hcall
    rw [hreached, turn_core]
    by_cases hi : i = i'
    · subst hi
      rw [if_pos rfl, if_neg (by simp)]
      rcases hanswer with ⟨hkeep, hnone⟩ | ⟨response, houtput, hresponse⟩
      · have hwaiting := hm.waiting c
        have hzero : ((s.cores i).step (env i) input).1.toList.countP (fun p => p.1 = c) = 0 := by
          rw [List.countP_eq_zero]
          exact fun p hp => by simpa using hnone p (Option.mem_toList.mp hp)
        rw [hserves.asks] at honce
        rw [hkeep]
        omega
      · obtain ⟨call', hsome, -, hwaiting, hreached'⟩ := h.answered hserves (houtput ▸ hm)
        obtain rfl := Option.some.inj (hcall.symm.trans hsome)
        rw [hresponse, hwaiting, hreached']
        rfl
    · rw [if_neg hi, hsame i' (Ne.symm hi)]
      rwa [if_neg (hserves.others c i' (Ne.symm hi))] at honce
  · rw [turn_core]
    have hlength : s.calls.length ≤ c := by rwa [← record_length]
    have hbefore := h.known i' c hlength
    split
    · rename_i hi
      subst hi
      have hwaiting := hm.waiting c
      rw [hserves.asks_known hlength, hbefore] at hwaiting
      exact (Nat.add_eq_zero_iff.mp hwaiting).1
    · exact hbefore
  · obtain ⟨call, hcall, hrequest, hreached, -⟩ := mem_record hcall'
    rw [hrequest, hreached]
    exact h.meant i' c call hcall
  · obtain ⟨call, hcall, hrequest, -, hsame, hanswer⟩ := mem_record hcall'
    rw [hrequest]
    intro response hresponse
    by_cases hi : i' = i
    · subst hi
      rcases hanswer with ⟨hkeep, -⟩ | ⟨response', hpaid, hnew⟩
      · exact h.answers_kind i' c call hcall response (hkeep ▸ hresponse)
      · obtain rfl := Option.some.inj (hnew.symm.trans hresponse)
        have hk := houtput _ hpaid
        simpa only [kind, hcall, Option.map_some, Option.getD_some] using hk
    · exact h.answers_kind i' c call hcall response (hsame i' hi ▸ hresponse)
  · obtain ⟨call, hcall, hrequest, -⟩ := mem_record hcall'
    rw [hrequest, turn_core]
    split
    · rename_i hi
      subst hi
      intro task hmem
      have hk := htasks' c task hmem
      simpa only [kind, hcall, Option.map_some, Option.getD_some] using hk
    · exact h.tasks_kind i' c call hcall

variable (env) in
theorem turn_calls (h : s.Consistent stdHash asked) {i : Fin k} {input : Core.Input}
    (hserves : s.Serves asked i input) (hc : (s.cores i).crashed = false) {c : ℕ} {call : Call k}
    (hcall : s.calls[c]? = some call) :
    ∃ call' : Call k, (Server.turn env i input s).calls[c]? = some call' ∧
      call'.request = call.request ∧ call'.reached = call.reached ∧
      ∀ i', call'.answers i' = call.answers i' ∨
        (call.answers i' = none ∧ (Call.part stdHash call.request i').isSome = true) := by
  cases hdown : ((s.cores i).step (env i) input).2.crashed with
  | true =>
    refine ⟨call, ?_, rfl, rfl, fun _ => .inl rfl⟩
    rw [Server.turn, (Core.step_down (env i) hc hdown).1]
    exact hcall
  | false =>
    obtain ⟨-, hm⟩ := Core.step_moves hdown
    obtain ⟨call', hcall', hrequest, hreached, hsame, hanswer⟩ := 
      exists_record (i := i) hcall
    refine ⟨call', hcall', hrequest, hreached, fun i' => ?_⟩
    by_cases hi : i' = i
    · subst hi
      rcases hanswer with ⟨hkeep, -⟩ | ⟨response, houtput, -⟩
      · exact .inl hkeep
      · obtain ⟨call'', hcall'', hnone, -, hr⟩ := h.answered hserves (houtput ▸ hm)
        obtain rfl := Option.some.inj (hcall.symm.trans hcall'')
        exact .inr ⟨hnone, h.meant i' c call hcall hr⟩
    · exact .inl (hsame i' hi)

theorem reach (h : s.Consistent stdHash none) {c : ℕ} {i : Fin k} {request : Request}
    (hm : s.message stdHash c i = some request) :
    ({ s with calls := s.calls.modify c (Call.reach i) } : Server k).Consistent stdHash
        (some (c, i)) ∧
      ({ s with calls := s.calls.modify c (Call.reach i) } : Server k).Serves (some (c, i)) i
        (.ask c request) := by
  rw [message] at hm
  cases hcall : s.calls[c]? with
  | none => simp [hcall] at hm
  | some call =>
    simp only [hcall, Option.ite_none_left_eq_some, Bool.not_eq_true] at hm
    obtain ⟨hreached, hpart⟩ := hm
    have hfind : ∀ {c' : ℕ} {call' : Call k},
        (s.calls.modify c (Call.reach i))[c']? = some call' →
        (c' = c ∧ call' = call.reach i) ∨ (c' ≠ c ∧ s.calls[c']? = some call') := by
      intro c' call' hcall'
      by_cases hc : c' = c
      · subst hc
        rw [List.getElem?_modify_eq, hcall] at hcall'
        exact .inl ⟨rfl, (Option.some.inj hcall').symm⟩
      · rw [List.getElem?_modify_ne _ _ (Ne.symm hc)] at hcall'
        exact .inr ⟨hc, hcall'⟩
    refine ⟨⟨h.attended, ?_, ?_, ?_, ?_, ?_⟩, fun c' => ?_, fun c' i' hi => ?_,
      fun c' request' hinput => ?_⟩
    · intro i' c' call' hcall'
      rcases hfind hcall' with ⟨rfl, rfl⟩ | ⟨hc, hcall'⟩
      · have honce := h.once i' c' call hcall
        by_cases hi : i' = i
        · subst hi
          rw [hreached] at honce
          simp only [Call.reach, Function.update_self, if_true, Bool.toNat_true]
          simp only [reduceCtorEq, if_false, Bool.toNat_false] at honce
          omega
        · have hne : some (c', i) ≠ some (c', i') := by simpa using Ne.symm hi
          rw [if_neg hne]
          simpa [Call.reach, Function.update_of_ne hi] using honce
      · have hne : some (c, i) ≠ some (c', i') := by
          simpa using fun heq => absurd heq.symm hc
        rw [if_neg hne]
        simpa using h.once i' c' call' hcall'
    · intro i' c' hc
      exact h.known i' c' (by simpa using hc)
    · intro i' c' call' hcall' hr
      rcases hfind hcall' with ⟨rfl, rfl⟩ | ⟨-, hcall'⟩
      · by_cases hi : i' = i
        · subst hi
          rw [Call.reach, hpart]
          rfl
        · simp only [Call.reach, Function.update_of_ne hi] at hr
          exact h.meant i' c' call hcall hr
      · exact h.meant i' c' call' hcall' hr
    · intro i' c' call' hcall'
      rcases hfind hcall' with ⟨rfl, rfl⟩ | ⟨-, hcall'⟩
      · exact h.answers_kind i' c' call hcall
      · exact h.answers_kind i' c' call' hcall'
    · intro i' c' call' hcall'
      rcases hfind hcall' with ⟨rfl, rfl⟩ | ⟨-, hcall'⟩
      · exact h.tasks_kind i' c' call hcall
      · exact h.tasks_kind i' c' call' hcall'
    · by_cases hc : c = c' <;> simp [Core.Input.asks, hc]
    · simpa using fun _ => Ne.symm hi
    · cases hinput
      exact ⟨call.reach i, by rw [List.getElem?_modify_eq, hcall]; rfl, part_kind hpart⟩

theorem call (h : s.Consistent stdHash none) (request : Request) :
    ({ s with calls := s.calls ++ [.create request] } : Server k).Consistent stdHash none := by
  have hfind : ∀ {c : ℕ} {call : Call k}, (s.calls ++ [.create request])[c]? = some call →
      s.calls[c]? = some call ∨ (s.calls.length ≤ c ∧ call = .create request) := by
    intro c call hcall
    by_cases hc : c < s.calls.length
    · rw [List.getElem?_append_left hc] at hcall
      exact .inl hcall
    · rw [List.getElem?_append_right (not_lt.mp hc)] at hcall
      exact .inr ⟨not_lt.mp hc, (List.mem_singleton.mp (List.mem_of_getElem? hcall))⟩
  refine ⟨h.attended, ?_, ?_, ?_, ?_, ?_⟩
  · intro i c call hcall
    rcases hfind hcall with hold | ⟨hc, rfl⟩
    · exact h.once i c call hold
    · simpa [Call.create] using h.known i c hc
  · intro i c hc
    rw [List.length_append] at hc
    exact h.known i c (by omega)
  · intro i c call hcall hreached
    rcases hfind hcall with hold | ⟨-, rfl⟩
    · exact h.meant i c call hold hreached
    · cases hreached
  · intro i c call hcall response hresponse
    rcases hfind hcall with hold | ⟨-, rfl⟩
    · exact h.answers_kind i c call hold response hresponse
    · cases hresponse
  · intro i c call hcall task hmem
    rcases hfind hcall with hold | ⟨hc, rfl⟩
    · exact h.tasks_kind i c call hold task hmem
    · refine absurd (h.known i c hc) (Nat.ne_of_gt ?_)
      exact List.countP_pos_iff.mpr ⟨_, hmem, by simp⟩

theorem configure (h : s.Consistent stdHash none) (req : ConfigRequest) :
    (s.act env stdHash (.configure req)).Consistent stdHash none := by
  have hcore : ∀ i, (((s.cores i).step (env i) (.configure (s.config.update req))).2).tasks =
      (s.cores i).tasks := by
    intro i
    rw [Core.step]
    split <;> rfl
  refine ⟨fun i => ?_, fun i c call hcall => ?_, fun i c hc => ?_, h.meant, h.answers_kind,
    fun i c call hcall => ?_⟩
  · rw [Core.Attended, act, hcore]
    exact h.attended i
  · rw [Core.waiting, act, hcore]
    exact h.once i c call hcall
  · rw [Core.waiting, act, hcore]
    exact h.known i c hc
  · rw [act, hcore]
    exact h.tasks_kind i c call hcall

/-- Every step in which the process stays up keeps calls and cores in agreement. -/
theorem step (h : s.Consistent stdHash none) (a : ServerAction k)
    (hup : (s.step env stdHash a).2.crashed = false) :
    (s.step env stdHash a).2.Consistent stdHash none := by
  rw [Server.step] at hup ⊢
  cases hc : s.crashed with
  | true => simpa [hc] using h
  | false =>
    simp only [hc, Bool.false_eq_true, if_false] at hup ⊢
    cases a with
    | call request => exact h.call request
    | arrive c i =>
      rw [act] at hup ⊢
      cases hm : s.message stdHash c i with
      | none => exact h
      | some request =>
        rw [hm] at hup
        obtain ⟨hreach, hserves⟩ := h.reach hm
        exact hreach.turn hserves hup
    | resume i j => exact h.turn (.resume s i j) hup
    | configure req => exact h.configure req

variable (env) in
/-- What any step does to a call: its message may arrive at a core, and it may get an answer
that it did not have. -/
theorem step_calls (h : s.crashed = false → s.Consistent stdHash none) (a : ServerAction k)
    {c : ℕ} {call : Call k} (hcall : s.calls[c]? = some call) :
    ∃ call' : Call k, (s.step env stdHash a).2.calls[c]? = some call' ∧
      call'.request = call.request ∧
      (∀ i, call'.answers i = call.answers i ∨
        (call.answers i = none ∧ (Call.part stdHash call.request i).isSome = true)) ∧
      ∀ i, call'.reached i = true ↔ call.reached i = true ∨
        (s.crashed = false ∧ a = .arrive c i ∧ (s.message stdHash c i).isSome = true) := by
  rw [Server.step]
  cases hc : s.crashed with
  | true => exact ⟨call, hcall, rfl, fun _ => .inl rfl, fun _ => by simp⟩
  | false =>
    have hs := h hc
    have hcores : ∀ i, (s.cores i).crashed = false := by
      rw [crashed, decide_eq_false_iff_not, not_exists] at hc
      exact fun i => Bool.eq_false_of_not_eq_true (hc i)
    simp only [Bool.false_eq_true, if_false]
    cases a with
    | call request =>
      refine ⟨call, ?_, rfl, fun _ => .inl rfl, fun _ => by simp⟩
      rw [act, List.getElem?_append_left (List.getElem?_eq_some_iff.mp hcall).1]
      exact hcall
    | arrive c' i =>
      rw [act]
      cases hm : s.message stdHash c' i with
      | none =>
        refine ⟨call, hcall, rfl, fun _ => .inl rfl, fun i' => ?_⟩
        constructor
        · exact .inl
        · rintro (hr | ⟨-, heq, hsome⟩)
          · exact hr
          · cases heq
            rw [hm] at hsome
            cases hsome
      | some request =>
        obtain ⟨hreach, hserves⟩ := hs.reach hm
        by_cases hcc : c' = c
        · subst hcc
          have hcall₁ : (s.calls.modify c' (Call.reach i))[c']? = some (call.reach i) := by
            rw [List.getElem?_modify_eq, hcall]
            rfl
          obtain ⟨call', hcall', hrequest, hreached, hanswers⟩ :=
            hreach.turn_calls env hserves (hcores i) hcall₁
          refine ⟨call', hcall', hrequest, hanswers, fun i' => ?_⟩
          rw [hreached, Call.reach]
          by_cases hi : i' = i
          · subst hi
            simp [hm]
          · simp [Function.update_of_ne hi, Ne.symm hi]
        · have hcall₁ : (s.calls.modify c' (Call.reach i))[c]? = some call := by
            rw [List.getElem?_modify_ne _ _ hcc]
            exact hcall
          obtain ⟨call', hcall', hrequest, hreached, hanswers⟩ :=
            hreach.turn_calls env hserves (hcores i) hcall₁
          refine ⟨call', hcall', hrequest, hanswers, fun i' => ?_⟩
          rw [hreached]
          simp [hcc]
    | resume i j =>
      obtain ⟨call', hcall', hrequest, hreached, hanswers⟩ :=
        hs.turn_calls env (.resume s i j) (hcores i) hcall
      exact ⟨call', hcall', hrequest, hanswers, fun i' => by simp [hreached]⟩
    | configure req => exact ⟨call, hcall, rfl, fun _ => .inl rfl, fun _ => by simp⟩

end Consistent

theorem response_stable {call call' : Call k} {response : Response}
    (hrequest : call'.request = call.request)
    (hanswers : ∀ i, call'.answers i = call.answers i ∨
      (call.answers i = none ∧ (Call.part stdHash call.request i).isSome = true))
    (h : call.response stdHash = some response) : call'.response stdHash = some response := by
  have hall : call.Answered stdHash := by
    by_contra hnot
    rw [Call.response, if_neg hnot] at h
    cases h
  have hsame : call'.answers = call.answers := by
    funext i
    rcases hanswers i with hi | ⟨hnone, hpart⟩
    · exact hi
    · have hsome := hall i hpart
      rw [hnone] at hsome
      cases hsome
  obtain ⟨request, reached, answers⟩ := call
  obtain ⟨request', reached', answers'⟩ := call'
  simp only at hrequest hsame
  subst hrequest hsame
  exact h

theorem responseOf_step {s : Server k} (h : s.crashed = false → s.Consistent stdHash none)
    (a : ServerAction k) {c : ℕ} {response : Response}
    (hresponse : s.responseOf stdHash c = some response) :
    (s.step env stdHash a).2.responseOf stdHash c = some response := by
  obtain ⟨call, hcall, hcalled⟩ := Option.bind_eq_some_iff.mp hresponse
  obtain ⟨call', hcall', hrequest, hanswers, -⟩ := Consistent.step_calls env h a hcall
  rw [responseOf, hcall']
  exact response_stable hrequest hanswers hcalled

theorem consistent_run (config : TransferQueueConfig) (bitCount numHashes : ℕ)
    (actions : List (ServerAction k)) :
    let s := (create k config bitCount numHashes).run env stdHash actions
    s.crashed = false → s.Consistent stdHash none := by
  refine Machine.final_inv (fun s : Server k => s.crashed = false → s.Consistent stdHash none)
    (fun s a h hup => ?_) actions fun _ => .create config bitCount numHashes
  refine (h ?_).step a hup
  by_contra hdown
  rw [step, if_pos (by simpa using hdown)] at hup
  exact hdown hup

end Server
end TransferQueue
