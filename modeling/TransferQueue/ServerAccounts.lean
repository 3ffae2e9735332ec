import Mathlib.Algebra.BigOperators.Group.Finset.Basic
import TransferQueue.Delivery
import TransferQueue.ServerCalls

/-! The accounts of a server. What the events of a core bring in, its answers have handed to
the calls or is owed to them; so what the calls of a run are told is what has happened on
the cores. -/

namespace TransferQueue
namespace Server
variable {k : ℕ} {M : Type*} [AddCancelCommMonoid M] (A : Account M)

section Modify
variable {α : Type*} {l : List α} {c : ℕ} {f : α → α} {g : α → M}

theorem sum_modify {a : α} (h : l[c]? = some a) :
    ((l.modify c f).map g).sum + g a = (l.map g).sum + g (f a) := by
  induction l generalizing c with
  | nil => simp at h
  | cons b l ih =>
    cases c with
    | zero =>
      obtain rfl : b = a := by simpa using h
      simp only [List.modify_zero_cons, List.map_cons, List.sum_cons]
      abel
    | succ c =>
      have hl := ih (c := c) (by simpa using h)
      simp only [List.modify_succ_cons, List.map_cons, List.sum_cons]
      rw [add_assoc, hl, add_assoc]

end Modify

section Books

def paid (i : Fin k) (calls : List (Call k)) : M :=
  (calls.map fun call => ((call.answers i).toList.map A.hands).sum).sum

/-- What a core has brought in has been handed to the calls or is owed to them. -/
def Booked (s : Server k) : Prop :=
  ∀ i, A.income (s.cores i) = paid A i s.calls + A.owed (s.cores i)

variable {A} {calls : List (Call k)} {i : Fin k}

theorem paid_record {output : Option (ℕ × Response)}
    (h : ∀ p ∈ output, ∃ call : Call k, calls[p.1]? = some call ∧ call.answers i = none) :
    paid A i (record i output calls) = paid A i calls + A.paid output := by
  rcases output with _ | ⟨c, response⟩
  · simp [record, Account.paid]
  · obtain ⟨call, hcall, hnone⟩ := h _ rfl
    have hsum := sum_modify (f := Call.answer i response)
      (g := fun call : Call k => ((call.answers i).toList.map A.hands).sum) hcall
    simpa [record, paid, Account.paid, Call.answer, hnone] using hsum

theorem paid_record_other {i' : Fin k} (hi : i' ≠ i) (output : Option (ℕ × Response)) :
    paid A i' (record i output calls) = paid A i' calls := by
  rcases output with _ | ⟨c, response⟩
  · rfl
  · rw [record, paid, map_modify fun call => ?_, paid]
    simp only [Call.answer, Function.update_of_ne hi]

theorem paid_reach (c : ℕ) (i' : Fin k) :
    paid A i (calls.modify c (Call.reach i')) = paid A i calls := by
  rw [paid, paid, map_modify (f := Call.reach i') fun _ => rfl]

theorem sum_paid (calls : List (Call k)) :
    ∑ i, paid A i calls =
      (calls.map fun call => ∑ i, ((call.answers i).toList.map A.hands).sum).sum := by
  induction calls with
  | nil => exact Finset.sum_eq_zero fun _ _ => rfl
  | cons call calls ih =>
    rw [List.map_cons, List.sum_cons, ← ih, ← Finset.sum_add_distrib]
    rfl

variable [NeZero k] {env : Fin k → Env} {stdHash : String → ℕ} {s : Server k}
  {asked : Option (ℕ × Fin k)}

theorem Booked.turn (hb : s.Booked A) (h : s.Consistent stdHash asked) {input : Core.Input}
    (hserves : s.Serves asked i input) (hup : (Server.turn env i input s).crashed = false) :
    (Server.turn env i input s).Booked A := by
  obtain ⟨-, hm⟩ := Core.step_moves (crashed_turn hup)
  intro i'
  rw [turn_core, Server.turn]
  by_cases hi : i = i'
  · subst hi
    rw [if_pos rfl]
    have haccount := hm.account A (h.attended i)
    have hpaid : paid A i (record i ((s.cores i).step (env i) input).1 s.calls) =
        paid A i s.calls + A.paid ((s.cores i).step (env i) input).1 := by
      refine paid_record fun p hp => ?_
      obtain ⟨call, hcall, hnone, -⟩ := h.answered hserves (Option.mem_def.mp hp ▸ hm)
      exact ⟨call, hcall, hnone⟩
    rw [hb i] at haccount
    rw [hpaid]
    refine add_right_cancel (b := A.owed (s.cores i)) (haccount.trans ?_)
    abel
  · rw [if_neg hi, paid_record_other (Ne.symm hi)]
    exact hb i'

theorem Booked.step (hb : s.Booked A) (h : s.Consistent stdHash none) (a : ServerAction k)
    (hup : (s.step env stdHash a).2.crashed = false) : (s.step env stdHash a).2.Booked A := by
  rw [Server.step] at hup ⊢
  cases hc : s.crashed with
  | true => simpa [hc] using hb
  | false =>
    simp only [hc, Bool.false_eq_true, if_false] at hup ⊢
    cases a with
    | call request =>
      intro i
      rw [act, paid, List.map_append, List.sum_append]
      simpa [Call.create, paid] using hb i
    | arrive c i =>
      rw [act] at hup ⊢
      cases hm : s.message stdHash c i with
      | none => exact hb
      | some request =>
        rw [hm] at hup
        obtain ⟨hreach, hserves⟩ := h.reach hm
        refine Booked.turn (fun i' => ?_) hreach hserves hup
        rw [paid_reach]
        exact hb i'
    | resume i j => exact hb.turn h (.resume s i j) hup
    | configure req =>
      intro i
      have hcore : A.income ((s.cores i).step (env i) (.configure (s.config.update req))).2 =
            A.income (s.cores i) ∧
          A.owed ((s.cores i).step (env i) (.configure (s.config.update req))).2 =
            A.owed (s.cores i) := by
        rw [Core.step]
        split <;> exact ⟨rfl, rfl⟩
      rw [act, hcore.1, hcore.2]
      exact hb i

/-- In every run the accounts of all cores balance, until the process comes down. -/
theorem books_run (A : Account M) (config : TransferQueueConfig) (bitCount numHashes : ℕ)
    (actions : List (ServerAction k)) :
    let s := (create k config bitCount numHashes).run env stdHash actions
    s.crashed = false → s.Consistent stdHash none ∧ s.Booked A := by
  refine Machine.final_inv
    (fun s : Server k => s.crashed = false → s.Consistent stdHash none ∧ s.Booked A)
    (fun s a h hup => ?_) actions fun _ => ⟨.create config bitCount numHashes, fun i => ?_⟩
  · have hbefore : s.crashed = false := by
      by_contra hdown
      rw [step, if_pos (by simpa using hdown)] at hup
      exact hdown hup
    exact ⟨(h hbefore).1.step a hup, (h hbefore).2.step (h hbefore).1 a hup⟩
  · simp [create, Core.create, Account.income, Account.owed, paid]

end Books
end Server
end TransferQueue
