import Mathlib.Order.WellFounded
import TransferQueue.Library.Machine

/-! Infinite runs of a machine. Under weak fairness for the inputs of one party, a goal is
reached if the party can always move before it, and its moves lower a measure that no other
move raises. -/

namespace Machine

variable {σ α β ω : Type*}

def trace (step : σ → α → β × σ) (s : σ) (inputs : ℕ → α) : ℕ → σ
  | 0 => s
  | n + 1 => (step (trace step s inputs n) (inputs n)).2

theorem trace_eq_final (step : σ → α → β × σ) (s : σ) (inputs : ℕ → α) (n : ℕ) :
    trace step s inputs n = final step s ((List.range n).map inputs) := by
  induction n with
  | zero => rfl
  | succ n ih => rw [trace, ih, List.range_succ, List.map_append, final_append]; rfl

/-- Weak fairness: if from some step on there is always a move of the party to take, one is
taken. -/
def Fair (step : σ → α → β × σ) (s : σ) (inputs : ℕ → α) (Own : σ → α → Prop) : Prop :=
  ∀ n, (∀ m, n ≤ m → ∃ a, Own (trace step s inputs m) a) →
    ∃ m, n ≤ m ∧ Own (trace step s inputs m) (inputs m)

/-- The progress rule. -/
theorem progress [Preorder ω] [WellFoundedLT ω] {step : σ → α → β × σ} {s : σ} {inputs : ℕ → α}
    {Own : σ → α → Prop} {Goal : σ → Prop} (measure : σ → ω) {n : ℕ}
    (fair : Fair step s inputs Own)
    (able : ∀ m, n ≤ m → ¬Goal (trace step s inputs m) → ∃ a, Own (trace step s inputs m) a)
    (kept : ∀ m, n ≤ m → ¬Goal (trace step s inputs m) → ¬Goal (trace step s inputs (m + 1)) →
      measure (trace step s inputs (m + 1)) ≤ measure (trace step s inputs m))
    (lowered : ∀ m, n ≤ m → ¬Goal (trace step s inputs m) → ¬Goal (trace step s inputs (m + 1)) →
      Own (trace step s inputs m) (inputs m) →
        measure (trace step s inputs (m + 1)) < measure (trace step s inputs m)) :
    ∃ m, n ≤ m ∧ Goal (trace step s inputs m) := by
  by_contra hnever
  have hnot : ∀ m, n ≤ m → ¬Goal (trace step s inputs m) := fun m hm hgoal =>
    hnever ⟨m, hm, hgoal⟩
  have hmono : ∀ m, n ≤ m → ∀ d,
      measure (trace step s inputs (m + d)) ≤ measure (trace step s inputs m) := by
    intro m hm d
    induction d with
    | zero => exact le_refl _
    | succ d ih => exact (kept (m + d) (by omega) (hnot _ (by omega)) (hnot _ (by omega))).trans ih
  -- By induction on the measure: the next move of the party lowers it.
  have hnone : ∀ w m, n ≤ m → measure (trace step s inputs m) ≠ w := by
    intro w
    induction w using WellFoundedLT.induction with
    | ind w ih =>
      rintro m hm rfl
      obtain ⟨m', hm', hown⟩ := fair m fun m' hm' => able m' (by omega) (hnot m' (by omega))
      obtain ⟨d, rfl⟩ := Nat.exists_eq_add_of_le hm'
      have hless := lowered (m + d) (by omega) (hnot _ (by omega)) (hnot _ (by omega)) hown
      exact ih _ (hless.trans_le (hmono m hm d)) (m + d + 1) (by omega) rfl
  exact hnone _ n le_rfl rfl

end Machine
