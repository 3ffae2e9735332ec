import Mathlib.Data.List.Basic
import Mathlib.Data.List.Forall2

/-! Deterministic machines with inputs and outputs: runs, predicates along a run,
the invariant rule and the simulation rule. -/

namespace Machine

variable {σ τ α β γ : Type*}

def final (step : σ → α → β × σ) (s : σ) (as : List α) : σ :=
  as.foldl (fun s a => (step s a).2) s

def outputs (step : σ → α → β × σ) : σ → List α → List β
  | _, [] => []
  | s, a :: as => (step s a).1 :: outputs step (step s a).2 as

/-- `P` holds of every state of the run and the input taken there. -/
def Along (step : σ → α → β × σ) (P : σ → α → Prop) : σ → List α → Prop
  | _, [] => True
  | s, a :: as => P s a ∧ Along step P (step s a).2 as

def Along.decidable (step : σ → α → β × σ) {P : σ → α → Prop} (dec : ∀ s a, Decidable (P s a)) :
    ∀ (s : σ) (as : List α), Decidable (Along step P s as)
  | _, [] => .isTrue trivial
  | s, a :: as =>
    have := dec s a
    have := decidable step dec (step s a).2 as
    inferInstanceAs (Decidable (P s a ∧ Along step P (step s a).2 as))

instance (step : σ → α → β × σ) (P : σ → α → Prop) [dec : ∀ s a, Decidable (P s a)] (s : σ)
    (as : List α) : Decidable (Along step P s as) := Along.decidable step dec s as

@[simp] theorem final_nil (step : σ → α → β × σ) (s : σ) : final step s [] = s := rfl

@[simp] theorem final_cons (step : σ → α → β × σ) (s : σ) (a : α) (as : List α) :
    final step s (a :: as) = final step (step s a).2 as := rfl

theorem final_append (step : σ → α → β × σ) (s : σ) (as bs : List α) :
    final step s (as ++ bs) = final step (final step s as) bs := List.foldl_append ..

theorem final_inv {step : σ → α → β × σ} (Inv : σ → Prop)
    (preserved : ∀ s a, Inv s → Inv (step s a).2) (as : List α) {s : σ} (h : Inv s) :
    Inv (final step s as) := by
  induction as generalizing s with
  | nil => exact h
  | cons a as ih => exact ih (preserved s a h)

/-- The invariant rule under a condition on the steps: while every step of the run
meets `Q`, the invariant is kept and every step has `P`. -/
theorem along_of_inv {step : σ → α → β × σ} (Inv : σ → Prop) {P Q : σ → α → Prop}
    (kept : ∀ s a, Inv s → Q s a → P s a ∧ Inv (step s a).2) (as : List α) {s : σ}
    (h : Inv s) (hQ : Along step Q s as) :
    Along step P s as ∧ Inv (final step s as) := by
  induction as generalizing s with
  | nil => exact ⟨trivial, h⟩
  | cons a as ih =>
    obtain ⟨hP, hInv⟩ := kept s a h hQ.1
    obtain ⟨hAlong, hFinal⟩ := ih hInv hQ.2
    exact ⟨⟨hP, hAlong⟩, hFinal⟩

/-- A step that breaks the rule leaves a mark that no step takes away. -/
theorem along_or_marked {step : σ → α → β × σ} (Inv Marked : σ → Prop) {P : σ → α → Prop}
    (kept : ∀ s a, Inv s → P s a → Inv (step s a).2)
    (marks : ∀ s a, Inv s → ¬P s a → Marked (step s a).2)
    (stays : ∀ s a, Marked s → Marked (step s a).2) (as : List α) {s : σ} (h : Inv s) :
    (Along step P s as ∧ Inv (final step s as)) ∨ Marked (final step s as) := by
  induction as generalizing s with
  | nil => exact .inl ⟨trivial, h⟩
  | cons a as ih =>
    by_cases hP : P s a
    · exact (ih (kept s a h hP)).imp_left fun hrest => ⟨⟨hP, hrest.1⟩, hrest.2⟩
    · exact .inr (final_inv Marked stays as (marks s a h hP))

theorem along_iff_of_inv {step : σ → α → β × σ} (Inv : σ → Prop) {P Q : σ → α → Prop}
    (preserved : ∀ s a, Inv s → Inv (step s a).2)
    (same : ∀ s a, Inv s → (P s a ↔ Q s a)) (as : List α) {s : σ} (h : Inv s) :
    Along step P s as ↔ Along step Q s as := by
  induction as generalizing s with
  | nil => exact Iff.rfl
  | cons a as ih => exact and_congr (same s a h) (ih (preserved s a h))

theorem Along.mono {step : σ → α → β × σ} {P Q : σ → α → Prop} (imp : ∀ s a, P s a → Q s a)
    {s : σ} {as : List α} (h : Along step P s as) : Along step Q s as := by
  induction as generalizing s with
  | nil => trivial
  | cons a as ih => exact ⟨imp s a h.1, ih h.2⟩

theorem Along.last {step : σ → α → β × σ} {P : σ → α → Prop} {s : σ} {as : List α} {a : α}
    (h : Along step P s (as ++ [a])) : P (final step s as) a := by
  induction as generalizing s with
  | nil => exact h.1
  | cons b as ih => exact ih h.2

theorem Along.and {step : σ → α → β × σ} {P Q : σ → α → Prop} {s : σ} {as : List α}
    (hP : Along step P s as) (hQ : Along step Q s as) :
    Along step (fun s a => P s a ∧ Q s a) s as := by
  induction as generalizing s with
  | nil => trivial
  | cons a as ih => exact ⟨⟨hP.1, hQ.1⟩, ih hP.2 hQ.2⟩

theorem along_append {step : σ → α → β × σ} {P : σ → α → Prop} {s : σ} {as bs : List α} :
    Along step P s (as ++ bs) ↔ Along step P s as ∧ Along step P (final step s as) bs := by
  induction as generalizing s with
  | nil => exact (iff_of_eq (true_and _)).symm
  | cons a as ih =>
    exact (and_congr Iff.rfl ih).trans and_assoc.symm

theorem along_of_mem {step : σ → α → β × σ} {Q : α → Prop} {as : List α}
    (h : ∀ a ∈ as, Q a) (s : σ) : Along step (fun _ a => Q a) s as := by
  induction as generalizing s with
  | nil => trivial
  | cons a as ih =>
    exact ⟨h a (List.mem_cons_self ..), ih (fun b hb => h b (List.mem_cons_of_mem _ hb)) _⟩

/-- Predicates that agree along a run hold along it together. -/
theorem Along.iff {step : σ → α → β × σ} {P Q : σ → α → Prop} {s : σ} {as : List α}
    (h : Along step (fun s a => P s a ↔ Q s a) s as) : Along step P s as ↔ Along step Q s as := by
  induction as generalizing s with
  | nil => exact Iff.rfl
  | cons a as ih => exact and_congr h.1 (ih h.2)

/-- Predicates along a run depend on the states only, not on the outputs. -/
theorem along_congr {step : σ → α → β × σ} {step' : σ → α → γ × σ}
    (h : ∀ s a, (step' s a).2 = (step s a).2) {P : σ → α → Prop} {s : σ} {as : List α} :
    Along step' P s as ↔ Along step P s as := by
  induction as generalizing s with
  | nil => exact Iff.rfl
  | cons a as ih => rw [Along, Along, h, ih]

/-- What a run records, step after step. -/
def record (step : σ → α → β × σ) (note : σ → α → List γ) : σ → List α → List γ
  | _, [] => []
  | s, a :: as => note s a ++ record step note (step s a).2 as

theorem mem_record {step : σ → α → β × σ} {note : σ → α → List γ} {c : γ} {s : σ} {as : List α}
    (h : c ∈ record step note s as) : ∃ s' a, c ∈ note s' a := by
  induction as generalizing s with
  | nil => exact absurd h List.not_mem_nil
  | cons a as ih =>
    rcases List.mem_append.mp h with hone | hrest
    · exact ⟨s, a, hone⟩
    · exact ih hrest

/-- The recording rule: a relation between states and records that composes holds of a
run if it holds of every step that meets `Q` and is taken from the invariant. -/
theorem record_of_along {step : σ → α → β × σ} {note : σ → α → List γ} (Inv : σ → Prop)
    {Q : σ → α → Prop} {R : σ → List γ → σ → Prop} (refl : ∀ s, R s [] s)
    (trans : ∀ {s t u l m}, R s l t → R t m u → R s (l ++ m) u)
    (one : ∀ s a, Inv s → Q s a → R s (note s a) (step s a).2 ∧ Inv (step s a).2)
    (as : List α) {s : σ} (h : Inv s) (hQ : Along step Q s as) :
    R s (record step note s as) (final step s as) := by
  induction as generalizing s with
  | nil => exact refl s
  | cons a as ih =>
    obtain ⟨hR, hInv⟩ := one s a h hQ.1
    exact trans hR (ih hInv hQ.2)

theorem record_of_inv {step : σ → α → β × σ} {note : σ → α → List γ} (Inv : σ → Prop)
    {R : σ → List γ → σ → Prop} (refl : ∀ s, R s [] s)
    (trans : ∀ {s t u l m}, R s l t → R t m u → R s (l ++ m) u)
    (one : ∀ s a, Inv s → R s (note s a) (step s a).2 ∧ Inv (step s a).2)
    (as : List α) {s : σ} (h : Inv s) : R s (record step note s as) (final step s as) :=
  record_of_along Inv (Q := fun _ _ => True) refl trans (fun s a hs _ => one s a hs) as h
    (along_of_mem (fun _ _ => trivial) s)

section Projection
variable {δ : Type*} {step : σ → α → β × σ} {step' : τ → γ → δ × τ} {view : σ → τ}
  {note : σ → α → List γ}

/-- The projection rule: if every step is, seen from a part, some steps of the part, a run is,
seen from the part, a run of the part. -/
theorem final_record (h : ∀ s a, view (step s a).2 = final step' (view s) (note s a)) (s : σ)
    (as : List α) : view (final step s as) = final step' (view s) (record step note s as) := by
  induction as generalizing s with
  | nil => rfl
  | cons a as ih => rw [final_cons, record, final_append, ← h, ih]

theorem along_record (h : ∀ s a, view (step s a).2 = final step' (view s) (note s a))
    {P : τ → γ → Prop} {s : σ} {as : List α} :
    Along step' P (view s) (record step note s as) ↔
      Along step (fun s a => Along step' P (view s) (note s a)) s as := by
  induction as generalizing s with
  | nil => exact Iff.rfl
  | cons a as ih => rw [record, along_append, ← h, ih, Along]

end Projection

/-- The simulation rule for two machines driven by related inputs: related states
stay related and the outputs are related step by step, while every step of the
first run meets `P` and every step of the second meets `Q`. -/
theorem simulation (step₁ : σ → α → β × σ) (step₂ : τ → α → γ × τ)
    (R : σ → τ → Prop) (I : α → α → Prop) (O : β → γ → Prop)
    {P : σ → α → Prop} {Q : τ → α → Prop}
    (simulates : ∀ s t a b, R s t → I a b → P s a → Q t b →
      O (step₁ s a).1 (step₂ t b).1 ∧ R (step₁ s a).2 (step₂ t b).2)
    {as bs : List α} (hI : List.Forall₂ I as bs) {s : σ} {t : τ} (hR : R s t)
    (hP : Along step₁ P s as) (hQ : Along step₂ Q t bs) :
    List.Forall₂ O (outputs step₁ s as) (outputs step₂ t bs) ∧
      R (final step₁ s as) (final step₂ t bs) := by
  induction hI generalizing s t with
  | nil => exact ⟨.nil, hR⟩
  | cons hab _ ih =>
    obtain ⟨hO, hR'⟩ := simulates s t _ _ hR hab hP.1 hQ.1
    obtain ⟨hOs, hRs⟩ := ih hR' hP.2 hQ.2
    exact ⟨.cons hO hOs, hRs⟩

end Machine
