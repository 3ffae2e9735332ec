import Mathlib.Data.List.Basic

/-! Sequential traversals that stop at the first failure, threading a state that
is kept whether or not the traversal succeeds. -/

namespace DoForEach

variable {α β δ ε : Type*}

def doForEach (f : α → δ → Except ε β × δ) : List α → δ → Except ε (List β) × δ
  | [], d => (.ok [], d)
  | a :: as, d =>
    match f a d with
    | (.error e, d) => (.error e, d)
    | (.ok b, d) =>
      match doForEach f as d with
      | (.error e, d) => (.error e, d)
      | (.ok bs, d) => (.ok (b :: bs), d)

/-- The loop over a container that dies as soon as the loop has to wait; each call says whether
it had to. What would be read as the next element after that is `gone`. -/
def doForEachFreed (gone : ε) (f : α → δ → Except ε Bool × δ) : List α → δ → Except ε Unit × δ
  | [], d => (.ok (), d)
  | a :: as, d =>
    match f a d with
    | (.error e, d) => (.error e, d)
    | (.ok waited, d) =>
      if waited = true ∧ as ≠ [] then (.error gone, d) else doForEachFreed gone f as d

/-- The property holds before each call that the loop makes. -/
def Along (f : α → δ → Except ε β × δ) (P : α → δ → Prop) : List α → δ → Prop
  | [], _ => True
  | a :: as, d => P a d ∧
    match f a d with
    | (.error _, _) => True
    | (.ok _, d') => Along f P as d'

instance decidableAlong (f : α → δ → Except ε β × δ) (P : α → δ → Prop)
    [∀ a d, Decidable (P a d)] : ∀ as d, Decidable (Along f P as d)
  | [], _ => .isTrue trivial
  | a :: as, d => by
    have hrest := decidableAlong f P as
    rw [Along]
    split <;> infer_instance

theorem doForEach_cons_error {f : α → δ → Except ε β × δ} {a : α} {d d' : δ} {e : ε}
    (h : f a d = (.error e, d')) (as : List α) : doForEach f (a :: as) d = (.error e, d') := by
  rw [doForEach, h]

theorem doForEach_cons_ok {f : α → δ → Except ε β × δ} {a : α} {b : β} {d d' : δ}
    (h : f a d = (.ok b, d')) (as : List α) :
    doForEach f (a :: as) d = ((doForEach f as d').1.map (List.cons b), (doForEach f as d').2) := by
  simp only [doForEach, h]
  rcases doForEach f as d' with ⟨e | bs, d''⟩ <;> rfl

theorem doForEach_keeps {f : α → δ → Except ε β × δ} {P : δ → Prop}
    (kept : ∀ a d, P d → P (f a d).2) (as : List α) {d : δ} (h : P d) :
    P (doForEach f as d).2 := by
  induction as generalizing d with
  | nil => exact h
  | cons a as ih =>
    have hfirst := kept a d h
    rcases hf : f a d with ⟨e | b, d'⟩ <;> rw [hf] at hfirst
    · rwa [doForEach_cons_error hf]
    · rw [doForEach_cons_ok hf]
      exact ih hfirst

theorem doForEachFreed_keeps {gone : ε} {f : α → δ → Except ε Bool × δ} {P : δ → Prop}
    (kept : ∀ a d, P d → P (f a d).2) (as : List α) {d : δ} (h : P d) :
    P (doForEachFreed gone f as d).2 := by
  induction as generalizing d with
  | nil => exact h
  | cons a as ih =>
    have hfirst := kept a d h
    rw [doForEachFreed]
    rcases hf : f a d with ⟨e | waited, d'⟩ <;> rw [hf] at hfirst
    · exact hfirst
    · dsimp only
      split
      · exact hfirst
      · exact ih hfirst

/-- If of every call, failing or not, it can be said beforehand whether it keeps a property,
then of the loop as well. -/
theorem doForEach_along_iff {f : α → δ → Except ε β × δ} {Inv Q : δ → Prop} {H P : α → δ → Prop}
    (step : ∀ a d, Inv d → H a d → Inv (f a d).2 ∧ (Q (f a d).2 ↔ Q d ∧ P a d)) (as : List α)
    {d : δ} (hInv : Inv d) (hH : Along f H as d) :
    Q (doForEach f as d).2 ↔ Q d ∧ Along f P as d := by
  induction as generalizing d with
  | nil => simp [doForEach, Along]
  | cons a as ih =>
    obtain ⟨hfirst, hrest⟩ := hH
    obtain ⟨hInv', hQ⟩ := step a d hInv hfirst
    rcases hf : f a d with ⟨e | b, d'⟩
    · rw [hf] at hQ
      rw [doForEach_cons_error hf, Along, hf, and_true]
      exact hQ
    · rw [hf] at hrest hInv' hQ
      rw [doForEach_cons_ok hf, Along, hf, ← and_assoc, ← hQ]
      exact ih hInv' hrest

/-- If every call succeeds while the invariant holds, so does the traversal, and
its results are related to its inputs one by one. -/
theorem doForEach_ok {f : α → δ → Except ε β × δ} (Inv : List α → δ → Prop)
    (R : α → β → Prop)
    (succeeds : ∀ a as d, Inv (a :: as) d →
      ∃ b d', f a d = (.ok b, d') ∧ R a b ∧ Inv as d')
    (as : List α) {d : δ} (h : Inv as d) :
    ∃ bs d', doForEach f as d = (.ok bs, d') ∧ List.Forall₂ R as bs ∧ Inv [] d' := by
  induction as generalizing d with
  | nil => exact ⟨[], d, rfl, .nil, h⟩
  | cons a as ih =>
    obtain ⟨b, d', hf, hR, hInv⟩ := succeeds a as d h
    obtain ⟨bs, d'', hfs, hRs, hEnd⟩ := ih hInv
    exact ⟨b :: bs, d'', by simp [doForEach, hf, hfs], .cons hR hRs, hEnd⟩

/-- How a traversal ends, given what the calls that succeed preserve: it has passed all
elements, or it stops at one whose call fails. -/
theorem doForEach_progress {f : α → δ → Except ε β × δ} (Inv : List α → δ → Prop)
    (kept : ∀ done a d b d', Inv done d → f a d = (.ok b, d') → Inv (done ++ [a]) d')
    (as done : List α) {d : δ} (h : Inv done d) :
    (∃ bs d', doForEach f as d = (.ok bs, d') ∧ Inv (done ++ as) d') ∨
      ∃ e d' passed a rest d₁, doForEach f as d = (.error e, d') ∧ as = passed ++ a :: rest ∧
        Inv (done ++ passed) d₁ ∧ f a d₁ = (.error e, d') := by
  induction as generalizing done d with
  | nil => exact .inl ⟨[], d, rfl, by rwa [List.append_nil]⟩
  | cons a as ih =>
    rw [doForEach]
    rcases hf : f a d with ⟨e | b, d₁⟩
    · exact .inr ⟨e, d₁, [], a, as, d, rfl, rfl, by rwa [List.append_nil], hf⟩
    · rcases ih (done ++ [a]) (kept done a d b d₁ h hf) with ⟨bs, d', hall, hInv⟩ |
        ⟨e, d', passed, a', rest, d₂, hall, has, hInv, hfail⟩
      · refine .inl ⟨b :: bs, d', by simp only [hall], ?_⟩
        rwa [List.append_assoc] at hInv
      · refine .inr ⟨e, d', a :: passed, a', rest, d₂, by simp only [hall], by rw [has]; rfl, ?_,
          hfail⟩
        rwa [List.append_assoc] at hInv

end DoForEach
