import Mathlib.Data.Finset.Card

/-! Recency lists: distinct items, the one used last in front, of which only the first
few are kept. An item is still kept if fewer distinct others than the capacity have been
used since its own last use. -/

namespace Recency

variable {α : Type*} [DecidableEq α]

/-- The item comes to the front; what is then beyond the capacity is forgotten. -/
def touch (capacity : ℕ) (kept : List α) (a : α) : List α := (a :: kept.erase a).take capacity

theorem mem_touch {capacity : ℕ} (h : 0 < capacity) (kept : List α) (a : α) :
    a ∈ touch capacity kept a := by
  obtain ⟨n, rfl⟩ := Nat.exists_eq_succ_of_ne_zero h.ne'
  exact List.mem_cons_self

/-- The items used, by their last use; `history` is newest first. -/
def ranked : List α → List α
  | [] => []
  | a :: history => a :: (ranked history).erase a

/-- The item has been used, and fewer than `capacity` distinct others since. -/
def Within (capacity : ℕ) (history : List α) (a : α) : Prop :=
  a ∈ history ∧ (history.takeWhile (· ≠ a)).toFinset.card < capacity

instance (capacity : ℕ) (history : List α) (a : α) : Decidable (Within capacity history a) :=
  inferInstanceAs (Decidable (_ ∧ _))

theorem ranked_nodup (history : List α) : (ranked history).Nodup := by
  induction history with
  | nil => exact List.nodup_nil
  | cons a history ih => exact List.nodup_cons.mpr ⟨ih.not_mem_erase, ih.erase a⟩

theorem mem_ranked {history : List α} {a : α} : a ∈ ranked history ↔ a ∈ history := by
  induction history with
  | nil => rfl
  | cons b history ih =>
    rw [ranked, List.mem_cons, List.mem_cons, (ranked_nodup history).mem_erase_iff, ih]
    tauto

theorem take_erase_take (capacity : ℕ) (l : List α) (a : α) :
    ((l.take (capacity + 1)).erase a).take capacity = (l.erase a).take capacity := by
  induction l generalizing capacity with
  | nil => rfl
  | cons b l ih =>
    rw [List.take_succ_cons]
    by_cases hb : b = a
    · rw [hb, List.erase_cons_head, List.erase_cons_head, List.take_take, min_self]
    · rw [List.erase_cons_tail (by simpa), List.erase_cons_tail (by simpa)]
      cases capacity with
      | zero => rfl
      | succ capacity => rw [List.take_succ_cons, List.take_succ_cons, ih]

/-- The step: what is kept is the front of the ranking. -/
theorem touch_ranked (capacity : ℕ) (history : List α) (a : α) :
    touch capacity ((ranked history).take capacity) a =
      (ranked (a :: history)).take capacity := by
  rw [touch, ranked]
  cases capacity with
  | zero => rfl
  | succ capacity => rw [List.take_succ_cons, List.take_succ_cons, take_erase_take]

theorem mem_take_iff {l : List α} {a : α} (count : ℕ) :
    a ∈ l.take count ↔ a ∈ l ∧ (l.takeWhile (· ≠ a)).length < count := by
  induction l generalizing count with
  | nil => simp
  | cons b l ih =>
    cases count with
    | zero => simp
    | succ count =>
      rw [List.take_succ_cons, List.mem_cons, List.mem_cons, ih]
      by_cases hb : b = a
      · simp [hb]
      · simp [hb, Ne.symm hb]

theorem takeWhile_erase {l : List α} {a b : α} (h : b ≠ a) :
    (l.erase b).takeWhile (· ≠ a) = (l.takeWhile (· ≠ a)).erase b := by
  induction l with
  | nil => rfl
  | cons c l ih =>
    by_cases hc : c = b
    · rw [hc, List.erase_cons_head, List.takeWhile_cons_of_pos (by simpa), List.erase_cons_head]
    · rw [List.erase_cons_tail (by simpa)]
      by_cases hca : c = a
      · simp [hca]
      · rw [List.takeWhile_cons_of_pos (by simpa), List.takeWhile_cons_of_pos (by simpa), ih,
          List.erase_cons_tail (by simpa)]

theorem ranked_before (history : List α) (a : α) :
    ((ranked history).takeWhile (· ≠ a)).toFinset = (history.takeWhile (· ≠ a)).toFinset := by
  induction history with
  | nil => rfl
  | cons b history ih =>
    rw [ranked]
    by_cases hb : b = a
    · simp [hb]
    · rw [List.takeWhile_cons_of_pos (by simpa), List.takeWhile_cons_of_pos (by simpa),
        takeWhile_erase hb, List.toFinset_cons, List.toFinset_cons, ← ih]
      have hnodup := (ranked_nodup history).sublist (List.takeWhile_sublist (· ≠ a))
      ext c
      rw [Finset.mem_insert, Finset.mem_insert, List.mem_toFinset, List.mem_toFinset,
        hnodup.mem_erase_iff]
      tauto

/-- The window law. -/
theorem mem_take_ranked_iff (capacity : ℕ) (history : List α) (a : α) :
    a ∈ (ranked history).take capacity ↔ Within capacity history a := by
  have hnodup := (ranked_nodup history).sublist (List.takeWhile_sublist (· ≠ a))
  rw [mem_take_iff, mem_ranked, Within, ← ranked_before, List.toFinset_card_of_nodup hnodup]

end Recency
