import Mathlib.Data.List.Basic

/-! Ledgers of keyed queues. Items are put under a key one at a time and leave it
all together; a balanced ledger says that what was put is what has left followed
by what is still there, in order. -/

namespace Ledger

inductive Move (κ τ : Type*) where
  | put (key : κ) (item : τ)
  | take (key : κ) (items : List τ)

variable {κ τ : Type*}

/-- Replaying a log against a content: a put appends to its key, a take empties
its key and names all that was there. -/
inductive Replays : (κ → List τ) → List (Move κ τ) → (κ → List τ) → Prop where
  | nil (content) : Replays content [] content
  | put {before middle after : κ → List τ} {key : κ} {item : τ} {log : List (Move κ τ)}
      (here : middle key = before key ++ [item])
      (elsewhere : ∀ k, k ≠ key → middle k = before k)
      (rest : Replays middle log after) : Replays before (.put key item :: log) after
  | take {before middle after : κ → List τ} {key : κ} {log : List (Move κ τ)}
      (here : middle key = [])
      (elsewhere : ∀ k, k ≠ key → middle k = before k)
      (rest : Replays middle log after) :
      Replays before (.take key (before key) :: log) after

theorem Replays.trans {a b c : κ → List τ} {log log' : List (Move κ τ)}
    (h : Replays a log b) (h' : Replays b log' c) : Replays a (log ++ log') c := by
  induction h with
  | nil => exact h'
  | put here elsewhere _ ih => exact .put here elsewhere (ih h')
  | take here elsewhere _ ih => exact .take here elsewhere (ih h')

section Accounts
variable [DecidableEq κ]

theorem Replays.takes {keys : List κ} (hkeys : keys.Nodup) {before after : κ → List τ}
    (emptied : ∀ k ∈ keys, after k = []) (others : ∀ k, k ∉ keys → after k = before k) :
    Replays before (keys.map fun k => .take k (before k)) after := by
  induction keys generalizing before with
  | nil =>
    have hsame : after = before := funext fun k => others k List.not_mem_nil
    rw [hsame]
    exact .nil before
  | cons key keys ih =>
    obtain ⟨hkey, hrest⟩ := List.nodup_cons.mp hkeys
    let middle : κ → List τ := fun k => if k = key then [] else before k
    have hmiddle : ∀ k ∈ keys, middle k = before k := fun k hk =>
      if_neg fun he : k = key => hkey (he ▸ hk)
    have htail : Replays middle (keys.map fun k => .take k (middle k)) after := by
      refine ih hrest (fun k hk => emptied k (List.mem_cons_of_mem _ hk)) fun k hk => ?_
      by_cases he : k = key
      · rw [he, emptied key (List.mem_cons_self ..)]
        exact (if_pos rfl).symm
      · rw [others k fun hmem => (List.mem_cons.mp hmem).elim he hk]
        exact (if_neg he).symm
    rw [List.map_congr_left fun k hk => by rw [hmiddle k hk]] at htail
    exact .take (if_pos rfl) (fun k hk => if_neg hk) htail

/-- The items put under a key, oldest first. -/
def putTo (key : κ) (log : List (Move κ τ)) : List τ :=
  log.flatMap fun
    | .put k x => if k = key then [x] else []
    | .take _ _ => []

/-- The items that have left a key, oldest first. -/
def takenFrom (key : κ) (log : List (Move κ τ)) : List τ :=
  log.flatMap fun
    | .put _ _ => []
    | .take k xs => if k = key then xs else []

def Balanced (log : List (Move κ τ)) (content : κ → List τ) : Prop :=
  ∀ key, putTo key log = takenFrom key log ++ content key

theorem Replays.account {before after : κ → List τ} {log : List (Move κ τ)}
    (h : Replays before log after) (key : κ) :
    before key ++ putTo key log = takenFrom key log ++ after key := by
  induction h with
  | nil => simp [putTo, takenFrom]
  | @put before middle after k item log here elsewhere _ ih =>
    by_cases hk : k = key
    · subst hk
      simpa [putTo, takenFrom, here] using ih
    · rw [elsewhere key (Ne.symm hk)] at ih
      simpa [putTo, takenFrom, hk] using ih
  | @take before middle after k log here elsewhere _ ih =>
    by_cases hk : k = key
    · subst hk
      rw [here, List.nil_append] at ih
      simpa [putTo, takenFrom] using ih
    · rw [elsewhere key (Ne.symm hk)] at ih
      simpa [putTo, takenFrom, hk] using ih

theorem Replays.balanced {after : κ → List τ} {log : List (Move κ τ)}
    (h : Replays (fun _ => []) log after) : Balanced log after :=
  fun key => by simpa using h.account key

end Accounts
end Ledger
