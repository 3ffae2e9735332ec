import TransferQueue.Library.UnorderedMap

/-! Maps that hold the same entries in the same order and will go on to place new keys
alike, whatever was inserted into them before. -/

section Images
variable {α α' β γ : Type*} {l : List α} {l' : List α'} {f : α → γ} {f' : α' → γ}

theorem map_eq_of_map_eq {g : α → β} {g' : α' → β} (h : l'.map f' = l.map f)
    (hg : ∀ a a', f' a' = f a → g' a' = g a) : l'.map g' = l.map g := by
  induction l generalizing l' with
  | nil =>
    rw [List.map_nil, List.map_eq_nil_iff] at h
    rw [h, List.map_nil, List.map_nil]
  | cons a l ih =>
    obtain ⟨a', l', rfl, ha, hl⟩ := List.map_eq_cons_iff.mp h
    rw [List.map_cons, List.map_cons, hg a a' ha, ih hl]

theorem filter_map_eq_of_map_eq {p : α → Bool} {p' : α' → Bool} (h : l'.map f' = l.map f)
    (hp : ∀ a a', f' a' = f a → p' a' = p a) :
    (l'.filter p').map f' = (l.filter p).map f := by
  induction l generalizing l' with
  | nil =>
    rw [List.map_nil, List.map_eq_nil_iff] at h
    rw [h, List.filter_nil, List.filter_nil, List.map_nil, List.map_nil]
  | cons a l ih =>
    obtain ⟨a', l', rfl, ha, hl⟩ := List.map_eq_cons_iff.mp h
    rw [List.filter_cons, List.filter_cons, hp a a' ha]
    split
    · rw [List.map_cons, List.map_cons, ha, ih hl]
    · exact ih hl

end Images

namespace UnorderedMap

variable {κ α β : Type*}

structure Alike (place place' : Placement κ) (m m' : UnorderedMap κ α) : Prop where
  entries : m'.entries = m.entries
  placed : ∀ events, place' (events ++ m'.history) = place (events ++ m.history)

namespace Alike

variable {place place' : Placement κ} {m m' : UnorderedMap κ α}

theorem refl (m : UnorderedMap κ α) : Alike place place m m := ⟨rfl, fun _ => rfl⟩

theorem keys (h : Alike place place' m m') : m'.keys = m.keys := by
  rw [UnorderedMap.keys, h.entries, UnorderedMap.keys]

theorem placed_cons (h : Alike place place' m m') (event : KeyEvent κ)
    (events : List (KeyEvent κ)) :
    place' (events ++ event :: m'.history) = place (events ++ event :: m.history) := by
  have hplaced := h.placed (events ++ [event])
  rwa [List.append_assoc, List.append_assoc] at hplaced

theorem mapValues (h : Alike place place' m m') (f : κ → α → β) :
    Alike place place' (m.mapValues f) (m'.mapValues f) :=
  ⟨by rw [mapValues_entries, h.entries, mapValues_entries], h.placed⟩

variable [DecidableEq κ]

theorem get? (h : Alike place place' m m') (k : κ) : m'.get? k = m.get? k :=
  get?_congr fun a => by rw [h.entries]

theorem set (h : Alike place place' m m') (k : κ) (a : α) :
    Alike place place' (m.set k a) (m'.set k a) :=
  h.mapValues _

theorem insert (h : Alike place place' m m') (k : κ) (a : α) :
    Alike place place' (m.insert place k a) (m'.insert place' k a) := by
  by_cases hk : k ∈ m.keys
  · rw [insert_of_mem place a hk, insert_of_mem place' a (h.keys ▸ hk)]
    exact h
  · have hk' : k ∉ m'.keys := h.keys ▸ hk
    have hplace := h.placed_cons (.inserted k) []
    simp only [List.nil_append] at hplace
    rw [UnorderedMap.insert, UnorderedMap.insert, dif_neg hk, dif_neg hk']
    refine ⟨?_, h.placed_cons (.inserted k)⟩
    simp only [h.entries, hplace]

theorem erase (h : Alike place place' m m') (k : κ) :
    Alike place place' (m.erase k) (m'.erase k) := by
  refine ⟨congrArg (List.filter fun p : κ × α => p.1 ≠ k) h.entries, ?_⟩
  rw [UnorderedMap.erase, UnorderedMap.erase, h.keys]
  by_cases hk : k ∈ m.keys
  · simp only [if_pos hk]
    exact h.placed_cons (.erased k)
  · simp only [if_neg hk]
    exact h.placed

theorem eraseAll (h : Alike place place' m m') (ks : List κ) :
    Alike place place' (m.eraseAll ks) (m'.eraseAll ks) := by
  induction ks generalizing m m' with
  | nil => exact h
  | cons k ks ih => exact ih (h.erase k)

end Alike
end UnorderedMap
