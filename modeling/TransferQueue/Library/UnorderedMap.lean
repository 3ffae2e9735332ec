import Mathlib.Algebra.BigOperators.Group.List.Basic
import Mathlib.Data.List.Sort
import Mathlib.Data.List.Nodup
import Mathlib.Data.List.Perm.Basic

/-! Hash maps with an arbitrary iteration order.
Entries are stored in iteration order. Where an inserted key lands is decided by
a placement policy, a function of the history of key insertions and erasures;
erasing a key keeps the relative order of the others. A loop over the map may
rewrite the values it passes, stop early, or fail. -/

inductive KeyEvent (κ : Type*) where
  | inserted (key : κ)
  | erased (key : κ)
  | cleared

/-- The rank of each key in iteration order after a history (newest first). -/
abbrev Placement (κ : Type*) := List (KeyEvent κ) → κ → ℕ

structure UnorderedMap (κ α : Type*) where
  entries : List (κ × α)
  history : List (KeyEvent κ)
  nodup : (entries.map Prod.fst).Nodup

namespace UnorderedMap

variable {κ α β σ : Type*}

theorem ext {m n : UnorderedMap κ α} (he : m.entries = n.entries)
    (hh : m.history = n.history) : m = n := by
  cases m
  cases n
  simp only [mk.injEq]
  exact ⟨he, hh⟩

def empty : UnorderedMap κ α := ⟨[], [], List.nodup_nil⟩

def keys (m : UnorderedMap κ α) : List κ := m.entries.map Prod.fst

theorem mem_keys {m : UnorderedMap κ α} {k : κ} :
    k ∈ m.keys ↔ ∃ a, (k, a) ∈ m.entries := by
  simp [keys]

theorem value_unique {m : UnorderedMap κ α} {k : κ} {a b : α}
    (ha : (k, a) ∈ m.entries) (hb : (k, b) ∈ m.entries) : a = b :=
  (Prod.mk.inj (List.inj_on_of_nodup_map m.nodup ha hb rfl)).2

def clear (m : UnorderedMap κ α) : UnorderedMap κ α := ⟨[], .cleared :: m.history, List.nodup_nil⟩

def mapValues (f : κ → α → β) (m : UnorderedMap κ α) : UnorderedMap κ β where
  entries := m.entries.map fun p => (p.1, f p.1 p.2)
  history := m.history
  nodup := by simpa [Function.comp_def] using m.nodup

@[simp] theorem mapValues_entries (f : κ → α → β) (m : UnorderedMap κ α) :
    (m.mapValues f).entries = m.entries.map fun p => (p.1, f p.1 p.2) := rfl

@[simp] theorem mapValues_history (f : κ → α → β) (m : UnorderedMap κ α) :
    (m.mapValues f).history = m.history := rfl

@[simp] theorem mapValues_keys (f : κ → α → β) (m : UnorderedMap κ α) :
    (m.mapValues f).keys = m.keys := by
  simp [keys, Function.comp_def]

theorem mapValues_congr {f g : κ → α → β} {m : UnorderedMap κ α}
    (h : ∀ k a, (k, a) ∈ m.entries → f k a = g k a) : m.mapValues f = m.mapValues g :=
  ext (List.map_congr_left fun p hp => by rw [h p.1 p.2 hp]) rfl

theorem mapValues_self {f : κ → α → α} {m : UnorderedMap κ α}
    (h : ∀ k a, (k, a) ∈ m.entries → f k a = a) : m.mapValues f = m := by
  rw [mapValues_congr (g := fun _ a => a) h]
  exact ext (List.map_id _) rfl

section Sum
variable [AddCommMonoid β] (f : κ → α → β)

def sum (m : UnorderedMap κ α) : β := (m.entries.map fun p => f p.1 p.2).sum

theorem sum_mapValues {γ : Type*} (g : κ → γ → α) (m : UnorderedMap κ γ) :
    (m.mapValues g).sum f = m.sum fun k c => f k (g k c) := by
  rw [sum, mapValues_entries, List.map_map]
  rfl

theorem sum_congr {f g : κ → α → β} {m : UnorderedMap κ α}
    (h : ∀ k a, (k, a) ∈ m.entries → f k a = g k a) : m.sum f = m.sum g :=
  congrArg List.sum (List.map_congr_left fun p hp => h p.1 p.2 hp)

end Sum

section Lookup
variable [DecidableEq κ]

def get? (m : UnorderedMap κ α) (k : κ) : Option α :=
  (m.entries.find? fun p => p.1 = k).map Prod.snd

theorem get?_eq_some_iff {m : UnorderedMap κ α} {k : κ} {a : α} :
    m.get? k = some a ↔ (k, a) ∈ m.entries := by
  constructor
  · intro h
    obtain ⟨⟨k', a'⟩, hfind, rfl⟩ := Option.map_eq_some_iff.mp h
    have hk : k' = k := by simpa using List.find?_some hfind
    subst hk
    exact List.mem_of_find?_eq_some hfind
  · intro h
    cases hfind : m.entries.find? fun p => p.1 = k with
    | none => simpa using List.find?_eq_none.mp hfind _ h
    | some p =>
      have hp : p = (k, a) := List.inj_on_of_nodup_map m.nodup
        (List.mem_of_find?_eq_some hfind) h (by simpa using List.find?_some hfind)
      simp [get?, hfind, hp]

theorem get?_eq_none_iff {m : UnorderedMap κ α} {k : κ} :
    m.get? k = none ↔ k ∉ m.keys := by
  rw [Option.eq_none_iff_forall_ne_some, mem_keys]
  simp only [ne_eq, get?_eq_some_iff, not_exists]

theorem get?_congr {m n : UnorderedMap κ α} {k : κ}
    (h : ∀ a, (k, a) ∈ m.entries ↔ (k, a) ∈ n.entries) : m.get? k = n.get? k := by
  ext a
  rw [get?_eq_some_iff, get?_eq_some_iff, h]

theorem get?_mapValues (f : κ → α → β) (m : UnorderedMap κ α) (k : κ) :
    (m.mapValues f).get? k = (m.get? k).map (f k) := by
  cases hm : m.get? k with
  | none =>
    rw [get?_eq_none_iff] at hm
    simpa [get?_eq_none_iff, keys, Function.comp_def] using hm
  | some a =>
    rw [get?_eq_some_iff] at hm
    rw [Option.map_some, get?_eq_some_iff]
    exact List.mem_map.mpr ⟨(k, a), hm, rfl⟩

/-- Assign the value of a key that is present; other keys are untouched. -/
def set (m : UnorderedMap κ α) (k : κ) (a : α) : UnorderedMap κ α :=
  m.mapValues fun k' a' => if k' = k then a else a'

theorem mem_set {m : UnorderedMap κ α} {k k' : κ} {a a' : α} :
    (k', a') ∈ (m.set k a).entries ↔
      (k' = k ∧ a' = a ∧ k ∈ m.keys) ∨ (k' ≠ k ∧ (k', a') ∈ m.entries) := by
  simp only [set, mapValues_entries, List.mem_map, Prod.mk.injEq, Prod.exists, mem_keys]
  constructor
  · rintro ⟨k₀, a₀, hmem, rfl, rfl⟩
    by_cases hk : k₀ = k
    · exact .inl ⟨hk, by simp [hk], a₀, hk ▸ hmem⟩
    · exact .inr ⟨hk, by simpa [hk] using hmem⟩
  · rintro (⟨rfl, rfl, a₀, hmem⟩ | ⟨hk, hmem⟩)
    · exact ⟨k', a₀, hmem, rfl, by simp⟩
    · exact ⟨k', a', hmem, rfl, by simp [hk]⟩

theorem get?_set_self {m : UnorderedMap κ α} {k : κ} (a : α) (h : k ∈ m.keys) :
    (m.set k a).get? k = some a := by
  rw [get?_eq_some_iff, mem_set]
  exact .inl ⟨rfl, rfl, h⟩

theorem get?_set_ne {m : UnorderedMap κ α} {k k' : κ} (a : α) (h : k' ≠ k) :
    (m.set k a).get? k' = m.get? k' := by
  apply get?_congr
  intro b
  rw [mem_set]
  exact ⟨fun hb => hb.elim (fun he => absurd he.1 h) And.right, fun hb => .inr ⟨h, hb⟩⟩

theorem set_mapValues (f : κ → α → β) (m : UnorderedMap κ α) (k : κ) (a : α) :
    (m.set k a).mapValues f = (m.mapValues f).set k (f k a) := by
  refine ext ?_ rfl
  simp only [set, mapValues_entries, List.map_map, List.map_inj_left, Function.comp_apply,
    Prod.mk.injEq, true_and]
  intro p _
  by_cases hp : p.1 = k <;> simp [hp]

/-- Insert a key that is absent, at the place the policy gives it. A key that is
present keeps its value. -/
def insert (place : Placement κ) (m : UnorderedMap κ α) (k : κ) (a : α) : UnorderedMap κ α :=
  if h : k ∈ m.keys then m
  else
    let history := .inserted k :: m.history
    { entries := ((k, a) :: m.entries).insertionSort
        fun x y => place history x.1 ≤ place history y.1
      history
      nodup := ((List.perm_insertionSort _ _).map Prod.fst).nodup_iff.mpr
        (List.nodup_cons.mpr ⟨h, m.nodup⟩) }

theorem insert_entries_perm (place : Placement κ) {m : UnorderedMap κ α} {k : κ} (a : α)
    (h : k ∉ m.keys) : (m.insert place k a).entries.Perm ((k, a) :: m.entries) := by
  rw [insert, dif_neg h]
  exact List.perm_insertionSort _ _

theorem insert_of_mem (place : Placement κ) {m : UnorderedMap κ α} {k : κ} (a : α)
    (h : k ∈ m.keys) : m.insert place k a = m := dif_pos h

theorem mem_insert (place : Placement κ) {m : UnorderedMap κ α} {k : κ} {a : α}
    (h : k ∉ m.keys) (p : κ × α) :
    p ∈ (m.insert place k a).entries ↔ p = (k, a) ∨ p ∈ m.entries := by
  rw [(insert_entries_perm place a h).mem_iff, List.mem_cons]

theorem get?_insert_self (place : Placement κ) {m : UnorderedMap κ α} {k : κ} (a : α)
    (h : k ∉ m.keys) : (m.insert place k a).get? k = some a := by
  rw [get?_eq_some_iff, mem_insert place h]
  exact .inl rfl

theorem get?_insert_ne (place : Placement κ) {m : UnorderedMap κ α} {k k' : κ} (a : α)
    (hk : k' ≠ k) : (m.insert place k a).get? k' = m.get? k' := by
  by_cases h : k ∈ m.keys
  · rw [insert_of_mem place a h]
  · apply get?_congr
    intro b
    rw [mem_insert place h]
    exact ⟨fun hb => hb.elim (fun he => absurd (congrArg Prod.fst he) hk) id, .inr⟩

theorem insert_mapValues (place : Placement κ) (f : κ → α → β) (m : UnorderedMap κ α)
    (k : κ) (a : α) :
    (m.insert place k a).mapValues f = (m.mapValues f).insert place k (f k a) := by
  by_cases h : k ∈ m.keys
  · rw [insert_of_mem place a h, insert_of_mem place (f k a) (by simpa using h)]
  · have h' : k ∉ (m.mapValues f).keys := by simpa using h
    refine ext ?_ ?_
    · rw [mapValues_entries, insert, insert, dif_neg h, dif_neg h']
      exact List.map_insertionSort _ _ _ _ fun _ _ _ _ => Iff.rfl
    · rw [mapValues_history, insert, insert, dif_neg h, dif_neg h']
      rfl

theorem set_of_not_mem {m : UnorderedMap κ α} {k : κ} (a : α) (h : k ∉ m.keys) :
    m.set k a = m := by
  refine ext ?_ rfl
  rw [set, mapValues_entries]
  conv_rhs => rw [← List.map_id m.entries]
  apply List.map_congr_left
  intro p hp
  have hne : p.1 ≠ k := fun he => h (he ▸ List.mem_map_of_mem hp)
  simp [hne]

theorem set_of_get? {m : UnorderedMap κ α} {k : κ} {a : α} (h : m.get? k = some a) :
    m.set k a = m := by
  refine ext ?_ rfl
  rw [set, mapValues_entries]
  conv_rhs => rw [← List.map_id m.entries]
  apply List.map_congr_left
  rintro ⟨k', a'⟩ hp
  by_cases hk : k' = k
  · subst hk
    simp [value_unique hp (get?_eq_some_iff.mp h)]
  · simp [hk]

theorem insert_set_self (place : Placement κ) {m : UnorderedMap κ α} {k : κ} (a b : α)
    (h : k ∉ m.keys) : (m.insert place k a).set k b = m.insert place k b := by
  rw [set, insert_mapValues, ← set, set_of_not_mem b h, if_pos rfl]

/-- Erasing an absent key is not an event. -/
def erase (m : UnorderedMap κ α) (k : κ) : UnorderedMap κ α where
  entries := m.entries.filter fun p => p.1 ≠ k
  history := if k ∈ m.keys then .erased k :: m.history else m.history
  nodup := m.nodup.sublist (List.filter_sublist.map Prod.fst)

theorem mem_erase {m : UnorderedMap κ α} {k : κ} (p : κ × α) :
    p ∈ (m.erase k).entries ↔ p ∈ m.entries ∧ p.1 ≠ k := by
  simp [erase]

theorem get?_erase_self (m : UnorderedMap κ α) (k : κ) : (m.erase k).get? k = none := by
  rw [get?_eq_none_iff, mem_keys]
  rintro ⟨a, ha⟩
  exact ((mem_erase _).mp ha).2 rfl

theorem get?_erase_ne {m : UnorderedMap κ α} {k k' : κ} (h : k' ≠ k) :
    (m.erase k).get? k' = m.get? k' := by
  apply get?_congr
  intro a
  rw [mem_erase]
  exact ⟨And.left, fun ha => ⟨ha, h⟩⟩

theorem erase_of_not_mem {m : UnorderedMap κ α} {k : κ} (h : k ∉ m.keys) : m.erase k = m := by
  refine ext ?_ (if_neg h)
  rw [erase, List.filter_eq_self]
  intro p hp
  simpa using fun he : p.1 = k => h (he ▸ List.mem_map_of_mem hp)

theorem erase_mapValues (f : κ → α → β) (m : UnorderedMap κ α) (k : κ) :
    (m.erase k).mapValues f = (m.mapValues f).erase k := by
  refine ext ?_ ?_
  · simp [erase, List.filter_map, Function.comp_def]
  · simp only [erase, mapValues_history, mapValues_keys]

def eraseAll (m : UnorderedMap κ α) (ks : List κ) : UnorderedMap κ α := ks.foldl erase m

@[simp] theorem eraseAll_nil (m : UnorderedMap κ α) : m.eraseAll [] = m := rfl

@[simp] theorem eraseAll_cons (m : UnorderedMap κ α) (k : κ) (ks : List κ) :
    m.eraseAll (k :: ks) = (m.erase k).eraseAll ks := rfl

theorem eraseAll_entries (m : UnorderedMap κ α) (ks : List κ) :
    (m.eraseAll ks).entries = m.entries.filter fun p => p.1 ∉ ks := by
  induction ks generalizing m with
  | nil => simp
  | cons k ks ih =>
    rw [eraseAll_cons, ih]
    simp [erase, List.filter_filter, Bool.and_comm]

theorem mem_eraseAll {m : UnorderedMap κ α} {ks : List κ} (p : κ × α) :
    p ∈ (m.eraseAll ks).entries ↔ p ∈ m.entries ∧ p.1 ∉ ks := by
  simp [eraseAll_entries]

theorem filter_eraseAll (m : UnorderedMap κ α) (P : κ × α → Bool) {taken rest : List (κ × α)}
    (h : m.entries.filter P = taken ++ rest) :
    (m.eraseAll (taken.map Prod.fst)).entries.filter P = rest := by
  have hnodup : ((taken ++ rest).map Prod.fst).Nodup :=
    h ▸ m.nodup.sublist (List.filter_sublist.map Prod.fst)
  rw [List.map_append] at hnodup
  rw [eraseAll_entries, List.filter_filter]
  simp only [Bool.and_comm (P _)]
  rw [← List.filter_filter, h, List.filter_append, List.filter_eq_nil_iff.mpr,
    List.filter_eq_self.mpr, List.nil_append]
  · intro p hp
    have hout : p.1 ∉ taken.map Prod.fst := fun hin =>
      (List.nodup_append'.mp hnodup).2.2 hin (List.mem_map_of_mem hp)
    exact decide_eq_true hout
  · intro p hp
    have hin : p.1 ∈ taken.map Prod.fst := List.mem_map_of_mem hp
    rw [decide_eq_true_iff]
    exact fun hout => hout hin

theorem get?_eraseAll_of_mem {m : UnorderedMap κ α} {ks : List κ} {k : κ} (h : k ∈ ks) :
    (m.eraseAll ks).get? k = none := by
  rw [get?_eq_none_iff, mem_keys]
  rintro ⟨a, ha⟩
  exact ((mem_eraseAll _).mp ha).2 h

theorem get?_eraseAll_of_not_mem {m : UnorderedMap κ α} {ks : List κ} {k : κ} (h : k ∉ ks) :
    (m.eraseAll ks).get? k = m.get? k := by
  apply get?_congr
  intro a
  rw [mem_eraseAll]
  exact ⟨And.left, fun ha => ⟨ha, h⟩⟩

theorem eraseAll_mapValues (f : κ → α → β) (m : UnorderedMap κ α) (ks : List κ) :
    (m.eraseAll ks).mapValues f = (m.mapValues f).eraseAll ks := by
  induction ks generalizing m with
  | nil => rfl
  | cons k ks ih => rw [eraseAll_cons, eraseAll_cons, ih, erase_mapValues]

section Sums
variable [AddCommMonoid β] (f : κ → α → β)

theorem erase_perm {m : UnorderedMap κ α} {k : κ} {a : α} (h : m.get? k = some a) :
    m.entries.Perm ((k, a) :: (m.erase k).entries) := by
  have hmem := get?_eq_some_iff.mp h
  have hnot : (k, a) ∉ (m.erase k).entries := fun hin => ((mem_erase _).mp hin).2 rfl
  refine (List.perm_ext_iff_of_nodup m.nodup.of_map
    (List.nodup_cons.mpr ⟨hnot, (m.erase k).nodup.of_map⟩)).mpr fun p => ?_
  rw [List.mem_cons, mem_erase]
  constructor
  · intro hp
    by_cases hk : p.1 = k
    · exact .inl (Prod.ext hk (value_unique (hk ▸ hp) hmem))
    · exact .inr ⟨hp, hk⟩
  · rintro (rfl | ⟨hp, -⟩)
    · exact hmem
    · exact hp

theorem sum_erase {m : UnorderedMap κ α} {k : κ} {a : α} (h : m.get? k = some a) :
    m.sum f = f k a + (m.erase k).sum f := by
  rw [sum, ((erase_perm h).map _).sum_eq, List.map_cons, List.sum_cons, sum]

theorem sum_insert (place : Placement κ) {m : UnorderedMap κ α} {k : κ} (a : α)
    (h : k ∉ m.keys) : (m.insert place k a).sum f = f k a + m.sum f := by
  rw [sum, ((insert_entries_perm place a h).map _).sum_eq, List.map_cons, List.sum_cons, sum]

theorem erase_set (m : UnorderedMap κ α) (k : κ) (a : α) :
    ((m.set k a).erase k).entries = (m.erase k).entries := by
  simp only [erase, set, mapValues_entries, List.filter_map]
  conv_rhs => rw [← List.map_id (m.entries.filter _)]
  refine List.map_congr_left fun p hp => ?_
  have hne : p.1 ≠ k := by simpa using List.of_mem_filter hp
  simp [hne]

theorem sum_set {m : UnorderedMap κ α} {k : κ} {a : α} (b : α) (h : m.get? k = some a) :
    (m.set k b).sum f + f k a = m.sum f + f k b := by
  have hkey : k ∈ m.keys := mem_keys.mpr ⟨a, get?_eq_some_iff.mp h⟩
  have herase : ((m.set k b).erase k).sum f = (m.erase k).sum f :=
    congrArg (fun l => (List.map _ l).sum) (erase_set m k b)
  rw [sum_erase f (get?_set_self b hkey), sum_erase f h, herase, add_right_comm, add_comm (f k b),
    add_right_comm]

theorem sum_eraseAll {m : UnorderedMap κ α} {taken : List (κ × α)}
    (hsub : taken.Sublist m.entries) :
    m.sum f = (taken.map fun p => f p.1 p.2).sum + (m.eraseAll (taken.map Prod.fst)).sum f := by
  have hperm : m.entries.Perm (taken ++ (m.eraseAll (taken.map Prod.fst)).entries) := by
    have hin : ∀ p ∈ m.entries, p ∈ taken ↔ p.1 ∈ taken.map Prod.fst := by
      intro p hp
      refine ⟨fun h => List.mem_map_of_mem h, fun h => ?_⟩
      obtain ⟨q, hq, heq⟩ := List.mem_map.mp h
      have hvalue : q.2 = p.2 := value_unique (k := p.1) (heq ▸ hsub.subset hq) hp
      exact Prod.ext heq hvalue ▸ hq
    refine (List.perm_ext_iff_of_nodup m.nodup.of_map ?_).mpr fun p => ?_
    · refine List.nodup_append'.mpr ⟨m.nodup.of_map.sublist hsub,
        (m.eraseAll (taken.map Prod.fst)).nodup.of_map, fun p hp hp' => ?_⟩
      exact ((mem_eraseAll _).mp hp').2 (List.mem_map_of_mem hp)
    · rw [List.mem_append, mem_eraseAll]
      constructor
      · intro hp
        by_cases h : p ∈ taken
        · exact .inl h
        · exact .inr ⟨hp, fun hk => h ((hin p hp).mpr hk)⟩
      · rintro (hp | ⟨hp, -⟩)
        · exact hsub.subset hp
        · exact hp
  rw [sum, (hperm.map _).sum_eq, List.map_append, List.sum_append, sum]

end Sums

end Lookup

section Loops

/-- One pass of a loop body: go on with a new accumulator and value, break, or fail. -/
inductive LoopStep (σ α : Type*) where
  | next (acc : σ) (value : α)
  | stop
  | fail

/-- The loop over the entries, in iteration order, with the values it leaves behind. -/
def loop (body : σ → κ → α → LoopStep σ α) : σ → List (κ × α) → Option (σ × List (κ × α))
  | acc, [] => some (acc, [])
  | acc, (k, a) :: rest =>
    match body acc k a with
    | .next acc' a' => (loop body acc' rest).map fun r => (r.1, (k, a') :: r.2)
    | .stop => some (acc, (k, a) :: rest)
    | .fail => none

theorem loop_keys {body : σ → κ → α → LoopStep σ α} {acc : σ} {entries : List (κ × α)}
    {r : σ × List (κ × α)} (h : loop body acc entries = some r) :
    r.2.map Prod.fst = entries.map Prod.fst := by
  induction entries generalizing acc r with
  | nil =>
    cases h
    rfl
  | cons p rest ih =>
    obtain ⟨k, a⟩ := p
    simp only [loop] at h
    split at h
    · obtain ⟨r', hr', rfl⟩ := Option.map_eq_some_iff.mp h
      simp only [List.map_cons, ih hr']
    · cases h
      rfl
    · cases h

/-- `for (auto& [key, value] : map)`. -/
def forEach (body : σ → κ → α → LoopStep σ α) (acc : σ) (m : UnorderedMap κ α) :
    Option (σ × UnorderedMap κ α) :=
  (loop body acc m.entries).pmap
    (fun r (h : r.2.map Prod.fst = m.entries.map Prod.fst) =>
      (r.1, { entries := r.2, history := m.history, nodup := h ▸ m.nodup }))
    fun _ h => loop_keys h

theorem forEach_eq_none_iff {body : σ → κ → α → LoopStep σ α} {acc : σ}
    {m : UnorderedMap κ α} : forEach body acc m = none ↔ loop body acc m.entries = none := by
  simp [forEach]

theorem forEach_eq_some_iff {body : σ → κ → α → LoopStep σ α} {acc acc' : σ}
    {m m' : UnorderedMap κ α} :
    forEach body acc m = some (acc', m') ↔
      loop body acc m.entries = some (acc', m'.entries) ∧ m'.history = m.history := by
  simp only [forEach, Option.pmap_eq_some_iff]
  constructor
  · rintro ⟨r, _, hr, heq⟩
    cases heq
    exact ⟨hr, rfl⟩
  · rintro ⟨hr, hh⟩
    refine ⟨(acc', m'.entries), loop_keys hr, hr, ?_⟩
    simp only [Prod.mk.injEq, true_and]
    exact ext rfl hh

end Loops
end UnorderedMap
