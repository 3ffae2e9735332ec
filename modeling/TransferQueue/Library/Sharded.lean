import Mathlib.Algebra.BigOperators.Fin
import Mathlib.Data.List.FinRange
import TransferQueue.Library.Machine

/-! A service of which every core runs one instance. A call mapped over the instances
runs on all of them; its results come in the order of the cores, and the whole call
fails when the call of one instance does. Items that are routed to the instances are,
all together, in the instances. -/

namespace Sharded

variable {k : ℕ} {σ β ε : Type*}

def map (f : Fin k → σ → Except ε β × σ) (s : Fin k → σ) : Except ε (List β) × (Fin k → σ) :=
  ((List.finRange k).mapM fun i => (f i (s i)).1, fun i => (f i (s i)).2)

theorem mapM_ok {α : Type*} {f : α → Except ε β} {g : α → β} (as : List α)
    (h : ∀ a, f a = .ok (g a)) : as.mapM f = .ok (as.map g) := by
  induction as with
  | nil => rfl
  | cons a as ih =>
    rw [List.mapM_cons, h a, ih]
    rfl

theorem mapM_error_iff {α : Type*} {f : α → Except ε β} (as : List α) :
    (∃ e, as.mapM f = .error e) ↔ ∃ a ∈ as, ∃ e, f a = .error e := by
  induction as with
  | nil => simp [pure, Except.pure]
  | cons a as ih =>
    rw [List.mapM_cons, List.exists_mem_cons_iff, ← ih]
    cases f a with
    | error e => exact ⟨fun _ => .inl ⟨e, rfl⟩, fun _ => ⟨e, rfl⟩⟩
    | ok b =>
      cases as.mapM f with
      | error e => exact ⟨fun _ => .inr ⟨e, rfl⟩, fun _ => ⟨e, rfl⟩⟩
      | ok bs =>
        constructor
        · rintro ⟨e, he⟩
          cases he
        · rintro (⟨e, he⟩ | ⟨e, he⟩) <;> cases he

variable {f : Fin k → σ → Except ε β × σ} {s : Fin k → σ}

theorem map_ok {g : Fin k → β} (h : ∀ i, (f i (s i)).1 = .ok (g i)) :
    (map f s).1 = .ok ((List.finRange k).map g) :=
  mapM_ok _ h

theorem map_error_iff :
    (∃ e, (map f s).1 = .error e) ↔ ∃ i e, (f i (s i)).1 = .error e := by
  rw [map, mapM_error_iff]
  simp

section Routing
variable {α : Type*} {parts : Fin k → List α} {whole : List α} {route : α → Fin k}

theorem flatMap_perm (route : α → Fin k) (hwhole : whole.Nodup) (hparts : ∀ i, (parts i).Nodup)
    (hmem : ∀ i a, a ∈ parts i ↔ a ∈ whole ∧ route a = i) :
    ((List.finRange k).flatMap parts).Perm whole := by
  have hnodup : ((List.finRange k).flatMap parts).Nodup := by
    refine List.nodup_flatMap.mpr ⟨fun i _ => hparts i, ?_⟩
    refine (List.nodup_finRange k).pairwise_of_forall_ne fun i _ j _ hij => ?_
    exact fun a hi hj => hij (((hmem i a).mp hi).2.symm.trans ((hmem j a).mp hj).2)
  refine (List.perm_ext_iff_of_nodup hnodup hwhole).mpr fun a => ?_
  simp [hmem]

theorem sum_length_filter (route : α → Fin k) (whole : List α) :
    ∑ i, (whole.filter fun a => route a = i).length = whole.length := by
  induction whole with
  | nil => simp
  | cons a whole ih =>
    have hlength : ∀ i, ((a :: whole).filter fun a => route a = i).length =
        (whole.filter fun a => route a = i).length + if route a = i then 1 else 0 := by
      intro i
      rw [List.filter_cons]
      split <;> simp_all
    simp only [hlength, Finset.sum_add_distrib, ih, Finset.sum_ite_eq, Finset.mem_univ, if_true,
      List.length_cons]

/-- Counting the keys on every core counts them all once exactly if no key gets to two
cores. -/
theorem sum_card_keys_eq_iff {β : Type*} [DecidableEq β] (route : α → Fin k) (key : α → β)
    (whole : List α) :
    ∑ i, ((whole.filter fun a => route a = i).map key).toFinset.card =
        (whole.map key).toFinset.card ↔
      ∀ a ∈ whole, ∀ b ∈ whole, key a = key b → route a = route b := by
  let pairs : Finset (Fin k × β) := (whole.map fun a => (route a, key a)).toFinset
  have hpairs : ∑ i, ((whole.filter fun a => route a = i).map key).toFinset.card = pairs.card := by
    rw [Finset.card_eq_sum_card_fiberwise (f := Prod.fst) (t := Finset.univ)
      fun _ _ => Finset.mem_univ _]
    refine Finset.sum_congr rfl fun i _ => ?_
    rw [← Finset.card_image_of_injective _ (Prod.mk_right_injective i)]
    congr 1
    ext p
    simp only [pairs, Finset.mem_image, List.mem_toFinset, List.mem_map, List.mem_filter,
      decide_eq_true_eq, Finset.mem_filter]
    constructor
    · rintro ⟨_, ⟨a, ⟨ha, rfl⟩, rfl⟩, rfl⟩
      exact ⟨⟨a, ha, rfl⟩, rfl⟩
    · rintro ⟨⟨a, ha, rfl⟩, rfl⟩
      exact ⟨_, ⟨a, ⟨ha, rfl⟩, rfl⟩, rfl⟩
  have hkeys : (whole.map key).toFinset = pairs.image Prod.snd := by
    ext b
    simp [pairs]
  rw [hpairs, hkeys, eq_comm, Finset.card_image_iff]
  constructor
  · intro hinj a ha b hb hkey
    have hmem : ∀ c ∈ whole, (route c, key c) ∈ (pairs : Set (Fin k × β)) := fun c hc =>
      Finset.mem_coe.mpr (List.mem_toFinset.mpr (List.mem_map.mpr ⟨c, hc, rfl⟩))
    exact congrArg Prod.fst (hinj (hmem a ha) (hmem b hb) hkey)
  · intro hroute p hp q hq hkey
    obtain ⟨a, ha, rfl⟩ := List.mem_map.mp (List.mem_toFinset.mp (Finset.mem_coe.mp hp))
    obtain ⟨b, hb, rfl⟩ := List.mem_map.mp (List.mem_toFinset.mp (Finset.mem_coe.mp hq))
    exact Prod.ext (hroute a ha b hb hkey) hkey

end Routing

section Steps
variable {α : Type*} (route : α → Fin k) (step : Fin k → σ → α → β × σ)

def routed (s : Fin k → σ) (a : α) : β × (Fin k → σ) :=
  ((step (route a) (s (route a)) a).1,
    Function.update s (route a) (step (route a) (s (route a)) a).2)

theorem routed_self (s : Fin k → σ) (a : α) :
    (routed route step s a).2 (route a) = (step (route a) (s (route a)) a).2 :=
  Function.update_self ..

theorem routed_of_ne (s : Fin k → σ) {a : α} {i : Fin k} (h : route a ≠ i) :
    (routed route step s a).2 i = s i :=
  Function.update_of_ne h.symm ..

theorem final_routed (as : List α) (s : Fin k → σ) (i : Fin k) :
    Machine.final (routed route step) s as i =
      Machine.final (step i) (s i) (as.filter fun a => route a = i) := by
  induction as generalizing s with
  | nil => rfl
  | cons a as ih =>
    rw [Machine.final_cons, ih]
    by_cases hi : route a = i
    · subst hi
      rw [List.filter_cons_of_pos (by simp), Machine.final_cons, routed_self]
    · rw [List.filter_cons_of_neg (by simpa using hi), routed_of_ne _ _ _ hi]

theorem outputs_routed (as : List α) (s : Fin k → σ) (i : Fin k) :
    ((as.zip (Machine.outputs (routed route step) s as)).filter fun p => route p.1 = i).map
        Prod.snd = Machine.outputs (step i) (s i) (as.filter fun a => route a = i) := by
  induction as generalizing s with
  | nil => rfl
  | cons a as ih =>
    rw [Machine.outputs, List.zip_cons_cons]
    have hrest := ih (routed route step s a).2
    by_cases hi : route a = i
    · subst hi
      rw [routed_self] at hrest
      rw [List.filter_cons_of_pos (by simp), List.filter_cons_of_pos (by simp), List.map_cons,
        Machine.outputs, ← hrest]
      rfl
    · rw [routed_of_ne _ _ _ hi] at hrest
      rw [List.filter_cons_of_neg (by simpa using hi), List.filter_cons_of_neg (by simpa using hi),
        ← hrest]

theorem outputs_length (step : σ → α → β × σ) (as : List α) (s : σ) :
    (Machine.outputs step s as).length = as.length := by
  induction as generalizing s with
  | nil => rfl
  | cons a as ih => rw [Machine.outputs, List.length_cons, List.length_cons, ih]

variable {route step}

theorem forall_outputs_routed {P : β → Prop} {as : List α} {s : Fin k → σ}
    (h : ∀ b ∈ Machine.outputs (routed route step) s as, P b) (i : Fin k) :
    ∀ b ∈ Machine.outputs (step i) (s i) (as.filter fun a => route a = i), P b := by
  intro b hb
  rw [← outputs_routed] at hb
  obtain ⟨p, hp, rfl⟩ := List.mem_map.mp hb
  exact h _ (List.of_mem_zip (List.mem_of_mem_filter hp)).2

theorem sum_countP_routed (P : β → Bool) (as : List α) (s : Fin k → σ) :
    ∑ i, (Machine.outputs (step i) (s i) (as.filter fun a => route a = i)).countP P =
      (Machine.outputs (routed route step) s as).countP P := by
  have hwhole : (Machine.outputs (routed route step) s as).countP P =
      ((as.zip (Machine.outputs (routed route step) s as)).filter fun p => P p.2).length := by
    have hsnd : ((as.zip (Machine.outputs (routed route step) s as)).map Prod.snd) =
        Machine.outputs (routed route step) s as :=
      List.map_snd_zip (outputs_length ..).le
    conv_lhs => rw [← hsnd]
    rw [List.countP_map, List.countP_eq_length_filter]
    rfl
  rw [hwhole, ← sum_length_filter fun p => route p.1]
  refine Finset.sum_congr rfl fun i _ => ?_
  rw [← outputs_routed, List.countP_map, List.countP_eq_length_filter, List.filter_filter,
    List.filter_filter]
  simp only [Function.comp_apply, Bool.and_comm]

end Steps

section Order

def inOrder (f : Fin k → σ → β × σ) : List (Fin k) → (Fin k → σ) → List β × (Fin k → σ)
  | [], s => ([], s)
  | i :: order, s =>
    let rest := inOrder f order (Function.update s i (f i (s i)).2)
    ((f i (s i)).1 :: rest.1, rest.2)

/-- No call sees another, so the order decides nothing but the order of the results. -/
theorem inOrder_eq (f : Fin k → σ → β × σ) {order : List (Fin k)} (h : order.Nodup)
    (s : Fin k → σ) :
    inOrder f order s =
      (order.map fun i => (f i (s i)).1, fun i => if i ∈ order then (f i (s i)).2 else s i) := by
  induction order generalizing s with
  | nil => rfl
  | cons i order ih =>
    obtain ⟨hnotin, hnodup⟩ := List.nodup_cons.mp h
    have hother : ∀ j ∈ order, Function.update s i (f i (s i)).2 j = s j := fun j hj =>
      Function.update_of_ne (fun heq => hnotin (by rwa [heq] at hj)) _ _
    rw [inOrder, ih hnodup]
    refine Prod.ext ?_ (funext fun j => ?_)
    · exact congrArg (List.cons _) (List.map_congr_left fun j hj => by rw [hother j hj])
    · by_cases hj : j ∈ order
      · simp [hj, hother j hj]
      · by_cases hi : j = i
        · subst hi
          simp [hj]
        · simp [hj, hi]

end Order

end Sharded
