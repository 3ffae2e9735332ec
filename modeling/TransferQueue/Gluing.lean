import TransferQueue.ManagerOps
import TransferQueue.Acknowledgement

/-! Buffers that share the instances of one buffer among them. As long as every operation
on an instance goes to the buffer that the instance is routed to, they stay pieces of
the one buffer: together they hold its groups and count what it counts. -/

namespace TransferQueue
open UnorderedMap

namespace Buffer

def group (b : Buffer) (id : String) : Option TrajectoryGroup :=
  (b.groups.get? id).map Stored.group

def stored (b : Buffer) : List (String × TrajectoryGroup) :=
  b.groups.entries.map fun p => (p.1, p.2.group)

variable {env : Env}

theorem mem_stored {b : Buffer} {id : String} {g : TrajectoryGroup} :
    (id, g) ∈ b.stored ↔ b.group id = some g := by
  rw [stored, group, List.mem_map, Option.map_eq_some_iff]
  constructor
  · rintro ⟨p, hp, heq⟩
    obtain ⟨rfl, rfl⟩ := Prod.mk.inj heq
    exact ⟨p.2, get?_eq_some_iff.mpr hp, rfl⟩
  · rintro ⟨stored, hget, rfl⟩
    exact ⟨(id, stored), get?_eq_some_iff.mp hget, rfl⟩

theorem stored_ids_nodup (b : Buffer) : (b.stored.map Prod.fst).Nodup := by
  rw [stored, List.map_map]
  exact b.groups.nodup

theorem dedup_off {b : Buffer} (hoff : b.settings.uidDedup = false) (uid : String) :
    b.dedup env uid = (true, b) := by
  rw [dedup, hoff, if_neg Bool.false_ne_true]

theorem write_group (env : Env) {b : Buffer} (hoff : b.settings.uidDedup = false) (t : Trajectory) :
    (b.write env false t).1 = true ∧
      (b.write env false t).2.group = Function.update b.group t.instanceId
        (some (((b.group t.instanceId).getD
          (TrajectoryGroup.create t.instanceId b.settings.groupSize)).add t)) ∧
      (b.write env false t).2.settings = b.settings ∧
      (b.write env false t).2.totalTrajectories = b.totalTrajectories + 1 ∧
      (b.write env false t).2.totalConsumed = b.totalConsumed := by
  rw [write, dedup_off hoff]
  refine ⟨rfl, funext fun id => ?_, ?_, append_totalTrajectories t b, ?_⟩
  · simp only [Bool.false_eq_true, if_false, Function.update_apply, group]
    cases hg : b.groups.get? t.instanceId with
    | some stored =>
      have hkey : t.instanceId ∈ b.groups.keys := mem_keys.mpr ⟨stored, get?_eq_some_iff.mp hg⟩
      simp only [append, hg]
      split
      · rename_i hid
        rw [hid, get?_set_self _ hkey]
        rfl
      · rename_i hid
        rw [get?_set_ne _ hid]
    | none =>
      have hkey := get?_eq_none_iff.mp hg
      simp only [append, hg]
      split
      · rename_i hid
        rw [hid, get?_insert_self _ _ hkey]
        rfl
      · rename_i hid
        rw [get?_insert_ne _ _ hid]
  · simp only [Bool.false_eq_true, if_false, append]
    split <;> rfl
  · simp only [Bool.false_eq_true, if_false, append]
    split <;> rfl

theorem take_group (b : Buffer) {maxGroups : Int32} (hunlimited : ¬0 < maxGroups) :
    (b.take maxGroups).2.group = fun id => (b.group id).filter fun g => !g.isComplete := by
  have hselected : b.selected maxGroups = b.ready := by
    rw [selected, BufferShard.limitTo, if_neg hunlimited]
  funext id
  simp only [group, take, hselected]
  cases hg : b.groups.get? id with
  | none =>
    have hid : id ∉ b.groups.keys := get?_eq_none_iff.mp hg
    have hnot : id ∉ b.ready.map Prod.fst := fun h =>
      hid ((List.filter_sublist.map Prod.fst).subset h)
    rw [get?_eraseAll_of_not_mem hnot, hg]
    rfl
  | some stored =>
    have hmem := get?_eq_some_iff.mp hg
    cases hc : stored.group.isComplete with
    | true =>
      have hid : id ∈ b.ready.map Prod.fst :=
        List.mem_map.mpr ⟨(id, stored), List.mem_filter.mpr ⟨hmem, hc⟩, rfl⟩
      rw [get?_eraseAll_of_mem hid]
      simp [Option.filter, hc]
    | false =>
      have hnot : id ∉ b.ready.map Prod.fst := by
        intro h
        obtain ⟨p, hp, rfl⟩ := List.mem_map.mp h
        obtain ⟨hp, hready⟩ := List.mem_filter.mp hp
        rw [value_unique hp hmem, hc] at hready
        cases hready
      rw [get?_eraseAll_of_not_mem hnot, hg]
      simp [Option.filter, hc]

theorem take_result (b : Buffer) {maxGroups : Int32} (hunlimited : ¬0 < maxGroups) :
    (b.take maxGroups).1 = (b.stored.filter fun p => p.2.isComplete).map Prod.snd := by
  rw [take, selected, BufferShard.limitTo, if_neg hunlimited, ready, stored, List.filter_map,
    List.map_map]
  rfl

theorem take_totalConsumed (b : Buffer) {maxGroups : Int32} (hunlimited : ¬0 < maxGroups) :
    (b.take maxGroups).2.totalConsumed = b.totalConsumed +
      ((b.stored.filter fun p => p.2.isComplete).map
        fun p => (p.2.trajectories.length : ℤ)).sum := by
  simp only [take, selected, BufferShard.limitTo, if_neg hunlimited, ready, stored,
    List.filter_map, List.map_map]
  rfl

theorem delete_group (id : String) (b : Buffer) :
    (b.delete id).group = Function.update b.group id none := by
  funext id'
  simp only [group, delete, Function.update_apply]
  split
  · rename_i hid
    rw [hid, get?_erase_self]
    rfl
  · rename_i hid
    rw [get?_erase_ne hid]

end Buffer

/-- Buffers that are the pieces of one, by the instances routed to them. -/
structure Glued {k : ℕ} (route : String → Fin k) (b : Fin k → Buffer) (whole : Buffer) :
    Prop where
  settings : ∀ i, (b i).settings = whole.settings
  group : ∀ i id, (b i).group id = if route id = i then whole.group id else none
  trajectories : ∑ i, (b i).totalTrajectories = whole.totalTrajectories
  consumed : ∑ i, (b i).totalConsumed = whole.totalConsumed

namespace Glued

variable {k : ℕ} {route : String → Fin k} {b : Fin k → Buffer} {whole : Buffer}

theorem stored_perm (h : Glued route b whole) :
    ((List.finRange k).flatMap fun i => (b i).stored).Perm whole.stored := by
  refine Sharded.flatMap_perm (fun p => route p.1) whole.stored_ids_nodup.of_map
    (fun i => (b i).stored_ids_nodup.of_map) fun i p => ?_
  obtain ⟨id, g⟩ := p
  rw [Buffer.mem_stored, Buffer.mem_stored, h.group]
  split <;> simp_all

theorem sum_stored (h : Glued route b whole) {α : Type*} [AddCommMonoid α]
    (f : String × TrajectoryGroup → α) :
    ∑ i, ((b i).stored.map f).sum = (whole.stored.map f).sum := by
  rw [← (h.stored_perm.map f).sum_eq, List.map_flatMap, List.flatMap, List.sum_flatten,
    List.map_map, Fin.sum_univ_def]
  rfl

theorem sum_update {α : Type*} [AddCommMonoid α] (f : Buffer → α) (b : Fin k → Buffer) (r : Fin k)
    {b' : Buffer} {d : α} (hf : f b' = f (b r) + d) :
    ∑ i, f (Function.update b r b' i) = ∑ i, f (b i) + d := by
  have hone : ∀ i, f (Function.update b r b' i) = f (b i) + if i = r then d else 0 := by
    intro i
    by_cases hi : i = r
    · subst hi
      rw [Function.update_self, hf, if_pos rfl]
    · rw [Function.update_of_ne hi, if_neg hi, add_zero]
  simp only [hone, Finset.sum_add_distrib, Finset.sum_ite_eq', Finset.mem_univ, if_true]

section Steps
variable {env₀ : Env} {env : Fin k → Env}

theorem update {whole' : Buffer} (h : Glued route b whole) (id : String) {b' : Buffer}
    {g : Option TrajectoryGroup} {d e : ℤ}
    (hsettings : b'.settings = whole.settings) (hsettings' : whole'.settings = whole.settings)
    (hgroup : b'.group = Function.update (b (route id)).group id g)
    (hgroup' : whole'.group = Function.update whole.group id g)
    (htotal : b'.totalTrajectories = (b (route id)).totalTrajectories + d)
    (htotal' : whole'.totalTrajectories = whole.totalTrajectories + d)
    (hconsumed : b'.totalConsumed = (b (route id)).totalConsumed + e)
    (hconsumed' : whole'.totalConsumed = whole.totalConsumed + e) :
    Glued route (Function.update b (route id) b') whole' where
  settings i := by
    by_cases hi : i = route id
    · subst hi
      rw [Function.update_self, hsettings, hsettings']
    · rw [Function.update_of_ne hi, h.settings, hsettings']
  group i id' := by
    rw [hgroup']
    by_cases hi : i = route id
    · subst hi
      rw [Function.update_self, hgroup]
      by_cases hid : id' = id
      · subst hid
        rw [Function.update_self, Function.update_self, if_pos rfl]
      · rw [Function.update_of_ne hid, Function.update_of_ne hid, h.group]
    · rw [Function.update_of_ne hi, h.group]
      by_cases hid : id' = id
      · subst hid
        rw [if_neg (Ne.symm hi), if_neg (Ne.symm hi)]
      · rw [Function.update_of_ne hid]
  trajectories := by
    rw [sum_update Buffer.totalTrajectories b _ htotal, h.trajectories, htotal']
  consumed := by
    rw [sum_update Buffer.totalConsumed b _ hconsumed, h.consumed, hconsumed']

theorem write (h : Glued route b whole) (env₀ : Env) (env : Fin k → Env)
    (hoff : whole.settings.uidDedup = false)
    (t : Trajectory) :
    Glued route (Function.update b (route t.instanceId)
      ((b (route t.instanceId)).write (env (route t.instanceId)) false t).2)
        (whole.write env₀ false t).2 := by
  have hsettings := h.settings (route t.instanceId)
  obtain ⟨-, hgroup, hset, htotal, hconsumed⟩ :=
    Buffer.write_group (env (route t.instanceId)) (hsettings ▸ hoff) t
  obtain ⟨-, hgroup', hset', htotal', hconsumed'⟩ :=
    Buffer.write_group env₀ hoff t
  have hsame : (b (route t.instanceId)).group t.instanceId = whole.group t.instanceId := by
    rw [h.group, if_pos rfl]
  rw [hsettings, hsame] at hgroup
  exact h.update t.instanceId (hset.trans hsettings) hset' hgroup hgroup' htotal htotal'
    (e := 0) (hconsumed.trans (add_zero _).symm) (hconsumed'.trans (add_zero _).symm)

theorem batch (h : Glued route b whole) (env₀ : Env) (env : Fin k → Env)
    (hoff : whole.settings.uidDedup = false)
    (ts : List Trajectory) :
    Glued route (fun i => Machine.final (Buffer.writeStep (env i)) (b i)
        ((ts.filter fun t => route t.instanceId = i).map fun t => (false, t)))
      (Machine.final (Buffer.writeStep env₀) whole (ts.map fun t => (false, t))) := by
  induction ts generalizing b whole with
  | nil => exact h
  | cons t ts ih =>
    have hwrite := h.write env₀ env hoff t
    have hoff' : (whole.write env₀ false t).2.settings.uidDedup = false := by
      rw [(Buffer.write_group env₀ hoff t).2.2.1, hoff]
    have hrest := ih hwrite hoff'
    rw [List.map_cons, Machine.final_cons, Buffer.writeStep]
    convert hrest using 2 with i
    by_cases hi : route t.instanceId = i
    · subst hi
      rw [List.filter_cons_of_pos (by simp), List.map_cons, Machine.final_cons,
        Function.update_self]
      rfl
    · rw [List.filter_cons_of_neg (by simpa using hi), Function.update_of_ne (Ne.symm hi)]

theorem take (h : Glued route b whole) {maxGroups : Int32} (hunlimited : ¬0 < maxGroups) :
    Glued route (fun i => ((b i).take maxGroups).2) (whole.take maxGroups).2 where
  settings i := h.settings i
  group i id := by
    simp only [Buffer.take_group _ hunlimited, h.group]
    split <;> rfl
  trajectories := h.trajectories
  consumed := by
    simp only [Buffer.take_totalConsumed _ hunlimited, Finset.sum_add_distrib, h.consumed]
    congr 1
    have hfilter : ∀ b : Buffer, ((b.stored.filter fun p => p.2.isComplete).map
        fun p => (p.2.trajectories.length : ℤ)).sum =
          (b.stored.map fun p => if p.2.isComplete then (p.2.trajectories.length : ℤ) else 0).sum :=
      fun b => by simp [List.sum_map_ite]
    simp only [hfilter]
    exact h.sum_stored _

theorem delete (h : Glued route b whole) (id : String) :
    Glued route (Function.update b (route id) ((b (route id)).delete id)) (whole.delete id) :=
  h.update id (h.settings _) rfl (Buffer.delete_group id _) (Buffer.delete_group id _)
    (d := 0) (add_zero _).symm (add_zero _).symm (e := 0) (add_zero _).symm (add_zero _).symm

theorem reset (h : Glued route b whole) : Glued route (fun i => (b i).reset) whole.reset where
  settings i := h.settings i
  group i id := by
    split <;> rfl
  trajectories := Finset.sum_const_zero
  consumed := Finset.sum_const_zero

end Steps

end Glued
end TransferQueue
