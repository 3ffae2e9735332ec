import Mathlib.Data.Multiset.OrderedMonoid
import TransferQueue.BufferManager

/-! What a read takes, whether it succeeds or fails. A read that fails has moved its groups
out of memory, and the files that it has removed before a removal failed are gone. -/

namespace TransferQueue

section Lists
variable {α β : Type*}

theorem filterMap_sublist {f g : α → Option β} {l : List α}
    (h : ∀ a ∈ l, f a = none ∨ f a = g a) : (l.filterMap f).Sublist (l.filterMap g) ∧
      (l.filterMap f = l.filterMap g ↔ ∀ a ∈ l, f a = g a) := by
  induction l with
  | nil => simp
  | cons a l ih =>
    obtain ⟨hsub, heq⟩ := ih fun b hb => h b (List.mem_cons_of_mem _ hb)
    rw [List.forall_mem_cons, ← heq]
    by_cases hsame : f a = g a
    · cases hg : g a with
      | none => simpa [hsame, hg] using hsub
      | some b => simpa [hsame, hg] using hsub
    · have hnone := (h a List.mem_cons_self).resolve_right hsame
      obtain ⟨b, hb⟩ := Option.ne_none_iff_exists'.mp fun hg => hsame (hnone.trans hg.symm)
      rw [List.filterMap_cons_none hnone, List.filterMap_cons_some hb]
      refine ⟨hsub.cons b, fun hlist => absurd (congrArg List.length hlist) ?_,
        fun hboth => absurd hboth.1 hsame⟩
      have hlength := hsub.length_le
      rw [List.length_cons]
      omega

theorem flatMap_sublist {f g : α → List β} {l : List α} (h : ∀ a ∈ l, (f a).Sublist (g a)) :
    (l.flatMap f).Sublist (l.flatMap g) ∧ (l.flatMap f = l.flatMap g ↔ ∀ a ∈ l, f a = g a) := by
  induction l with
  | nil => simp
  | cons a l ih =>
    obtain ⟨hsub, heq⟩ := ih fun b hb => h b (List.mem_cons_of_mem _ hb)
    have hfirst := h a List.mem_cons_self
    rw [List.flatMap_cons, List.flatMap_cons, List.forall_mem_cons, ← heq]
    refine ⟨hfirst.append hsub, fun hlist => ?_, fun hboth => by rw [hboth.1, hboth.2]⟩
    have htotal := congrArg List.length hlist
    have hle := hfirst.length_le
    have hle' := hsub.length_le
    rw [List.length_append, List.length_append] at htotal
    exact ⟨hfirst.eq_of_length (by omega), hsub.eq_of_length (by omega)⟩

end Lists

namespace BufferShard

variable {env : Env} {s : BufferShard} {maxGroups : Int32}

/-- A read takes no group: what it selects is on disk, and one of the loads fails or the first
removal. -/
def Untouched (env : Env) (s : BufferShard) (maxGroups : Int32) : Prop :=
  (∀ p ∈ s.selected maxGroups, p.2.isOnDisk = true) ∧
    (s.selected maxGroups = [] ∨
      ¬s.diskStorage.Answers env (filesOf (s.selected maxGroups)) ∨
      env.fault (s.diskStorage.calls + (filesOf (s.selected maxGroups)).length) = true)

theorem failed_read_files (h : s.Coherent env) (hread : ∀ p ∈ s.selected maxGroups, p.2.Readable)
    (hno : ¬s.Served env maxGroups) :
    ∃ e d' consumed, s.readReadyGroups env maxGroups = (.error e,
        { s.afterScan maxGroups with diskStorage := d', totalConsumed := consumed }) ∧
      (∀ offset, d'.find offset = s.diskStorage.find offset ∨
        offset ∈ filesOf (s.selected maxGroups) ∧ d'.find offset = none) ∧
      ((∀ offset, d'.find offset = s.diskStorage.find offset) ↔
        ¬s.diskStorage.Answers env (filesOf (s.selected maxGroups)) ∨
        env.fault (s.diskStorage.calls + (filesOf (s.selected maxGroups)).length) = true) := by
  have hnodup := h.exclusive.files_nodup (selectedOf_sublist maxGroups 0 s.groups.entries)
  have hoffsets : (s.scanOf maxGroups).offsetsToLoad = filesOf (s.selected maxGroups) := rfl
  have hdisk : (s.afterScan maxGroups).diskStorage = s.diskStorage := rfl
  obtain ⟨r, d₁, hload, hinit, -, hfiles, hr⟩ :=
    DiskStorage.loadBatch_spec env (filesOf (s.selected maxGroups)) h.initialized
  have hsame : ∀ offset, d₁.find offset = s.diskStorage.find offset := DiskStorage.find_congr hfiles
  rw [readReadyGroups, readScan_eq, if_pos hread]
  simp only [hoffsets, hdisk, hload]
  rcases hr with ⟨e, rfl, hfail⟩ | ⟨loaded, rfl, hyes, -, hcalls⟩
  · exact ⟨e, d₁, _, rfl, fun offset => .inl (hsame offset), fun _ => .inl hfail, fun _ => hsame⟩
  · have hserved : s.Served env maxGroups ↔ _ := served_iff hfiles hcalls
    have hfind : ∀ offset ∈ filesOf (s.selected maxGroups), d₁.find offset ≠ none :=
      fun offset ho => hsame offset ▸ hyes.1 offset ho
    have huntouched := DiskStorage.removeAll_untouched_iff env _ hinit hfind
    obtain ⟨r, d₂, hremove, -, -, hfind₂, hr⟩ :=
      DiskStorage.removeAll_spec env (filesOf (s.selected maxGroups)) hnodup hinit
        fun offset ho _ => hfind offset ho
    simp only [hsame] at hfind₂
    simp only [hremove, hsame] at huntouched
    rcases hr with ⟨e, rfl, hfail⟩ | ⟨units, rfl, hyes₂, -⟩
    · simp only [mergeLoaded, hremove]
      have hne : filesOf (s.selected maxGroups) ≠ [] := fun hnil => hno (by simp [Served, hnil])
      refine ⟨e, d₂, _, rfl, hfind₂, huntouched.trans ?_⟩
      rw [hcalls]
      simp only [hne, hyes, false_or, not_true]
    · exact absurd (hserved.mpr ⟨hyes, hyes₂⟩) hno

theorem Served.untouched_iff (h : s.Served env maxGroups) :
    s.Untouched env maxGroups ↔ s.selected maxGroups = [] := by
  refine ⟨fun ⟨hdisk, hfail⟩ => ?_, fun hnil => ⟨by simp [hnil], .inl hnil⟩⟩
  by_contra hne
  obtain ⟨p, hp⟩ := List.exists_mem_of_ne_nil _ hne
  have hfile : p.2.diskOffset ∈ filesOf (s.selected maxGroups) :=
    mem_filesOf.mpr ⟨p.1, p.2, hp, hdisk p hp, rfl⟩
  have hpos := List.length_pos_of_mem hfile
  rcases hfail.resolve_left hne with hno | hfault
  · exact hno ⟨h.1, fun j hj => h.2 j (by omega)⟩
  · cases hfault.symm.trans (h.2 _ (by omega))

def scanned (s : BufferShard) (maxGroups : Int32) (p : String × GroupEntry) : GroupEntry :=
  if p.1 ∈ (s.selected maxGroups).map Prod.fst then { p.2 with groupPtr := none } else p.2

theorem mem_selected_of_key {p : String × GroupEntry} (hp : p ∈ s.groups.entries)
    (hkey : p.1 ∈ (s.selected maxGroups).map Prod.fst) : p ∈ s.selected maxGroups := by
  obtain ⟨q, hq, heq⟩ := List.mem_map.mp hkey
  have hvalue : q.2 = p.2 := UnorderedMap.value_unique (heq ▸ (mem_of_selected hq).1) hp
  exact (Prod.ext heq hvalue : q = p) ▸ hq

theorem afterScan_ready (d : DiskStorage) (consumed : ℤ) :
    ({ s.afterScan maxGroups with diskStorage := d, totalConsumed := consumed } :
      BufferShard).readyGroups = (s.groups.entries.filter fun p => p.2.isComplete).filterMap
        fun p => (s.scanned maxGroups p).group? d := by
  have hcomplete : ∀ p ∈ s.groups.entries,
      (s.scanned maxGroups p).isComplete = p.2.isComplete := fun p hp => by
    rw [scanned]
    split
    · rename_i hkey
      exact (mem_of_selected (mem_selected_of_key hp hkey)).2.symm
    · rfl
  have hentries : (s.afterScan maxGroups).groups.entries =
      s.groups.entries.map fun p => (p.1, s.scanned maxGroups p) := rfl
  rw [readyGroups, hentries, List.filter_map, List.filterMap_map]
  simp only [Function.comp_def, List.filter_congr hcomplete]

theorem Coherent.scanned_kept (h : s.Coherent env) {d : DiskStorage}
    (hfind : ∀ offset, d.find offset = s.diskStorage.find offset ∨
      offset ∈ filesOf (s.selected maxGroups) ∧ d.find offset = none) {p : String × GroupEntry}
    (hp : p ∈ s.groups.entries) (hout : p ∉ s.selected maxGroups) :
    (s.scanned maxGroups p).group? d = p.2.group? s.diskStorage := by
  have hkey : p.1 ∉ (s.selected maxGroups).map Prod.fst := fun hkey =>
    hout (mem_selected_of_key hp hkey)
  rw [scanned, if_neg hkey]
  cases hptr : p.2.groupPtr with
  | some g => simp [GroupEntry.group?, hptr]
  | none =>
    by_cases hpos : 0 < p.2.diskOffset
    · have hother := h.exclusive.not_mem_filesOf (fun q hq => (mem_of_selected hq).1) hp hkey hpos
      have hsame := (hfind p.2.diskOffset).resolve_right fun hgone => hother hgone.1
      simp [GroupEntry.group?, hptr, hpos, hsame]
    · simp [GroupEntry.group?, hptr, hpos]

theorem Coherent.scanned_taken (h : s.Coherent env) (d : DiskStorage) {p : String × GroupEntry}
    (hp : p ∈ s.selected maxGroups) (hread : p.2.Readable) :
    (p.2.isOnDisk = true ∧ (s.scanned maxGroups p).group? d = d.find p.2.diskOffset ∧
        p.2.group? s.diskStorage = s.diskStorage.find p.2.diskOffset) ∨
      p.2.isOnDisk = false ∧ (s.scanned maxGroups p).group? d = none ∧
        p.2.group? s.diskStorage ≠ none := by
  rw [scanned, if_pos (List.mem_map_of_mem hp)]
  cases hptr : p.2.groupPtr with
  | some g =>
    have hoffset : p.2.diskOffset = 0 :=
      (h.tidy p.1 p.2 (mem_of_selected hp).1).single (by simp [hptr])
    exact .inr ⟨by simp [GroupEntry.isOnDisk, hptr], by simp [GroupEntry.group?, hoffset],
      by simp [GroupEntry.group?, hptr]⟩
  | none =>
    have hpos : 0 < p.2.diskOffset := hread.resolve_left fun hne => hne hptr
    exact .inl ⟨by simp [GroupEntry.isOnDisk, hptr, hpos], by simp [GroupEntry.group?, hpos],
      by simp [GroupEntry.group?, hptr, hpos]⟩

/-- Any read leaves a part of the ready groups, and all of them exactly if it takes none. -/
theorem Coherent.read_leaves (h : s.Coherent env)
    (hread : ∀ p ∈ s.selected maxGroups, p.2.Readable) :
    (s.readReadyGroups env maxGroups).2.readyGroups.Sublist s.readyGroups ∧
      ((s.readReadyGroups env maxGroups).2.readyGroups = s.readyGroups ↔
        s.Untouched env maxGroups) := by
  by_cases hserved : s.Served env maxGroups
  · obtain ⟨result, hok⟩ := (readReadyGroups_ends env h.initialized h.exclusive maxGroups
      hread).1.ok_iff.mpr hserved
    obtain ⟨-, hsplit⟩ := readReadyGroups_takes h.initialized h.exclusive maxGroups hok
    have htaken : limitTo maxGroups 0 s.readyGroups =
        (s.selected maxGroups).filterMap fun p => p.2.group? s.diskStorage :=
      limitTo_filterMap maxGroups 0 _ _ fun p hp => hserved.group hp (hread p hp)
    refine ⟨hsplit ▸ List.sublist_append_right _ _, ?_⟩
    rw [hserved.untouched_iff, ← hsplit, List.self_eq_append_left, htaken,
      List.filterMap_eq_nil_iff, List.eq_nil_iff_forall_not_mem]
    refine forall₂_congr fun p hp => iff_of_false ?_ (fun h => h)
    obtain ⟨g, hg⟩ := hserved.group hp (hread p hp)
    simp [hg]
  · obtain ⟨e, d', consumed, hfails, hfind, huntouched⟩ := failed_read_files h hread hserved
    rw [hfails, afterScan_ready, readyGroups]
    have hloses : ∀ p ∈ s.groups.entries.filter fun p => p.2.isComplete,
        (s.scanned maxGroups p).group? d' = none ∨
          (s.scanned maxGroups p).group? d' = p.2.group? s.diskStorage := fun p hp => by
      by_cases hin : p ∈ s.selected maxGroups
      · rcases h.scanned_taken d' hin (hread p hin) with ⟨-, hnew, hold⟩ | ⟨-, hnone, -⟩
        · rw [hnew, hold]
          exact (hfind _).symm.imp_left And.right
        · exact .inl hnone
      · exact .inr (h.scanned_kept hfind (List.mem_of_mem_filter hp) hin)
    obtain ⟨hsub, heq⟩ := filterMap_sublist hloses
    refine ⟨hsub, heq.trans ⟨fun hall => ?_, fun huntaken p hp => ?_⟩⟩
    · have hdisk : ∀ p ∈ s.selected maxGroups, p.2.isOnDisk = true ∧
          d'.find p.2.diskOffset = s.diskStorage.find p.2.diskOffset := fun p hp => by
        have hready : p ∈ s.groups.entries.filter fun p => p.2.isComplete :=
          List.mem_filter.mpr (mem_of_selected hp)
        have hsame := hall p hready
        rcases h.scanned_taken d' hp (hread p hp) with ⟨hon, hnew, hold⟩ | ⟨-, hnone, hsome⟩
        · exact ⟨hon, by rw [← hnew, hsame, hold]⟩
        · exact absurd (hsame ▸ hnone) hsome
      refine ⟨fun p hp => (hdisk p hp).1, .inr (huntouched.mp fun offset => ?_)⟩
      rcases hfind offset with hsame | ⟨hfile, -⟩
      · exact hsame
      · obtain ⟨id, e, hp, -, rfl⟩ := mem_filesOf.mp hfile
        exact (hdisk (id, e) hp).2
    · obtain ⟨hdisk, hfail⟩ := huntaken
      have hne : s.selected maxGroups ≠ [] := fun hnil =>
        hserved (by simp [Served, hnil, filesOf])
      have hsame := huntouched.mpr (hfail.resolve_left hne)
      by_cases hin : p ∈ s.selected maxGroups
      · rcases h.scanned_taken d' hin (hread p hin) with ⟨-, hnew, hold⟩ | ⟨hoff, -⟩
        · rw [hnew, hold, hsame]
        · cases hoff.symm.trans (hdisk p hin)
      · exact h.scanned_kept hfind (List.mem_of_mem_filter hp) hin

end BufferShard

namespace BufferManager

variable {k : ℕ} {env : Fin k → Env} {m : BufferManager k} {maxGroups : Int32}

theorem Coherent.shard_ok_iff (h : m.Coherent env)
    (hread : ∀ i, ∀ p ∈ (m.shards i).selected maxGroups, p.2.Readable) (i : Fin k) :
    (∃ result, ((m.shards i).readReadyGroups (env i) maxGroups).1 = .ok result) ↔
      (m.shards i).Served (env i) maxGroups :=
  (BufferShard.readReadyGroups_ends (env i) (h i).initialized (h i).exclusive maxGroups
    (hread i)).1.ok_iff

theorem Coherent.succeeds_iff (h : m.Coherent env)
    (hread : ∀ i, ∀ p ∈ (m.shards i).selected maxGroups, p.2.Readable) :
    m.Succeeds env maxGroups ↔ ∀ i, (m.shards i).Served (env i) maxGroups := by
  have hok := h.shard_ok_iff hread
  refine ⟨fun hsucceeds i => (hok i).mp (hsucceeds.shard i), fun hserved => ?_⟩
  cases hread : (m.readReadyGroups env maxGroups).1 with
  | ok returned => exact ⟨returned, hread⟩
  | error e =>
    obtain ⟨i, e', hfails⟩ := readReadyGroups_error_iff.mp ⟨e, hread⟩
    obtain ⟨result, hresult⟩ := (hok i).mpr (hserved i)
    cases hfails.symm.trans hresult

theorem Coherent.lost_eq_zero_iff (h : m.Coherent env)
    (hread : ∀ i, ∀ p ∈ (m.shards i).selected maxGroups, p.2.Readable) :
    (m.readyGroups : Multiset TrajectoryGroup) -
        ((m.readReadyGroups env maxGroups).2.readyGroups : Multiset TrajectoryGroup) = 0 ↔
      ∀ i, (m.shards i).Untouched (env i) maxGroups := by
  have hleaves := fun i => (h i).read_leaves (hread i)
  obtain ⟨hsub, heq⟩ := flatMap_sublist (l := List.finRange k) fun i _ => (hleaves i).1
  have hall : (m.readReadyGroups env maxGroups).2.readyGroups = m.readyGroups ↔
      ∀ i, (m.shards i).Untouched (env i) maxGroups :=
    heq.trans (by simp only [List.mem_finRange, true_imp_iff, hleaves])
  rw [← hall, tsub_eq_zero_iff_le, Multiset.coe_le]
  exact ⟨fun hle => hsub.eq_of_length (le_antisymm hsub.length_le hle.length_le),
    fun hsame => (List.Perm.of_eq hsame.symm).subperm⟩

end BufferManager
end TransferQueue
