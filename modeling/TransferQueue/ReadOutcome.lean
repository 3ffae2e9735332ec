import Mathlib.Data.List.Perm.Basic
import TransferQueue.Refinement

/-! How a read of a shard ends when any of its device calls may fail: it has taken its
entries at the scan; it loads their files, then removes them, and erases the entries
only after the last removal. -/

namespace TransferQueue
namespace BufferShard
open UnorderedMap

variable {env : Env}

section Outcome

theorem Exclusive.files_nodup {s : BufferShard} (exclusive : s.Exclusive)
    {taken : List (String × GroupEntry)} (hsub : taken.Sublist s.groups.entries) :
    (filesOf taken).Nodup := by
  have hnodup : taken.Nodup := (s.groups.nodup.sublist (hsub.map _)).of_map
  refine List.Nodup.map_on ?_ (hnodup.filter _)
  rintro ⟨id, e⟩ hp ⟨id', e'⟩ hq heq
  rw [List.mem_filter] at hp hq
  have hmem := hsub.subset hp.1
  have hmem' := hsub.subset hq.1
  have hid := exclusive _ _ _ _ hmem hmem' (GroupEntry.isOnDisk_iff.mp hp.2).1 heq
  subst hid
  rw [value_unique hmem hmem']

theorem Exclusive.not_mem_filesOf {s : BufferShard} (exclusive : s.Exclusive)
    {taken : List (String × GroupEntry)} (hsub : ∀ p ∈ taken, p ∈ s.groups.entries)
    {id : String} {e : GroupEntry} (hmem : (id, e) ∈ s.groups.entries)
    (hid : id ∉ taken.map Prod.fst) (hpos : 0 < e.diskOffset) :
    e.diskOffset ∉ filesOf taken := by
  intro hoff
  obtain ⟨id', e', htaken, -, heq⟩ := mem_filesOf.mp hoff
  have hsame := exclusive _ _ _ _ hmem (hsub _ htaken) hpos heq.symm
  exact hid (hsame ▸ List.mem_map_of_mem htaken)

/-- Every file the read has to load is there and every device call it makes works: a
load and a removal for each. -/
def Served (env : Env) (s : BufferShard) (maxGroups : Int32) : Prop :=
  (∀ offset ∈ filesOf (s.selected maxGroups), s.diskStorage.find offset ≠ none) ∧
    ∀ j < 2 * (filesOf (s.selected maxGroups)).length,
      env.fault (s.diskStorage.calls + j) = false

theorem served_iff {s : BufferShard} {maxGroups : Int32} {d : DiskStorage}
    (hfiles : d.files = s.diskStorage.files)
    (hcalls : d.calls = s.diskStorage.calls + (filesOf (s.selected maxGroups)).length) :
    s.Served env maxGroups ↔ s.diskStorage.Answers env (filesOf (s.selected maxGroups)) ∧
      d.Answers env (filesOf (s.selected maxGroups)) := by
  simp only [Served, DiskStorage.Answers, DiskStorage.find_congr hfiles, hcalls]
  constructor
  · rintro ⟨hfind, hwork⟩
    refine ⟨⟨hfind, fun j hj => hwork j (by omega)⟩, hfind, fun j hj => ?_⟩
    rw [Nat.add_assoc]
    exact hwork _ (by omega)
  · rintro ⟨⟨hfind, hload⟩, -, hremove⟩
    refine ⟨hfind, fun j hj => ?_⟩
    by_cases hlt : j < (filesOf (s.selected maxGroups)).length
    · exact hload j hlt
    · have hrest := hremove (j - (filesOf (s.selected maxGroups)).length) (by omega)
      rwa [Nat.add_assoc, Nat.add_sub_of_le (Nat.le_of_not_lt hlt)] at hrest

/-- How a read of a shard ends that does not meet a null pointer. -/
inductive ReadEnds (env : Env) (maxGroups : Int32) (s : BufferShard) :
    Except Failure (List TrajectoryGroup) × BufferShard → Prop where
  /-- The scan has taken its entries; they and their files stay behind. -/
  | failed (e : Failure) (d' : DiskStorage) (consumed : ℤ)
      (notServed : ¬s.Served env maxGroups) :
      ReadEnds env maxGroups s (.error e,
        { s.afterScan maxGroups with diskStorage := d', totalConsumed := consumed })
  | delivered (loaded : List TrajectoryGroup) (d' : DiskStorage)
      (served : s.Served env maxGroups)
      (files : List.Forall₂ (fun offset g => s.diskStorage.find offset = some g)
        (filesOf (s.selected maxGroups)) loaded)
      (gone : ∀ offset, d'.find offset =
        if offset ∈ filesOf (s.selected maxGroups) then none else s.diskStorage.find offset) :
      ReadEnds env maxGroups s (.ok ((s.scanOf maxGroups).result ++ loaded),
        eraseIds ((s.selected maxGroups).map Prod.fst)
          { mergeLoaded loaded (s.afterScan maxGroups) with diskStorage := d' })

/-- The specification of a read when any device call may fail. -/
theorem readReadyGroups_ends (env : Env) {s : BufferShard}
    (hi : s.diskStorage.initialized = true)
    (exclusive : s.Exclusive) (maxGroups : Int32)
    (hread : ∀ p ∈ s.selected maxGroups, p.2.Readable) :
    ReadEnds env maxGroups s (s.readReadyGroups env maxGroups) ∧
      (s.readReadyGroups env maxGroups).2.diskStorage.initialized = true ∧
      (s.readReadyGroups env maxGroups).2.diskStorage.spills = s.diskStorage.spills ∧
      ∀ offset, (s.readReadyGroups env maxGroups).2.diskStorage.find offset =
          s.diskStorage.find offset ∨
        (s.readReadyGroups env maxGroups).2.diskStorage.find offset = none := by
  have hnodup := exclusive.files_nodup (selectedOf_sublist maxGroups 0 s.groups.entries)
  have hoffsets : (s.scanOf maxGroups).offsetsToLoad = filesOf (s.selected maxGroups) := rfl
  have hids : (s.scanOf maxGroups).idsToRemove = (s.selected maxGroups).map Prod.fst := rfl
  have hdisk : (s.afterScan maxGroups).diskStorage = s.diskStorage := rfl
  obtain ⟨r, d₁, hload, hinit, hspills, hfiles, hr⟩ :=
    DiskStorage.loadBatch_spec env (filesOf (s.selected maxGroups)) hi
  rw [readReadyGroups, readScan_eq, if_pos hread]
  simp only [hoffsets, hids, hdisk, hload]
  rcases hr with ⟨e, rfl, hno⟩ | ⟨loaded, rfl, hyes, hloaded, hcalls⟩
  · refine ⟨.failed e d₁ _ fun hs => hno ⟨hs.1, fun j hj => hs.2 j (by omega)⟩, hinit, hspills,
      fun offset => .inl (DiskStorage.find_congr hfiles offset)⟩
  · have hserved : s.Served env maxGroups ↔ _ := served_iff hfiles hcalls
    obtain ⟨r, d₂, hremove, hinit₂, hspills₂, hfind₂, hr⟩ :=
      DiskStorage.removeAll_spec env (filesOf (s.selected maxGroups)) hnodup hinit
        fun offset ho _ => DiskStorage.find_congr hfiles offset ▸ hyes.1 offset ho
    have hgone : ∀ offset, d₂.find offset = s.diskStorage.find offset ∨ d₂.find offset = none :=
      fun offset => (hfind₂ offset).imp
        (fun heq => heq.trans (DiskStorage.find_congr hfiles offset)) And.right
    simp only [mergeLoaded, hremove]
    rcases hr with ⟨e, rfl, hno⟩ | ⟨units, rfl, hyes₂, hexact⟩
    · exact ⟨.failed e d₂ _ fun hs => hno (hserved.mp hs).2, hinit₂, hspills₂.trans hspills, hgone⟩
    · refine ⟨.delivered loaded d₂ (hserved.mpr ⟨hyes, hyes₂⟩) hloaded fun offset => ?_, hinit₂,
        hspills₂.trans hspills, hgone⟩
      rw [hexact, DiskStorage.find_congr hfiles]

theorem readReadyGroups_config (maxGroups : Int32) (s : BufferShard) :
    (s.readReadyGroups env maxGroups).2.config = s.config := by
  by_cases hread : ∀ p ∈ s.selected maxGroups, p.2.Readable
  · rw [readReadyGroups, readScan_eq, if_pos hread]
    simp only
    rcases (s.afterScan maxGroups).diskStorage.loadBatch env _ with ⟨e | loaded, d⟩
    · rfl
    · simp only [mergeLoaded]
      rcases d.removeAll env _ with ⟨e | units, d'⟩ <;> rfl
  · rw [readReadyGroups, readScan_eq, if_neg hread]

theorem readable_of_resolved {s : BufferShard} {maxGroups : Int32}
    (h : (s.readReadyGroups env maxGroups).1 ≠ .error .nullDereference) :
    ∀ p ∈ s.selected maxGroups, p.2.Readable := by
  by_contra hread
  apply h
  rw [readReadyGroups, readScan_eq, if_neg hread]

theorem ReadEnds.ok_iff {s : BufferShard} {maxGroups : Int32}
    {r : Except Failure (List TrajectoryGroup) × BufferShard} (h : ReadEnds env maxGroups s r) :
    (∃ result, r.1 = .ok result) ↔ s.Served env maxGroups := by
  cases h with
  | failed _ _ _ hno => exact ⟨fun ⟨_, hok⟩ => (nomatch hok), fun hserved => absurd hserved hno⟩
  | delivered _ _ hserved => exact ⟨fun _ => hserved, fun _ => ⟨_, rfl⟩⟩

theorem afterScan_erased (maxGroups : Int32) (s : BufferShard) :
    (s.afterScan maxGroups).groups.eraseAll ((s.selected maxGroups).map Prod.fst) =
      s.groups.eraseAll ((s.selected maxGroups).map Prod.fst) := by
  rw [afterScan, ← eraseAll_mapValues]
  apply mapValues_self
  intro id e hmem
  exact if_neg ((mem_eraseAll _).mp hmem).2

end Outcome

section Delivered

theorem delivered_perm {d : DiskStorage} {taken : List (String × GroupEntry)}
    {loaded : List TrajectoryGroup}
    (files : List.Forall₂ (fun offset g => d.find offset = some g) (filesOf taken) loaded) :
    ((taken.filterMap fun p => p.2.groupPtr) ++ loaded).Perm
      (taken.filterMap fun p => p.2.group? d) := by
  induction taken generalizing loaded with
  | nil =>
    cases files
    exact .refl _
  | cons p taken ih =>
    cases hptr : p.2.groupPtr with
    | some g =>
      have hfiles : filesOf (p :: taken) = filesOf taken := by
        simp [filesOf, GroupEntry.isOnDisk, hptr]
      rw [hfiles] at files
      simpa [GroupEntry.group?, hptr] using (ih files).cons g
    | none =>
      by_cases hpos : 0 < p.2.diskOffset
      · have hfiles : filesOf (p :: taken) = p.2.diskOffset :: filesOf taken := by
          simp [filesOf, GroupEntry.isOnDisk, hptr, hpos]
        rw [hfiles] at files
        cases files with
        | @cons _ g _ loaded hfind hrest =>
          simp only [List.filterMap_cons, hptr, GroupEntry.group?, hpos, if_true, hfind]
          exact List.perm_middle.trans ((ih hrest).cons g)
      · have hfiles : filesOf (p :: taken) = filesOf taken := by
          simp [filesOf, GroupEntry.isOnDisk, hpos]
        rw [hfiles] at files
        simpa [GroupEntry.group?, hptr, hpos] using ih files

theorem mergeLoaded_eq (loaded : List TrajectoryGroup) (s : BufferShard) :
    s.mergeLoaded loaded = { s with
      totalConsumed := s.totalConsumed +
        (loaded.map fun g => (g.trajectories.length : ℤ)).sum } := by
  rw [mergeLoaded]
  congr 1
  generalize s.totalConsumed = n
  induction loaded generalizing n with
  | nil => simp
  | cons g loaded ih =>
    rw [List.foldl_cons, ih, List.map_cons, List.sum_cons, Int.add_assoc]

theorem consumed_sum (taken : List (String × GroupEntry)) (loaded : List TrajectoryGroup) :
    (taken.map fun p => p.2.trajectoriesSize).sum +
        (loaded.map fun g => (g.trajectories.length : ℤ)).sum =
      (((taken.filterMap fun p => p.2.groupPtr) ++ loaded).map
        fun g => (g.trajectories.length : ℤ)).sum := by
  rw [List.map_append, List.sum_append]
  congr 1
  induction taken with
  | nil => rfl
  | cons p taken ih =>
    rw [List.map_cons, List.sum_cons, ih]
    cases hptr : p.2.groupPtr <;> simp [GroupEntry.trajectoriesSize, hptr]

theorem Served.group {s : BufferShard} {maxGroups : Int32} (h : s.Served env maxGroups)
    {p : String × GroupEntry} (hp : p ∈ s.selected maxGroups) (hread : p.2.Readable) :
    ∃ g, p.2.group? s.diskStorage = some g := by
  cases hptr : p.2.groupPtr with
  | some g => exact ⟨g, by simp [GroupEntry.group?, hptr]⟩
  | none =>
    have hpos : 0 < p.2.diskOffset := hread.resolve_left fun hne => hne hptr
    have hfile := h.1 p.2.diskOffset (mem_filesOf.mpr
      ⟨p.1, p.2, hp, GroupEntry.isOnDisk_iff.mpr ⟨hpos, hptr⟩, rfl⟩)
    obtain ⟨g, hg⟩ := Option.ne_none_iff_exists'.mp hfile
    exact ⟨g, by simp [GroupEntry.group?, hptr, hpos, hg]⟩

theorem limitTo_filterMap {α β : Type*} (maxGroups : Int32) (used : ℕ) (f : α → Option β)
    (l : List α) (h : ∀ a ∈ limitTo maxGroups used l, ∃ b, f a = some b) :
    limitTo maxGroups used (l.filterMap f) = (limitTo maxGroups used l).filterMap f := by
  rw [limitTo] at h ⊢
  rw [limitTo]
  split
  · rename_i hpos
    rw [if_pos hpos] at h
    generalize maxGroups.toNatClampNeg - used = n at h ⊢
    induction l generalizing n with
    | nil => simp
    | cons a l ih =>
      cases n with
      | zero => simp
      | succ n =>
        obtain ⟨b, hb⟩ := h a (List.mem_cons_self ..)
        have hrest := ih n fun a' ha' => h a' (List.mem_cons_of_mem _ ha')
        simp [hb, hrest]
  · rfl

theorem Exclusive.readyGroups_erased {s t : BufferShard} (exclusive : s.Exclusive)
    {taken rest : List (String × GroupEntry)}
    (hready : (s.groups.entries.filter fun p => p.2.isComplete) = taken ++ rest)
    (hgroups : t.groups = s.groups.eraseAll (taken.map Prod.fst))
    (hfind : ∀ offset, t.diskStorage.find offset =
      if offset ∈ filesOf taken then none else s.diskStorage.find offset) :
    t.readyGroups = rest.filterMap fun p => p.2.group? s.diskStorage := by
  have hsub : ∀ p ∈ taken, p ∈ s.groups.entries := fun p hp =>
    List.mem_of_mem_filter (hready ▸ List.mem_append_left rest hp)
  have hleft := filter_eraseAll s.groups _ hready
  rw [readyGroups, hgroups, hleft]
  apply List.filterMap_congr
  intro p hp
  rw [← hleft] at hp
  obtain ⟨hin, hout⟩ := (mem_eraseAll _).mp (List.mem_of_mem_filter hp)
  simp only [GroupEntry.group?]
  cases p.2.groupPtr with
  | some g => rfl
  | none =>
    by_cases hpos : 0 < p.2.diskOffset
    · simp only [hpos, if_true, hfind,
        if_neg (exclusive.not_mem_filesOf hsub hin hout hpos)]
    · simp only [hpos, if_false]

/-- A successful read takes the ready groups at the head, up to the limit, and leaves
the others ready. -/
theorem readReadyGroups_takes {s : BufferShard} (hi : s.diskStorage.initialized = true)
    (exclusive : s.Exclusive) (maxGroups : Int32) {result : List TrajectoryGroup}
    (hok : (s.readReadyGroups env maxGroups).1 = .ok result) :
    result.Perm (limitTo maxGroups 0 s.readyGroups) ∧
      limitTo maxGroups 0 s.readyGroups ++ (s.readReadyGroups env maxGroups).2.readyGroups =
        s.readyGroups := by
  have hresolved : (s.readReadyGroups env maxGroups).1 ≠ .error .nullDereference := fun hnull =>
    nomatch hok.symm.trans hnull
  have hread := readable_of_resolved hresolved
  obtain ⟨hends, -⟩ := readReadyGroups_ends env hi exclusive maxGroups hread
  generalize s.readReadyGroups env maxGroups = r at hok hends ⊢
  cases hends with
  | failed => cases hok
  | delivered loaded d' served files gone =>
    obtain rfl := Except.ok.inj hok
    have htaken : limitTo maxGroups 0 s.readyGroups =
        (s.selected maxGroups).filterMap fun p => p.2.group? s.diskStorage :=
      limitTo_filterMap maxGroups 0 _ _ fun p hp => served.group hp (hread p hp)
    obtain ⟨rest, hrest⟩ : s.selected maxGroups <+:
        s.groups.entries.filter fun p => p.2.isComplete := limitTo_isPrefix maxGroups 0 _
    refine ⟨htaken ▸ delivered_perm files, ?_⟩
    have hleft := exclusive.readyGroups_erased (t := eraseIds ((s.selected maxGroups).map Prod.fst)
      { mergeLoaded loaded (s.afterScan maxGroups) with diskStorage := d' }) hrest.symm
      (afterScan_erased maxGroups s) gone
    rw [hleft, htaken, ← List.filterMap_append, hrest]
    rfl

end Delivered

end BufferShard
end TransferQueue
