import TransferQueue.BufferShard

/-! What the scan of `read_ready_groups` does to a shard, in any state: it takes the
first ready entries up to the limit, moves the groups in memory out of them, and
fails exactly when one of them has neither a group nor a file. -/

namespace TransferQueue
open UnorderedMap

/-- The scan can take the entry: there is a group to move out or a file to load. -/
def GroupEntry.Readable (e : GroupEntry) : Prop := e.groupPtr ≠ none ∨ 0 < e.diskOffset

instance (e : GroupEntry) : Decidable e.Readable := inferInstanceAs (Decidable (_ ∨ _))

theorem GroupEntry.isOnDisk_iff {e : GroupEntry} :
    e.isOnDisk = true ↔ 0 < e.diskOffset ∧ e.groupPtr = none := by
  simp [isOnDisk]

theorem GroupEntry.not_isOnDisk_of_some {e : GroupEntry} (h : e.groupPtr ≠ none) :
    e.isOnDisk = false := by
  cases hp : e.groupPtr with
  | none => exact absurd hp h
  | some g => simp [isOnDisk, hp]

namespace BufferShard

/-- At most `maxGroups` elements, `used` of them already taken; no limit unless positive. -/
def limitTo {α : Type*} (maxGroups : Int32) (used : ℕ) (l : List α) : List α :=
  if 0 < maxGroups then l.take (maxGroups.toNatClampNeg - used) else l

theorem limitTo_isPrefix {α : Type*} (maxGroups : Int32) (used : ℕ) (l : List α) :
    limitTo maxGroups used l <+: l := by
  rw [limitTo]
  split
  · exact List.take_prefix _ _
  · exact List.prefix_refl _

theorem limitTo_sublist {α : Type*} (maxGroups : Int32) (used : ℕ) (l : List α) :
    (limitTo maxGroups used l).Sublist l := (limitTo_isPrefix _ _ _).sublist

theorem limit_pos {maxGroups : Int32} (hpos : 0 < maxGroups) :
    0 < maxGroups.toInt ∧ (maxGroups.toNatClampNeg : ℤ) = maxGroups.toInt := by
  have hzero := Int32.lt_iff_toInt_lt.mp hpos
  rw [Int32.toInt_zero] at hzero
  exact ⟨hzero, Int.toNat_of_nonneg hzero.le⟩

theorem limitTo_ne_nil {α : Type*} (maxGroups : Int32) {l : List α} (h : l ≠ []) :
    limitTo maxGroups 0 l ≠ [] := by
  rw [limitTo, Nat.sub_zero]
  split
  · rename_i hpos
    have hlimit := limit_pos hpos
    rw [ne_eq, List.take_eq_nil_iff, not_or]
    exact ⟨by omega, h⟩
  · exact h

theorem limitTo_map {α β : Type*} (maxGroups : Int32) (used : ℕ) (f : α → β) (l : List α) :
    (limitTo maxGroups used l).map f = limitTo maxGroups used (l.map f) := by
  rw [limitTo, limitTo]
  split
  · exact List.map_take
  · rfl

/-- The cast to `int32_t` in the limit test is exact while the count is within the limit. -/
theorem limit_reached_iff {maxGroups : Int32} {used : ℕ} (hpos : 0 < maxGroups)
    (h : used ≤ maxGroups.toNatClampNeg) :
    maxGroups ≤ Int32.ofNat used ↔ maxGroups.toNatClampNeg ≤ used := by
  have hlt := maxGroups.toInt_lt
  obtain ⟨hzero, hclamp⟩ := limit_pos hpos
  have hsmall : used < 2 ^ 31 := by omega
  rw [Int32.le_iff_toInt_le, Int32.toInt_ofNat_of_lt hsmall]
  omega

theorem limitTo_cons {α : Type*} {maxGroups : Int32} {used : ℕ} (a : α) (l : List α)
    (h : ¬(0 < maxGroups ∧ maxGroups.toNatClampNeg ≤ used)) :
    limitTo maxGroups used (a :: l) = a :: limitTo maxGroups (used + 1) l := by
  rw [limitTo, limitTo]
  split
  · rename_i hpos
    have hlt : used < maxGroups.toNatClampNeg := Nat.lt_of_not_le fun hle => h ⟨hpos, hle⟩
    have hroom : maxGroups.toNatClampNeg - used = (maxGroups.toNatClampNeg - (used + 1)) + 1 := by
      omega
    rw [hroom, List.take_succ_cons]
  · rfl

def selectedOf (maxGroups : Int32) (used : ℕ) (entries : List (String × GroupEntry)) :
    List (String × GroupEntry) :=
  limitTo maxGroups used (entries.filter fun p => p.2.isComplete)

def selected (maxGroups : Int32) (s : BufferShard) : List (String × GroupEntry) :=
  selectedOf maxGroups 0 s.groups.entries

theorem selectedOf_sublist (maxGroups : Int32) (used : ℕ)
    (entries : List (String × GroupEntry)) :
    (selectedOf maxGroups used entries).Sublist entries :=
  (limitTo_sublist _ _ _).trans List.filter_sublist

theorem mem_of_selected {maxGroups : Int32} {s : BufferShard} {p : String × GroupEntry}
    (h : p ∈ s.selected maxGroups) : p ∈ s.groups.entries ∧ p.2.isComplete = true := by
  have hready := (limitTo_sublist _ _ _).subset h
  simpa using hready

theorem selected_ids_nodup (maxGroups : Int32) (s : BufferShard) :
    ((s.selected maxGroups).map Prod.fst).Nodup :=
  s.groups.nodup.sublist ((selectedOf_sublist _ _ _).map Prod.fst)

def filesOf (taken : List (String × GroupEntry)) : List ℕ :=
  (taken.filter fun p => p.2.isOnDisk).map fun p => p.2.diskOffset

theorem mem_filesOf {taken : List (String × GroupEntry)} {offset : ℕ} :
    offset ∈ filesOf taken ↔
      ∃ id e, (id, e) ∈ taken ∧ e.isOnDisk = true ∧ e.diskOffset = offset := by
  simp [filesOf, and_assoc]

def ReadScan.collect (acc : ReadScan) (taken : List (String × GroupEntry)) : ReadScan where
  result := acc.result ++ taken.filterMap fun p => p.2.groupPtr
  offsetsToLoad := acc.offsetsToLoad ++ filesOf taken
  idsToRemove := acc.idsToRemove ++ taken.map Prod.fst
  totalConsumed := acc.totalConsumed + (taken.map fun p => p.2.trajectoriesSize).sum
  diskUsageBytes := acc.diskUsageBytes -
    ((taken.filter fun p => p.2.isOnDisk).map fun p => p.2.cachedBytes).sum

def movedOut (ids : List String) (entries : List (String × GroupEntry)) :
    List (String × GroupEntry) :=
  entries.map fun p => (p.1, if p.1 ∈ ids then { p.2 with groupPtr := none } else p.2)

theorem movedOut_cons_ids {id : String} {ids : List String}
    {entries : List (String × GroupEntry)} (h : id ∉ entries.map Prod.fst) :
    movedOut (id :: ids) entries = movedOut ids entries := by
  apply List.map_congr_left
  intro p hp
  have hne : p.1 ≠ id := fun he => h (he ▸ List.mem_map_of_mem hp)
  simp [hne]

theorem scanEntry_incomplete {maxGroups : Int32} {acc : ReadScan} {id : String}
    {e : GroupEntry} (h : e.isComplete = false) :
    scanEntry maxGroups acc id e = .next acc e := by
  simp [scanEntry, h]

theorem scanEntry_full {maxGroups : Int32} {acc : ReadScan} {id : String} {e : GroupEntry}
    (h : e.isComplete = true) (hpos : 0 < maxGroups)
    (hfull : maxGroups ≤ Int32.ofNat (acc.result.length + acc.offsetsToLoad.length)) :
    scanEntry maxGroups acc id e = .stop := by
  rw [scanEntry, h, Bool.not_true, if_neg Bool.false_ne_true, if_pos ⟨hpos, hfull⟩]

theorem scanEntry_take {maxGroups : Int32} {acc : ReadScan} {id : String} {e : GroupEntry}
    (h : e.isComplete = true)
    (hroom : ¬(0 < maxGroups ∧
      maxGroups ≤ Int32.ofNat (acc.result.length + acc.offsetsToLoad.length))) :
    scanEntry maxGroups acc id e =
      if e.Readable then .next (acc.collect [(id, e)]) { e with groupPtr := none } else .fail := by
  rw [scanEntry, h, Bool.not_true, if_neg Bool.false_ne_true, if_neg hroom]
  cases hptr : e.groupPtr with
  | some g =>
    have hdisk : e.isOnDisk = false := by simp [GroupEntry.isOnDisk, hptr]
    have hread : e.Readable := .inl (by simp [hptr])
    simp [hdisk, hread, ReadScan.collect, filesOf, hptr, GroupEntry.trajectoriesSize]
  | none =>
    by_cases hoff : 0 < e.diskOffset
    · have hdisk : e.isOnDisk = true := GroupEntry.isOnDisk_iff.mpr ⟨hoff, hptr⟩
      have hread : e.Readable := .inr hoff
      have hsame : { e with groupPtr := none } = e := by rw [← hptr]
      simp [hdisk, hread, ReadScan.collect, filesOf, hptr, GroupEntry.trajectoriesSize,
        hsame]
    · have hdisk : e.isOnDisk = false := by simp [GroupEntry.isOnDisk, hoff]
      have hread : ¬e.Readable := by simp [GroupEntry.Readable, hptr, hoff]
      simp [hdisk, hread]

theorem collect_collect (acc : ReadScan) (p : String × GroupEntry)
    (taken : List (String × GroupEntry)) :
    (acc.collect [p]).collect taken = acc.collect (p :: taken) := by
  simp only [ReadScan.collect, ReadScan.mk.injEq]
  refine ⟨?_, ?_, ?_, ?_, ?_⟩
  · cases hp : p.2.groupPtr <;> simp [hp]
  · cases hd : p.2.isOnDisk <;> simp [filesOf, hd]
  · simp
  · simp [Int.add_assoc]
  · cases hd : p.2.isOnDisk <;> simp [hd, Int.sub_sub]

theorem collect_count (acc : ReadScan) (id : String) {e : GroupEntry} (h : e.Readable) :
    (acc.collect [(id, e)]).result.length + (acc.collect [(id, e)]).offsetsToLoad.length =
      acc.result.length + acc.offsetsToLoad.length + 1 := by
  cases hptr : e.groupPtr with
  | some g => simp [ReadScan.collect, filesOf, GroupEntry.isOnDisk, hptr]; omega
  | none =>
    have hoff : 0 < e.diskOffset := h.resolve_left (fun hne => hne hptr)
    simp [ReadScan.collect, filesOf, GroupEntry.isOnDisk, hptr, hoff]
    omega

/-- The scan from any accumulator: it takes the next entries within the limit if
all of them are readable, and fails otherwise. -/
theorem loop_scanEntry (maxGroups : Int32) (entries : List (String × GroupEntry))
    (hnodup : (entries.map Prod.fst).Nodup) (acc : ReadScan) (used : ℕ)
    (hused : used = acc.result.length + acc.offsetsToLoad.length)
    (hlimit : 0 < maxGroups → used ≤ maxGroups.toNatClampNeg) :
    loop (scanEntry maxGroups) acc entries =
      if ∀ p ∈ selectedOf maxGroups used entries, p.2.Readable then
        some (acc.collect (selectedOf maxGroups used entries),
          movedOut ((selectedOf maxGroups used entries).map Prod.fst) entries)
      else none := by
  induction entries generalizing acc used with
  | nil => simp [loop, selectedOf, limitTo, ReadScan.collect, filesOf, movedOut]
  | cons p rest ih =>
    obtain ⟨id, e⟩ := p
    have hid : id ∉ rest.map Prod.fst := (List.nodup_cons.mp hnodup).1
    have hrest := (List.nodup_cons.mp hnodup).2
    by_cases hc : e.isComplete = true
    · by_cases hroom : 0 < maxGroups ∧ maxGroups ≤ Int32.ofNat used
      · -- the limit is reached: nothing more is taken
        have hfull := (limit_reached_iff hroom.1 (hlimit hroom.1)).mp hroom.2
        have hnone : selectedOf maxGroups used ((id, e) :: rest) = [] := by
          rw [selectedOf, limitTo, if_pos hroom.1, Nat.sub_eq_zero_of_le hfull, List.take_zero]
        rw [hnone, loop, scanEntry_full hc hroom.1 (hused ▸ hroom.2)]
        simp [ReadScan.collect, filesOf, movedOut]
      · have hmore : ¬(0 < maxGroups ∧ maxGroups.toNatClampNeg ≤ used) := fun h =>
          hroom ⟨h.1, (limit_reached_iff h.1 (hlimit h.1)).mpr h.2⟩
        have hsel : selectedOf maxGroups used ((id, e) :: rest) =
            (id, e) :: selectedOf maxGroups (used + 1) rest := by
          rw [selectedOf, List.filter_cons_of_pos (by simpa using hc), limitTo_cons _ _ hmore,
            selectedOf]
        rw [hsel, loop, scanEntry_take hc (hused ▸ hroom)]
        by_cases hread : e.Readable
        · have hcount := collect_count acc id hread
          have hnext : 0 < maxGroups → used + 1 ≤ maxGroups.toNatClampNeg := fun h =>
            Nat.lt_of_not_le fun hle => hmore ⟨h, hle⟩
          simp only [if_pos hread]
          rw [ih hrest (acc.collect [(id, e)]) (used + 1) (by omega) hnext]
          simp only [List.mem_cons, forall_eq_or_imp, hread, true_and, collect_collect,
            List.map_cons]
          split
          · rw [Option.map_some, ← movedOut_cons_ids hid]
            simp [movedOut]
          · rfl
        · simp [hread]
    · have hc' : e.isComplete = false := by simpa using hc
      have hsel : selectedOf maxGroups used ((id, e) :: rest) = selectedOf maxGroups used rest := by
        rw [selectedOf, List.filter_cons_of_neg (by simpa using hc), selectedOf]
      have hout : id ∉ (selectedOf maxGroups used rest).map Prod.fst := fun h =>
        hid (((selectedOf_sublist _ _ _).map Prod.fst).subset h)
      rw [hsel, loop, scanEntry_incomplete hc']
      simp only
      rw [ih hrest acc used hused hlimit]
      split
      · simp [movedOut, hout]
      · rfl

def scanOf (maxGroups : Int32) (s : BufferShard) : ReadScan :=
  ReadScan.collect ⟨[], [], [], s.totalConsumed, s.diskUsageBytes⟩ (s.selected maxGroups)

def afterScan (maxGroups : Int32) (s : BufferShard) : BufferShard :=
  { s with
    groups := s.groups.mapValues fun id e =>
      if id ∈ (s.selected maxGroups).map Prod.fst then { e with groupPtr := none } else e
    totalConsumed := (s.scanOf maxGroups).totalConsumed
    diskUsageBytes := (s.scanOf maxGroups).diskUsageBytes }

theorem mem_afterScan {maxGroups : Int32} {s : BufferShard} {id : String} {e' : GroupEntry}
    (h : (id, e') ∈ (s.afterScan maxGroups).groups.entries) :
    ∃ e, (id, e) ∈ s.groups.entries ∧ (e' = { e with groupPtr := none } ∨ e' = e) := by
  obtain ⟨⟨id', e⟩, hmem, heq⟩ := List.mem_map.mp h
  obtain ⟨rfl, rfl⟩ := Prod.mk.inj heq
  refine ⟨e, hmem, ?_⟩
  dsimp only
  split
  · exact .inl rfl
  · exact .inr rfl

/-- The specification of the scan. -/
theorem readScan_eq (maxGroups : Int32) (s : BufferShard) :
    s.readScan maxGroups =
      if ∀ p ∈ s.selected maxGroups, p.2.Readable then
        some (s.scanOf maxGroups, s.afterScan maxGroups)
      else none := by
  have hloop := loop_scanEntry maxGroups s.groups.entries s.groups.nodup
    ⟨[], [], [], s.totalConsumed, s.diskUsageBytes⟩ 0 rfl (fun _ => Nat.zero_le _)
  change _ = if ∀ p ∈ s.selected maxGroups, p.2.Readable then _ else none at hloop
  rw [readScan]
  by_cases hread : ∀ p ∈ s.selected maxGroups, p.2.Readable
  · rw [if_pos hread] at hloop ⊢
    have heach : s.groups.forEach (scanEntry maxGroups)
        ⟨[], [], [], s.totalConsumed, s.diskUsageBytes⟩ =
          some (s.scanOf maxGroups, (s.afterScan maxGroups).groups) :=
      forEach_eq_some_iff.mpr ⟨hloop, rfl⟩
    rw [heach]
    rfl
  · rw [if_neg hread] at hloop ⊢
    rw [forEach_eq_none_iff.mpr hloop]
    rfl

end BufferShard
end TransferQueue
