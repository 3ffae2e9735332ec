import TransferQueue.Effects

/-! Who may touch a file. A file written by a spill is known to that spill only until it
is committed; a committed file belongs to one instance; reads and removals only get at
files that an instance had. This holds in every interleaving, and says what one change
can do to the slot of an instance. -/

namespace TransferQueue
open Multiset

variable {G : Guard} {v v' : View} {id : String} {offset : ℕ}

structure Owned (v : View) : Prop where
  slot_lt : ∀ id offset, v.look id = some (.disk offset) → offset < v.drawn
  slot_inj : ∀ id id' offset,
    v.look id = some (.disk offset) → v.look id' = some (.disk offset) → id = id'
  file_lt : ∀ offset group, v.file offset = some group → offset < v.drawn
  drafts_nodup : (draftsOf v.tasks).Nodup
  draft_lt : ∀ offset ∈ draftsOf v.tasks, offset < v.drawn
  draft_file : ∀ startedAt todo written, .spill startedAt todo written ∈ v.tasks →
    ∀ w ∈ written, v.file w.2 = some w.1.2
  draft_slot : ∀ offset ∈ draftsOf v.tasks, ∀ id, v.look id ≠ some (.disk offset)
  draft_hidden : ∀ offset ∈ draftsOf v.tasks, ¬Exposes v.tasks offset
  exposed_lt : ∀ offset, Exposes v.tasks offset → offset < v.drawn

namespace Owned

theorem create (config : TransferQueueConfig) (bitCount numHashes : ℕ) (env : Env) :
    Owned ((System.create config bitCount numHashes).view env) where
  slot_lt _ _ h := nomatch h
  slot_inj _ _ _ h := nomatch h
  file_lt _ _ h := nomatch h
  drafts_nodup := nodup_zero
  draft_lt _ h := (notMem_zero _ h).elim
  draft_file _ _ _ h := (notMem_zero _ h).elim
  draft_slot _ h := (notMem_zero _ h).elim
  draft_hidden _ h := (notMem_zero _ h).elim
  exposed_lt _ h := by
    obtain ⟨task, hmem, -⟩ := h
    exact (notMem_zero _ hmem).elim

theorem keep (hv : Owned v) (h : Change G v v')
    (hlook : ∀ id offset, v'.look id = some (.disk offset) → v.look id = some (.disk offset))
    (hfile : ∀ offset group, v'.file offset = some group → offset < v'.drawn)
    (hdrafts : draftsOf v'.tasks ≤ draftsOf v.tasks) : Owned v' where
  slot_lt id offset hslot := (hv.slot_lt id offset (hlook id offset hslot)).trans_le h.drawn_le
  slot_inj id id' offset hslot hslot' :=
    hv.slot_inj id id' offset (hlook _ _ hslot) (hlook _ _ hslot')
  file_lt := hfile
  drafts_nodup := nodup_of_le hdrafts hv.drafts_nodup
  draft_lt offset hd := (hv.draft_lt offset (mem_of_le hdrafts hd)).trans_le h.drawn_le
  draft_file startedAt todo written hmem w hw := by
    cases h.taskEffect hmem with
    | same mem =>
      have hdraft := mem_draftsOf_spill mem hw
      rcases h.file_old (hv.draft_lt _ hdraft) with hsame | ⟨-, hexp⟩
      · rw [hsame, hv.draft_file _ _ _ mem w hw]
      · exact absurd hexp (hv.draft_hidden _ hdraft)
    | copy => cases hw
    | write mem found =>
      have hdraft : v.drawn ∈ draftsOf v'.tasks :=
        mem_draftsOf_spill hmem (List.mem_append_right _ (List.mem_singleton_self _))
      exact absurd (hv.draft_lt _ (mem_of_le hdrafts hdraft)) (lt_irrefl _)
  draft_slot offset hd id hslot := hv.draft_slot offset (mem_of_le hdrafts hd) id (hlook _ _ hslot)
  draft_hidden offset hd hexp := by
    rcases h.exposes hexp with hold | ⟨id, hslot, -⟩
    · exact hv.draft_hidden offset (mem_of_le hdrafts hd) hold
    · exact hv.draft_slot offset (mem_of_le hdrafts hd) id hslot
  exposed_lt offset hexp := by
    rcases h.exposes hexp with hold | ⟨id, hslot, -⟩
    · exact (hv.exposed_lt offset hold).trans_le h.drawn_le
    · exact (hv.slot_lt id offset hslot).trans_le h.drawn_le

theorem write {rest : Multiset Task} {startedAt drawn : ℕ} {id : String}
    {group : TrajectoryGroup} {todo : List (String × TrajectoryGroup)}
    {written : List ((String × TrajectoryGroup) × ℕ)} (hv : Owned v)
    (task : v.tasks = .spill startedAt ((id, group) :: todo) written ::ₘ rest)
    (fresh : v.drawn < drawn) :
    Owned { v with
      file := Function.update v.file v.drawn (some group)
      drawn
      tasks := .spill startedAt todo (written ++ [((id, group), v.drawn)]) ::ₘ rest } := by
  have hdrafts : draftsOf (.spill startedAt todo (written ++ [((id, group), v.drawn)]) ::ₘ rest) =
      v.drawn ::ₘ draftsOf v.tasks := by
    rw [task, draftsOf_cons, draftsOf_cons, Task.drafts, Task.drafts, List.map_append,
      ← coe_add, List.map_singleton, coe_singleton, add_right_comm, add_comm, singleton_add]
  have hexposed : ∀ offset, Exposes
      (.spill startedAt todo (written ++ [((id, group), v.drawn)]) ::ₘ rest) offset ↔
        Exposes v.tasks offset := by
    intro offset
    rw [task, exposes_cons, exposes_cons]
    rfl
  have hold : ∀ offset, offset < v.drawn →
      Function.update v.file v.drawn (some group) offset = v.file offset :=
    fun offset h => Function.update_of_ne h.ne _ _
  constructor
  case slot_lt => exact fun id' offset h => (hv.slot_lt id' offset h).trans fresh
  case slot_inj => exact hv.slot_inj
  case file_lt =>
    intro offset group' h
    by_cases ho : offset = v.drawn
    · exact ho ▸ fresh
    · have hfile : v.file offset = some group' := (Function.update_of_ne ho _ _).symm.trans h
      exact (hv.file_lt offset group' hfile).trans fresh
  case drafts_nodup =>
    rw [hdrafts]
    exact nodup_cons.mpr ⟨fun h => (hv.draft_lt _ h).ne rfl, hv.drafts_nodup⟩
  case draft_lt =>
    intro offset h
    rw [hdrafts] at h
    rcases mem_cons.mp h with rfl | h
    · exact fresh
    · exact (hv.draft_lt offset h).trans fresh
  case draft_file =>
    have hspills : ∀ startedAt' todo' written', .spill startedAt' todo' written' ∈ v.tasks →
        ∀ w ∈ written', Function.update v.file v.drawn (some group) w.2 = some w.1.2 := by
      intro startedAt' todo' written' hmem w hw
      rw [hold w.2 (hv.draft_lt _ (mem_draftsOf_spill hmem hw))]
      exact hv.draft_file _ _ _ hmem w hw
    intro startedAt' todo' written' hmem w hw
    rcases mem_cons.mp hmem with heq | hmem
    · cases heq
      rcases List.mem_append.mp hw with hw | hw
      · exact hspills _ _ _ (task ▸ mem_cons_self _ _) w hw
      · rw [List.mem_singleton.mp hw]
        exact Function.update_self ..
    · exact hspills _ _ _ (task ▸ mem_cons_of_mem hmem) w hw
  case draft_slot =>
    intro offset h id' hslot
    rw [hdrafts] at h
    rcases mem_cons.mp h with rfl | h
    · exact (hv.slot_lt id' _ hslot).ne rfl
    · exact hv.draft_slot offset h id' hslot
  case draft_hidden =>
    intro offset h hexp
    rw [hdrafts] at h
    rw [hexposed] at hexp
    rcases mem_cons.mp h with rfl | h
    · exact (hv.exposed_lt _ hexp).ne rfl
    · exact hv.draft_hidden offset h hexp
  case exposed_lt =>
    exact fun offset h => (hv.exposed_lt offset ((hexposed offset).mp h)).trans fresh

theorem slot_of_commit {written : List ((String × TrajectoryGroup) × ℕ)}
    {look look' : String → Option Slot}
    (pointed : ∀ w ∈ written, look' w.1.1 = (look w.1.1).map fun _ => .disk w.2)
    (kept : ∀ id, id ∉ written.map (fun w => w.1.1) → look' id = look id) {id : String}
    {slot : Slot} (h : look' id = some slot) :
    (id ∉ written.map (fun w => w.1.1) ∧ look id = some slot) ∨
      ∃ w ∈ written, w.1.1 = id ∧ look id ≠ none ∧ slot = .disk w.2 := by
  by_cases hid : id ∈ written.map fun w => w.1.1
  · obtain ⟨w, hw, rfl⟩ := List.mem_map.mp hid
    rw [pointed w hw, Option.map_eq_some_iff] at h
    obtain ⟨old, hlook, rfl⟩ := h
    exact .inr ⟨w, hw, rfl, by simp [hlook], rfl⟩
  · exact .inl ⟨hid, kept id hid ▸ h⟩

theorem commit {rest : Multiset Task} {startedAt : ℕ}
    {written : List ((String × TrajectoryGroup) × ℕ)} {look : String → Option Slot}
    {log : List Event} (hv : Owned v) (task : v.tasks = .spill startedAt [] written ::ₘ rest)
    (pointed : ∀ w ∈ written, look w.1.1 = (v.look w.1.1).map fun _ => .disk w.2)
    (kept : ∀ id, id ∉ written.map (fun w => w.1.1) → look id = v.look id) :
    Owned { v with look, tasks := rest, log } := by
  have hmem : .spill startedAt [] written ∈ v.tasks := task ▸ mem_cons_self _ _
  have hdrafts : draftsOf v.tasks = (written.map Prod.snd : Multiset ℕ) + draftsOf rest := by
    rw [task, draftsOf_cons, Task.drafts]
  have hnodup := hv.drafts_nodup
  rw [hdrafts, nodup_add] at hnodup
  obtain ⟨hwritten, hrest, hdisjoint⟩ := hnodup
  have hsub : ∀ offset, offset ∈ draftsOf rest → offset ∈ draftsOf v.tasks := fun offset h =>
    hdrafts ▸ mem_add.mpr (.inr h)
  have hexposed : ∀ offset, Exposes rest offset → Exposes v.tasks offset := fun offset h =>
    task ▸ exposes_cons.mpr (.inr h)
  have hslot := fun {id : String} {slot : Slot} (h : look id = some slot) =>
    slot_of_commit pointed kept h
  constructor
  case slot_lt =>
    intro id offset h
    rcases hslot h with ⟨-, hold⟩ | ⟨w, hw, -, -, heq⟩
    · exact hv.slot_lt id offset hold
    · cases heq
      exact hv.draft_lt _ (mem_draftsOf_spill hmem hw)
  case slot_inj =>
    intro id id' offset h h'
    rcases hslot h with ⟨-, hold⟩ | ⟨w, hw, rfl, -, heq⟩ <;>
      rcases hslot h' with ⟨-, hold'⟩ | ⟨w', hw', rfl, -, heq'⟩
    · exact hv.slot_inj id id' offset hold hold'
    · cases heq'
      exact absurd hold (hv.draft_slot _ (mem_draftsOf_spill hmem hw') id)
    · cases heq
      exact absurd hold' (hv.draft_slot _ (mem_draftsOf_spill hmem hw) id')
    · have hsame : w.2 = w'.2 := (Slot.disk.inj heq).symm.trans (Slot.disk.inj heq')
      rw [List.inj_on_of_nodup_map (coe_nodup.mp hwritten) hw hw' hsame]
  case file_lt => exact hv.file_lt
  case drafts_nodup => exact hrest
  case draft_lt => exact fun offset h => hv.draft_lt offset (hsub offset h)
  case draft_file =>
    exact fun startedAt' todo' written' h => hv.draft_file _ _ _ (task ▸ mem_cons_of_mem h)
  case draft_slot =>
    intro offset h id hslot'
    rcases hslot hslot' with ⟨-, hold⟩ | ⟨w, hw, -, -, heq⟩
    · exact hv.draft_slot offset (hsub offset h) id hold
    · cases heq
      exact Multiset.disjoint_left.mp hdisjoint (List.mem_map_of_mem hw) h
  case draft_hidden =>
    exact fun offset h hexp => hv.draft_hidden offset (hsub offset h) (hexposed _ hexp)
  case exposed_lt => exact fun offset h => hv.exposed_lt offset (hexposed offset h)

/-- Every change keeps ownership. -/
theorem change (h : Change G v v') (hv : Owned v) : Owned v' := by
  have hchange := h
  -- a removal creates no file
  have hremoved : ∀ gone offset group, Function.update v.file gone none offset = some group →
      offset < v.drawn := by
    intro gone offset group hf
    by_cases ho : offset = gone
    · subst ho
      exact nomatch (Function.update_self offset none v.file).symm.trans hf
    · exact hv.file_lt _ _ ((Function.update_of_ne ho none v.file).symm.trans hf)
  cases h with
  | note => exact hv.keep hchange (fun _ _ h => h) hv.file_lt le_rfl
  | @append t group group' look grown =>
    refine hv.keep hchange (fun id offset h => ?_) hv.file_lt le_rfl
    by_cases hid : id = t.instanceId
    · subst hid
      exact nomatch (Function.update_self t.instanceId _ v.look).symm.trans h
    · exact (Function.update_of_ne hid _ v.look).symm.trans h
  | copy nodup look =>
    exact hv.keep hchange (fun _ _ h => h) hv.file_lt (draftsOf_cons_le rfl)
  | write task fresh => exact hv.write task fresh
  | abandon task fresh kept =>
    refine hv.keep hchange (fun _ _ h => h) (fun offset group hf => ?_)
      (task ▸ draftsOf_le_cons _ _)
    by_cases ho : offset = v.drawn
    · exact ho.trans_lt fresh
    · exact (hv.file_lt _ _ ((kept offset ho).symm.trans hf)).trans fresh
  | commit task nodup pointed kept => exact hv.commit task pointed kept
  | take nodup look readable permitted =>
    refine hv.keep hchange (fun id offset h => ?_) hv.file_lt (draftsOf_cons_le rfl)
    simp only at h
    split at h
    · simpa using h
    · exact h
  | load task file =>
    exact hv.keep hchange (fun _ _ h => h) hv.file_lt
      (task ▸ (draftsOf_cons_le rfl).trans (draftsOf_le_cons _ _))
  | merge task =>
    exact hv.keep hchange (fun _ _ h => h) hv.file_lt
      (task ▸ (draftsOf_cons_le rfl).trans (draftsOf_le_cons _ _))
  | unlink task file =>
    exact hv.keep hchange (fun _ _ h => h) (hremoved _)
      (task ▸ (draftsOf_cons_le rfl).trans (draftsOf_le_cons _ _))
  | finish task =>
    refine hv.keep hchange (fun id offset h => ?_) hv.file_lt (task ▸ draftsOf_le_cons _ _)
    simp only at h
    split at h
    · cases h
    · exact h
  | failLoad task permitted =>
    exact hv.keep hchange (fun _ _ h => h) hv.file_lt (task ▸ draftsOf_le_cons _ _)
  | failUnlink task permitted =>
    exact hv.keep hchange (fun _ _ h => h) hv.file_lt (task ▸ draftsOf_le_cons _ _)
  | expire trajectories complete =>
    exact hv.keep hchange (fun id offset h => by simpa using h) hv.file_lt le_rfl
  | discard gone files look =>
    refine hv.keep hchange (fun id offset h => ?_) hv.file_lt ?_
    · simp only at h
      split at h
      · cases h
      · exact h
    · simp only
      split <;> simp [Task.drafts]
  | remove task permitted =>
    exact hv.keep hchange (fun _ _ h => h) (hremoved _)
      (task ▸ (draftsOf_cons_le rfl).trans (draftsOf_le_cons _ _))
  | forget task =>
    exact hv.keep hchange (fun _ _ h => h) hv.file_lt (task ▸ draftsOf_le_cons _ _)

end Owned

def Silent (id : String) (events : List Event) : Prop :=
  ∀ event ∈ events, event.appends id = false ∧ event.takes id = false ∧ event.commits id = false

/-- The effects on the slot of an instance. -/
inductive SlotEffect (G : Guard) (v v' : View) (id : String) : Prop where
  | same (events : List Event) (look : v'.look id = v.look id) (log : v'.log = events ++ v.log)
      (silent : Silent id events)
  | gone (look : v'.look id = none)
  | appended {t : Trajectory} {group group' : TrajectoryGroup} (instance_eq : t.instanceId = id)
      (log : v'.log = .appended t :: v.log) (look : v'.look id = some (.memory group'))
      (old : v.look id = some (.memory group) ∨
        (group.trajectories = [] ∧ (v.look id = none ∨ v.look id = some .hollow)))
      (grown : group'.trajectories = group.trajectories ++ [t])
  | taken {ids : List String} {offsets : List ℕ} (mem : id ∈ ids)
      (log : v'.log = .taken ids offsets :: v.log)
      (look : v'.look id = (v.look id).map Slot.moveOut)
      (files : ∀ offset, v.look id = some (.disk offset) → offset ∈ offsets)
      (readable : v.look id ≠ some .hollow)
      (reader : ∃ read files, Reads v'.tasks read files ∧ id ∈ read.ids ∧
        read.startedAt = v'.log.length)
  | committed {startedAt : ℕ} {group : TrajectoryGroup} {offset : ℕ} {ids : List String}
      (copied : Copied v.tasks startedAt id group) (draft : offset ∈ draftsOf v.tasks)
      (file : v.file offset = some group) (file_eq : v'.file = v.file)
      (held : v.look id ≠ none) (look : v'.look id = some (.disk offset)) (mem : id ∈ ids)
      (log : v'.log = ids.map .committed ++ v.log) (permitted : G.commit v startedAt id)
  | expired {f : TrajectoryGroup → TrajectoryGroup}
      (trajectories : ∀ group, (f group).trajectories = group.trajectories)
      (complete : ∀ group, group.isComplete = true → f group = group)
      (look : v'.look id = (v.look id).map (Slot.map f)) (log : v'.log = v.log)

theorem Change.slot (hv : Owned v) (h : Change G v v') (id : String) : SlotEffect G v v' id := by
  have hsilent : ∀ {event : Event}, event.appends id = false → event.takes id = false →
      event.commits id = false → Silent id [event] := fun ha ht hc e he => by
    rw [List.mem_singleton.mp he]
    exact ⟨ha, ht, hc⟩
  have hnone : Silent id [] := fun _ he => nomatch he
  cases h with
  | @note event event_eq =>
    refine .same [event] rfl rfl ?_
    rcases event_eq with ⟨t, rfl⟩ | ⟨t, rfl⟩ <;> exact hsilent rfl rfl rfl
  | @append t group group' look grown =>
    by_cases hid : id = t.instanceId
    · subst hid
      exact .appended rfl rfl (Function.update_self ..) look grown
    · refine .same [.appended t] (Function.update_of_ne hid _ _) rfl (hsilent ?_ rfl rfl)
      exact decide_eq_false (Ne.symm hid)
  | @commit rest startedAt written look' ids task nodup pointed kept mem_ids permitted =>
    by_cases hid : id ∈ written.map fun w => w.1.1
    · obtain ⟨w, hw, rfl⟩ := List.mem_map.mp hid
      by_cases hheld : v.look w.1.1 = none
      · exact .gone ((pointed w hw).trans (by rw [hheld, Option.map_none]))
      · have hmem : .spill startedAt [] written ∈ v.tasks := task ▸ mem_cons_self _ _
        obtain ⟨slot, hslot⟩ := Option.ne_none_iff_exists'.mp hheld
        exact .committed
          ⟨[], written, hmem, by rw [List.append_nil]; exact List.mem_map_of_mem hw⟩
          (mem_draftsOf_spill hmem hw) (hv.draft_file _ _ _ hmem w hw) rfl hheld
          ((pointed w hw).trans (by rw [hslot, Option.map_some]))
          ((mem_ids _).mpr ⟨hid, hheld⟩) rfl (permitted w hw hheld)
    · refine .same (ids.map .committed) (kept id hid) rfl fun e he => ?_
      obtain ⟨id', hid', rfl⟩ := List.mem_map.mp he
      refine ⟨rfl, rfl, decide_eq_false fun heq => hid ?_⟩
      exact heq ▸ ((mem_ids id').mp hid').1
  | @take taken nodup look readable permitted =>
    by_cases hid : id ∈ taken.map Prod.fst
    · obtain ⟨p, hp, rfl⟩ := List.mem_map.mp hid
      refine .taken hid rfl (if_pos hid) (fun offset hslot => ?_) (fun hslot => ?_)
        ⟨_, _, ⟨_, mem_cons_self _ _, rfl, fun _ => Iff.rfl⟩, hid, rfl⟩
      · have hp2 : p.2 = .disk offset := Option.some.inj ((look p hp).symm.trans hslot)
        exact Slot.mem_offsets.mpr ⟨p, hp, hp2⟩
      · exact readable p hp (Option.some.inj ((look p hp).symm.trans hslot))
    · exact .same [_] (if_neg hid) rfl (hsilent rfl (decide_eq_false hid) rfl)
  | @finish rest read removed task =>
    by_cases hid : id ∈ read.ids
    · exact .gone (if_pos hid)
    · exact .same [_] (if_neg hid) rfl (hsilent rfl rfl rfl)
  | failLoad => exact .same [_] rfl rfl (hsilent rfl rfl rfl)
  | failUnlink => exact .same [_] rfl rfl (hsilent rfl rfl rfl)
  | @expire f trajectories complete => exact .expired (trajectories id) (complete id) rfl rfl
  | @discard gone dec files look =>
    by_cases hid : gone id
    · exact .gone (if_pos hid)
    · exact .same [] (if_neg hid) rfl hnone
  | _ => exact .same [] rfl rfl hnone

/-- Besides ownership: copies are of complete groups, and copies and scans are in the past. -/
structure Dated (v : View) : Prop where
  owned : Owned v
  copied : ∀ startedAt id group, Copied v.tasks startedAt id group →
    startedAt ≤ v.log.length ∧ group.isComplete = true
  scanned : ∀ read files, Reads v.tasks read files → read.startedAt ≤ v.log.length

namespace Dated

theorem create (config : TransferQueueConfig) (bitCount numHashes : ℕ) (env : Env) :
    Dated ((System.create config bitCount numHashes).view env) where
  owned := .create config bitCount numHashes env
  copied _ _ _ h := by
    obtain ⟨_, _, hmem, -⟩ := h
    exact (notMem_zero _ hmem).elim
  scanned _ _ h := by
    obtain ⟨_, hmem, -⟩ := h
    exact (notMem_zero _ hmem).elim

theorem change (h : Change G v v') (hv : Dated v) : Dated v' := by
  obtain ⟨events, hlog⟩ := h.log_extends
  have hgrown : v.log.length ≤ v'.log.length := by rw [hlog, List.length_append]; omega
  refine ⟨hv.owned.change h, fun startedAt id group hc => ?_, fun read files hr => ?_⟩
  · rcases h.copied hc with hold | ⟨rfl, -, hcomplete, -⟩
    · exact ⟨(hv.copied _ _ _ hold).1.trans hgrown, (hv.copied _ _ _ hold).2⟩
    · exact ⟨hgrown, hcomplete⟩
  · rcases h.reads hr with hold | ⟨taken, rfl, -⟩
    · exact (hv.scanned _ _ hold).trans hgrown
    · exact le_rfl

end Dated
end TransferQueue
