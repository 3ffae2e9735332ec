import TransferQueue.ReadCommit

/-! Reads that overlap. A read takes what it scans for good only at its end: until then
another read can come across the entries it has emptied and the files it still needs.
On a working disk no read fails as long as reads and removals leave these alone. -/

namespace TransferQueue
open Multiset

variable {env : Env} {G : Guard} {v v' : View} {offset : ℕ} {tasks : Multiset Task}

/-- The files that suspended reads cannot do without. -/
def needsOf (tasks : Multiset Task) : Multiset ℕ :=
  tasks.bind fun task => (task.needs : Multiset ℕ)

@[simp] theorem needsOf_cons (task : Task) (tasks : Multiset Task) :
    needsOf (task ::ₘ tasks) = task.needs + needsOf tasks := by
  rw [needsOf, cons_bind, needsOf]

theorem needsOf_le_cons (task : Task) (tasks : Multiset Task) :
    needsOf tasks ≤ needsOf (task ::ₘ tasks) := by
  rw [needsOf_cons]
  exact Multiset.le_add_left _ _

theorem needsOf_cons_le {task : Task} (h : task.needs = []) :
    needsOf (task ::ₘ tasks) ≤ needsOf tasks := by
  rw [needsOf_cons, h, coe_nil, zero_add]

theorem mem_needsOf : offset ∈ needsOf tasks ↔ ∃ task ∈ tasks, offset ∈ task.needs := by
  simp [needsOf]

/-- A read takes an instance that a suspended read has taken only if it was rewritten
since, and no file that a suspended read needs is removed by others. -/
def Guard.exclusive : Guard where
  take v taken := ∀ p ∈ taken, ∀ read files, Reads v.tasks read files → p.1 ∈ read.ids →
    Rewritten read.startedAt p.1 v.log
  commit _ _ _ := True
  remove v offset := offset ∉ needsOf v.tasks
  fail := False

section Effects

theorem Change.reads_kept {read : PendingRead} {files : ℕ → Prop} (h : Change G v v')
    (hr : Reads v.tasks read files) :
    Reads v'.tasks read files ∨ (∀ id ∈ read.ids, v'.look id = none) ∨ G.fail := by
  obtain ⟨task', hmem, hsome, hfiles⟩ := hr
  -- the read is carried on by `task'`: either another task changes, or its own does
  have hrest : ∀ {old : Task} {rest rest' : Multiset Task}, v.tasks = old ::ₘ rest →
      old.read? = none → (∀ task ∈ rest, task ∈ rest') → Reads rest' read files := by
    intro old rest rest' htask hnone hsub
    rw [htask] at hmem
    rcases mem_cons.mp hmem with rfl | hmem
    · exact absurd (hnone.symm.trans hsome) (by simp)
    · exact ⟨task', hsub _ hmem, hsome, hfiles⟩
  have hstep : ∀ {old new : Task} {rest : Multiset Task}, v.tasks = old ::ₘ rest →
      new.read? = old.read? → (∀ offset, offset ∈ new.exposed ↔ offset ∈ old.exposed) →
      Reads (new ::ₘ rest) read files := by
    intro old new rest htask hsame hexp
    rw [htask] at hmem
    rcases mem_cons.mp hmem with rfl | hmem
    · exact ⟨new, mem_cons_self _ _, hsame.trans hsome,
        fun offset => (hfiles offset).trans (hexp offset).symm⟩
    · exact ⟨task', mem_cons_of_mem hmem, hsome, hfiles⟩
  cases h with
  | copy nodup look => exact .inl ⟨task', mem_cons_of_mem hmem, hsome, hfiles⟩
  | write task fresh => exact .inl (hrest task rfl fun _ h => mem_cons_of_mem h)
  | abandon task fresh => exact .inl (hrest task rfl fun _ h => h)
  | commit task nodup pointed kept mem_ids permitted =>
    exact .inl (hrest task rfl fun _ h => h)
  | take => exact .inl ⟨task', mem_cons_of_mem hmem, hsome, hfiles⟩
  | load task file => exact .inl (hstep task rfl (by grind [Task.exposed]))
  | merge task => exact .inl (hstep task rfl (by grind [Task.exposed]))
  | unlink task file => exact .inl (hstep task rfl (by grind [Task.exposed]))
  | @finish rest read' removed task =>
    rw [task] at hmem
    rcases mem_cons.mp hmem with rfl | hmem
    · cases hsome
      exact .inr (.inl fun id hid => if_pos hid)
    · exact .inl ⟨task', hmem, hsome, hfiles⟩
  | failLoad task permitted => exact .inr (.inr permitted)
  | failUnlink task permitted => exact .inr (.inr permitted)
  | discard gone files' look =>
    refine .inl ?_
    simp only
    split
    · exact ⟨task', hmem, hsome, hfiles⟩
    · exact ⟨task', mem_cons_of_mem hmem, hsome, hfiles⟩
  | remove task permitted => exact .inl (hrest task rfl fun _ h => mem_cons_of_mem h)
  | forget task => exact .inl (hrest task rfl fun _ h => h)
  | _ => exact .inl ⟨task', hmem, hsome, hfiles⟩

theorem Change.file_gone (hv : Owned v) (h : Change G v v') (hgone : v'.file offset = none) :
    v.file offset = none ∨
      (needsOf v.tasks = offset ::ₘ needsOf v'.tasks ∧
        ∃ read files, Reads v'.tasks read files ∧ files offset) ∨
      (G.remove v offset ∧ ∃ todo, .remove todo ∈ v.tasks ∧ offset ∈ todo) := by
  cases h with
  | write task fresh =>
    by_cases ho : offset = v.drawn
    · subst ho
      exact nomatch (Function.update_self ..).symm.trans hgone
    · exact .inl ((Function.update_of_ne ho _ _).symm.trans hgone)
  | @unlink rest read gone group todo removed task file =>
    by_cases ho : offset = gone
    · subst ho
      refine .inr (.inl ⟨?_, read, _, ⟨_, mem_cons_self _ _, rfl, fun _ => Iff.rfl⟩, ?_⟩)
      · rw [task, needsOf_cons, needsOf_cons, Task.needs, Task.needs, List.map_cons, ← cons_coe,
          cons_add]
      · simp [Task.exposed]
    · exact .inl ((Function.update_of_ne ho _ _).symm.trans hgone)
  | @remove rest gone todo task permitted =>
    by_cases ho : offset = gone
    · subst ho
      exact .inr (.inr ⟨permitted, offset :: todo, task ▸ mem_cons_self _ _,
        List.mem_cons_self ..⟩)
    · exact .inl ((Function.update_of_ne ho _ _).symm.trans hgone)
  | abandon task fresh kept =>
    by_cases ho : offset = v.drawn
    · refine .inl (Option.eq_none_iff_forall_ne_some.mpr fun group hfile => ?_)
      exact absurd (hv.file_lt offset group hfile) (ho ▸ lt_irrefl _)
    · exact .inl ((kept offset ho).symm.trans hgone)
  | _ => exact .inl hgone

theorem Change.needs (h : Change G v v') :
    needsOf v'.tasks ≤ needsOf v.tasks ∨ ∃ taken : List (String × Slot),
      needsOf v'.tasks = Slot.offsets taken + needsOf v.tasks ∧ (taken.map Prod.fst).Nodup ∧
      (∀ p ∈ taken, v.look p.1 = some p.2) ∧ G.take v taken ∧ v'.file = v.file := by
  cases h with
  | copy nodup look => exact .inl (needsOf_cons_le rfl)
  | write task fresh =>
    exact .inl (task ▸ (needsOf_cons_le rfl).trans (needsOf_le_cons _ _))
  | abandon task fresh => exact .inl (task ▸ needsOf_le_cons _ _)
  | commit task nodup pointed kept mem_ids permitted => exact .inl (task ▸ needsOf_le_cons _ _)
  | @take taken nodup look readable permitted =>
    refine .inr ⟨taken, ?_, nodup, look, permitted, rfl⟩
    rw [needsOf_cons, Task.needs, List.map_nil, List.append_nil]
  | @load rest read offset group todo loaded task file =>
    -- a loaded file is still to be removed
    refine .inl (le_of_eq ?_)
    rw [task, needsOf_cons, needsOf_cons, Task.needs, Task.needs]
    congr 1
    refine coe_eq_coe.mpr ?_
    rw [List.map_append, ← List.append_assoc, List.map_singleton]
    exact List.perm_append_singleton offset (todo ++ loaded.map Prod.fst)
  | merge task =>
    refine .inl (le_of_eq ?_)
    rw [task, needsOf_cons, needsOf_cons]
    rfl
  | unlink task file =>
    refine .inl ?_
    rw [task, needsOf_cons, needsOf_cons, Task.needs, Task.needs, List.map_cons, ← cons_coe,
      cons_add]
    exact le_cons_self _ _
  | finish task => exact .inl (task ▸ needsOf_le_cons _ _)
  | failLoad task permitted => exact .inl (task ▸ needsOf_le_cons _ _)
  | failUnlink task permitted => exact .inl (task ▸ needsOf_le_cons _ _)
  | discard gone files look =>
    refine .inl ?_
    simp only
    split
    · exact le_rfl
    · exact needsOf_cons_le rfl
  | remove task permitted =>
    exact .inl (task ▸ (needsOf_cons_le rfl).trans (needsOf_le_cons _ _))
  | forget task => exact .inl (task ▸ needsOf_le_cons _ _)
  | _ => exact .inl le_rfl

theorem Change.removes (h : Change G v v')
    (hr : ∃ todo, .remove todo ∈ v'.tasks ∧ offset ∈ todo) :
    (∃ todo, .remove todo ∈ v.tasks ∧ offset ∈ todo) ∨
      ∃ id, v.look id = some (.disk offset) ∧ v'.look id = none := by
  obtain ⟨todo, hmem, hoff⟩ := hr
  cases h.taskEffect hmem with
  | same mem => exact .inl ⟨todo, mem, hoff⟩
  | discard look => exact .inr (look offset hoff)
  | remove mem => exact .inl ⟨_, mem, List.mem_cons_of_mem _ hoff⟩

theorem Change.failed {failure : Failure} (h : Change G v v')
    (hf : .readFailed failure ∈ v'.log) : .readFailed failure ∈ v.log ∨ G.fail := by
  cases h with
  | note event_eq =>
    rcases event_eq with ⟨t, rfl⟩ | ⟨t, rfl⟩ <;> exact .inl (by simpa using hf)
  | append look grown => exact .inl (by simpa using hf)
  | commit task nodup pointed kept mem_ids permitted => exact .inl (by simpa using hf)
  | take => exact .inl (by simpa using hf)
  | finish task => exact .inl (by simpa using hf)
  | failLoad task permitted => exact .inr permitted
  | failUnlink task permitted => exact .inr permitted
  | _ => exact .inl hf

end Effects

theorem Owned.nodup_offsets (hv : Owned v) {taken : List (String × Slot)}
    (hids : (taken.map Prod.fst).Nodup) (hlook : ∀ p ∈ taken, v.look p.1 = some p.2) :
    (Slot.offsets taken).Nodup := by
  induction taken with
  | nil => exact .nil
  | cons p taken ih =>
    obtain ⟨hnotin, hnodup⟩ := List.nodup_cons.mp hids
    have htail := ih hnodup fun q hq => hlook q (List.mem_cons_of_mem _ hq)
    have hhead := hlook p (List.mem_cons_self ..)
    rw [Slot.offsets, List.filterMap_cons]
    cases hs : p.2 with
    | disk offset =>
      refine List.nodup_cons.mpr ⟨fun hin => hnotin ?_, htail⟩
      obtain ⟨q, hq, hq2⟩ := Slot.mem_offsets.mp hin
      have hsame := hv.slot_inj p.1 q.1 offset (hs ▸ hhead)
        (hq2 ▸ hlook q (List.mem_cons_of_mem _ hq))
      exact hsame ▸ List.mem_map_of_mem hq
    | _ => exact htail

/-- Emptied entries and files in use belong to one suspended read each, whose entries
nobody has rewritten. -/
structure Exclusive (v : View) : Prop where
  dated : Dated v
  hollow : ∀ id, v.look id = some .hollow → ∃ read files, Reads v.tasks read files ∧
    id ∈ read.ids ∧ ¬Rewritten read.startedAt id v.log
  claimed : ∀ id offset read files, v.look id = some (.disk offset) → Reads v.tasks read files →
    files offset → id ∈ read.ids ∧ ¬Rewritten read.startedAt id v.log
  present : ∀ id offset, v.look id = some (.disk offset) → v.file offset ≠ none ∨
    ∃ read files, Reads v.tasks read files ∧ files offset
  detached : ∀ id offset, (∃ todo, .remove todo ∈ v.tasks ∧ offset ∈ todo) →
    v.look id ≠ some (.disk offset)
  needed : ∀ offset ∈ needsOf v.tasks, v.file offset ≠ none
  nodup : (needsOf v.tasks).Nodup
  unfailed : ∀ failure, .readFailed failure ∉ v.log

namespace Exclusive

theorem create (config : TransferQueueConfig) (bitCount numHashes : ℕ) (env : Env) :
    Exclusive ((System.create config bitCount numHashes).view env) where
  dated := .create config bitCount numHashes env
  hollow _ h := nomatch h
  claimed _ _ _ _ h := nomatch h
  present _ _ h := nomatch h
  detached _ _ _ h := nomatch h
  needed _ h := (notMem_zero _ h).elim
  nodup := nodup_zero
  unfailed _ h := nomatch h

theorem reads_of_needs (h : offset ∈ needsOf v.tasks) :
    ∃ read files, Reads v.tasks read files ∧ files offset := by
  obtain ⟨task, hmem, hoff⟩ := mem_needsOf.mp h
  cases task with
  | load read todo loaded => exact ⟨read, _, ⟨_, hmem, rfl, fun _ => Iff.rfl⟩, hoff⟩
  | unlink read todo removed =>
    exact ⟨read, _, ⟨_, hmem, rfl, fun _ => Iff.rfl⟩, List.mem_append_left _ hoff⟩
  | _ => cases hoff

theorem disk_before (hv : Exclusive v) (h : Change Guard.exclusive v v') {id : String}
    (hslot : v'.look id = some (.disk offset)) :
    (v.look id = some (.disk offset) ∧ ∀ startedAt, startedAt ≤ v.log.length →
        Rewritten startedAt id v'.log → Rewritten startedAt id v.log) ∨
      (offset ∈ draftsOf v.tasks ∧ v'.file offset ≠ none) := by
  cases h.slot hv.dated.owned id with
  | same events look log silent =>
    exact .inl ⟨look ▸ hslot, fun startedAt hle hr => (log ▸ hr).silent hle silent⟩
  | gone look => exact nomatch look.symm.trans hslot
  | appended instance_eq log look => exact nomatch look.symm.trans hslot
  | taken mem log look =>
    rw [look] at hslot
    obtain ⟨old, hlook, heq⟩ := Option.map_eq_some_iff.mp hslot
    cases old <;> cases heq
    exact .inl ⟨hlook, fun startedAt hle hr => (log ▸ hr).of_taken hle⟩
  | committed copied draft file file_eq held look =>
    obtain rfl := Slot.disk.inj (Option.some.inj (look.symm.trans hslot))
    exact .inr ⟨draft, by rw [file_eq, file]; exact Option.some_ne_none _⟩
  | expired trajectories complete look log =>
    rw [look] at hslot
    obtain ⟨old, hlook, heq⟩ := Option.map_eq_some_iff.mp hslot
    cases old <;> cases heq
    exact .inl ⟨hlook, fun startedAt _ hr => log ▸ hr⟩

theorem unclaimed (hv : Exclusive v) {taken : List (String × Slot)}
    (hlook : ∀ p ∈ taken, v.look p.1 = some p.2) (hpermitted : Guard.exclusive.take v taken)
    {p : String × Slot} (hp : p ∈ taken) (hslot : p.2 = .disk offset) {read : PendingRead}
    {files : ℕ → Prop} (hr : Reads v.tasks read files) : ¬files offset := by
  intro hfiles
  obtain ⟨hid, hrw⟩ := hv.claimed p.1 offset read files (hslot ▸ hlook p hp) hr hfiles
  exact hrw (hpermitted p hp read files hr hid)

theorem hollow_change (hv : Exclusive v) (h : Change Guard.exclusive v v') {id : String}
    (hslot : v'.look id = some .hollow) : ∃ read files, Reads v'.tasks read files ∧
      id ∈ read.ids ∧ ¬Rewritten read.startedAt id v'.log := by
  have hkept : v.look id = some .hollow → (∀ startedAt, startedAt ≤ v.log.length →
      Rewritten startedAt id v'.log → Rewritten startedAt id v.log) →
      ∃ read files, Reads v'.tasks read files ∧ id ∈ read.ids ∧
        ¬Rewritten read.startedAt id v'.log := by
    intro hold hrw
    obtain ⟨read, files, hr, hid, hun⟩ := hv.hollow id hold
    rcases h.reads_kept hr with hr' | herased | hfail
    · exact ⟨read, files, hr', hid, fun hr'' => hun (hrw _ (hv.dated.scanned _ _ hr) hr'')⟩
    · exact nomatch (herased id hid).symm.trans hslot
    · exact hfail.elim
  cases h.slot hv.dated.owned id with
  | same events look log silent =>
    exact hkept (look ▸ hslot) fun startedAt hle hr => (log ▸ hr).silent hle silent
  | gone look => exact nomatch look.symm.trans hslot
  | appended instance_eq log look => exact nomatch look.symm.trans hslot
  | taken mem log look files readable reader =>
    obtain ⟨read, files, hr, hid, hstarted⟩ := reader
    exact ⟨read, files, hr, hid, hstarted ▸ not_rewritten_length id v'.log⟩
  | committed copied draft file file_eq held look => exact nomatch look.symm.trans hslot
  | expired trajectories complete look log =>
    rw [look] at hslot
    obtain ⟨old, hlook, heq⟩ := Option.map_eq_some_iff.mp hslot
    cases old <;> cases heq
    exact hkept hlook fun startedAt _ hr => log ▸ hr

theorem claimed_change (hv : Exclusive v) (h : Change Guard.exclusive v v') {id : String}
    (hslot : v'.look id = some (.disk offset)) {read : PendingRead} {files : ℕ → Prop}
    (hr : Reads v'.tasks read files) (hfiles : files offset) :
    id ∈ read.ids ∧ ¬Rewritten read.startedAt id v'.log := by
  rcases h.reads hr with hold | ⟨taken, rfl, hoffsets, hlook, -, hafter, -⟩
  · rcases hv.disk_before h hslot with ⟨hbefore, hrw⟩ | ⟨hdraft, -⟩
    · obtain ⟨hid, hun⟩ := hv.claimed id offset read files hbefore hold hfiles
      exact ⟨hid, fun hr' => hun (hrw _ (hv.dated.scanned _ _ hold) hr')⟩
    · obtain ⟨task, hmem, -, hexposed⟩ := hold
      exact absurd ⟨task, hmem, (hexposed offset).mp hfiles⟩
        (hv.dated.owned.draft_hidden offset hdraft)
  · refine ⟨?_, not_rewritten_length id v'.log⟩
    obtain ⟨p, hp, hp2⟩ := Slot.mem_offsets.mp ((hoffsets offset).mp hfiles)
    have hbefore : v.look id = some (.disk offset) := by
      rw [hafter] at hslot
      split at hslot
      · obtain ⟨old, hlook', heq⟩ := Option.map_eq_some_iff.mp hslot
        cases old <;> cases heq
        exact hlook'
      · exact hslot
    rw [hv.dated.owned.slot_inj id p.1 offset hbefore (hp2 ▸ hlook p hp)]
    exact List.mem_map_of_mem hp

theorem present_change (hv : Exclusive v) (h : Change Guard.exclusive v v') {id : String}
    (hslot : v'.look id = some (.disk offset)) : v'.file offset ≠ none ∨
      ∃ read files, Reads v'.tasks read files ∧ files offset := by
  rcases hv.disk_before h hslot with ⟨hbefore, -⟩ | ⟨-, hfile⟩
  · by_cases hnone : v'.file offset = none
    · have hclaim : ∀ read files, Reads v.tasks read files → files offset →
          ∃ read files, Reads v'.tasks read files ∧ files offset := by
        intro read files hr hfiles
        obtain ⟨hid, -⟩ := hv.claimed id offset read files hbefore hr hfiles
        rcases h.reads_kept hr with hr' | herased | hfail
        · exact ⟨read, files, hr', hfiles⟩
        · exact nomatch (herased id hid).symm.trans hslot
        · exact hfail.elim
      rcases h.file_gone hv.dated.owned hnone with hold | ⟨-, hread⟩ | ⟨-, hremove⟩
      · rcases hv.present id offset hbefore with hfile | ⟨read, files, hr, hfiles⟩
        · exact absurd hold hfile
        · exact .inr (hclaim read files hr hfiles)
      · exact .inr hread
      · exact absurd hbefore (hv.detached id offset hremove)
    · exact .inl hnone
  · exact .inl hfile

theorem needed_change (hv : Exclusive v) (h : Change Guard.exclusive v v') :
    (∀ offset ∈ needsOf v'.tasks, v'.file offset ≠ none) ∧ (needsOf v'.tasks).Nodup := by
  rcases h.needs with hle | ⟨taken, hneeds, hids, hlook, hpermitted, hfile⟩
  · refine ⟨fun offset hoff hnone => ?_, nodup_of_le hle hv.nodup⟩
    have hold := mem_of_le hle hoff
    rcases h.file_gone hv.dated.owned hnone with hgone | ⟨hcons, -⟩ | ⟨hunneeded, -⟩
    · exact hv.needed offset hold hgone
    · exact (nodup_cons.mp (hcons ▸ hv.nodup)).1 hoff
    · exact hunneeded hold
  · refine ⟨fun offset hoff => ?_, ?_⟩
    · rw [hneeds] at hoff
      rw [hfile]
      rcases mem_add.mp hoff with hnew | hold
      · obtain ⟨p, hp, hp2⟩ := Slot.mem_offsets.mp hnew
        rcases hv.present p.1 offset (hp2 ▸ hlook p hp) with hpresent | ⟨read, files, hr, hfiles⟩
        · exact hpresent
        · exact absurd hfiles (hv.unclaimed hlook hpermitted hp hp2 hr)
      · exact hv.needed offset hold
    · rw [hneeds, nodup_add]
      refine ⟨coe_nodup.mpr (hv.dated.owned.nodup_offsets hids hlook), hv.nodup, ?_⟩
      refine Multiset.disjoint_left.mpr @fun offset hnew hold => ?_
      obtain ⟨p, hp, hp2⟩ := Slot.mem_offsets.mp hnew
      obtain ⟨read, files, hr, hfiles⟩ := reads_of_needs hold
      exact hv.unclaimed hlook hpermitted hp hp2 hr hfiles

theorem change (h : Change Guard.exclusive v v') (hv : Exclusive v) : Exclusive v' := by
  obtain ⟨hneeded, hnodup⟩ := hv.needed_change h
  refine ⟨hv.dated.change h, fun id hslot => hv.hollow_change h hslot,
    fun id offset read files hslot hr hfiles => hv.claimed_change h hslot hr hfiles,
    fun id offset hslot => hv.present_change h hslot, fun id offset hremove hslot => ?_, hneeded,
    hnodup, fun failure hfailed => ?_⟩
  · rcases h.removes hremove with hold | ⟨id', hslot', hgone⟩
    · rcases hv.disk_before h hslot with ⟨hbefore, -⟩ | ⟨hdraft, -⟩
      · exact hv.detached id offset hold hbefore
      · obtain ⟨todo, hmem, hoff⟩ := hold
        exact hv.dated.owned.draft_hidden offset hdraft ⟨_, hmem, hoff⟩
    · rcases hv.disk_before h hslot with ⟨hbefore, -⟩ | ⟨hdraft, -⟩
      · rw [hv.dated.owned.slot_inj id' id offset hslot' hbefore] at hgone
        exact nomatch hgone.symm.trans hslot
      · exact hv.dated.owned.draft_slot offset hdraft id' hslot'
  · rcases h.failed hfailed with hold | hfail
    · exact hv.unfailed failure hold
    · exact hfail.elim

end Exclusive

namespace System

def scanning (s : System) : Action → List String
  | .readReadyGroups maxGroups => (s.shard.selected maxGroups).map Prod.fst
  | _ => []

def removing (s : System) : Action → Option ℕ
  | .resume i =>
    match s.tasks[i]? with
    | some (.remove (offset :: _)) => some offset
    | _ => none
  | _ => none

/-- A scan takes an instance that a suspended read has taken only if the instance was
rewritten since, and a detached removal removes no file that a suspended read still has
to load or remove. -/
def StaysApart (s : System) (a : Action) : Prop :=
  (∀ id ∈ s.scanning a, ∀ task ∈ s.tasks, ∀ read ∈ task.read?, id ∈ read.ids →
    Rewritten read.startedAt id s.log) ∧
  ∀ offset ∈ s.removing a, ∀ task ∈ s.tasks, offset ∉ task.needs

instance (s : System) (a : Action) : Decidable (s.StaysApart a) :=
  inferInstanceAs (Decidable ((∀ id ∈ s.scanning a, ∀ task ∈ s.tasks, ∀ read ∈ task.read?, _) ∧ _))

theorem scan_readable {s : System} (hv : Exclusive (s.view env))
    {maxGroups : Int32} (h : s.StaysApart (.readReadyGroups maxGroups)) :
    ∀ p ∈ s.shard.selected maxGroups, p.2.Readable := by
  intro p hp
  by_contra hread
  rw [GroupEntry.Readable, not_or, not_not, not_lt, Nat.le_zero] at hread
  have hslot : (s.view env).look p.1 = some .hollow :=
    (BufferShard.look_of_mem (BufferShard.mem_of_selected hp).1).trans
      (by rw [GroupEntry.slot_of_empty hread.1 hread.2])
  obtain ⟨read, files, ⟨task, hmem, hsome, -⟩, hid, hun⟩ := hv.hollow p.1 hslot
  exact hun (h.1 p.1 (List.mem_map_of_mem hp) task hmem read hsome hid)

/-- On a working disk a read gets the files it needs, so the guard permits every step. -/
theorem permits_apart (hr : env.Reliable) {s : System} (hs : s.Clean env)
    (hv : Exclusive (s.view env)) {a : Action} (h : s.StaysApart a) :
    Permits env Guard.exclusive s a := by
  cases a with
  | readReadyGroups maxGroups =>
    rintro p hp read files ⟨task, hmem, hsome, -⟩ hid
    obtain ⟨q, hq, rfl⟩ := List.mem_map.mp hp
    exact h.1 q.1 (List.mem_map_of_mem hq) task hmem read hsome hid
  | resume i =>
    intro task htask
    have hmem : task ∈ (s.view env).tasks := List.mem_of_getElem? htask
    have hfile : ∀ offset ∈ task.needs, ∃ group, s.shard.diskStorage.find offset = some group :=
      fun offset hoff => Option.ne_none_iff_exists'.mp
        (hv.needed offset (mem_needsOf.mpr ⟨task, hmem, hoff⟩))
    cases task with
    | spill startedAt todo written =>
      cases todo with
      | nil => exact fun _ _ _ => trivial
      | cons copy todo => trivial
    | load read todo loaded =>
      cases todo with
      | nil => trivial
      | cons offset todo =>
        intro hfail
        obtain ⟨group, hgroup⟩ := hfile offset (by simp [Task.needs])
        exact absurd (by rw [DiskStorage.load_ok hr hs.initialized hgroup]) (hfail group)
    | unlink read todo removed =>
      cases todo with
      | nil => trivial
      | cons file todo =>
        intro hfail
        obtain ⟨group, hgroup⟩ := hfile file.1 (by simp [Task.needs])
        exact absurd (by rw [DiskStorage.remove_ok hr hs.initialized hgroup]) hfail
    | remove todo =>
      cases todo with
      | nil => trivial
      | cons offset todo =>
        intro hneeded
        obtain ⟨task, hmem', hoff⟩ := mem_needsOf.mp hneeded
        exact h.2 offset (by simp [removing, htask]) task hmem' hoff
  | _ => trivial

theorem step_crashed {s : System} {a : Action} (hc : s.crashed = false)
    (hread : ∀ maxGroups, a = .readReadyGroups maxGroups →
      ∀ p ∈ s.shard.selected maxGroups, p.2.Readable) : (s.step env a).2.crashed = false := by
  rw [step, hc, if_neg Bool.false_ne_true]
  cases a with
  | readReadyGroups maxGroups =>
    rw [act, startRead, BufferShard.readScan_eq, if_pos (hread maxGroups rfl)]
    simp only
    split <;> exact hc
  | write t =>
    rw [act, startWrite]
    split
    · exact hc
    · exact hc
    · split <;> exact hc
  | deleteInstance id =>
    rw [act, startDelete]
    split <;> exact hc
  | reset =>
    rw [act, startReset]
    split <;> exact hc
  | resume i =>
    rw [act]
    split
    · exact hc
    · rename_i task htask
      cases task with
      | spill startedAt todo written =>
        cases todo with
        | nil => exact hc
        | cons copy todo =>
          rw [resumeTask]
          split <;> exact hc
      | load read todo loaded =>
        cases todo with
        | nil => exact hc
        | cons offset todo =>
          rw [resumeTask]
          split <;> exact hc
      | unlink read todo removed =>
        cases todo with
        | nil => exact hc
        | cons file todo =>
          rw [resumeTask]
          split <;> exact hc
      | remove todo =>
        cases todo with
        | nil => exact hc
        | cons offset todo =>
          rw [resumeTask]
          split
          · exact hc
          · split <;> exact hc
  | _ => exact hc

/-- On a working disk, in every interleaving that keeps reads apart from each other and
from detached removals, no read crashes and no read fails. -/
theorem reads_never_fail (env : Env) (hr : env.Reliable) (config : TransferQueueConfig)
    (bitCount numHashes : ℕ) (actions : List Action)
    (h : Machine.Along (step env) StaysApart (create config bitCount numHashes) actions) :
    ((create config bitCount numHashes).run env actions).crashed = false ∧
      ∀ failure,
        .readFailed failure ∉ ((create config bitCount numHashes).run env actions).log := by
  have hone : ∀ (s : System) (a : Action),
      s.Clean env ∧ Exclusive (s.view env) ∧ s.crashed = false → s.StaysApart a → True ∧
        (s.step env a).2.Clean env ∧ Exclusive ((s.step env a).2.view env) ∧
          (s.step env a).2.crashed = false := by
    rintro s a ⟨hs, hv, hc⟩ hstep
    have hp : s.crashed = false → Permits env Guard.exclusive s a := fun _ =>
      permits_apart hr hs hv hstep
    refine ⟨trivial, (step_simulates hs hp).2, step_keeps (fun _ _ => Exclusive.change) hs hp hv,
      step_crashed hc fun maxGroups ha => ?_⟩
    exact scan_readable hv (ha ▸ hstep)
  obtain ⟨-, -, hv, hc⟩ := Machine.along_of_inv (P := fun _ _ => True) _ hone actions
    ⟨Clean.create config bitCount numHashes, Exclusive.create config bitCount numHashes env, rfl⟩ h
  exact ⟨hc, hv.unfailed⟩

/-- Two reads in flight at once, of different instances, and a deletion of a third. -/
theorem reads_never_fail_apart :
    let actions : List Action := [.write (.bare "w" "b"), .resume 0, .resume 0,
      .readReadyGroups 0, .write (.bare "u" "a"), .resume 1, .resume 1, .readReadyGroups 1,
      .write (.bare "v" "c"), .deleteInstance "c", .resume 0, .resume 0, .resume 0, .resume 0,
      .resume 0, .resume 0, .resume 0, .resume 0, .resume 0, .resume 0]
    ((create (.tight 1) 0 0).run (.sample []) actions).crashed = false ∧ ∀ failure,
      .readFailed failure ∉ ((create (.tight 1) 0 0).run (.sample []) actions).log :=
  reads_never_fail (.sample []) Env.sample_reliable (.tight 1) 0 0 _ (by decide +kernel)

/-- While a read that emptied the entry of "a" waits for the disk, a second read finds the
entry complete and not on disk, and dereferences its null group. -/
theorem second_read_crashes :
    let actions : List Action := [.write (.bare "w" "b"), .resume 0, .resume 0,
      .write (.bare "u" "a"), .readReadyGroups 0, .readReadyGroups 0]
    ¬(((create (.tight 1) 0 0).run (.sample []) actions).crashed = false ∧ ∀ failure,
      .readFailed failure ∉ ((create (.tight 1) 0 0).run (.sample []) actions).log) := by
  intro actions h
  exact absurd h.1 (by decide +kernel)

end System
end TransferQueue
