import Mathlib.Data.Multiset.Bind
import TransferQueue.ProtocolSimulation

/-! What one change can do to the suspended tasks, to a single file and to the log. Each
invariant of the interleavings looks at a few of these only. -/

namespace TransferQueue
open Multiset

variable {G : Guard} {v v' : View} {task : Task} {tasks : Multiset Task} {startedAt offset : ℕ}
  {id : String} {group : TrajectoryGroup} {read : PendingRead} {files : ℕ → Prop}

section Tasks

/-- The files that spills have written and not committed. -/
def draftsOf (tasks : Multiset Task) : Multiset ℕ :=
  tasks.bind fun task => (task.drafts : Multiset ℕ)

def Exposes (tasks : Multiset Task) (offset : ℕ) : Prop := ∃ task ∈ tasks, offset ∈ task.exposed

/-- A suspended spill has copied the group of an instance when the log had `startedAt`
entries. -/
def Copied (tasks : Multiset Task) (startedAt : ℕ) (id : String) (group : TrajectoryGroup) : Prop :=
  ∃ todo written, .spill startedAt todo written ∈ tasks ∧
    (id, group) ∈ written.map Prod.fst ++ todo

/-- A suspended read, and the files it is exposed to. -/
def Reads (tasks : Multiset Task) (read : PendingRead) (files : ℕ → Prop) : Prop :=
  ∃ task ∈ tasks, task.read? = some read ∧ ∀ offset, files offset ↔ offset ∈ task.exposed

@[simp] theorem draftsOf_cons (task : Task) (tasks : Multiset Task) :
    draftsOf (task ::ₘ tasks) = task.drafts + draftsOf tasks := by
  rw [draftsOf, cons_bind, draftsOf]

@[simp] theorem exposes_cons :
    Exposes (task ::ₘ tasks) offset ↔ offset ∈ task.exposed ∨ Exposes tasks offset := by
  simp [Exposes]

theorem draftsOf_le_cons (task : Task) (tasks : Multiset Task) :
    draftsOf tasks ≤ draftsOf (task ::ₘ tasks) := by
  rw [draftsOf_cons]
  exact Multiset.le_add_left _ _

theorem draftsOf_cons_le (h : task.drafts = []) : draftsOf (task ::ₘ tasks) ≤ draftsOf tasks := by
  rw [draftsOf_cons, h, coe_nil, zero_add]

theorem mem_draftsOf_spill {startedAt : ℕ} {todo : List (String × TrajectoryGroup)}
    {written : List ((String × TrajectoryGroup) × ℕ)} (h : .spill startedAt todo written ∈ tasks)
    {w : (String × TrajectoryGroup) × ℕ} (hw : w ∈ written) : w.2 ∈ draftsOf tasks :=
  mem_bind.mpr ⟨_, h, Multiset.mem_coe.mpr (List.mem_map_of_mem hw)⟩

theorem Reads.of_cons (h : Reads (task ::ₘ tasks) read files) (hnone : task.read? = none) :
    Reads tasks read files := by
  obtain ⟨task', hmem, hsome, hfiles⟩ := h
  rcases mem_cons.mp hmem with rfl | hmem
  · exact nomatch hnone.symm.trans hsome
  · exact ⟨task', hmem, hsome, hfiles⟩

theorem Copied.of_cons (h : Copied (task ::ₘ tasks) startedAt id group)
    (hne : ∀ startedAt todo written, task ≠ .spill startedAt todo written) :
    Copied tasks startedAt id group := by
  obtain ⟨todo, written, hmem, hcopy⟩ := h
  exact ⟨todo, written, (mem_cons.mp hmem).resolve_left (hne _ _ _).symm, hcopy⟩

end Tasks

/-- Where a suspended task comes from: it was there before, one of those there before has
gone on, or it is the first step of an operation. -/
inductive TaskEffect (G : Guard) (v v' : View) : Task → Prop where
  | same {task : Task} (mem : task ∈ v.tasks) : TaskEffect G v v' task
  | copy {chosen : List (String × TrajectoryGroup)}
      (chosen_look : ∀ p ∈ chosen, v.look p.1 = some (.memory p.2) ∧ p.2.isComplete = true)
      (look : v'.look = v.look) (log : v'.log = v.log)
      (tasks : v'.tasks = .spill v.log.length chosen [] ::ₘ v.tasks) :
      TaskEffect G v v' (.spill v.log.length chosen [])
  | write {startedAt : ℕ} {id : String} {group : TrajectoryGroup}
      {todo : List (String × TrajectoryGroup)} {written : List ((String × TrajectoryGroup) × ℕ)}
      (mem : .spill startedAt ((id, group) :: todo) written ∈ v.tasks)
      (file : v'.file v.drawn = some group) (fresh : v.drawn < v'.drawn) :
      TaskEffect G v v' (.spill startedAt todo (written ++ [((id, group), v.drawn)]))
  | take {taken : List (String × Slot)} (taken_look : ∀ p ∈ taken, v.look p.1 = some p.2)
      (readable : ∀ p ∈ taken, p.2 ≠ .hollow) (permitted : G.take v taken)
      (look : ∀ id, v'.look id =
        if id ∈ taken.map Prod.fst then (v.look id).map Slot.moveOut else v.look id)
      (file : v'.file = v.file)
      (log : v'.log = .taken (taken.map Prod.fst) (Slot.offsets taken) :: v.log)
      (tasks : v'.tasks = .load ⟨v'.log.length, taken.map Prod.fst, Slot.groups taken⟩
        (Slot.offsets taken) [] ::ₘ v.tasks) :
      TaskEffect G v v' (.load ⟨v'.log.length, taken.map Prod.fst, Slot.groups taken⟩
        (Slot.offsets taken) [])
  | load {read : PendingRead} {offset : ℕ} {group : TrajectoryGroup} {todo : List ℕ}
      {loaded : List (ℕ × TrajectoryGroup)} (mem : .load read (offset :: todo) loaded ∈ v.tasks)
      (file : v'.file offset = some group) :
      TaskEffect G v v' (.load read todo (loaded ++ [(offset, group)]))
  | merge {read : PendingRead} {loaded : List (ℕ × TrajectoryGroup)}
      (mem : .load read [] loaded ∈ v.tasks) : TaskEffect G v v' (.unlink read loaded [])
  | unlink {read : PendingRead} {removedFile : ℕ × TrajectoryGroup}
      {todo removed : List (ℕ × TrajectoryGroup)}
      (mem : .unlink read (removedFile :: todo) removed ∈ v.tasks)
      (file : v'.file removedFile.1 = none) :
      TaskEffect G v v' (.unlink read todo (removed ++ [removedFile]))
  | discard {files : List ℕ}
      (look : ∀ offset ∈ files, ∃ id, v.look id = some (.disk offset) ∧ v'.look id = none) :
      TaskEffect G v v' (.remove files)
  | remove {offset : ℕ} {todo : List ℕ} (mem : .remove (offset :: todo) ∈ v.tasks) :
      TaskEffect G v v' (.remove todo)

namespace Change

/-- Every invariant on the tasks goes through these cases. -/
theorem taskEffect (h : Change G v v') (hmem : task ∈ v'.tasks) : TaskEffect G v v' task := by
  cases h with
  | copy nodup look =>
    rcases mem_cons.mp hmem with rfl | hmem
    · exact .copy look rfl rfl rfl
    · exact .same hmem
  | write spill fresh =>
    rcases mem_cons.mp hmem with rfl | hmem
    · exact .write (spill ▸ mem_cons_self _ _) (Function.update_self ..) fresh
    · exact .same (spill ▸ mem_cons_of_mem hmem)
  | take nodup look readable permitted =>
    rcases mem_cons.mp hmem with rfl | hmem
    · exact .take look readable permitted (fun _ => rfl) rfl rfl rfl
    · exact .same hmem
  | load read file =>
    rcases mem_cons.mp hmem with rfl | hmem
    · exact .load (read ▸ mem_cons_self _ _) file
    · exact .same (read ▸ mem_cons_of_mem hmem)
  | merge read =>
    rcases mem_cons.mp hmem with rfl | hmem
    · exact .merge (read ▸ mem_cons_self _ _)
    · exact .same (read ▸ mem_cons_of_mem hmem)
  | unlink read file =>
    rcases mem_cons.mp hmem with rfl | hmem
    · exact .unlink (read ▸ mem_cons_self _ _) (Function.update_self ..)
    · exact .same (read ▸ mem_cons_of_mem hmem)
  | discard gone files look =>
    simp only at hmem
    split at hmem
    · exact .same hmem
    · rcases mem_cons.mp hmem with rfl | hmem
      · refine .discard fun offset hoff => ?_
        obtain ⟨id, hgone, hid⟩ := look offset hoff
        exact ⟨id, hid, if_pos hgone⟩
      · exact .same hmem
  | remove removal permitted =>
    rcases mem_cons.mp hmem with rfl | hmem
    · exact .remove (removal ▸ mem_cons_self _ _)
    · exact .same (removal ▸ mem_cons_of_mem hmem)
  | abandon ended => exact .same (ended ▸ mem_cons_of_mem hmem)
  | commit ended => exact .same (ended ▸ mem_cons_of_mem hmem)
  | finish ended => exact .same (ended ▸ mem_cons_of_mem hmem)
  | failLoad ended => exact .same (ended ▸ mem_cons_of_mem hmem)
  | failUnlink ended => exact .same (ended ▸ mem_cons_of_mem hmem)
  | forget ended => exact .same (ended ▸ mem_cons_of_mem hmem)
  | _ => exact .same hmem

theorem copied (h : Change G v v') (hc : Copied v'.tasks startedAt id group) :
    Copied v.tasks startedAt id group ∨
      (startedAt = v.log.length ∧ v.look id = some (.memory group) ∧ group.isComplete = true ∧
        v'.look = v.look ∧ v'.log = v.log ∧
        ∀ read files, Reads v'.tasks read files → Reads v.tasks read files) := by
  obtain ⟨todo, written, hmem, hcopy⟩ := hc
  cases h.taskEffect hmem with
  | same mem => exact .inl ⟨todo, written, mem, hcopy⟩
  | copy chosen_look look log tasks =>
    rw [List.map_nil, List.nil_append] at hcopy
    obtain ⟨hlook, hcomplete⟩ := chosen_look _ hcopy
    exact .inr ⟨rfl, hlook, hcomplete, look, log, fun read files hr =>
      (tasks ▸ hr : Reads (_ ::ₘ _) _ _).of_cons rfl⟩
  | write mem => exact .inl ⟨_, _, mem, by simpa using hcopy⟩

/-- A file newly exposed is one an instance had, which a read has taken or which has lost
its entry. -/
theorem exposes (h : Change G v v') (he : Exposes v'.tasks offset) :
    Exposes v.tasks offset ∨ ∃ id, v.look id = some (.disk offset) ∧
      ((∃ ids offsets, id ∈ ids ∧ v'.log = .taken ids offsets :: v.log) ∨ v'.look id = none) := by
  obtain ⟨task, hmem, hoff⟩ := he
  cases h.taskEffect hmem with
  | same mem => exact .inl ⟨task, mem, hoff⟩
  | copy => cases hoff
  | write => cases hoff
  | take taken_look readable permitted look file log =>
    rw [Task.exposed, List.map_nil, List.append_nil] at hoff
    obtain ⟨p, hp, hslot⟩ := Slot.mem_offsets.mp hoff
    exact .inr ⟨p.1, hslot ▸ taken_look p hp, .inl ⟨_, _, List.mem_map_of_mem hp, log⟩⟩
  | load mem => exact .inl ⟨_, mem, by grind [Task.exposed]⟩
  | merge mem => exact .inl ⟨_, mem, by grind [Task.exposed]⟩
  | unlink mem => exact .inl ⟨_, mem, by grind [Task.exposed]⟩
  | discard look =>
    obtain ⟨id, hslot, hgone⟩ := look offset hoff
    exact .inr ⟨id, hslot, .inr hgone⟩
  | remove mem => exact .inl ⟨_, mem, List.mem_cons_of_mem _ hoff⟩

theorem pointed (h : Change G v v') (hslot : v'.look id = some (.disk offset)) :
    v.look id = some (.disk offset) ∨ offset ∈ draftsOf v.tasks := by
  cases h with
  | @append t group group' look grown =>
    by_cases hid : id = t.instanceId
    · subst hid
      exact nomatch (Function.update_self t.instanceId _ v.look).symm.trans hslot
    · exact .inl ((Function.update_of_ne hid _ v.look).symm.trans hslot)
  | @commit rest startedAt written look ids task nodup points kept mem_ids permitted =>
    by_cases hid : id ∈ written.map fun w => w.1.1
    · obtain ⟨w, hw, rfl⟩ := List.mem_map.mp hid
      obtain ⟨old, -, hdisk⟩ := Option.map_eq_some_iff.mp ((points w hw).symm.trans hslot)
      cases hdisk
      exact .inr (mem_draftsOf_spill (task ▸ mem_cons_self _ _) hw)
    · exact .inl ((kept id hid).symm.trans hslot)
  | take nodup look readable permitted =>
    simp only at hslot
    split at hslot
    · simp only [Option.map_eq_some_iff, Slot.moveOut_eq_disk] at hslot
      obtain ⟨old, hold, rfl⟩ := hslot
      exact .inl hold
    · exact .inl hslot
  | finish task =>
    simp only at hslot
    split at hslot
    · cases hslot
    · exact .inl hslot
  | expire trajectories complete =>
    simp only [Option.map_eq_some_iff, Slot.map_eq_disk] at hslot
    obtain ⟨old, hold, rfl⟩ := hslot
    exact .inl hold
  | discard gone files look =>
    simp only at hslot
    split at hslot
    · cases hslot
    · exact .inl hslot
  | _ => exact .inl hslot

theorem drafts (h : Change G v v') (hd : offset ∈ draftsOf v'.tasks) :
    offset ∈ draftsOf v.tasks ∨ v.drawn < v'.drawn := by
  obtain ⟨task, hmem, hoff⟩ := mem_bind.mp hd
  cases h.taskEffect hmem with
  | same mem => exact .inl (mem_bind.mpr ⟨task, mem, hoff⟩)
  | write mem file fresh => exact .inr fresh
  | _ => cases hoff

theorem reads (h : Change G v v') (hr : Reads v'.tasks read files) :
    Reads v.tasks read files ∨ ∃ taken : List (String × Slot),
      read = ⟨v'.log.length, taken.map Prod.fst, Slot.groups taken⟩ ∧
      (∀ offset, files offset ↔ offset ∈ Slot.offsets taken) ∧
      (∀ p ∈ taken, v.look p.1 = some p.2) ∧ (∀ p ∈ taken, p.2 ≠ .hollow) ∧
      (∀ id, v'.look id =
        if id ∈ taken.map Prod.fst then (v.look id).map Slot.moveOut else v.look id) ∧
      v'.file = v.file ∧ G.take v taken ∧
      v'.log = .taken (taken.map Prod.fst) (Slot.offsets taken) :: v.log ∧
      ∀ startedAt id group,
        Copied v'.tasks startedAt id group → Copied v.tasks startedAt id group := by
  obtain ⟨task, hmem, hsome, hfiles⟩ := hr
  cases h.taskEffect hmem with
  | same mem => exact .inl ⟨task, mem, hsome, hfiles⟩
  | @take taken taken_look readable permitted look file log tasks =>
    cases hsome
    refine .inr ⟨taken, rfl, fun offset => ?_, taken_look, readable, look, file, permitted, log,
      fun startedAt id group hc => ?_⟩
    · rw [hfiles, Task.exposed, List.map_nil, List.append_nil]
    · rw [tasks] at hc
      exact hc.of_cons (by simp)
  | load mem =>
    exact .inl ⟨_, mem, hsome, fun offset => (hfiles offset).trans (by grind [Task.exposed])⟩
  | merge mem =>
    exact .inl ⟨_, mem, hsome, fun offset => (hfiles offset).trans (by grind [Task.exposed])⟩
  | unlink mem =>
    exact .inl ⟨_, mem, hsome, fun offset => (hfiles offset).trans (by grind [Task.exposed])⟩
  | _ => cases hsome

theorem unlinks {todo removed : List (ℕ × TrajectoryGroup)} (h : Change G v v')
    (hu : .unlink read todo removed ∈ v'.tasks) :
    .unlink read todo removed ∈ v.tasks ∨ removed = [] ∨
      ∃ file removed', removed = removed' ++ [file] ∧ v'.file file.1 = none ∧
        .unlink read (file :: todo) removed' ∈ v.tasks := by
  cases h.taskEffect hu with
  | same mem => exact .inl mem
  | merge mem => exact .inr (.inl rfl)
  | unlink mem file => exact .inr (.inr ⟨_, _, rfl, file, mem⟩)

theorem loads {file : ℕ × TrajectoryGroup} (h : Change G v v')
    (hl : ∃ task ∈ v'.tasks, file ∈ task.loaded) :
    (∃ task ∈ v.tasks, file ∈ task.loaded) ∨ v'.file file.1 = some file.2 := by
  obtain ⟨task, hmem, hfile⟩ := hl
  cases h.taskEffect hmem with
  | same mem => exact .inl ⟨task, mem, hfile⟩
  | load mem found =>
    rcases List.mem_append.mp hfile with hold | hnew
    · exact .inl ⟨_, mem, hold⟩
    · rw [List.mem_singleton.mp hnew]
      exact .inr found
  | merge mem => exact .inl ⟨_, mem, hfile⟩
  | unlink mem => exact .inl ⟨_, mem, List.mem_cons_of_mem _ hfile⟩
  | _ => cases hfile

theorem file (h : Change G v v') (offset : ℕ) :
    v'.file offset = v.file offset ∨ offset = v.drawn ∨
      (v'.file offset = none ∧ Exposes v.tasks offset) := by
  cases h with
  | write spill fresh =>
    by_cases ho : offset = v.drawn
    · exact .inr (.inl ho)
    · exact .inl (Function.update_of_ne ho _ _)
  | @unlink rest read gone group todo removed unlink file =>
    by_cases ho : offset = gone
    · subst ho
      have hexposed : Exposes v.tasks offset :=
        unlink ▸ exposes_cons.mpr (.inl (by simp [Task.exposed]))
      exact .inr (.inr ⟨Function.update_self .., hexposed⟩)
    · exact .inl (Function.update_of_ne ho _ _)
  | @remove rest gone todo removal permitted =>
    by_cases ho : offset = gone
    · subst ho
      have hexposed : Exposes v.tasks offset :=
        removal ▸ exposes_cons.mpr (.inl (by simp [Task.exposed]))
      exact .inr (.inr ⟨Function.update_self .., hexposed⟩)
    · exact .inl (Function.update_of_ne ho _ _)
  | abandon task fresh kept =>
    by_cases ho : offset = v.drawn
    · exact .inr (.inl ho)
    · exact .inl (kept offset ho)
  | _ => exact .inl rfl

theorem file_old (h : Change G v v') (hlt : offset < v.drawn) :
    v'.file offset = v.file offset ∨ (v'.file offset = none ∧ Exposes v.tasks offset) :=
  (h.file offset).imp_right fun hother => hother.resolve_left hlt.ne

theorem file_none (h : Change G v v') (hlt : offset < v.drawn) (hnone : v.file offset = none) :
    v'.file offset = none := by
  rcases h.file_old hlt with hsame | ⟨hgone, -⟩
  · rw [hsame, hnone]
  · exact hgone

theorem file_some (h : Change G v v') (hlt : offset < v.drawn)
    (hfile : v'.file offset = some group) : v.file offset = some group := by
  rcases h.file_old hlt with hsame | ⟨hgone, -⟩
  · rw [← hsame, hfile]
  · exact nomatch hgone.symm.trans hfile

theorem log_extends (h : Change G v v') : ∃ events, v'.log = events ++ v.log := by
  cases h with
  | @note event event_eq => exact ⟨[event], rfl⟩
  | @append t group group' look grown => exact ⟨[.appended t], rfl⟩
  | @commit rest startedAt written look' ids task nodup pointed kept mem_ids permitted =>
    exact ⟨ids.map .committed, rfl⟩
  | @take taken nodup look readable permitted =>
    exact ⟨[.taken (taken.map Prod.fst) (Slot.offsets taken)], rfl⟩
  | @finish rest read removed task =>
    exact ⟨[.delivered (read.result ++ removed.map Prod.snd)], rfl⟩
  | @failLoad rest read todo loaded failure task permitted => exact ⟨[.readFailed failure], rfl⟩
  | @failUnlink rest read todo removed failure task permitted => exact ⟨[.readFailed failure], rfl⟩
  | _ => exact ⟨[], rfl⟩

theorem drawn_le (h : Change G v v') : v.drawn ≤ v'.drawn := by
  cases h with
  | write task fresh => exact fresh.le
  | abandon task fresh => exact fresh.le
  | _ => exact le_rfl

end Change
end TransferQueue
