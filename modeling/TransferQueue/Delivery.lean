import Mathlib.Algebra.BigOperators.Group.Finset.Basic
import Mathlib.Algebra.Order.BigOperators.Group.Finset
import TransferQueue.SpillCommit

/-! Deliveries are paid for by appends. For a fixed trajectory, the copies that have been
delivered, that suspended reads hold, that lie in files a read has taken and that the
shard can still give to a read are no more than were appended. -/

namespace TransferQueue
open Multiset

variable {env : Env} {v v' : View} {t : Trajectory} {id : String} {log : List Event}

def TrajectoryGroup.weight (t : Trajectory) (g : TrajectoryGroup) : ℕ := g.trajectories.count t

def trajectoriesOf (groups : List TrajectoryGroup) : List Trajectory :=
  groups.flatMap TrajectoryGroup.trajectories

section Log

def delivered (log : List Event) : List Trajectory :=
  log.flatMap fun event =>
    match event with
    | .delivered groups => trajectoriesOf groups
    | _ => []

def takenFiles (log : List Event) : Finset ℕ :=
  (log.flatMap fun event =>
    match event with
    | .taken _ offsets => offsets
    | _ => []).toFinset

/-- The appends of a trajectory since its instance was last taken. -/
def untaken (t : Trajectory) : List Event → ℕ
  | [] => 0
  | .appended t' :: log => untaken t log + if t' = t then 1 else 0
  | .taken ids _ :: log => if t.instanceId ∈ ids then 0 else untaken t log
  | _ :: log => untaken t log

/-- How often an instance may still give a trajectory to a read. -/
def share (t : Trajectory) (log : List Event) (id : String) : ℕ :=
  if t.instanceId = id then untaken t log else 0

/-- Events that deliver nothing, take nothing and append nothing. -/
def Event.Quiet : Event → Prop
  | appended _ | taken _ _ | delivered _ => False
  | _ => True

theorem delivered_cons_quiet {event : Event} (h : event.Quiet) (log : List Event) :
    delivered (event :: log) = delivered log := by
  cases event <;> first | rfl | exact h.elim

theorem takenFiles_cons_quiet {event : Event} (h : event.Quiet) (log : List Event) :
    takenFiles (event :: log) = takenFiles log := by
  cases event <;> first | rfl | exact h.elim

theorem untaken_cons_quiet {event : Event} (h : event.Quiet) (t : Trajectory) (log : List Event) :
    untaken t (event :: log) = untaken t log := by
  cases event <;> first | rfl | exact h.elim

theorem count_cons_quiet {event : Event} (h : event.Quiet) (t : Trajectory) (log : List Event) :
    (event :: log).count (.appended t) = log.count (.appended t) := by
  cases event <;> first | exact h.elim | exact List.count_cons_of_ne (by simp)

theorem quiet_append {events : List Event} (h : ∀ event ∈ events, event.Quiet)
    (log : List Event) :
    delivered (events ++ log) = delivered log ∧ takenFiles (events ++ log) = takenFiles log ∧
      ∀ t, untaken t (events ++ log) = untaken t log ∧
        (events ++ log).count (.appended t) = log.count (.appended t) := by
  induction events with
  | nil => exact ⟨rfl, rfl, fun _ => ⟨rfl, rfl⟩⟩
  | cons event events ih =>
    have hquiet := h event (List.mem_cons_self ..)
    obtain ⟨hd, hT, hcounts⟩ := ih fun e he => h e (List.mem_cons_of_mem _ he)
    rw [List.cons_append, delivered_cons_quiet hquiet, takenFiles_cons_quiet hquiet]
    refine ⟨hd, hT, fun t => ?_⟩
    rw [untaken_cons_quiet hquiet, count_cons_quiet hquiet]
    exact hcounts t

theorem takenFiles_taken (ids : List String) (offsets : List ℕ) (log : List Event) :
    takenFiles (.taken ids offsets :: log) = offsets.toFinset ∪ takenFiles log := by
  rw [takenFiles, List.flatMap_cons, List.toFinset_append, takenFiles]

theorem delivered_delivered (groups : List TrajectoryGroup) (log : List Event) :
    delivered (.delivered groups :: log) = trajectoriesOf groups ++ delivered log := rfl

end Log

def fileWeight (t : Trajectory) (file : Option TrajectoryGroup) : ℕ :=
  (file.map (TrajectoryGroup.weight t)).getD 0

/-- The copies of a trajectory that a suspended read holds, apart from files not removed. -/
def Task.held (t : Trajectory) : Task → ℕ
  | load read _ _ => (trajectoriesOf read.result).count t
  | unlink read _ removed =>
    (trajectoriesOf read.result).count t + (trajectoriesOf (removed.map Prod.snd)).count t
  | spill _ _ _ => 0
  | remove _ => 0

def View.tally (t : Trajectory) (v : View) : ℕ :=
  (delivered v.log).count t + (v.tasks.map (Task.held t)).sum +
    ∑ offset ∈ takenFiles v.log, fileWeight t (v.file offset) + untaken t v.log

theorem View.delivered_le_tally (t : Trajectory) (v : View) :
    (delivered v.log).count t ≤ v.tally t := by
  rw [View.tally]
  omega

theorem trajectoriesOf_append (groups groups' : List TrajectoryGroup) :
    trajectoriesOf (groups ++ groups') = trajectoriesOf groups ++ trajectoriesOf groups' :=
  List.flatMap_append

section Sums
variable {taken : List (String × Slot)} {T : Finset ℕ} {file : ℕ → Option TrajectoryGroup}

def gain (t : Trajectory) (T : Finset ℕ) (file : ℕ → Option TrajectoryGroup) : Slot → ℕ
  | .memory group => group.weight t
  | .disk offset => if offset ∈ T then 0 else fileWeight t (file offset)
  | .hollow => 0

theorem sum_gain (t : Trajectory) (taken : List (String × Slot)) (T : Finset ℕ)
    (file : ℕ → Option TrajectoryGroup) :
    (trajectoriesOf (Slot.groups taken)).count t +
        ∑ offset ∈ (Slot.offsets taken).toFinset ∪ T, fileWeight t (file offset) ≤
      ∑ offset ∈ T, fileWeight t (file offset) +
        (taken.map fun p => gain t T file p.2).sum := by
  induction taken with
  | nil => simp [Slot.groups, Slot.offsets, trajectoriesOf]
  | cons p taken ih =>
    obtain ⟨id, slot⟩ := p
    cases slot with
    | memory group =>
      have hgroups : Slot.groups ((id, .memory group) :: taken) = group :: Slot.groups taken := rfl
      have hoffsets : Slot.offsets ((id, .memory group) :: taken) = Slot.offsets taken := rfl
      have hcount : (trajectoriesOf (group :: Slot.groups taken)).count t =
          group.weight t + (trajectoriesOf (Slot.groups taken)).count t := by
        rw [trajectoriesOf, List.flatMap_cons, List.count_append, TrajectoryGroup.weight,
          trajectoriesOf]
      rw [hgroups, hoffsets, List.map_cons, List.sum_cons, hcount, gain]
      omega
    | disk offset =>
      have hgroups : Slot.groups ((id, .disk offset) :: taken) = Slot.groups taken := rfl
      have hoffsets : Slot.offsets ((id, .disk offset) :: taken) =
          offset :: Slot.offsets taken := rfl
      rw [hgroups, hoffsets, List.toFinset_cons, Finset.insert_union, List.map_cons,
        List.sum_cons]
      by_cases hin : offset ∈ (Slot.offsets taken).toFinset ∪ T
      · rw [Finset.insert_eq_of_mem hin]
        omega
      · have hT : offset ∉ T := fun h => hin (Finset.mem_union_right _ h)
        rw [Finset.sum_insert hin, gain, if_neg hT]
        omega
    | hollow =>
      have hgroups : Slot.groups ((id, .hollow) :: taken) = Slot.groups taken := rfl
      have hoffsets : Slot.offsets ((id, .hollow) :: taken) = Slot.offsets taken := rfl
      rw [hgroups, hoffsets, List.map_cons, List.sum_cons, gain]
      omega

theorem sum_share (t : Trajectory) (log : List Event) (nodup : (taken.map Prod.fst).Nodup)
    (hgain : ∀ p ∈ taken, gain t T file p.2 ≤ share t log p.1) :
    (taken.map fun p => gain t T file p.2).sum ≤
      if t.instanceId ∈ taken.map Prod.fst then untaken t log else 0 := by
  induction taken with
  | nil => simp
  | cons p taken ih =>
    obtain ⟨hnotin, hnodup⟩ := List.nodup_cons.mp nodup
    have hhead := hgain p (List.mem_cons_self ..)
    have htail := ih hnodup fun q hq => hgain q (List.mem_cons_of_mem _ hq)
    rw [List.map_cons, List.map_cons, List.sum_cons]
    rw [share] at hhead
    by_cases hp : t.instanceId = p.1
    · rw [if_pos hp] at hhead
      rw [if_neg (hp ▸ hnotin)] at htail
      rw [if_pos (List.mem_cons.mpr (.inl hp))]
      omega
    · rw [if_neg hp] at hhead
      simp only [List.mem_cons, hp, false_or]
      omega

theorem sum_remove (t : Trajectory) (file : ℕ → Option TrajectoryGroup) {offset : ℕ}
    (h : offset ∈ T) :
    ∑ o ∈ T, fileWeight t (Function.update file offset none o) + fileWeight t (file offset) =
      ∑ o ∈ T, fileWeight t (file o) := by
  rw [← Finset.sum_erase_add T _ h, ← Finset.sum_erase_add T _ h, Function.update_self]
  have hrest : ∀ o ∈ T.erase offset,
      fileWeight t (Function.update file offset none o) = fileWeight t (file o) := fun o ho => by
    rw [Function.update_of_ne (Finset.ne_of_mem_erase ho)]
  rw [Finset.sum_congr rfl hrest, fileWeight, Option.map_none, Option.getD_none, Nat.add_zero]

end Sums

section Effects
variable {G : Guard}

theorem Change.log_cases (h : Change G v v') :
    (∃ events, v'.log = events ++ v.log ∧ ∀ event ∈ events, event.Quiet) ∨
      (∃ t, v'.log = .appended t :: v.log) ∨ (∃ groups, v'.log = .delivered groups :: v.log) ∨
      ∃ ids offsets, v'.log = .taken ids offsets :: v.log ∧
        ∀ offset ∈ offsets, ∃ id ∈ ids, v.look id = some (.disk offset) := by
  cases h with
  | @note event event_eq =>
    refine .inl ⟨[event], rfl, fun e he => ?_⟩
    rw [List.mem_singleton.mp he]
    rcases event_eq with ⟨t, rfl⟩ | ⟨t, rfl⟩ <;> trivial
  | append look grown => exact .inr (.inl ⟨_, rfl⟩)
  | @commit rest startedAt written look' ids task nodup pointed kept mem_ids permitted =>
    refine .inl ⟨ids.map .committed, rfl, fun e he => ?_⟩
    obtain ⟨id, -, rfl⟩ := List.mem_map.mp he
    trivial
  | @take taken nodup look readable permitted =>
    refine .inr (.inr (.inr ⟨_, _, rfl, fun offset hoff => ?_⟩))
    obtain ⟨p, hp, hslot⟩ := Slot.mem_offsets.mp hoff
    exact ⟨p.1, List.mem_map_of_mem hp, hslot ▸ look p hp⟩
  | finish task => exact .inr (.inr (.inl ⟨_, rfl⟩))
  | failLoad => exact .inl ⟨[_], rfl, fun e he => by rw [List.mem_singleton.mp he]; trivial⟩
  | failUnlink => exact .inl ⟨[_], rfl, fun e he => by rw [List.mem_singleton.mp he]; trivial⟩
  | _ => exact .inl ⟨[], rfl, fun e he => nomatch he⟩

theorem Change.share_le (h : Change G v v') (t : Trajectory)
    (hnot : ∀ ids offsets, v'.log = .taken ids offsets :: v.log → id ∉ ids) :
    share t v.log id ≤ share t v'.log id := by
  rw [share, share]
  split
  · rename_i hid
    rcases h.log_cases with ⟨events, hlog, hquiet⟩ | ⟨t', hlog⟩ | ⟨groups, hlog⟩ |
      ⟨ids, offsets, hlog, -⟩
    · rw [hlog, ((quiet_append hquiet _).2.2 t).1]
    · rw [hlog, untaken]
      omega
    · rw [hlog]
      exact le_rfl
    · rw [hlog, untaken, if_neg (hid ▸ hnot ids offsets hlog)]
  · exact le_rfl

theorem Silent.untaken {events : List Event} (h : Silent id events)
    (hlog : v'.log = events ++ v.log) (ids : List String) (offsets : List ℕ)
    (htaken : v'.log = .taken ids offsets :: v.log) : id ∉ ids := by
  have hevents : events = [.taken ids offsets] := by
    rw [hlog, ← List.singleton_append] at htaken
    exact List.append_cancel_right htaken
  have htakes := (h (.taken ids offsets) (hevents ▸ List.mem_singleton_self _)).2.1
  simpa [Event.takes] using htakes

theorem Change.mem_takenFiles (h : Change G v v') {offset : ℕ} (hmem : offset ∈ takenFiles v'.log) :
    offset ∈ takenFiles v.log ∨ ∃ id, v.look id = some (.disk offset) := by
  rcases h.log_cases with ⟨events, hlog, hquiet⟩ | ⟨t', hlog⟩ | ⟨groups, hlog⟩ |
    ⟨ids, offsets, hlog, hfiles⟩
  · exact .inl (by rwa [hlog, (quiet_append hquiet _).2.1] at hmem)
  · exact .inl (by rwa [hlog] at hmem)
  · exact .inl (by rwa [hlog] at hmem)
  · rw [hlog, takenFiles_taken, Finset.mem_union, List.mem_toFinset] at hmem
    rcases hmem with hnew | hold
    · obtain ⟨id, -, hid⟩ := hfiles offset hnew
      exact .inr ⟨id, hid⟩
    · exact .inl hold

theorem Change.takenFiles_subset (h : Change G v v') : takenFiles v.log ⊆ takenFiles v'.log := by
  rcases h.log_cases with ⟨events, hlog, hquiet⟩ | ⟨t', hlog⟩ | ⟨groups, hlog⟩ |
    ⟨ids, offsets, hlog, -⟩
  · rw [hlog, (quiet_append hquiet _).2.1]
  · rw [hlog]; rfl
  · rw [hlog]; rfl
  · rw [hlog, takenFiles_taken]
    exact Finset.subset_union_right

end Effects

/-- Spills commit only what no read has taken since the copy. -/
def Guard.untaken : Guard :=
  { Guard.none with commit := fun v startedAt id => ¬Since (Event.takes id) startedAt v.log }

/-- Every place from which a trajectory can still be delivered is accounted for. -/
structure Balanced (t : Trajectory) (v : View) : Prop where
  dated : Dated v
  memory : ∀ id group, v.look id = some (.memory group) → group.weight t ≤ share t v.log id
  disk : ∀ id offset group, v.look id = some (.disk offset) → offset ∉ takenFiles v.log →
    v.file offset = some group → group.weight t ≤ share t v.log id
  copy : ∀ startedAt id group, Copied v.tasks startedAt id group →
    ¬Since (Event.takes id) startedAt v.log → group.weight t ≤ share t v.log id
  exposed : ∀ read files, Reads v.tasks read files → ∀ offset, files offset →
    offset ∈ takenFiles v.log
  taken_lt : ∀ offset ∈ takenFiles v.log, offset < v.drawn
  loaded : ∀ file : ℕ × TrajectoryGroup, (∃ task ∈ v.tasks, file ∈ task.loaded) →
    v.file file.1 = none ∨ v.file file.1 = some file.2
  tally_le : v.tally t ≤ v.log.count (.appended t)

namespace Balanced

theorem create (t : Trajectory) (config : TransferQueueConfig) (bitCount numHashes : ℕ)
    (env : Env) : Balanced t ((System.create config bitCount numHashes).view env) where
  dated := .create config bitCount numHashes env
  memory _ _ h := nomatch h
  disk _ _ _ h := nomatch h
  copy _ _ _ h := by
    obtain ⟨_, _, hmem, -⟩ := h
    exact (notMem_zero _ hmem).elim
  exposed _ _ h := by
    obtain ⟨_, hmem, -⟩ := h
    exact (notMem_zero _ hmem).elim
  taken_lt _ h := nomatch h
  loaded _ h := by
    obtain ⟨_, hmem, -⟩ := h
    exact (notMem_zero _ hmem).elim
  tally_le := le_rfl

variable {G : Guard}

theorem held_cons (task : Task) (rest : Multiset Task) :
    ((task ::ₘ rest).map (Task.held t)).sum = task.held t + (rest.map (Task.held t)).sum := by
  rw [map_cons, sum_cons]

theorem files_le (hv : Balanced t v) (h : Change G v v') :
    ∑ offset ∈ takenFiles v.log, fileWeight t (v'.file offset) ≤
      ∑ offset ∈ takenFiles v.log, fileWeight t (v.file offset) := by
  refine Finset.sum_le_sum fun offset hoff => ?_
  rcases h.file offset with hsame | rfl | ⟨hnone, -⟩
  · rw [hsame]
  · exact absurd (hv.taken_lt _ hoff) (lt_irrefl _)
  · rw [hnone]
    exact Nat.zero_le _

theorem gain_le (hv : Balanced t v) {id : String} {slot : Slot} (hslot : v.look id = some slot) :
    gain t (takenFiles v.log) v.file slot ≤ share t v.log id := by
  cases slot with
  | memory group => exact hv.memory id group hslot
  | disk offset =>
    rw [gain]
    split
    · exact Nat.zero_le _
    · rename_i hT
      cases hfile : v.file offset with
      | none => exact Nat.zero_le _
      | some group => exact hv.disk id offset group hslot hT hfile
  | hollow => exact Nat.zero_le _

section Tally
variable {rest : Multiset Task} {read : PendingRead}

theorem quiet_tally (hv : Balanced t v) (h : Change G v v') {events : List Event}
    (hquiet : ∀ event ∈ events, event.Quiet) (hlog : v'.log = events ++ v.log)
    (hheld : (v'.tasks.map (Task.held t)).sum ≤ (v.tasks.map (Task.held t)).sum) :
    v'.tally t ≤ v'.log.count (.appended t) := by
  obtain ⟨hd, hT, hcounts⟩ := quiet_append hquiet v.log
  have hfiles := hv.files_le h
  have hle := hv.tally_le
  rw [View.tally] at hle ⊢
  rw [hlog, hd, hT, (hcounts t).1, (hcounts t).2]
  omega

theorem append_tally (hv : Balanced t v) (t' : Trajectory) (look : String → Option Slot) :
    ({ v with look, log := .appended t' :: v.log } : View).tally t ≤
      (Event.appended t' :: v.log).count (.appended t) := by
  have hle := hv.tally_le
  have hcount : (Event.appended t' :: v.log).count (.appended t) =
      v.log.count (.appended t) + if t' = t then 1 else 0 := by
    rw [List.count_cons]
    simp
  have hdelivered : delivered (.appended t' :: v.log) = delivered v.log := rfl
  have hT : takenFiles (.appended t' :: v.log) = takenFiles v.log := rfl
  rw [View.tally] at hle ⊢
  dsimp only
  rw [hcount, hdelivered, hT, untaken]
  omega

theorem take_tally (hv : Balanced t v) {taken : List (String × Slot)}
    (nodup : (taken.map Prod.fst).Nodup) (look : ∀ p ∈ taken, v.look p.1 = some p.2)
    (look' : String → Option Slot) :
    ({ v with
      look := look'
      log := .taken (taken.map Prod.fst) (Slot.offsets taken) :: v.log
      tasks := .load ⟨v.log.length + 1, taken.map Prod.fst, Slot.groups taken⟩
        (Slot.offsets taken) [] ::ₘ v.tasks } : View).tally t ≤
      (Event.taken (taken.map Prod.fst) (Slot.offsets taken) :: v.log).count (.appended t) := by
  have hle := hv.tally_le
  have hgain := sum_gain t taken (takenFiles v.log) v.file
  have hshare := sum_share t v.log nodup fun p hp => hv.gain_le (look p hp)
  have hcount : (Event.taken (taken.map Prod.fst) (Slot.offsets taken) :: v.log).count
      (.appended t) = v.log.count (.appended t) := List.count_cons_of_ne (by simp)
  have hdelivered : delivered (.taken (taken.map Prod.fst) (Slot.offsets taken) :: v.log) =
      delivered v.log := rfl
  have hheld : (Task.load ⟨v.log.length + 1, taken.map Prod.fst, Slot.groups taken⟩
      (Slot.offsets taken) []).held t = (trajectoriesOf (Slot.groups taken)).count t := rfl
  rw [View.tally] at hle ⊢
  dsimp only
  rw [held_cons, hheld, hcount, hdelivered, takenFiles_taken, untaken]
  split at hshare
  · rename_i hid
    rw [if_pos hid]
    omega
  · rename_i hid
    rw [if_neg hid]
    omega

theorem unlink_tally (hv : Balanced t v) {offset : ℕ} {group : TrajectoryGroup}
    {todo removed : List (ℕ × TrajectoryGroup)}
    (task : v.tasks = .unlink read ((offset, group) :: todo) removed ::ₘ rest)
    (found : v.file offset ≠ none) :
    ({ v with
      file := Function.update v.file offset none
      tasks := .unlink read todo (removed ++ [(offset, group)]) ::ₘ rest } : View).tally t ≤
      v.log.count (.appended t) := by
  have hle := hv.tally_le
  have hmem : .unlink read ((offset, group) :: todo) removed ∈ v.tasks := task ▸ mem_cons_self _ _
  have htaken : offset ∈ takenFiles v.log :=
    hv.exposed read _ ⟨_, hmem, rfl, fun _ => Iff.rfl⟩ offset (by simp [Task.exposed])
  have hfile : v.file offset = some group :=
    (hv.loaded (offset, group) ⟨_, hmem, List.mem_cons_self ..⟩).resolve_left found
  have hsum := sum_remove t v.file htaken
  have hweight : fileWeight t (v.file offset) = group.weight t := by rw [hfile]; rfl
  have hheld : (trajectoriesOf ((removed ++ [(offset, group)]).map Prod.snd)).count t =
      (trajectoriesOf (removed.map Prod.snd)).count t + group.weight t := by
    rw [List.map_append, trajectoriesOf_append, List.count_append]
    simp [trajectoriesOf, TrajectoryGroup.weight]
  rw [View.tally, task, held_cons, Task.held] at hle
  rw [View.tally]
  dsimp only
  rw [held_cons, Task.held, hheld]
  omega

theorem finish_tally (hv : Balanced t v) {removed : List (ℕ × TrajectoryGroup)}
    (task : v.tasks = .unlink read [] removed ::ₘ rest) (look : String → Option Slot) :
    ({ v with
      look
      log := .delivered (read.result ++ removed.map Prod.snd) :: v.log
      tasks := rest } : View).tally t ≤
      (Event.delivered (read.result ++ removed.map Prod.snd) :: v.log).count (.appended t) := by
  have hle := hv.tally_le
  have hcount : (Event.delivered (read.result ++ removed.map Prod.snd) :: v.log).count
      (.appended t) = v.log.count (.appended t) := List.count_cons_of_ne (by simp)
  have hT : takenFiles (.delivered (read.result ++ removed.map Prod.snd) :: v.log) =
      takenFiles v.log := rfl
  have hu : untaken t (.delivered (read.result ++ removed.map Prod.snd) :: v.log) =
      untaken t v.log := rfl
  rw [View.tally, task, held_cons, Task.held] at hle
  rw [View.tally]
  dsimp only
  rw [hcount, hT, hu, delivered_delivered, List.count_append, trajectoriesOf_append,
    List.count_append]
  omega

/-- The account balances after every change. -/
theorem tally_change (hv : Balanced t v) (h : Change G v v') :
    v'.tally t ≤ v'.log.count (.appended t) := by
  have hchange := h
  -- a task goes on or ends, and holds no more than before
  have hstep : ∀ {old : Task} {rest : Multiset Task} (new : Task), v.tasks = old ::ₘ rest →
      new.held t ≤ old.held t →
      ((new ::ₘ rest).map (Task.held t)).sum ≤ (v.tasks.map (Task.held t)).sum := by
    intro old rest new htask hheld
    rw [htask, held_cons, held_cons]
    omega
  have hend : ∀ {old : Task} {rest : Multiset Task}, v.tasks = old ::ₘ rest →
      (rest.map (Task.held t)).sum ≤ (v.tasks.map (Task.held t)).sum := by
    intro old rest htask
    rw [htask, held_cons]
    omega
  have hnone : ∀ event ∈ ([] : List Event), event.Quiet := fun _ h => nomatch h
  have hone : ∀ {event : Event}, event.Quiet → ∀ e ∈ [event], e.Quiet := fun h =>
    List.forall_mem_singleton.mpr h
  cases h with
  | @note event event_eq =>
    have hquiet : event.Quiet := by rcases event_eq with ⟨t, rfl⟩ | ⟨t, rfl⟩ <;> trivial
    exact hv.quiet_tally hchange (hone hquiet) rfl le_rfl
  | @append t' group group' look grown => exact hv.append_tally t' _
  | copy nodup look =>
    refine hv.quiet_tally hchange hnone rfl ?_
    rw [held_cons, Task.held, Nat.zero_add]
  | write task fresh => exact hv.quiet_tally hchange hnone rfl (hstep _ task le_rfl)
  | abandon task fresh => exact hv.quiet_tally hchange hnone rfl (hend task)
  | @commit rest startedAt written look' ids task nodup pointed kept mem_ids permitted =>
    refine hv.quiet_tally hchange (fun e he => ?_) rfl (hend task)
    obtain ⟨id, -, rfl⟩ := List.mem_map.mp he
    trivial
  | take nodup look readable permitted => exact hv.take_tally nodup look _
  | load task found => exact hv.quiet_tally hchange hnone rfl (hstep _ task le_rfl)
  | merge task => exact hv.quiet_tally hchange hnone rfl (hstep _ task le_rfl)
  | unlink task found => exact hv.unlink_tally task found
  | finish task => exact hv.finish_tally task _
  | @failLoad rest read todo loaded failure task permitted =>
    have hquiet : (Event.readFailed failure).Quiet := trivial
    exact hv.quiet_tally hchange (hone hquiet) rfl (hend task)
  | @failUnlink rest read todo removed failure task permitted =>
    have hquiet : (Event.readFailed failure).Quiet := trivial
    exact hv.quiet_tally hchange (hone hquiet) rfl (hend task)
  | expire trajectories complete => exact hv.tally_le
  | @discard gone dec files look =>
    refine hv.quiet_tally hchange hnone rfl ?_
    split
    · exact le_rfl
    · rw [held_cons, Task.held, Nat.zero_add]
  | remove task permitted => exact hv.quiet_tally hchange hnone rfl (hstep _ task le_rfl)
  | forget task => exact hv.quiet_tally hchange hnone rfl (hend task)

end Tally

theorem weight_appended {t' : Trajectory} {old group : TrajectoryGroup}
    (hinstance : t'.instanceId = id) (hlog : v'.log = .appended t' :: v.log)
    (hold : old.weight t ≤ share t v.log id)
    (grown : group.trajectories = old.trajectories ++ [t']) :
    group.weight t ≤ share t v'.log id := by
  have hweight : group.weight t = old.weight t + if t' = t then 1 else 0 := by
    rw [TrajectoryGroup.weight, grown, List.count_append, TrajectoryGroup.weight,
      List.count_singleton]
    simp
  have hshare : share t v'.log id = share t v.log id + if t' = t then 1 else 0 := by
    rw [share, share, hlog, untaken]
    by_cases ht : t' = t
    · rw [← ht, if_pos hinstance, if_pos hinstance]
    · rw [if_neg ht, Nat.add_zero, Nat.add_zero]
  rw [hweight, hshare]
  exact Nat.add_le_add_right hold _

theorem memory_change (hv : Balanced t v) (h : Change Guard.untaken v v') {group : TrajectoryGroup}
    (hslot : v'.look id = some (.memory group)) : group.weight t ≤ share t v'.log id := by
  cases h.slot hv.dated.owned id with
  | same events look log silent =>
    exact (hv.memory id group (look ▸ hslot)).trans (h.share_le t (silent.untaken log))
  | gone look => exact nomatch look.symm.trans hslot
  | @appended t' old group' instance_eq log look before grown =>
    obtain rfl := Slot.memory.inj (Option.some.inj (look.symm.trans hslot))
    refine weight_appended instance_eq log ?_ grown
    rcases before with hmem | ⟨hempty, -⟩
    · exact hv.memory id old hmem
    · rw [TrajectoryGroup.weight, hempty]
      exact Nat.zero_le _
  | taken mem log look =>
    rw [look] at hslot
    obtain ⟨old, -, heq⟩ := Option.map_eq_some_iff.mp hslot
    cases old <;> cases heq
  | committed copied draft file file_eq held look mem log permitted =>
    exact nomatch look.symm.trans hslot
  | @expired f trajectories complete look log =>
    rw [look] at hslot
    obtain ⟨old, hlook, heq⟩ := Option.map_eq_some_iff.mp hslot
    cases old with
    | memory old =>
      obtain rfl := Slot.memory.inj heq
      rw [log, TrajectoryGroup.weight, trajectories]
      exact hv.memory id old hlook
    | _ => cases heq

theorem disk_kept (hv : Balanced t v) (h : Change Guard.untaken v v') {offset : ℕ}
    {group : TrajectoryGroup} (hslot : v.look id = some (.disk offset))
    (huntaken : offset ∉ takenFiles v'.log) (hfile : v'.file offset = some group) :
    group.weight t ≤ share t v.log id :=
  hv.disk id offset group hslot (fun hin => huntaken (h.takenFiles_subset hin))
    (h.file_some (hv.dated.owned.slot_lt id _ hslot) hfile)

theorem disk_change (hv : Balanced t v) (h : Change Guard.untaken v v') {offset : ℕ}
    {group : TrajectoryGroup} (hslot : v'.look id = some (.disk offset))
    (huntaken : offset ∉ takenFiles v'.log) (hfile : v'.file offset = some group) :
    group.weight t ≤ share t v'.log id := by
  cases h.slot hv.dated.owned id with
  | same events look log silent =>
    exact (hv.disk_kept h (look ▸ hslot) huntaken hfile).trans
      (h.share_le t (silent.untaken log))
  | gone look => exact nomatch look.symm.trans hslot
  | appended instance_eq log look => exact nomatch look.symm.trans hslot
  | @taken ids offsets mem log look files =>
    rw [look] at hslot
    obtain ⟨old, hlook, heq⟩ := Option.map_eq_some_iff.mp hslot
    cases old <;> cases heq
    rw [log, takenFiles_taken, Finset.mem_union, List.mem_toFinset, not_or] at huntaken
    exact absurd (files offset hlook) huntaken.1
  | @committed startedAt group' offset' ids copied draft file file_eq held look mem log
      permitted =>
    obtain rfl := Slot.disk.inj (Option.some.inj (look.symm.trans hslot))
    obtain rfl := Option.some.inj (file.symm.trans (file_eq ▸ hfile))
    refine (hv.copy _ _ _ copied permitted).trans (h.share_le t fun ids' offsets heq => ?_)
    rw [log] at heq
    cases ids with
    | nil => cases mem
    | cons id' ids => exact absurd (List.cons.inj heq).1 (by simp)
  | @expired f trajectories complete look log =>
    rw [look] at hslot
    obtain ⟨old, hlook, heq⟩ := Option.map_eq_some_iff.mp hslot
    cases old <;> cases heq
    rw [log]
    exact hv.disk_kept h hlook huntaken hfile

theorem change (h : Change Guard.untaken v v') (hv : Balanced t v) : Balanced t v' := by
  obtain ⟨events, hlog⟩ := h.log_extends
  refine ⟨hv.dated.change h, fun _ _ => hv.memory_change h, fun _ _ _ => hv.disk_change h,
    ?_, ?_, ?_, ?_, hv.tally_change h⟩
  · intro startedAt id group hc hun
    rcases h.copied hc with hold | ⟨-, hslot, -, hlook, hsame, -⟩
    · have hstarted := (hv.dated.copied _ _ _ hold).1
      have hun' : ¬Since (Event.takes id) startedAt v.log := fun hs =>
        hun (hlog ▸ hs.mono hstarted _)
      refine (hv.copy _ _ _ hold hun').trans (h.share_le t fun ids offsets htaken hin => hun ?_)
      exact .head hstarted htaken (by simpa [Event.takes])
    · exact hv.memory_change h (hlook ▸ hslot)
  · intro read files hr offset hoff
    rcases h.reads hr with hold | ⟨taken, -, hfiles, -, -, -, -, -, hsame, -⟩
    · exact h.takenFiles_subset (hv.exposed _ _ hold offset hoff)
    · rw [hsame, takenFiles_taken]
      exact Finset.mem_union_left _ (List.mem_toFinset.mpr ((hfiles offset).mp hoff))
  · intro offset hoff
    rcases h.mem_takenFiles hoff with hold | ⟨id, hslot⟩
    · exact (hv.taken_lt offset hold).trans_le h.drawn_le
    · exact (hv.dated.owned.slot_lt id offset hslot).trans_le h.drawn_le
  · intro file hl
    rcases h.loads hl with hold | hnew
    · obtain ⟨task, hmem, hfile⟩ := hold
      have hexposed : Exposes v.tasks file.1 := by
        refine ⟨task, hmem, ?_⟩
        cases task <;> simp_all [Task.loaded, Task.exposed] <;> grind
      rcases h.file_old (hv.dated.owned.exposed_lt _ hexposed) with hsame | ⟨hnone, -⟩
      · rw [hsame]
        exact hv.loaded file ⟨task, hmem, hfile⟩
      · exact .inl hnone
    · exact .inr hnew

end Balanced

namespace System

/-- No chosen instance that is still in the map at a commit was taken by a read since the
copy. -/
def CommitsUntaken (s : System) (a : Action) : Prop :=
  ∀ commit ∈ s.committing a, ∀ w ∈ commit.2,
    w.1.1 ∈ s.shard.groups.keys → ¬Since (Event.takes w.1.1) commit.1 s.log

instance (s : System) (a : Action) : Decidable (s.CommitsUntaken a) :=
  inferInstanceAs (Decidable (∀ commit ∈ s.committing a, _))

/-- In every interleaving whose spills commit only what no read has taken since the copy,
a trajectory is delivered at most as often as it was appended. -/
theorem delivered_at_most_once (env : Env) (config : TransferQueueConfig)
    (bitCount numHashes : ℕ) (actions : List Action)
    (h : Machine.Along (step env) CommitsUntaken (create config bitCount numHashes) actions)
    (t : Trajectory) :
    (delivered ((create config bitCount numHashes).run env actions).log).count t ≤
      ((create config bitCount numHashes).run env actions).log.count (.appended t) := by
  have hkept := along_keeps (fun _ _ => Balanced.change) (fun s a _ _ hstep => permits_commit hstep)
    (Balanced.create t config bitCount numHashes env) h
  exact (View.delivered_le_tally t _).trans hkept.2.tally_le

/-- Two reads in flight and a commit in between, of an instance that neither has taken. -/
theorem delivered_at_most_once_apart :
    let actions : List Action := [.write (.bare "w" "b"), .resume 0, .resume 0,
      .readReadyGroups 0, .write (.bare "u" "a"), .resume 1, .resume 1, .readReadyGroups 1,
      .resume 0, .resume 0, .resume 0, .resume 0, .resume 0, .resume 0, .resume 0, .resume 0]
    (delivered ((create (.tight 1) 0 0).run (.sample []) actions).log).count (.bare "u" "a") ≤
      ((create (.tight 1) 0 0).run (.sample []) actions).log.count (.appended (.bare "u" "a")) :=
  delivered_at_most_once (.sample []) (.tight 1) 0 0 _ (by decide +kernel) (.bare "u" "a")

/-- A spill commits into "a" the group that a suspended read has taken; the next read takes
it again, and both deliver it. -/
theorem delivered_twice :
    let actions : List Action := [.write (.bare "w" "b"), .resume 0, .resume 0,
      .write (.bare "u" "a"), .readReadyGroups 0, .resume 0, .resume 1, .readReadyGroups 1,
      .resume 0, .resume 0, .resume 0, .resume 0, .resume 0, .resume 0, .resume 0, .resume 0]
    ¬(delivered ((create (.tight 1) 0 0).run (.sample []) actions).log).count (.bare "u" "a") ≤
      ((create (.tight 1) 0 0).run (.sample []) actions).log.count
        (.appended (.bare "u" "a")) := by
  decide +kernel

end System
end TransferQueue
