import TransferQueue.Ownership
import TransferQueue.Residence

/-! The commit of a spill drops the group of an entry on the strength of a copy made
earlier. It keeps the content of every instance as long as none of the copied groups
was appended to or taken by a read in between. -/

namespace TransferQueue
open UnorderedMap

variable {env : Env} {G : Guard} {v v' : View}

/-- Since the log had `startedAt` entries, the instance was appended to or taken. -/
def Touched (startedAt : ℕ) (id : String) (log : List Event) : Prop :=
  Since (Event.appends id) startedAt log ∨ Since (Event.takes id) startedAt log

instance (startedAt : ℕ) (id : String) (log : List Event) : Decidable (Touched startedAt id log) :=
  inferInstanceAs (Decidable (_ ∨ _))

theorem Touched.mono {startedAt : ℕ} {id : String} {log : List Event} {events : List Event}
    (h : startedAt ≤ log.length) (ht : Touched startedAt id log) :
    Touched startedAt id (events ++ log) :=
  ht.imp (fun hs => hs.mono h _) fun hs => hs.mono h _

/-- Spills commit into untouched instances only. -/
def Guard.untouched : Guard :=
  { Guard.none with commit := fun v startedAt id => ¬Touched startedAt id v.log }

namespace View

/-- The entry, if it is still there, holds the group: in memory, or in a file that no
task is exposed to. -/
def Holds (v : View) (id : String) (group : TrajectoryGroup) : Prop :=
  ∀ slot, v.look id = some slot → slot = .memory group ∨
    ∃ offset, slot = .disk offset ∧ v.file offset = some group ∧ ¬Exposes v.tasks offset

variable {id : String} {group group' : TrajectoryGroup}

theorem Holds.content {slot : Slot} (h : v.Holds id group) (hslot : v.look id = some slot) :
    v.content id = group.trajectories := by
  rw [View.content, hslot, Option.map_some, Option.getD_some]
  rcases h slot hslot with rfl | ⟨offset, rfl, hfile, -⟩
  · rfl
  · rw [Slot.content, hfile, Option.map_some, Option.getD_some]

theorem Holds.unique (h : v.Holds id group) (h' : v.Holds id group') (hheld : v.look id ≠ none) :
    group = group' := by
  obtain ⟨slot, hslot⟩ := Option.ne_none_iff_exists'.mp hheld
  rcases h slot hslot with rfl | ⟨offset, rfl, hfile, -⟩ <;>
    rcases h' _ hslot with heq | ⟨offset', heq, hfile', -⟩ <;> cases heq
  · rfl
  · exact Option.some.inj (hfile.symm.trans hfile')

end View

/-- Copies of untouched instances are current. -/
structure Current (v : View) : Prop where
  dated : Dated v
  holds : ∀ startedAt id group, Copied v.tasks startedAt id group →
    ¬Touched startedAt id v.log → v.Holds id group

namespace Current

theorem create (config : TransferQueueConfig) (bitCount numHashes : ℕ) (env : Env) :
    Current ((System.create config bitCount numHashes).view env) := by
  refine ⟨.create config bitCount numHashes env, fun _ _ _ h => ?_⟩
  obtain ⟨_, _, hmem, -⟩ := h
  exact (Multiset.notMem_zero _ hmem).elim

theorem holds_change (hv : Current v) (h : Change Guard.untouched v v') {startedAt : ℕ}
    {id : String} {group : TrajectoryGroup} (hc : Copied v.tasks startedAt id group)
    (hun : ¬Touched startedAt id v'.log) : v'.Holds id group := by
  obtain ⟨events, hlog⟩ := h.log_extends
  obtain ⟨hstarted, hcomplete⟩ := hv.dated.copied _ _ _ hc
  have hun' : ¬Touched startedAt id v.log := fun ht => hun (hlog ▸ ht.mono hstarted)
  have hheld := hv.holds _ _ _ hc hun'
  have hdisk : ∀ offset, v.look id = some (.disk offset) → v'.look id ≠ none →
      v'.file offset = some group ∧ ¬Exposes v'.tasks offset := by
    intro offset hslot hkept
    rcases hheld _ hslot with heq | ⟨_, heq, hfile, hhidden⟩
    · cases heq
    · cases heq
      refine ⟨?_, fun hexp => ?_⟩
      · rcases h.file_old (hv.dated.owned.slot_lt id _ hslot) with hsame | ⟨-, hexp⟩
        · rw [hsame, hfile]
        · exact absurd hexp hhidden
      · rcases h.exposes hexp with hold | ⟨id', hslot', ⟨ids, offsets, hin, htaken⟩ | hgone⟩
        · exact hhidden hold
        · rw [hv.dated.owned.slot_inj id' id offset hslot' hslot] at hin
          exact hun (.inr (.head hstarted htaken (by simpa [Event.takes])))
        · exact hkept (hv.dated.owned.slot_inj id' id offset hslot' hslot ▸ hgone)
  intro slot hslot
  cases h.slot hv.dated.owned id with
  | same events look =>
    rw [look] at hslot
    rcases hheld slot hslot with rfl | ⟨offset, rfl, -, -⟩
    · exact .inl rfl
    · have hkept : v'.look id ≠ none := by
        rw [look, hslot]
        exact Option.some_ne_none _
      exact .inr ⟨offset, rfl, hdisk offset hslot hkept⟩
  | gone look => exact nomatch look.symm.trans hslot
  | appended instance_eq log =>
    exact absurd (.inl (.head hstarted log (by simpa [Event.appends]))) hun
  | taken mem log =>
    exact absurd (.inr (.head hstarted log (by simpa [Event.takes]))) hun
  | @committed startedAt' group' offset ids copied draft file file_eq held look mem log permitted =>
    obtain rfl := Option.some.inj (look.symm.trans hslot)
    have hsame : group' = group := (hv.holds _ _ _ copied permitted).unique hheld held
    refine .inr ⟨offset, rfl, by rw [file_eq, file, hsame], fun hexp => ?_⟩
    rcases h.exposes hexp with hold | ⟨id', hslot', -⟩
    · exact hv.dated.owned.draft_hidden offset draft hold
    · exact hv.dated.owned.draft_slot offset draft id' hslot'
  | @expired f trajectories complete look =>
    rw [look] at hslot
    obtain ⟨old, hold, rfl⟩ := Option.map_eq_some_iff.mp hslot
    rcases hheld old hold with rfl | ⟨offset, rfl, -, -⟩
    · exact .inl (by rw [Slot.map, complete _ hcomplete])
    · have hkept : v'.look id ≠ none := by
        rw [look, hold]
        exact Option.some_ne_none _
      exact .inr ⟨offset, rfl, hdisk offset hold hkept⟩

theorem change (h : Change Guard.untouched v v') (hv : Current v) : Current v' := by
  refine ⟨hv.dated.change h, fun startedAt id group hc hun => ?_⟩
  rcases h.copied hc with hold | ⟨rfl, hslot, -, hlook, -, -⟩
  · exact hv.holds_change h hold hun
  · intro slot hslot'
    rw [hlook, hslot] at hslot'
    exact .inl (Option.some.inj hslot').symm

/-- A permitted commit keeps the content of every instance. -/
theorem content_commit (hv : Current v) {startedAt : ℕ}
    {written : List ((String × TrajectoryGroup) × ℕ)} {rest : Multiset Task}
    {look : String → Option Slot} (task : v.tasks = .spill startedAt [] written ::ₘ rest)
    (pointed : ∀ w ∈ written, look w.1.1 = (v.look w.1.1).map fun _ => .disk w.2)
    (kept : ∀ id, id ∉ written.map (fun w => w.1.1) → look id = v.look id)
    (permitted : ∀ w ∈ written, v.look w.1.1 ≠ none → ¬Touched startedAt w.1.1 v.log)
    (id : String) : ({ v with look } : View).content id = v.content id := by
  by_cases hid : id ∈ written.map fun w => w.1.1
  · obtain ⟨w, hw, rfl⟩ := List.mem_map.mp hid
    have hmem : .spill startedAt [] written ∈ v.tasks := task ▸ Multiset.mem_cons_self _ _
    have hcopy : Copied v.tasks startedAt w.1.1 w.1.2 :=
      ⟨[], written, hmem, by rw [List.append_nil]; exact List.mem_map_of_mem hw⟩
    cases hslot : v.look w.1.1 with
    | none => simp [View.content, pointed w hw, hslot]
    | some slot =>
      have hfile := hv.dated.owned.draft_file _ _ _ hmem w hw
      have hun := permitted w hw (by rw [hslot]; exact Option.some_ne_none _)
      rw [(hv.holds _ _ _ hcopy hun).content hslot]
      simp [View.content, pointed w hw, hslot, Slot.content, hfile]
  · simp only [View.content, kept id hid]

end Current

namespace System

/-- No chosen instance that is still in the map at a commit was appended to or taken by
a read since the copy. -/
def CommitsUntouched (s : System) (a : Action) : Prop :=
  ∀ commit ∈ s.committing a, ∀ w ∈ commit.2,
    w.1.1 ∈ s.shard.groups.keys → ¬Touched commit.1 w.1.1 s.log

instance (s : System) (a : Action) : Decidable (s.CommitsUntouched a) :=
  inferInstanceAs (Decidable (∀ commit ∈ s.committing a, _))

/-- A commit changes the content of no instance. -/
def CommitKeepsContent (env : Env) (s : System) (a : Action) : Prop :=
  (s.committing a).isSome → ∀ id, (s.step env a).2.shard.content id = s.shard.content id

theorem view_content (env : Env) (s : System) (id : String) :
    (s.view env).content id = s.shard.content id := by
  change ((((s.shard.groups.get? id).map GroupEntry.slot).map
    (Slot.content s.shard.diskStorage.find)).getD []) = _
  rw [BufferShard.content, Option.map_map]
  cases s.shard.groups.get? id with
  | none => rfl
  | some e =>
    rw [Option.map_some, Option.getD_some, Option.bind_some, Function.comp_apply,
      GroupEntry.slot, GroupEntry.group?]
    cases e.groupPtr with
    | some g => rfl
    | none =>
      by_cases hpos : 0 < e.diskOffset
      · simp only [if_pos hpos, Slot.content]
      · simp only [if_neg hpos, Slot.content, Option.map_none, Option.getD_none]

theorem step_commit_content {s : System} (hs : s.Clean env) (hv : Current (s.view env)) {a : Action}
    (h : s.CommitsUntouched a) : s.CommitKeepsContent env a := by
  intro hcommits id
  obtain ⟨⟨startedAt, written⟩, hcommit⟩ := Option.isSome_iff_exists.mp hcommits
  have hpermitted := h _ hcommit
  obtain ⟨hc, i, rfl, htask⟩ := committing_eq_some.mp hcommit
  have herased : ({ s with tasks := s.tasks.eraseIdx i } : System).Clean env :=
    hs.keep hs.shard rfl fun _ h => List.mem_of_mem_eraseIdx h
  obtain ⟨look, ids, hview, -, hpointed, hkept, -, -⟩ :=
    commit_view env herased (hs.tasks _ (List.mem_of_getElem? htask))
  have hheld : ∀ id, s.shard.look id ≠ none → id ∈ s.shard.groups.keys := fun id hne => by
    rwa [ne_eq, BufferShard.look_eq_none_iff, not_not] at hne
  rw [← view_content env, ← view_content env, step, hc, if_neg Bool.false_ne_true, act]
  simp only [htask]
  rw [hview]
  exact hv.content_commit (view_tasks_of_getElem? htask) hpointed hkept
    (fun w hw hne => hpermitted w hw (hheld _ hne)) id

/-- In every interleaving whose spills commit into untouched instances only, a commit
changes the content of no instance. -/
theorem commit_keeps_content (env : Env) (config : TransferQueueConfig) (bitCount numHashes : ℕ)
    (actions : List Action)
    (h : Machine.Along (step env) CommitsUntouched (create config bitCount numHashes) actions) :
    Machine.Along (step env) (CommitKeepsContent env) (create config bitCount numHashes)
      actions := by
  have hkept := along_keeps (fun _ _ => Current.change) (fun s a _ _ hstep => permits_commit hstep)
    (Current.create config bitCount numHashes env) h
  exact hkept.1.mono fun s a ⟨hs, hv, hstep⟩ => step_commit_content hs hv hstep

/-- A write to another instance and a second spill of the same group may come in between. -/
theorem commit_keeps_content_apart :
    Machine.Along (step (.sample [])) (CommitKeepsContent (.sample [])) (create (.tight 1) 0 0)
      [.write (.bare "u" "a"), .resume 0, .write (.bare "v" "b"), .resume 0, .resume 0, .resume 0,
        .resume 0] :=
  commit_keeps_content (.sample []) (.tight 1) 0 0 _ (by decide +kernel)

/-- A write to the copied instance is lost. -/
theorem commit_loses_write :
    ¬Machine.Along (step (.sample [])) (CommitKeepsContent (.sample [])) (create (.tight 1) 0 0)
      [.write (.bare "u" "a"), .write (.bare "v" "a"), .resume 0, .resume 1] := by
  intro h
  have hcommit : CommitKeepsContent (.sample []) _ _ := h.2.2.2.1
  exact absurd (hcommit (by decide +kernel) "a") (by decide +kernel)

end System
end TransferQueue
