import TransferQueue.SpillCommit

/-! The last continuation of a read erases the instances it took at its scan, by id. In
between, a write or a spill can put a group back into an entry. What is erased has been
delivered unless that happened. -/

namespace TransferQueue

variable {env : Env} {v v' : View}

/-- Since the log had `startedAt` entries, the instance was appended to or pointed to a
file. -/
def Rewritten (startedAt : ℕ) (id : String) (log : List Event) : Prop :=
  Since (Event.appends id) startedAt log ∨ Since (Event.commits id) startedAt log

instance (startedAt : ℕ) (id : String) (log : List Event) :
    Decidable (Rewritten startedAt id log) :=
  inferInstanceAs (Decidable (_ ∨ _))

theorem Rewritten.mono {startedAt : ℕ} {id : String} {log events : List Event}
    (h : startedAt ≤ log.length) (hr : Rewritten startedAt id log) :
    Rewritten startedAt id (events ++ log) :=
  hr.imp (fun hs => hs.mono h _) fun hs => hs.mono h _

theorem Rewritten.silent {startedAt : ℕ} {id : String} {log events : List Event}
    (h : startedAt ≤ log.length) (hsilent : Silent id events)
    (hr : Rewritten startedAt id (events ++ log)) : Rewritten startedAt id log := by
  rcases hr with hr | hr <;> rcases (Since_append h _).mp hr with ⟨event, hmem, hkind⟩ | hold
  · exact absurd ((hsilent event hmem).1.symm.trans hkind) (by simp)
  · exact .inl hold
  · exact absurd ((hsilent event hmem).2.2.symm.trans hkind) (by simp)
  · exact .inr hold

theorem Rewritten.of_taken {startedAt : ℕ} {id : String} {log : List Event} {ids : List String}
    {offsets : List ℕ} (h : startedAt ≤ log.length)
    (hr : Rewritten startedAt id (.taken ids offsets :: log)) : Rewritten startedAt id log := by
  rcases hr with hr | hr <;> rcases (Since_cons h _).mp hr with hkind | hold
  · cases hkind
  · exact .inl hold
  · cases hkind
  · exact .inr hold

theorem not_rewritten_length (id : String) (log : List Event) :
    ¬Rewritten log.length id log :=
  fun h => h.elim (not_Since_length _ log) (not_Since_length _ log)

/-- A spill commits into an instance that a suspended read has taken only if the instance
was not rewritten since the copy. -/
def Guard.settled : Guard :=
  { Guard.none with commit := fun v startedAt id =>
      (∃ task ∈ v.tasks, id ∈ task.ids) → ¬Rewritten startedAt id v.log }

/-- What the scan of a suspended read leaves in the entries it took, as long as nothing
is appended to them. -/
structure Scanned (v : View) : Prop where
  dated : Dated v
  copy : ∀ startedAt id group, Copied v.tasks startedAt id group →
    ¬Rewritten startedAt id v.log →
    ∀ slot, v.look id = some slot → slot = .hollow ∨ slot = .memory group
  covered : ∀ startedAt id group read files, Copied v.tasks startedAt id group →
    Reads v.tasks read files → id ∈ read.ids → ¬Rewritten startedAt id v.log →
    ¬Since (Event.appends id) read.startedAt v.log → group ∈ read.result
  entry : ∀ id read files, Reads v.tasks read files → id ∈ read.ids →
    ¬Since (Event.appends id) read.startedAt v.log →
    ∀ slot, v.look id = some slot → slot = .hollow ∨
      ∃ offset, slot = .disk offset ∧
        ∀ group, v.file offset = some group → files offset ∨ group ∈ read.result
  removed : ∀ read todo removed, .unlink read todo removed ∈ v.tasks →
    ∀ file ∈ removed, v.file file.1 = none

namespace Scanned

theorem create (config : TransferQueueConfig) (bitCount numHashes : ℕ) (env : Env) :
    Scanned ((System.create config bitCount numHashes).view env) := by
  have hcopied : ∀ startedAt id group,
      ¬Copied ((System.create config bitCount numHashes).view env).tasks startedAt id group :=
    fun _ _ _ ⟨_, _, hmem, _⟩ => Multiset.notMem_zero _ hmem
  have hreads : ∀ read files,
      ¬Reads ((System.create config bitCount numHashes).view env).tasks read files :=
    fun _ _ ⟨_, hmem, _⟩ => Multiset.notMem_zero _ hmem
  exact ⟨.create config bitCount numHashes env, fun _ _ _ h => (hcopied _ _ _ h).elim,
    fun _ _ _ _ _ h => (hcopied _ _ _ h).elim, fun _ _ _ h => (hreads _ _ h).elim,
    fun _ _ _ h => (Multiset.notMem_zero _ h).elim⟩

theorem copy_change (hv : Scanned v) (h : Change Guard.settled v v') {startedAt : ℕ} {id : String}
    {group : TrajectoryGroup} (hc : Copied v.tasks startedAt id group)
    (hrw : ¬Rewritten startedAt id v'.log) {slot : Slot} (hslot : v'.look id = some slot) :
    slot = .hollow ∨ slot = .memory group := by
  obtain ⟨events, hlog⟩ := h.log_extends
  obtain ⟨hstarted, hcomplete⟩ := hv.dated.copied _ _ _ hc
  have hrw' : ¬Rewritten startedAt id v.log := fun hr => hrw (hlog ▸ hr.mono hstarted)
  have hold := hv.copy _ _ _ hc hrw'
  cases h.slot hv.dated.owned id with
  | same events look => exact hold slot (look ▸ hslot)
  | gone look => exact nomatch look.symm.trans hslot
  | appended instance_eq log =>
    exact absurd (.inl (.head hstarted log (by simpa [Event.appends]))) hrw
  | taken mem log look =>
    rw [look] at hslot
    obtain ⟨old, hlook, rfl⟩ := Option.map_eq_some_iff.mp hslot
    rcases hold old hlook with rfl | rfl <;> exact .inl rfl
  | @committed startedAt' group' offset ids copied draft file file_eq held look mem log permitted =>
    refine absurd (.inr (log ▸ (Since_append hstarted _).mpr (.inl ?_))) hrw
    exact ⟨.committed id, List.mem_map_of_mem mem, by simp [Event.commits]⟩
  | @expired f trajectories complete look =>
    rw [look] at hslot
    obtain ⟨old, hlook, rfl⟩ := Option.map_eq_some_iff.mp hslot
    rcases hold old hlook with rfl | rfl
    · exact .inl rfl
    · exact .inr (by rw [Slot.map, complete _ hcomplete])

/-- An entry that a suspended read took and that is not appended to holds nothing that
the read does not deliver. -/
theorem entry_change (hv : Scanned v) (h : Change Guard.settled v v') {id : String}
    {read : PendingRead} {files : ℕ → Prop} (hr : Reads v.tasks read files) (hid : id ∈ read.ids)
    (hun : ¬Since (Event.appends id) read.startedAt v'.log) {slot : Slot}
    (hslot : v'.look id = some slot) :
    slot = .hollow ∨ ∃ offset, slot = .disk offset ∧
      ∀ group, v'.file offset = some group → files offset ∨ group ∈ read.result := by
  obtain ⟨events, hlog⟩ := h.log_extends
  have hstarted := hv.dated.scanned _ _ hr
  have hun' : ¬Since (Event.appends id) read.startedAt v.log := fun hs =>
    hun (hlog ▸ hs.mono hstarted _)
  have hold : ∀ slot, v.look id = some slot → slot = .hollow ∨ ∃ offset, slot = .disk offset ∧
      ∀ group, v'.file offset = some group → files offset ∨ group ∈ read.result := by
    intro slot hlook
    rcases hv.entry _ _ _ hr hid hun' slot hlook with rfl | ⟨offset, rfl, hfile⟩
    · exact .inl rfl
    · refine .inr ⟨offset, rfl, fun group hgroup => ?_⟩
      exact hfile group (h.file_some (hv.dated.owned.slot_lt id _ hlook) hgroup)
  cases h.slot hv.dated.owned id with
  | same events look => exact hold slot (look ▸ hslot)
  | gone look => exact nomatch look.symm.trans hslot
  | appended instance_eq log =>
    exact absurd (.head hstarted log (by simpa [Event.appends])) hun
  | taken mem log look =>
    rw [look] at hslot
    obtain ⟨old, hlook, rfl⟩ := Option.map_eq_some_iff.mp hslot
    rcases hold old hlook with rfl | ⟨offset, rfl, hfile⟩
    · exact .inl rfl
    · exact .inr ⟨offset, rfl, hfile⟩
  | @committed startedAt' group' offset ids copied draft file file_eq held look mem log permitted =>
    obtain rfl := Option.some.inj (look.symm.trans hslot)
    have htaken : ∃ task ∈ v.tasks, id ∈ task.ids := by
      obtain ⟨task, hmem, hread, -⟩ := hr
      exact ⟨task, hmem, by simpa [Task.ids, hread]⟩
    refine .inr ⟨offset, rfl, fun group hgroup => .inr ?_⟩
    rw [file_eq, file] at hgroup
    cases hgroup
    exact hv.covered _ _ _ _ _ copied hr hid (permitted htaken) hun'
  | @expired f trajectories complete look =>
    rw [look] at hslot
    obtain ⟨old, hlook, rfl⟩ := Option.map_eq_some_iff.mp hslot
    rcases hold old hlook with rfl | ⟨offset, rfl, hfile⟩
    · exact .inl rfl
    · exact .inr ⟨offset, rfl, hfile⟩

theorem change (h : Change Guard.settled v v') (hv : Scanned v) : Scanned v' := by
  obtain ⟨events, hlog⟩ := h.log_extends
  have hnot : ∀ {startedAt : ℕ} {id : String}, startedAt ≤ v.log.length →
      ¬Rewritten startedAt id v'.log → ¬Rewritten startedAt id v.log :=
    fun hle hrw hr => hrw (hlog ▸ hr.mono hle)
  have hsince : ∀ {startedAt : ℕ} {id : String}, startedAt ≤ v.log.length →
      ¬Since (Event.appends id) startedAt v'.log → ¬Since (Event.appends id) startedAt v.log :=
    fun hle hun hs => hun (hlog ▸ hs.mono hle _)
  constructor
  case dated => exact hv.dated.change h
  case copy =>
    intro startedAt id group hc hrw slot hslot
    rcases h.copied hc with hold | ⟨-, hlook, -, hsame, -, -⟩
    · exact hv.copy_change h hold hrw hslot
    · rw [hsame, hlook] at hslot
      exact .inr (Option.some.inj hslot).symm
  case covered =>
    intro startedAt id group read files hc hr hid hrw hun
    rcases h.reads hr with hread | ⟨taken, rfl, -, hlook, hreadable, -, -, -, -, hcopies⟩
    · rcases h.copied hc with hcopy | ⟨-, hlook, -, -, hsame, hreads⟩
      · exact hv.covered _ _ _ _ _ hcopy hread hid (hnot (hv.dated.copied _ _ _ hcopy).1 hrw)
          (hsince (hv.dated.scanned _ _ hread) hun)
      · -- a group in memory was put there after the scan
        rcases hv.entry _ _ _ hread hid (hsame ▸ hun) _ hlook with heq | ⟨_, heq, -⟩ <;> cases heq
    · -- the scan takes the group that was copied
      have hcopy := hcopies _ _ _ hc
      obtain ⟨p, hp, rfl⟩ := List.mem_map.mp hid
      have hslot := hv.copy _ _ _ hcopy (hnot (hv.dated.copied _ _ _ hcopy).1 hrw) p.2 (hlook p hp)
      exact Slot.mem_groups.mpr ⟨p, hp, hslot.resolve_left (hreadable p hp)⟩
  case entry =>
    intro id read files hr hid hun slot hslot
    rcases h.reads hr with hread | ⟨taken, rfl, hfiles, hlook, hreadable, hafter, -⟩
    · exact hv.entry_change h hread hid hun hslot
    · obtain ⟨p, hp, rfl⟩ := List.mem_map.mp hid
      rw [hafter, if_pos hid, hlook p hp] at hslot
      obtain rfl := Option.some.inj hslot
      cases hs : p.2 with
      | memory group => exact .inl rfl
      | disk offset =>
        refine .inr ⟨offset, rfl, fun group _ => .inl ((hfiles offset).mpr ?_)⟩
        exact Slot.mem_offsets.mpr ⟨p, hp, hs⟩
      | hollow => exact absurd hs (hreadable p hp)
  case removed =>
    intro read todo removed hu file hfile
    have hkept : ∀ removed', .unlink read todo removed' ∈ v.tasks ∨
        (∃ next, .unlink read (next :: todo) removed' ∈ v.tasks) →
        ∀ file ∈ removed', v'.file file.1 = none := by
      intro removed' htask file hfile
      have hexposed : Exposes v.tasks file.1 := by
        rcases htask with htask | ⟨_, htask⟩ <;>
          exact ⟨_, htask, List.mem_append_right _ (List.mem_map_of_mem hfile)⟩
      have hnone : v.file file.1 = none := by
        rcases htask with htask | ⟨_, htask⟩ <;> exact hv.removed _ _ _ htask file hfile
      exact h.file_none (hv.dated.owned.exposed_lt _ hexposed) hnone
    rcases h.unlinks hu with hold | rfl | ⟨next, removed', rfl, hnone, hold⟩
    · exact hkept removed (.inl hold) file hfile
    · cases hfile
    · rcases List.mem_append.mp hfile with hfile | hfile
      · exact hkept removed' (.inr ⟨next, hold⟩) file hfile
      · rwa [List.mem_singleton.mp hfile]

theorem erased_delivered (hv : Scanned v) {read : PendingRead}
    {removed : List (ℕ × TrajectoryGroup)} (htask : .unlink read [] removed ∈ v.tasks) {id : String}
    (hid : id ∈ read.ids) (hun : ¬Since (Event.appends id) read.startedAt v.log)
    {t : Trajectory} (ht : t ∈ v.content id) : ∃ group ∈ read.result, t ∈ group.trajectories := by
  have hr : Reads v.tasks read (· ∈ removed.map Prod.fst) :=
    ⟨_, htask, rfl, fun offset => by simp [Task.exposed]⟩
  rw [View.content] at ht
  cases hslot : v.look id with
  | none => simp [hslot] at ht
  | some slot =>
    rw [hslot, Option.map_some, Option.getD_some] at ht
    rcases hv.entry _ _ _ hr hid hun slot hslot with rfl | ⟨offset, rfl, hfile⟩
    · cases ht
    · cases hgroup : v.file offset with
      | none => simp [Slot.content, hgroup] at ht
      | some group =>
        rw [Slot.content, hgroup, Option.map_some, Option.getD_some] at ht
        rcases hfile group hgroup with hremoved | hresult
        · obtain ⟨file, hmem, rfl⟩ := List.mem_map.mp hremoved
          cases (hv.removed _ _ _ htask file hmem).symm.trans hgroup
        · exact ⟨group, hresult, ht⟩

end Scanned

namespace System

def erasing (s : System) : Action → Option (PendingRead × List (ℕ × TrajectoryGroup))
  | .resume i =>
    match s.crashed, s.tasks[i]? with
    | false, some (.unlink read [] removed) => some (read, removed)
    | _, _ => none
  | _ => none

theorem erasing_eq_some {s : System} {a : Action} {read : PendingRead}
    {removed : List (ℕ × TrajectoryGroup)} :
    s.erasing a = some (read, removed) ↔ s.crashed = false ∧
      ∃ i, a = .resume i ∧ s.tasks[i]? = some (.unlink read [] removed) := by
  cases a with
  | resume i =>
    rw [erasing]
    split <;> simp_all
  | _ => simp [erasing]

/-- What an erase removes its read delivers, and writes accepted since the scan for the
instances it took are stored after it. -/
def EraseKeeps (env : Env) (s : System) (a : Action) : Prop :=
  ∀ erase ∈ s.erasing a,
    (∀ id, ∀ t ∈ s.shard.content id, t ∈ (s.step env a).2.shard.content id ∨
      ∃ group ∈ erase.1.result ++ erase.2.map Prod.snd, t ∈ group.trajectories) ∧
    ∀ t, .appended t ∈ since erase.1.startedAt s.log ∨
        .ignored t ∈ since erase.1.startedAt s.log →
      t.instanceId ∈ erase.1.ids → t ∈ (s.step env a).2.shard.content t.instanceId

/-- No write was accepted since the scan for an instance that the erasing read took. -/
def ErasesQuiet (s : System) (a : Action) : Prop :=
  ∀ erase ∈ s.erasing a, ∀ id ∈ erase.1.ids, ¬Since (Event.accepts id) erase.1.startedAt s.log

instance (s : System) (a : Action) : Decidable (s.ErasesQuiet a) :=
  inferInstanceAs (Decidable (∀ erase ∈ s.erasing a, _))

/-- A chosen instance that a suspended read has taken was not rewritten since the copy. -/
def CommitsSettled (s : System) (a : Action) : Prop :=
  ∀ commit ∈ s.committing a, ∀ w ∈ commit.2, w.1.1 ∈ s.shard.groups.keys →
    (∃ task ∈ s.tasks, w.1.1 ∈ task.ids) → ¬Rewritten commit.1 w.1.1 s.log

instance (s : System) (a : Action) : Decidable (s.CommitsSettled a) :=
  inferInstanceAs (Decidable (∀ commit ∈ s.committing a, _))

theorem since_accepts {n : ℕ} {id : String} {log : List Event} :
    Since (Event.accepts id) n log ↔
      ∃ t, t.instanceId = id ∧ (.appended t ∈ since n log ∨ .ignored t ∈ since n log) := by
  constructor
  · rintro ⟨event, hmem, haccepts⟩
    cases event with
    | appended t => exact ⟨t, by simpa [Event.accepts] using haccepts, .inl hmem⟩
    | ignored t => exact ⟨t, by simpa [Event.accepts] using haccepts, .inr hmem⟩
    | _ => simp [Event.accepts] at haccepts
  · rintro ⟨t, rfl, hmem | hmem⟩
    · exact ⟨_, hmem, by simp [Event.accepts]⟩
    · exact ⟨_, hmem, by simp [Event.accepts]⟩

theorem step_erase_content {s : System} {a : Action} {read : PendingRead}
    {removed : List (ℕ × TrajectoryGroup)} (h : s.erasing a = some (read, removed)) (id : String) :
    (s.step env a).2.shard.content id = if id ∈ read.ids then [] else s.shard.content id := by
  obtain ⟨hc, i, rfl, htask⟩ := erasing_eq_some.mp h
  have hshard : (s.step env (.resume i)).2.shard = s.shard.eraseIds read.ids := by
    rw [step, hc, if_neg Bool.false_ne_true, act]
    simp only [htask]
    rfl
  rw [hshard]
  by_cases hid : id ∈ read.ids
  · rw [if_pos hid, BufferShard.content, BufferShard.eraseIds,
      UnorderedMap.get?_eraseAll_of_mem hid]
    rfl
  · rw [if_neg hid, BufferShard.content, BufferShard.eraseIds,
      UnorderedMap.get?_eraseAll_of_not_mem hid]
    rfl

theorem eraseKeeps_iff {s : System} (hv : Scanned (s.view env)) (a : Action) :
    s.EraseKeeps env a ↔ s.ErasesQuiet a := by
  constructor
  · -- an accepted write is erased with its instance
    intro h erase herase id hid haccepted
    obtain ⟨t, rfl, hmem⟩ := since_accepts.mp haccepted
    have hstored := (h erase herase).2 t hmem hid
    rw [step_erase_content herase, if_pos hid] at hstored
    cases hstored
  · intro h erase herase
    obtain ⟨hc, i, rfl, htask⟩ := erasing_eq_some.mp herase
    have hmem : .unlink erase.1 [] erase.2 ∈ (s.view env).tasks := List.mem_of_getElem? htask
    refine ⟨fun id t ht => ?_, fun t ht hid =>
      absurd (since_accepts.mpr ⟨t, rfl, ht⟩) (h erase herase _ hid)⟩
    rw [step_erase_content herase]
    by_cases hid : id ∈ erase.1.ids
    · have hun : ¬Since (Event.appends id) erase.1.startedAt (s.view env).log := by
        rintro ⟨event, hin, happends⟩
        cases event with
        | appended t' =>
          refine h erase herase id hid ⟨_, hin, ?_⟩
          simpa [Event.accepts, Event.appends] using happends
        | _ => simp [Event.appends] at happends
      obtain ⟨group, hresult, hin⟩ := hv.erased_delivered hmem hid hun (view_content env s id ▸ ht)
      exact .inr ⟨group, List.mem_append_left _ hresult, hin⟩
    · exact .inl (by rwa [if_neg hid])

/-- In every interleaving whose spills commit into instances taken by a suspended read
from settled copies only, the erases keep what they do not deliver if and only if no write
was accepted in between for an instance taken. -/
theorem erases_keep_iff_quiet (env : Env) (config : TransferQueueConfig) (bitCount numHashes : ℕ)
    (actions : List Action)
    (h : Machine.Along (step env) CommitsSettled (create config bitCount numHashes) actions) :
    Machine.Along (step env) (EraseKeeps env) (create config bitCount numHashes) actions ↔
      Machine.Along (step env) ErasesQuiet (create config bitCount numHashes) actions := by
  have hkept := along_keeps (fun _ _ => Scanned.change) (fun s a _ _ hstep => permits_commit hstep)
    (Scanned.create config bitCount numHashes env) h
  exact (hkept.1.mono fun s a ⟨_, hv, _⟩ => eraseKeeps_iff hv a).iff

/-- While the read of "a" and "b" waits for the disk, a spill commits into "a" the very
group that the read took: nothing is lost. -/
theorem erases_keep_iff_quiet_spilled :
    Machine.Along (step (.sample [])) (EraseKeeps (.sample [])) (create (.tight 1) 0 0)
      [.write (.bare "w" "b"), .resume 0, .resume 0, .write (.bare "u" "a"), .readReadyGroups 0,
        .write (.bare "v" "c"), .resume 0, .resume 0, .resume 0, .resume 0, .resume 0, .resume 0,
        .resume 0, .resume 0] :=
  (erases_keep_iff_quiet (.sample []) (.tight 1) 0 0 _ (by decide +kernel)).mpr
    (by decide +kernel)

/-- While the read of "a" and "b" waits for the disk, a write to "a" is accepted; the read
erases it without delivering it. -/
theorem erase_loses_write :
    ¬Machine.Along (step (.sample [])) (EraseKeeps (.sample [])) (create (.tight 1) 0 0)
      [.write (.bare "w" "b"), .resume 0, .resume 0, .write (.bare "u" "a"), .readReadyGroups 0,
        .write (.bare "v" "a"), .resume 1, .resume 2, .resume 2, .resume 2] := by
  intro h
  have herase : EraseKeeps (.sample []) _ _ := h.2.2.2.2.2.2.2.2.2.1
  have hlost := (herase _ (Option.eq_some_of_isSome (by decide +kernel))).1 "a" (.bare "v" "a")
    (by decide +kernel)
  exact absurd hlost (by decide +kernel)

end System
end TransferQueue
