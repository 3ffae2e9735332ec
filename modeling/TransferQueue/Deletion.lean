import TransferQueue.ReadCommit

/-! What a deletion leaves behind. It removes the entries and forgets the spills that have
copied them: the copy made before the deletion comes back to life when the instance is
written again before the spill commits. Unless that happens, reads that start after the
deletion deliver what has been appended since. -/

namespace TransferQueue

variable {env : Env} {G : Guard} {v v' : View}

/-- A group is reached through the entry of an instance. -/
def View.Reaches (v : View) (id : String) (group : TrajectoryGroup) : Prop :=
  v.look id = some (.memory group) ∨
    ∃ offset, v.look id = some (.disk offset) ∧ v.file offset = some group

/-- A suspended read will deliver the group, if the files it has to load stay as they are. -/
def Task.brings (file : ℕ → Option TrajectoryGroup) (group : TrajectoryGroup) : Task → Prop
  | load read todo loaded =>
    group ∈ read.result ∨ (∃ offset ∈ todo, file offset = some group) ∨
      group ∈ loaded.map Prod.snd
  | unlink read todo removed =>
    group ∈ read.result ∨ group ∈ todo.map Prod.snd ∨ group ∈ removed.map Prod.snd
  | _ => False

/-- A property of the trajectories stored under an instance, given what has happened since
the log had `n` entries. -/
structure Mark (n : ℕ) where
  good : List Event → String → Trajectory → Prop
  mono : ∀ {log id t}, n ≤ log.length → good log id t → ∀ events, good (events ++ log) id t
  appended : ∀ log t, n ≤ log.length → good (.appended t :: log) t.instanceId t
  /-- Copies that need not have it. -/
  stale : ℕ → String → Prop

namespace Mark

variable {n : ℕ} {m : Mark n}

def Good (m : Mark n) (log : List Event) (id : String) (group : TrajectoryGroup) : Prop :=
  ∀ t ∈ group.trajectories, m.good log id t

/-- Stale copies are not committed into an entry. -/
def guard (m : Mark n) : Guard := { Guard.none with commit := fun _ k id => ¬m.stale k id }

/-- Everything reached through an entry, copied by a spill that is not stale or held by a
read that started after the log had `n` entries has the property. -/
structure Holds (m : Mark n) (v : View) : Prop where
  past : n ≤ v.log.length
  dated : Dated v
  reached : ∀ id group, v.Reaches id group → m.Good v.log id group
  copied : ∀ k id group, Copied v.tasks k id group → ¬m.stale k id → m.Good v.log id group
  read : ∀ task ∈ v.tasks, ∀ read, task.read? = some read → n < read.startedAt →
    ∀ group, task.brings v.file group → ∃ id, m.Good v.log id group

theorem Holds.reached_change (hv : m.Holds v) (h : Change m.guard v v') {id : String}
    {group : TrajectoryGroup} (hr : v'.Reaches id group) : m.Good v'.log id group := by
  obtain ⟨events, hlog⟩ := h.log_extends
  have hold : ∀ {group}, v.Reaches id group → m.Good v'.log id group := fun hr t ht =>
    hlog ▸ m.mono hv.past (hv.reached _ _ hr t ht) events
  have hdisk : ∀ {offset}, v.look id = some (.disk offset) → v'.file offset = some group →
      m.Good v'.log id group := fun hslot hfile =>
    hold (.inr ⟨_, hslot, h.file_some (hv.dated.owned.slot_lt id _ hslot) hfile⟩)
  cases h.slot hv.dated.owned id with
  | same events look =>
    rw [View.Reaches, look] at hr
    rcases hr with hmemory | ⟨offset, hslot, hfile⟩
    · exact hold (.inl hmemory)
    · exact hdisk hslot hfile
  | gone look => simp [View.Reaches, look] at hr
  | @appended t old new instance_eq log look was grown =>
    subst instance_eq
    have hnew : new = group := by simpa [View.Reaches, look] using hr
    subst hnew
    intro t' ht'
    rw [grown, List.mem_append, List.mem_singleton] at ht'
    rcases ht' with ht' | rfl
    · rcases was with hmemory | ⟨hempty, -⟩
      · exact hold (.inl hmemory) t' ht'
      · rw [hempty] at ht'
        cases ht'
    · exact log ▸ m.appended v.log t' hv.past
  | taken mem log look =>
    rw [View.Reaches, look] at hr
    rcases hr with hmemory | ⟨offset, hslot, hfile⟩
    · obtain ⟨slot, -, hslot⟩ := Option.map_eq_some_iff.mp hmemory
      cases slot <;> cases hslot
    · obtain ⟨slot, hold, hslot⟩ := Option.map_eq_some_iff.mp hslot
      exact hdisk (Slot.moveOut_eq_disk.mp hslot ▸ hold) hfile
  | @committed startedAt group' offset ids copied draft file file_eq held look mem log permitted =>
    have hgroup : group' = group := by simpa [View.Reaches, look, file_eq, file] using hr
    subst hgroup
    intro t ht
    exact hlog ▸ m.mono hv.past (hv.copied _ _ _ copied permitted t ht) events
  | @expired f trajectories complete look =>
    rw [View.Reaches, look] at hr
    rcases hr with hmemory | ⟨offset, hslot, hfile⟩
    · obtain ⟨slot, hslot, hmap⟩ := Option.map_eq_some_iff.mp hmemory
      cases slot with
      | memory old =>
        obtain rfl := Slot.memory.inj hmap
        intro t ht
        rw [trajectories] at ht
        exact hold (.inl hslot) t ht
      | disk offset => cases hmap
      | hollow => cases hmap
    · obtain ⟨slot, hold, hslot⟩ := Option.map_eq_some_iff.mp hslot
      exact hdisk (Slot.map_eq_disk.mp hslot ▸ hold) hfile

theorem brings_old (hv : Dated v) (h : Change G v v') {task : Task} (hmem : task ∈ v.tasks)
    {group : TrajectoryGroup} (hb : task.brings v'.file group) : task.brings v.file group := by
  cases task with
  | load read todo loaded =>
    rcases hb with hresult | ⟨offset, hoff, hfile⟩ | hloaded
    · exact .inl hresult
    · have hlt := hv.owned.exposed_lt offset ⟨_, hmem, List.mem_append_left _ hoff⟩
      exact .inr (.inl ⟨offset, hoff, h.file_some hlt hfile⟩)
    · exact .inr (.inr hloaded)
  | unlink read todo removed => exact hb
  | spill => exact hb.elim
  | remove => exact hb.elim

theorem brings_change (hv : Dated v) (h : Change G v v') {task : Task} (hmem : task ∈ v'.tasks)
    {read : PendingRead} (hread : task.read? = some read) {group : TrajectoryGroup}
    (hb : task.brings v'.file group) :
    (∃ task' ∈ v.tasks, task'.read? = some read ∧ task'.brings v.file group) ∨
      ∃ id, v.Reaches id group := by
  have hsame : ∀ {task' : Task}, task' ∈ v.tasks → task'.read? = some read →
      task'.brings v'.file group →
      ∃ task' ∈ v.tasks, task'.read? = some read ∧ task'.brings v.file group :=
    fun hmem hread hb => ⟨_, hmem, hread, brings_old hv h hmem hb⟩
  cases h.taskEffect hmem with
  | same mem => exact .inl (hsame mem hread hb)
  | take taken_look readable permitted look file log =>
    rcases hb with hresult | ⟨offset, hoff, hfile⟩ | hloaded
    · cases hread
      obtain ⟨p, hp, hslot⟩ := Slot.mem_groups.mp hresult
      exact .inr ⟨p.1, .inl (hslot ▸ taken_look p hp)⟩
    · obtain ⟨p, hp, hslot⟩ := Slot.mem_offsets.mp hoff
      exact .inr ⟨p.1, .inr ⟨offset, hslot ▸ taken_look p hp, file ▸ hfile⟩⟩
    · cases hloaded
  | @load read' offset loadedGroup todo loaded mem file =>
    refine .inl (hsame mem hread ?_)
    rcases hb with hresult | ⟨offset', hoff, hfile⟩ | hloaded
    · exact .inl hresult
    · exact .inr (.inl ⟨offset', List.mem_cons_of_mem _ hoff, hfile⟩)
    · rw [List.map_append, List.mem_append] at hloaded
      rcases hloaded with hold | hnew
      · exact .inr (.inr hold)
      · obtain rfl := List.mem_singleton.mp hnew
        exact .inr (.inl ⟨offset, List.mem_cons_self .., file⟩)
  | merge mem =>
    refine .inl (hsame mem hread ?_)
    rcases hb with hresult | htodo | hremoved
    · exact .inl hresult
    · exact .inr (.inr htodo)
    · cases hremoved
  | unlink mem =>
    refine .inl (hsame mem hread ?_)
    rcases hb with hresult | htodo | hremoved
    · exact .inl hresult
    · exact .inr (.inl (List.mem_cons_of_mem _ htodo))
    · rw [List.map_append, List.mem_append] at hremoved
      rcases hremoved with hold | hnew
      · exact .inr (.inr hold)
      · exact .inr (.inl (List.mem_singleton.mp hnew ▸ List.mem_cons_self ..))
  | _ => cases hread

theorem Holds.change (h : Change m.guard v v') (hv : m.Holds v) : m.Holds v' := by
  obtain ⟨events, hlog⟩ := h.log_extends
  have hkept : ∀ {id group}, m.Good v.log id group → m.Good v'.log id group := fun hg t ht =>
    hlog ▸ m.mono hv.past (hg t ht) events
  refine ⟨?_, hv.dated.change h, fun id group => hv.reached_change h,
    fun k id group hc hfresh => ?_,
    fun task hmem read hread hstarted group hb => ?_⟩
  · rw [hlog, List.length_append]
    exact hv.past.trans (Nat.le_add_left _ _)
  · rcases h.copied hc with hold | ⟨-, hslot, -⟩
    · exact hkept (hv.copied k id group hold hfresh)
    · exact hkept (hv.reached id group (.inl hslot))
  · rcases brings_change hv.dated h hmem hread hb with ⟨task', hmem', hread', hb'⟩ | ⟨id, hr⟩
    · obtain ⟨id, hgood⟩ := hv.read task' hmem' read hread' hstarted group hb'
      exact ⟨id, hkept hgood⟩
    · exact ⟨id, hkept (hv.reached id group hr)⟩

end Mark

def Action.deletes : Action → String → Bool
  | .deleteInstance id => fun id' => decide (id' = id)
  | .reset => fun _ => true
  | _ => fun _ => false

namespace Mark

/-- Before the deletion: trajectories are stored under their instance. -/
def keyed : Mark 0 where
  good _ id t := t.instanceId = id
  mono _ h _ := h
  appended _ _ _ := rfl
  stale _ _ := False

/-- After it: what is stored of a deleted instance has been appended since. A copy from
before is stale. -/
def renewed (n : ℕ) (deleted : String → Bool) : Mark n where
  good log _ t := deleted t.instanceId = true → .appended t ∈ since n log
  mono hn h events hdeleted := by
    rw [since_append hn]
    exact List.mem_append_right _ (h hdeleted)
  appended log t hn _ := by
    rw [← List.singleton_append, since_append hn]
    exact List.mem_cons_self ..
  stale k id := k ≤ n ∧ deleted id = true

theorem Holds.create (config : TransferQueueConfig) (bitCount numHashes : ℕ) (env : Env) :
    keyed.Holds ((System.create config bitCount numHashes).view env) where
  past := Nat.zero_le _
  dated := .create config bitCount numHashes env
  reached _ _ h := by
    rcases h with hmemory | ⟨_, hdisk, -⟩
    · cases hmemory
    · cases hdisk
  copied _ _ _ h _ := by
    obtain ⟨_, _, hmem, -⟩ := h
    exact (Multiset.notMem_zero _ hmem).elim
  read _ hmem := (Multiset.notMem_zero _ hmem).elim

/-- Right after the deletion nothing is reached through the deleted instances, and nothing
but stale copies is left of them. -/
theorem Holds.renew (hv : keyed.Holds v) {deleted : String → Bool}
    (hgone : ∀ id, deleted id = true → v.look id = none) :
    (renewed v.log.length deleted).Holds v where
  past := le_rfl
  dated := hv.dated
  reached id group hr t ht hdeleted := by
    rw [hv.reached id group hr t ht] at hdeleted
    rcases hr with hmemory | ⟨_, hdisk, -⟩
    · exact nomatch (hgone id hdeleted).symm.trans hmemory
    · exact nomatch (hgone id hdeleted).symm.trans hdisk
  copied k id group hc hfresh t ht hdeleted := by
    rw [hv.copied k id group hc (fun h => h) t ht] at hdeleted
    exact absurd ⟨(hv.dated.copied k id group hc).1, hdeleted⟩ hfresh
  read task hmem read hread hstarted := by
    have hpast := hv.dated.scanned read (· ∈ task.exposed) ⟨task, hmem, hread, fun _ => Iff.rfl⟩
    omega

end Mark

namespace System

/-- The groups that a step delivers, and when the log of their read starts. -/
def delivering (s : System) : Action → Option (ℕ × List TrajectoryGroup)
  | .readReadyGroups maxGroups =>
    match s.crashed, s.shard.readScan maxGroups with
    | false, some (scan, _) =>
      if scan.offsetsToLoad = [] then some (s.log.length + 1, scan.result) else none
    | _, _ => none
  | a => (s.erasing a).map fun e => (e.1.startedAt, e.1.result ++ e.2.map Prod.snd)

/-- Reads that started after the log had `n` entries deliver of the deleted instances only
what has been appended since. -/
def DeliversRenewed (n : ℕ) (deleted : String → Bool) (s : System) (a : Action) : Prop :=
  ∀ d ∈ s.delivering a, n < d.1 → ∀ group ∈ d.2, ∀ t ∈ group.trajectories,
    deleted t.instanceId = true → .appended t ∈ since n s.log

/-- No copy from before is committed into an entry of a deleted instance. -/
def CommitsRenewed (n : ℕ) (deleted : String → Bool) (s : System) (a : Action) : Prop :=
  ∀ commit ∈ s.committing a, commit.1 ≤ n → ∀ w ∈ commit.2, deleted w.1.1 = true →
    w.1.1 ∉ s.shard.groups.keys

instance (n : ℕ) (deleted : String → Bool) (s : System) (a : Action) :
    Decidable (s.CommitsRenewed n deleted a) :=
  inferInstanceAs (Decidable (∀ commit ∈ s.committing a, _))

instance (n : ℕ) (deleted : String → Bool) (s : System) (a : Action) :
    Decidable (s.DeliversRenewed n deleted a) :=
  inferInstanceAs (Decidable (∀ d ∈ s.delivering a, _))

theorem delivers (env : Env) {s : System} {a : Action} {startedAt : ℕ}
    {groups : List TrajectoryGroup} (h : s.delivering a = some (startedAt, groups))
    {group : TrajectoryGroup} (hgroup : group ∈ groups) :
    (∃ task ∈ (s.view env).tasks, ∃ read, task.read? = some read ∧ read.startedAt = startedAt ∧
      task.brings (s.view env).file group) ∨ ∃ id, (s.view env).Reaches id group := by
  have herase : (s.erasing a).map (fun e => (e.1.startedAt, e.1.result ++ e.2.map Prod.snd)) =
      some (startedAt, groups) →
      ∃ task ∈ (s.view env).tasks, ∃ read, task.read? = some read ∧ read.startedAt = startedAt ∧
        task.brings (s.view env).file group := by
    intro he
    obtain ⟨⟨read, removed⟩, herased, heq⟩ := Option.map_eq_some_iff.mp he
    obtain ⟨rfl, rfl⟩ := Prod.mk.inj heq
    obtain ⟨-, i, -, htask⟩ := erasing_eq_some.mp herased
    refine ⟨_, Multiset.mem_coe.mpr (List.mem_of_getElem? htask), read, rfl, rfl, ?_⟩
    exact (List.mem_append.mp hgroup).imp id .inr
  cases a with
  | readReadyGroups maxGroups =>
    rw [delivering, BufferShard.readScan_eq] at h
    right
    by_cases hread : ∀ p ∈ s.shard.selected maxGroups, p.2.Readable
    · rw [if_pos hread] at h
      cases hc : s.crashed with
      | true => simp [hc] at h
      | false =>
        simp only [hc] at h
        split at h
        · obtain ⟨-, rfl⟩ := Prod.mk.inj (Option.some.inj h)
          have hresult : group ∈ (s.shard.selected maxGroups).filterMap fun p => p.2.groupPtr :=
            hgroup
          obtain ⟨p, hp, hptr⟩ := List.mem_filterMap.mp hresult
          have hlook := BufferShard.look_of_mem (BufferShard.mem_of_selected hp).1
          exact ⟨p.1, .inl (hlook.trans (by rw [GroupEntry.slot_of_some hptr]))⟩
        · cases h
    · rw [if_neg hread] at h
      cases hc : s.crashed <;> simp [hc] at h
  | _ => exact .inl (herase h)

theorem delivering_crashed {s : System} (h : s.crashed = true) (a : Action) :
    s.delivering a = none := by
  cases a <;> simp [delivering, erasing, h]

theorem deliversRenewed_of_holds {n : ℕ} {deleted : String → Bool} {s : System}
    (hv : (Mark.renewed n deleted).Holds (s.view env)) (a : Action) :
    s.DeliversRenewed n deleted a := by
  rintro ⟨startedAt, groups⟩ hd hstarted group hgroup t ht hdeleted
  rcases delivers env hd hgroup with ⟨task, hmem, read, hread, rfl, hb⟩ | ⟨id, hr⟩
  · obtain ⟨id, hgood⟩ := hv.read task hmem read hread hstarted group hb
    exact hgood t ht hdeleted
  · exact hv.reached id group hr t ht hdeleted

theorem step_deletes {s : System} (hs : s.Clean env) (hc : s.crashed = false) {d : Action}
    {id : String} (h : d.deletes id = true) : ((s.step env d).2.view env).look id = none := by
  rw [step, hc, if_neg Bool.false_ne_true]
  cases d with
  | deleteInstance id' =>
    have hid : id = id' := by simpa [Action.deletes] using h
    have hlook := (BufferShard.deleteEntry_look hs.shard id').1
    rw [act, startDelete]
    rcases hd : s.shard.deleteEntry id' with ⟨file, shard⟩
    rw [hd] at hlook
    have hgone : shard.look id = none := (congrFun hlook id).trans (if_pos hid)
    cases file <;> exact hgone
  | reset =>
    rw [act, startReset]
    split <;> rfl
  | _ => cases h

/-- For every interleaving before a deletion and after it: if no spill that had copied its
groups before the deletion commits into an entry of a deleted instance, reads that start
after it deliver of the deleted instances only what has been appended since. -/
theorem deleted_stays_deleted (env : Env) (config : TransferQueueConfig)
    (bitCount numHashes : ℕ) (pre : List Action) (d : Action) (post : List Action) :
    let s := (create config bitCount numHashes).run env (pre ++ [d])
    Machine.Along (step env) (CommitsRenewed s.log.length d.deletes) s post →
      Machine.Along (step env) (DeliversRenewed s.log.length d.deletes) s post := by
  intro s hcommits
  have hpre := fun actions => along_keeps_from (G := Mark.keyed.guard) (Q := fun _ _ => True)
    (fun _ _ => Mark.Holds.change) (fun s a _ _ _ => permits_commit fun _ _ _ _ _ h => h)
    (Clean.create config bitCount numHashes) (Mark.Holds.create config bitCount numHashes env)
    (Machine.along_of_mem (Q := fun _ => True) (fun a (_ : a ∈ actions) => trivial) _)
  obtain ⟨-, hclean₀, -⟩ := hpre pre
  obtain ⟨-, hclean, hkeyed⟩ := hpre (pre ++ [d])
  have hstep : s = (((create config bitCount numHashes).run env pre).step env d).2 := by
    simp [s, run, Machine.final, List.foldl_append]
  cases hc : ((create config bitCount numHashes).run env pre).crashed with
  | true =>
    have hcrashed : s.crashed = true := by rw [hstep, step, hc, if_pos rfl, hc]
    refine (Machine.along_of_inv (fun s' : System => s'.crashed = true)
      (fun s' a hs' _ => ⟨fun d hd => ?_, ?_⟩) post hcrashed hcommits).1
    · rw [delivering_crashed hs'] at hd
      cases hd
    · rw [step, hs', if_pos rfl, hs']
  | false =>
    have hgone : ∀ id, d.deletes id = true → (s.view env).look id = none := fun id h => by
      rw [hstep]
      exact step_deletes hclean₀ hc h
    have hkept := along_keeps_from (G := (Mark.renewed s.log.length d.deletes).guard)
      (fun _ _ => Mark.Holds.change)
      (fun s' a _ _ (hq : s'.CommitsRenewed s.log.length d.deletes a) =>
        permits_commit fun commit hcommit w hw hin hstale =>
          hq commit hcommit hstale.1 w hw hstale.2 hin) hclean (hkeyed.renew hgone) hcommits
    exact hkept.1.mono fun s' a h => deliversRenewed_of_holds h.2.1 a

/-- The spill in flight ends before the instance is written again. -/
theorem deleted_stays_deleted_apart :
    let s := (create (.tight 2) 0 0).run (.sample [])
      ([.write (.bare "u" "a"), .write (.bare "v" "a")] ++ [.deleteInstance "a"])
    Machine.Along (step (.sample [])) (DeliversRenewed s.log.length fun id => decide (id = "a")) s
      [.resume 0, .resume 0, .write (.bare "w" "a"), .write (.bare "x" "a"),
        .readReadyGroups 0] :=
  deleted_stays_deleted (.sample []) (.tight 2) 0 0 _ (.deleteInstance "a") _ (by decide +kernel)

/-- The instance is written again first; the read after the commit delivers the group from
before the deletion. -/
theorem deleted_comes_back :
    let s := (create (.tight 2) 0 0).run (.sample [])
      [.write (.bare "u" "a"), .write (.bare "v" "a"), .deleteInstance "a"]
    let post : List Action := [.write (.bare "w" "a"), .resume 0, .resume 0, .readReadyGroups 0,
      .resume 0, .resume 0, .resume 0, .resume 0]
    (s.run (.sample []) post).log.head? =
        some (.delivered [⟨"a", [.bare "u" "a", .bare "v" "a"], 2, true⟩]) ∧
      ¬Machine.Along (step (.sample []))
        (DeliversRenewed s.log.length (Action.deleteInstance "a").deletes) s post := by
  decide +kernel

end System

end TransferQueue
