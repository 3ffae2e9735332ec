import TransferQueue.StorageCalls

/-! The storage directory is a map from the ids it returns to the groups spilled under
them, whatever calls overlap: ids are never drawn twice, no file is written by two
spills, and the file of an id keeps its group until it is removed. -/

namespace TransferQueue.StorageCalls

open SpillFile

variable {codec : Codec TrajectoryGroup} {s s' : Storage} {name : Option ℕ}

section Files

/-- The name leads to the file, or was removed since the file was created. -/
def Linked (s : Storage) (id file : ℕ) : Prop :=
  s.files.directory id = some file ∨ id ∈ s.gone ∧ s.files.directory id = none

/-- The file was created under this name. -/
def MadeFor (s : Storage) (id file : ℕ) : Prop :=
  file < s.files.inodes ∧ s.files.origin file = some id

/-- The file was created under this name and holds the frame of the group. -/
structure Holds (codec : Codec TrajectoryGroup) (s : Storage) (id file : ℕ)
    (group : TrajectoryGroup) : Prop where
  made : MadeFor s id file
  content : ∃ data, codec.serialize group = some data ∧ data.length ≤ 100 * 1024 * 1024 ∧
    s.files.contents file = frame data

def Filed (codec : Codec TrajectoryGroup) (s : Storage) (id : ℕ) (group : TrajectoryGroup) :
    Prop :=
  ∃ file, Linked s id file ∧ Holds codec s id file group

/-- What a step leaves alone: histories grow, and only files and entries of `name`
change. -/
structure Frame (name : Option ℕ) (s s' : Storage) : Prop where
  issued : ∀ id ∈ s.issued, id ∈ s'.issued
  stored : ∀ p ∈ s.stored, p ∈ s'.stored
  fresh : ∀ p ∈ s'.stored, p ∈ s.stored ∨ name = some p.1
  files : ∀ id file, name ≠ some id → MadeFor s id file →
    MadeFor s' id file ∧ s'.files.contents file = s.files.contents file
  linked : ∀ id file, name ≠ some id → Linked s id file → Linked s' id file

theorem Frame.same (hissued : ∀ id ∈ s.issued, id ∈ s'.issued) (hstored : s'.stored = s.stored)
    (hfiles : s'.files = s.files) (hgone : s'.gone = s.gone) : Frame name s s' where
  issued := hissued
  stored _ h := hstored ▸ h
  fresh _ h := .inl (hstored ▸ h)
  files _ _ _ h := by simpa only [MadeFor, hfiles, and_true] using h
  linked _ _ _ h := by simpa only [Linked, hfiles, hgone] using h

theorem Holds.kept {id file : ℕ} {group : TrajectoryGroup} (h : Holds codec s id file group)
    (hf : Frame name s s') (hne : name ≠ some id) : Holds codec s' id file group := by
  obtain ⟨hmade, hcontents⟩ := hf.files id file hne h.made
  refine ⟨hmade, ?_⟩
  rw [hcontents]
  exact h.content

theorem Filed.kept {id : ℕ} {group : TrajectoryGroup} (h : Filed codec s id group)
    (hf : Frame name s s') (hne : name ≠ some id) : Filed codec s' id group := by
  obtain ⟨file, hlinked, hholds⟩ := h
  exact ⟨file, hf.linked id file hne hlinked, hholds.kept hf hne⟩

theorem openCreate_frame (s : Storage) (id : ℕ) :
    ∃ file files, s.files.openCreate id = (file, files) ∧
      Frame (some id) s { s with files, gone := s.gone.filter (· ≠ id) } ∧
      files.directory id = some file ∧ file < files.inodes ∧ files.origin file = some id ∧
      files.contents file = [] := by
  obtain ⟨file, files, hopen, hdir, hother, hempty, hcontents, horigin, hcases⟩ :=
    s.files.openCreate_cases id
  refine ⟨file, files, hopen, ⟨fun _ h => h, fun _ h => h, fun _ h => .inl h, ?_, ?_⟩, hdir,
    (files.linked hdir).1, horigin, hempty⟩
  · rintro id' file' hne ⟨hlt, hmade⟩
    have hfile : file' ≠ file := by
      rcases hcases with ⟨hold, -, -⟩ | ⟨rfl, -, -⟩
      · rintro rfl
        have := (s.files.linked hold).2
        exact hne (congrArg some (Option.some.inj (this.symm.trans hmade)))
      · exact hlt.ne
    refine ⟨⟨?_, ?_⟩, hcontents file' hfile⟩
    · rcases hcases with ⟨-, -, hinodes⟩ | ⟨-, -, hinodes⟩ <;> simp only [hinodes] <;> omega
    · rcases hcases with ⟨-, horigins, -⟩ | ⟨-, horigins, -⟩
      · simpa only [horigins] using hmade
      · rw [← hmade]
        exact horigins file' hfile
  · rintro id' file' hne hlinked
    have hne' : id' ≠ id := fun h => hne (congrArg some h.symm)
    simp only [Linked, hother id' hne', List.mem_filter, decide_eq_true hne', and_true] at hlinked ⊢
    exact hlinked

theorem write_frame {id file : ℕ} (h : MadeFor s id file) (buffer : List UInt8) :
    Frame (some id) s { s with files := s.files.write file buffer } where
  issued _ h := h
  stored _ h := h
  fresh _ h := .inl h
  files id' file' hne hmade := by
    refine ⟨hmade, FileSystem.contents_write_of_ne buffer ?_⟩
    rintro rfl
    exact hne (h.2.symm.trans hmade.2)
  linked _ _ _ h := h

theorem unlink_frame (s : Storage) (id : ℕ) :
    Frame none s { s with files := s.files.unlink id, gone := s.gone ++ [id] } where
  issued _ h := h
  stored _ h := h
  fresh _ h := .inl h
  files _ _ _ h := ⟨h, rfl⟩
  linked id' file _ h := by
    rcases eq_or_ne id' id with rfl | hne
    · exact .inr ⟨List.mem_append_right _ (List.mem_singleton_self _),
        FileSystem.directory_unlink_self⟩
    · refine h.imp (fun h => ?_) fun h => ⟨List.mem_append_left _ h.1, ?_⟩
      · exact (FileSystem.directory_unlink_of_ne hne).trans h
      · exact (FileSystem.directory_unlink_of_ne hne).trans h.2

end Files

section Tasks

def SpillPhase.current : SpillPhase → List (TrajectoryGroup × ℕ)
  | .next => []
  | .opening id group _ => [(group, id)]
  | .writing id group _ _ => [(group, id)]
  | .closing id group => [(group, id)]

def SpillTask.owned (t : SpillTask) : List ℕ := (t.passed ++ t.phase.current).map Prod.snd

theorem SpillTask.owned_next (passed : List (TrajectoryGroup × ℕ)) (left : List TrajectoryGroup) :
    (SpillTask.mk passed .next left).owned = passed.map Prod.snd := by
  rw [owned, SpillPhase.current, List.append_nil]

def LoadPhase.current : LoadPhase → List ℕ
  | .next => []
  | .header offset _ => [offset]
  | .body offset _ _ _ => [offset]
  | .closing offset _ => [offset]

def Task.owned : Task → List ℕ
  | .spilling _ t => t.owned
  | _ => []

/-- What has become of the file by now. -/
def SpillPhase.Sound (codec : Codec TrajectoryGroup) (s : Storage) : SpillPhase → Prop
  | .next => True
  | .opening _ group data => codec.serialize group = some data
  | .writing id group data file => codec.serialize group = some data ∧ Linked s id file ∧
      MadeFor s id file ∧ s.files.contents file = []
  | .closing id group => Filed codec s id group

structure SpillTask.Sound (codec : Codec TrajectoryGroup) (s : Storage)
    (groups : List TrajectoryGroup) (t : SpillTask) : Prop where
  asked : (t.passed ++ t.phase.current).map Prod.fst ++ t.left = groups
  fits : ∀ group ∈ groups, ∀ data, codec.serialize group = some data →
    data.length ≤ 100 * 1024 * 1024
  increasing : t.owned.Pairwise (· < ·)
  issued : ∀ id ∈ t.owned, id ∈ s.issued
  stored : ∀ p ∈ t.passed, (p.2, p.1) ∈ s.stored
  unstored : ∀ p ∈ t.phase.current, ∀ group, (p.2, group) ∉ s.stored
  phase : t.phase.Sound codec s

/-- What a load has found out about a file whose group was known when it started. -/
def LoadPhase.Sound (codec : Codec TrajectoryGroup) (s : Storage)
    (known : List (ℕ × TrajectoryGroup)) : LoadPhase → Prop
  | .next => True
  | .header offset file => ∀ group, (offset, group) ∈ known → Holds codec s offset file group
  | .body offset file len ahead => ∀ group, (offset, group) ∈ known →
      Holds codec s offset file group ∧ ∀ data, codec.serialize group = some data →
        len = UInt32.ofNat data.length ∧ ahead <+: (frame data).drop 4
  | .closing offset result => ∀ group, (offset, group) ∈ known → result = group

structure LoadTask.Sound (codec : Codec TrajectoryGroup) (s : Storage)
    (known : List (ℕ × TrajectoryGroup)) (offsets : List ℕ) (t : LoadTask) : Prop where
  asked : t.passed.map Prod.fst ++ t.phase.current ++ t.left = offsets
  resolved : ∀ p ∈ known, p ∈ s.stored
  right : ∀ p ∈ t.passed, ∀ group, (p.1, group) ∈ known → p.2 = group
  phase : t.phase.Sound codec s known

def Task.Sound (codec : Codec TrajectoryGroup) (s : Storage) : Task → Prop
  | .spilling groups t => t.Sound codec s groups
  | .loading known offsets t => t.Sound codec s known offsets
  | .removing _ => True

theorem Task.Sound.kept {task : Task} (h : task.Sound codec s) (hf : Frame name s s')
    (howned : ∀ id ∈ task.owned, name ≠ some id) (hstored : ∀ p ∈ s.stored, name ≠ some p.1) :
    task.Sound codec s' := by
  cases task with
  | removing offset => trivial
  | spilling groups t =>
    have hne : ∀ p ∈ t.phase.current, name ≠ some p.2 := fun p hp =>
      howned p.2 (List.mem_map_of_mem (List.mem_append_right _ hp))
    refine ⟨h.asked, h.fits, h.increasing, fun id hid => hf.issued id (h.issued id hid),
      fun p hp => hf.stored _ (h.stored p hp), fun p hp group hmem => ?_, ?_⟩
    · exact (hf.fresh _ hmem).elim (h.unstored p hp group) (hne p hp)
    · have hphase := h.phase
      revert hne hphase
      rcases t.phase with _ | ⟨id, group, data⟩ | ⟨id, group, data, file⟩ | ⟨id, group⟩ <;>
        intro hne hphase
      · trivial
      · exact hphase
      · obtain ⟨hs, hlinked, hmade, hempty⟩ := hphase
        have hid := hne (group, id) (List.mem_singleton_self _)
        obtain ⟨hmade', hcontents⟩ := hf.files id file hid hmade
        exact ⟨hs, hf.linked id file hid hlinked, hmade', hcontents.trans hempty⟩
      · exact Filed.kept hphase hf (hne (group, id) (List.mem_singleton_self _))
  | loading known offsets t =>
    refine ⟨h.asked, fun p hp => hf.stored p (h.resolved p hp), h.right, ?_⟩
    have hne : ∀ offset group, (offset, group) ∈ known → name ≠ some offset :=
      fun offset group hp => hstored _ (h.resolved _ hp)
    have hphase := h.phase
    revert hphase
    rcases t.phase with _ | ⟨offset, file⟩ | ⟨offset, file, len, ahead⟩ | ⟨offset, result⟩ <;>
      intro hphase
    · trivial
    · exact fun group hg => (hphase group hg).kept hf (hne offset group hg)
    · exact fun group hg => ⟨(hphase group hg).1.kept hf (hne offset group hg), (hphase group hg).2⟩
    · exact hphase

end Tasks

section Books

/-- What holds of the storage between any two steps. -/
structure Books (codec : Codec TrajectoryGroup) (s : Storage) : Prop where
  initialized : s.initialized = true
  increasing : s.issued.Pairwise (· < ·)
  drawn : ∀ id ∈ s.issued, id < s.clock + s.counter
  storedIssued : ∀ p ∈ s.stored, p.1 ∈ s.issued
  storedNodup : (s.stored.map Prod.fst).Nodup
  filed : ∀ p ∈ s.stored, Filed codec s p.1 p.2
  returnedStored : ∀ id ∈ s.returned, ∃ group, (id, group) ∈ s.stored
  returnedNodup : s.returned.Nodup

theorem Books.files (h : Books codec s) {files : FileSystem ℕ UInt8} {gone : List ℕ}
    (hf : Frame name s { s with files, gone }) (hne : ∀ p ∈ s.stored, name ≠ some p.1) :
    Books codec { s with files, gone } :=
  ⟨h.initialized, h.increasing, h.drawn, h.storedIssued, h.storedNodup,
    fun p hp => (h.filed p hp).kept hf (hne p hp), h.returnedStored, h.returnedNodup⟩

/-- What the step of a task does: the storage stays in order, other ids are left alone,
and a task that goes on knows what it has to. -/
structure Advances (codec : Codec TrajectoryGroup) (task : Task) (s : Storage)
    (r : Ended ⊕ Task) (s' : Storage) : Prop where
  books : Books codec s'
  frame : ∃ name, Frame name s s' ∧
    ∀ id, name = some id → id ∈ task.owned ∧ ∀ group, (id, group) ∉ s.stored
  next : ∀ task', r = .inr task' → task'.Sound codec s' ∧ s'.returned = s.returned ∧
    ∀ id ∈ task'.owned, id ∈ task.owned ∨ id ∉ s.issued
  returned : ∀ id ∈ s'.returned, id ∈ s.returned ∨ id ∈ task.owned

theorem Books.ended (h : Books codec s) (task : Task) (ended : Ended) :
    Advances codec task s (.inl ended) s where
  books := h
  frame := ⟨none, .same (fun _ h => h) rfl rfl rfl, by simp⟩
  next := by simp
  returned _ h := .inl h

/-- No wrap, and no write is short. -/
structure Fair (s : Storage) (o : DeviceOutcome) : Prop where
  noWrap : s.clock + s.counter < 2 ^ 64
  full : ∀ written, o ≠ .short written

section SpillSteps
variable {groups left : List TrajectoryGroup} {passed : List (TrajectoryGroup × ℕ)}
variable {id file : ℕ} {group : TrajectoryGroup} {data : List UInt8}

theorem finish_advances (h : Books codec s)
    (ht : SpillTask.Sound codec s groups ⟨passed, .next, []⟩)
    (hunreturned : ∀ id ∈ passed.map Prod.snd, id ∉ s.returned) :
    Advances codec (.spilling groups ⟨passed, .next, []⟩) s (.inl (.spilled passed))
      { s with returned := s.returned ++ passed.map Prod.snd } where
  books := by
    have hframe : Frame none s { s with returned := s.returned ++ passed.map Prod.snd } :=
      .same (fun _ h => h) rfl rfl rfl
    refine ⟨h.initialized, h.increasing, h.drawn, h.storedIssued, h.storedNodup,
      fun p hp => (h.filed p hp).kept hframe (by simp), ?_, ?_⟩
    · intro id hid
      rcases List.mem_append.mp hid with hold | hnew
      · exact h.returnedStored id hold
      · obtain ⟨p, hp, rfl⟩ := List.mem_map.mp hnew
        exact ⟨p.1, ht.stored p hp⟩
    · have hids : (passed.map Prod.snd).Nodup := by
        have hincreasing := ht.increasing
        rw [SpillTask.owned_next] at hincreasing
        exact hincreasing.nodup
      exact h.returnedNodup.append hids fun id hold hnew => hunreturned id hnew hold
  frame := ⟨none, .same (fun _ h => h) rfl rfl rfl, by simp⟩
  next := by simp
  returned id hid := by
    rcases List.mem_append.mp hid with hold | hnew
    · exact .inl hold
    · refine .inr ?_
      rw [Task.owned, SpillTask.owned_next]
      exact hnew

theorem Books.draw (h : Books codec s) :
    Books codec { s with
      counter := s.counter + 1
      issued := s.issued ++ [s.clock + s.counter] } := by
  have hframe : Frame none s { s with
      counter := s.counter + 1
      issued := s.issued ++ [s.clock + s.counter] } :=
    .same (fun _ hid => List.mem_append_left _ hid) rfl rfl rfl
  refine ⟨h.initialized, ?_, ?_, fun p hp => List.mem_append_left _ (h.storedIssued p hp),
    h.storedNodup, fun p hp => (h.filed p hp).kept hframe (by simp), h.returnedStored,
    h.returnedNodup⟩
  · refine List.pairwise_append.mpr ⟨h.increasing, List.pairwise_singleton .., ?_⟩
    intro id hid new hnew
    rw [List.mem_singleton.mp hnew]
    exact h.drawn id hid
  · intro id hid
    rcases List.mem_append.mp hid with hmem | hnew
    · exact (h.drawn id hmem).trans (by simp only; omega)
    · rw [List.mem_singleton.mp hnew]
      simp only
      omega

theorem draw_advances (h : Books codec s)
    (ht : SpillTask.Sound codec s groups ⟨passed, .next, group :: left⟩)
    (hs : codec.serialize group = some data) (hwrap : s.clock + s.counter < 2 ^ 64) :
    Advances codec (.spilling groups ⟨passed, .next, group :: left⟩) s
      (.inr (.spilling groups
        ⟨passed, .opening ((s.clock + s.counter) % 2 ^ 64) group data, left⟩))
      { s with
        counter := s.counter + 1
        issued := s.issued ++ [(s.clock + s.counter) % 2 ^ 64] } := by
  rw [Nat.mod_eq_of_lt hwrap]
  have hfresh : s.clock + s.counter ∉ s.issued := fun hmem => lt_irrefl _ (h.drawn _ hmem)
  have howned : (SpillTask.mk passed (.opening (s.clock + s.counter) group data) left).owned =
      passed.map Prod.snd ++ [s.clock + s.counter] := by
    rw [SpillTask.owned, SpillPhase.current, List.map_append]
    rfl
  have hold : ∀ id ∈ passed.map Prod.snd, id ∈ s.issued := fun id hid =>
    ht.issued id (by rwa [SpillTask.owned_next])
  refine ⟨h.draw, ⟨none, .same (fun _ hid => List.mem_append_left _ hid) rfl rfl rfl,
    by simp⟩, ?_, fun _ hid => .inl hid⟩
  rintro task' hr
  cases hr
  refine ⟨⟨?_, ht.fits, ?_, ?_, ht.stored, ?_, hs⟩, rfl, ?_⟩
  · rw [← ht.asked]
    simp [SpillPhase.current]
  · rw [howned]
    refine List.pairwise_append.mpr ⟨?_, List.pairwise_singleton .., ?_⟩
    · have hincreasing := ht.increasing
      rwa [SpillTask.owned_next] at hincreasing
    · intro id hid new hnew
      rw [List.mem_singleton.mp hnew]
      exact h.drawn id (hold id hid)
  · rw [howned]
    exact fun id hid => (List.mem_append.mp hid).elim
      (fun hmem => List.mem_append_left _ (hold id hmem)) (List.mem_append_right _)
  · intro p hp group' hmem
    rw [SpillPhase.current, List.mem_singleton] at hp
    subst hp
    exact hfresh (h.storedIssued _ hmem)
  · rw [Task.owned, Task.owned, howned, SpillTask.owned_next]
    intro id hid
    rcases List.mem_append.mp hid with hmem | hnew
    · exact .inl hmem
    · rw [List.mem_singleton.mp hnew]
      exact .inr hfresh

theorem current_owned {phase : SpillPhase} (h : phase.current = [(group, id)]) :
    id ∈ (SpillTask.mk passed phase left).owned := by
  rw [SpillTask.owned, h]
  exact List.mem_map_of_mem (List.mem_append_right _ (List.mem_singleton_self (group, id)))

theorem open_advances (h : Books codec s)
    (ht : SpillTask.Sound codec s groups ⟨passed, .opening id group data, left⟩) :
    Advances codec (.spilling groups ⟨passed, .opening id group data, left⟩) s
      (.inr (.spilling groups ⟨passed, .writing id group data (s.files.openCreate id).1, left⟩))
      { s with files := (s.files.openCreate id).2, gone := s.gone.filter (· ≠ id) } := by
  have hunstored := ht.unstored (group, id) (List.mem_singleton_self _)
  obtain ⟨file, files, hopen, hframe, hdir, hlt, horigin, hempty⟩ := openCreate_frame s id
  rw [hopen]
  refine ⟨h.files hframe fun p hp hid => ?_, ⟨some id, hframe, fun id' hid => ?_⟩, ?_,
    fun _ hid => .inl hid⟩
  · cases hid
    exact hunstored p.2 hp
  · cases hid
    exact ⟨current_owned rfl, hunstored⟩
  · rintro task' hr
    cases hr
    exact ⟨⟨ht.asked, ht.fits, ht.increasing, ht.issued, ht.stored, ht.unstored, ht.phase,
      .inl hdir, ⟨hlt, horigin⟩, hempty⟩, rfl, fun _ hid => .inl hid⟩

theorem write_books (h : Books codec s)
    (ht : SpillTask.Sound codec s groups ⟨passed, .writing id group data file, left⟩)
    (buffer : List UInt8) : Books codec { s with files := s.files.write file buffer } := by
  refine h.files (write_frame ht.phase.2.2.1 buffer) fun p hp hid => ?_
  cases hid
  exact ht.unstored (group, p.1) (List.mem_singleton_self _) p.2 hp

theorem write_advances (h : Books codec s)
    (ht : SpillTask.Sound codec s groups ⟨passed, .writing id group data file, left⟩) :
    Advances codec (.spilling groups ⟨passed, .writing id group data file, left⟩) s
      (.inr (.spilling groups ⟨passed, .closing id group, left⟩))
      { s with files := s.files.write file (frame data) } := by
  have hunstored := ht.unstored (group, id) (List.mem_singleton_self _)
  obtain ⟨hs, hlinked, hmade, hempty⟩ := ht.phase
  have hgroup : group ∈ groups := by
    rw [← ht.asked, SpillPhase.current, List.map_append]
    exact List.mem_append_left _ (List.mem_append_right _ (List.mem_singleton_self _))
  refine ⟨write_books h ht _, ⟨some id, write_frame hmade _, fun id' hid => ?_⟩, ?_,
    fun _ hid => .inl hid⟩
  · cases hid
    exact ⟨current_owned rfl, hunstored⟩
  · rintro task' hr
    cases hr
    exact ⟨⟨ht.asked, ht.fits, ht.increasing, ht.issued, ht.stored, ht.unstored,
      file, hlinked, hmade, data, hs, ht.fits group hgroup data hs,
      FileSystem.contents_write_empty _ hempty⟩, rfl, fun _ hid => .inl hid⟩

theorem write_fails (h : Books codec s)
    (ht : SpillTask.Sound codec s groups ⟨passed, .writing id group data file, left⟩)
    (buffer : List UInt8) (ended : Ended) :
    Advances codec (.spilling groups ⟨passed, .writing id group data file, left⟩) s (.inl ended)
      { s with files := s.files.write file buffer } := by
  refine ⟨write_books h ht buffer, ⟨some id, write_frame ht.phase.2.2.1 buffer, fun id' hid => ?_⟩,
    by simp, fun _ hid => .inl hid⟩
  cases hid
  exact ⟨current_owned rfl, ht.unstored (group, id) (List.mem_singleton_self _)⟩

theorem store_frame (s : Storage) (id : ℕ) (group : TrajectoryGroup) :
    Frame (some id) s { s with stored := s.stored ++ [(id, group)] } :=
  ⟨fun _ h => h, fun _ hp => List.mem_append_left _ hp, fun p hp =>
    (List.mem_append.mp hp).imp_right fun h => by rw [List.mem_singleton.mp h],
    fun _ _ _ h => ⟨h, rfl⟩, fun _ _ _ h => h⟩

theorem Books.store (h : Books codec s) (hunstored : ∀ group', (id, group') ∉ s.stored)
    (hissued : id ∈ s.issued) (hfiled : Filed codec s id group) :
    Books codec { s with stored := s.stored ++ [(id, group)] } := by
  refine ⟨h.initialized, h.increasing, h.drawn, ?_, ?_, ?_, ?_, h.returnedNodup⟩
  · intro p hp
    rcases List.mem_append.mp hp with hold | hnew
    · exact h.storedIssued p hold
    · rw [List.mem_singleton.mp hnew]
      exact hissued
  · simp only [List.map_append, List.map_cons, List.map_nil]
    refine h.storedNodup.append (List.nodup_singleton _) ?_
    intro id' hold hnew
    obtain ⟨p, hp, rfl⟩ := List.mem_map.mp hold
    rw [List.mem_singleton] at hnew
    exact hunstored p.2 (hnew ▸ hp)
  · intro p hp
    rcases List.mem_append.mp hp with hold | hnew
    · refine (h.filed p hold).kept (store_frame s id group) fun hid => ?_
      cases hid
      exact hunstored p.2 hold
    · rw [List.mem_singleton.mp hnew]
      obtain ⟨file, hlinked, hmade, hcontent⟩ := hfiled
      exact ⟨file, hlinked, hmade, hcontent⟩
  · intro id' hid
    obtain ⟨group', hp⟩ := h.returnedStored id' hid
    exact ⟨group', List.mem_append_left _ hp⟩

theorem close_advances (h : Books codec s)
    (ht : SpillTask.Sound codec s groups ⟨passed, .closing id group, left⟩) :
    Advances codec (.spilling groups ⟨passed, .closing id group, left⟩) s
      (.inr (.spilling groups ⟨passed ++ [(group, id)], .next, left⟩))
      { s with stored := s.stored ++ [(id, group)] } := by
  have hunstored := ht.unstored (group, id) (List.mem_singleton_self _)
  have hissued := ht.issued id (current_owned rfl)
  have howned : (SpillTask.mk (passed ++ [(group, id)]) .next left).owned =
      (SpillTask.mk passed (.closing id group) left).owned := SpillTask.owned_next _ _
  refine ⟨h.store hunstored hissued ht.phase, ⟨some id, store_frame s id group, fun id' hid => ?_⟩,
    ?_, fun _ hid => .inl hid⟩
  · cases hid
    exact ⟨current_owned rfl, hunstored⟩
  · rintro task' hr
    cases hr
    refine ⟨⟨?_, ht.fits, howned ▸ ht.increasing, howned ▸ ht.issued, ?_,
      fun _ hp => absurd hp List.not_mem_nil, trivial⟩, rfl, ?_⟩
    · rw [SpillPhase.current, List.append_nil]
      exact ht.asked
    · intro p hp
      rcases List.mem_append.mp hp with hold | hnew
      · exact List.mem_append_left _ (ht.stored p hold)
      · rw [List.mem_singleton.mp hnew]
        exact List.mem_append_right _ (List.mem_singleton_self _)
    · rw [Task.owned, howned]
      exact fun _ hid => .inl hid

end SpillSteps

/-- The step of a spill, one case for each suspension point. -/
theorem spillStep_advances (h : Books codec s) {groups : List TrajectoryGroup} {t : SpillTask}
    (ht : t.Sound codec s groups) (hunreturned : ∀ id ∈ t.owned, id ∉ s.returned)
    {o : DeviceOutcome} (hfair : Fair s o) :
    Advances codec (.spilling groups t) s
      ((spillStep codec o t s).1.map id (.spilling groups)) (spillStep codec o t s).2 := by
  obtain ⟨passed, phase, left⟩ := t
  cases phase with
  | next =>
    cases left with
    | nil =>
      refine finish_advances h ht fun id hid => hunreturned id ?_
      rw [SpillTask.owned_next]
      exact hid
    | cons group left =>
      cases hs : codec.serialize group with
      | none =>
        simp only [spillStep, h.initialized, hs]
        exact h.ended _ _
      | some data =>
        have hstep : spillStep codec o ⟨passed, .next, group :: left⟩ s =
            (.inr ⟨passed, .opening ((s.clock + s.counter) % 2 ^ 64) group data, left⟩, { s with
              counter := s.counter + 1
              issued := s.issued ++ [(s.clock + s.counter) % 2 ^ 64] }) := by
          simp [spillStep, h.initialized, hs]
        rw [hstep]
        exact draw_advances h ht hs hfair.noWrap
  | opening id group data =>
    cases he : o.error? with
    | some e =>
      simp only [spillStep, he]
      exact h.ended _ _
    | none =>
      simp only [spillStep, he]
      exact open_advances h ht
  | writing id group data file =>
    cases o with
    | fails kept => exact write_fails h ht _ _
    | noMemory => exact h.ended _ _
    | short written => exact absurd rfl (hfair.full written)
    | done ahead => exact write_advances h ht
  | closing id group =>
    cases he : o.error? with
    | some e =>
      simp only [spillStep, he]
      exact h.ended _ _
    | none =>
      simp only [spillStep, he]
      exact close_advances h ht

end Books

section Loads

/-- What a load may end with: the groups known under its offsets, or a failure of the
device, or one over an offset that was unknown or is gone. -/
def LoadEnds (known : List (ℕ × TrajectoryGroup)) (offsets gone : List ℕ) (o : DeviceOutcome) :
    Ended → Prop
  | .loaded passed => passed.map Prod.fst = offsets ∧
      ∀ p ∈ passed, ∀ group, (p.1, group) ∈ known → p.2 = group
  | .failed reason => o.error? = some reason ∨
      ∃ id ∈ offsets, (∀ group, (id, group) ∉ known) ∨ id ∈ gone
  | _ => False

def LoadAdvances (codec : Codec TrajectoryGroup) (known : List (ℕ × TrajectoryGroup))
    (offsets : List ℕ) (o : DeviceOutcome) (s : Storage) : Ended ⊕ LoadTask → Prop
  | .inl ended => LoadEnds known offsets s.gone o ended
  | .inr t => t.Sound codec s known offsets

variable {known : List (ℕ × TrajectoryGroup)} {offsets left : List ℕ}
variable {passed : List (ℕ × TrajectoryGroup)} {offset file : ℕ} {o : DeviceOutcome}

theorem header_read {group : TrajectoryGroup} (h : Holds codec s offset file group) (ahead : ℕ) :
    ∃ data, codec.serialize group = some data ∧
      readHeader (((s.files.contents file).take (4 + ahead)).take 4) =
        .ok (UInt32.ofNat data.length) ∧
      ((s.files.contents file).take (4 + ahead)).drop 4 <+: (frame data).drop 4 := by
  obtain ⟨data, hs, hle, hcontents⟩ := h.content
  have hlen : data.length < 2 ^ 31 := by omega
  refine ⟨data, hs, ?_, ?_⟩
  · rw [hcontents, header_of_frame hlen (Nat.le_add_right ..), readHeader_length hlen,
      if_neg (by omega)]
  · rw [hcontents, List.drop_take]
    exact List.take_prefix _ _

theorem body_read (inverts : codec.Inverts) {group : TrajectoryGroup} {data : List UInt8}
    (h : Holds codec s offset file group) (hs : codec.serialize group = some data)
    {ahead : List UInt8} (hahead : ahead <+: (frame data).drop 4) :
    readBody codec (UInt32.ofNat data.length) ((ahead ++ (s.files.contents file).drop
      (4 + ahead.length)).take (UInt32.ofNat data.length).toNat) = .ok group := by
  obtain ⟨data', hs', hle, hcontents⟩ := h.content
  cases hs.symm.trans hs'
  have hlen : data.length < 2 ^ 31 := by omega
  rw [hcontents, ← List.drop_drop, List.prefix_iff_eq_append.mp hahead, dataLen_toNat hlen,
    body_of_frame hlen le_rfl, List.take_length]
  exact readBody_data hlen (inverts group data hs)

theorem current_asked {phase : LoadPhase}
    (ht : LoadTask.Sound codec s known offsets ⟨passed, phase, left⟩)
    (hphase : phase.current = [offset]) : offset ∈ offsets := by
  rw [← ht.asked, hphase]
  exact List.mem_append_left _ (List.mem_append_right _ (List.mem_singleton_self _))

theorem open_load (h : Books codec s)
    (ht : LoadTask.Sound codec s known offsets ⟨passed, .next, offset :: left⟩) :
    LoadAdvances codec known offsets o s (loadStep codec o ⟨passed, .next, offset :: left⟩ s) := by
  have hmem : offset ∈ offsets := by
    rw [← ht.asked]
    exact List.mem_append_right _ List.mem_cons_self
  cases he : o.error? with
  | some e =>
    simp only [loadStep, h.initialized, he]
    exact .inl he
  | none =>
    cases hd : s.files.directory offset with
    | none =>
      simp only [loadStep, h.initialized, he, hd]
      refine .inr ⟨offset, hmem, ?_⟩
      by_cases hknown : ∃ group, (offset, group) ∈ known
      · obtain ⟨group, hknown⟩ := hknown
        obtain ⟨file, hlinked, -⟩ := h.filed _ (ht.resolved _ hknown)
        rcases hlinked with hlinked | ⟨hgone, -⟩
        · rw [hd] at hlinked
          cases hlinked
        · exact .inr hgone
      · exact .inl fun group hg => hknown ⟨group, hg⟩
    | some file =>
      simp only [loadStep, h.initialized, he, hd]
      refine ⟨?_, ht.resolved, ht.right, fun group hg => ?_⟩
      · rw [← ht.asked, List.append_assoc, List.append_assoc]
        rfl
      · obtain ⟨file', hlinked, hholds⟩ := h.filed _ (ht.resolved _ hg)
        rcases hlinked with hlinked | ⟨-, hnone⟩
        · cases hd.symm.trans hlinked
          exact hholds
        · rw [hd] at hnone
          cases hnone

theorem header_load
    (ht : LoadTask.Sound codec s known offsets ⟨passed, .header offset file, left⟩) :
    LoadAdvances codec known offsets o s
      (loadStep codec o ⟨passed, .header offset file, left⟩ s) := by
  have hread : ∀ ahead, LoadAdvances codec known offsets o s
      (loadStep codec (.done ahead) ⟨passed, .header offset file, left⟩ s) := by
    intro ahead
    simp only [loadStep]
    cases hheader : readHeader (((s.files.contents file).take (4 + ahead)).take 4) with
    | error e =>
      refine .inr ⟨offset, current_asked ht rfl, .inl fun group hg => ?_⟩
      obtain ⟨data, -, hok, -⟩ := header_read (ht.phase group hg) ahead
      cases hheader.symm.trans hok
    | ok len =>
      refine ⟨ht.asked, ht.resolved, ht.right, fun group hg => ⟨ht.phase group hg, ?_⟩⟩
      intro data hs
      obtain ⟨data', hs', hok, hprefix⟩ := header_read (ht.phase group hg) ahead
      cases hs.symm.trans hs'
      cases hheader.symm.trans hok
      exact ⟨rfl, hprefix⟩
  cases o with
  | fails kept => exact .inl rfl
  | noMemory => exact .inl rfl
  | short ahead => exact hread ahead
  | done ahead => exact hread ahead

theorem body_load (inverts : codec.Inverts) {len : UInt32} {ahead : List UInt8}
    (ht : LoadTask.Sound codec s known offsets ⟨passed, .body offset file len ahead, left⟩) :
    LoadAdvances codec known offsets o s
      (loadStep codec o ⟨passed, .body offset file len ahead, left⟩ s) := by
  have hread : ∀ group, (offset, group) ∈ known → readBody codec len ((ahead ++
      (s.files.contents file).drop (4 + ahead.length)).take len.toNat) = .ok group := by
    intro group hg
    obtain ⟨hholds, hbytes⟩ := ht.phase group hg
    obtain ⟨data, hs, -⟩ := hholds.content
    obtain ⟨rfl, hprefix⟩ := hbytes data hs
    exact body_read inverts hholds hs hprefix
  cases he : o.error? with
  | some e =>
    simp only [loadStep, he]
    exact .inl he
  | none =>
    cases hbody : readBody codec len ((ahead ++
        (s.files.contents file).drop (4 + ahead.length)).take len.toNat) with
    | error e =>
      simp only [loadStep, he, hbody]
      refine .inr ⟨offset, current_asked ht rfl, .inl fun group hg => ?_⟩
      cases hbody.symm.trans (hread group hg)
    | ok result =>
      simp only [loadStep, he, hbody]
      refine ⟨ht.asked, ht.resolved, ht.right, fun group hg => ?_⟩
      cases hbody.symm.trans (hread group hg)
      rfl

theorem close_load {result : TrajectoryGroup}
    (ht : LoadTask.Sound codec s known offsets ⟨passed, .closing offset result, left⟩) :
    LoadAdvances codec known offsets o s
      (loadStep codec o ⟨passed, .closing offset result, left⟩ s) := by
  cases he : o.error? with
  | some e =>
    simp only [loadStep, he]
    exact .inl he
  | none =>
    simp only [loadStep, he]
    refine ⟨?_, ht.resolved, fun p hp => ?_, trivial⟩
    · rw [← ht.asked, List.map_append, LoadPhase.current, List.append_nil]
      rfl
    · rcases List.mem_append.mp hp with hold | hnew
      · exact ht.right p hold
      · rw [List.mem_singleton.mp hnew]
        exact ht.phase

/-- The step of a load, one case for each suspension point. -/
theorem loadStep_advances (inverts : codec.Inverts) (h : Books codec s) {t : LoadTask}
    (ht : t.Sound codec s known offsets) :
    LoadAdvances codec known offsets o s (loadStep codec o t s) := by
  obtain ⟨passed, phase, left⟩ := t
  cases phase with
  | next =>
    cases left with
    | nil =>
      refine ⟨?_, ht.right⟩
      have hasked := ht.asked
      rwa [LoadPhase.current, List.append_nil, List.append_nil] at hasked
    | cons offset left => exact open_load h ht
  | header offset file => exact header_load ht
  | body offset file len ahead => exact body_load inverts ht
  | closing offset result => exact close_load ht

end Loads

section Ends

/-- What a spill may end with: ids for its groups, increasing and never returned before,
or a failure of the device or of protobuf. -/
def SpillEnds (codec : Codec TrajectoryGroup) (groups : List TrajectoryGroup) (s : Storage)
    (o : DeviceOutcome) : Ended → Prop
  | .spilled passed => passed.map Prod.fst = groups ∧ (passed.map Prod.snd).Pairwise (· < ·) ∧
      ∀ p ∈ passed, (p.2, p.1) ∈ s.stored ∧ p.2 ∉ s.returned
  | .failed reason => o.error? = some reason ∨ ∃ group ∈ groups, codec.serialize group = none
  | _ => False

/-- What a removal may end with: the name is gone, or the device fails, or there was none. -/
def RemoveEnds (offset : ℕ) (s s' : Storage) (o : DeviceOutcome) : Ended → Prop
  | .removed => s'.files.directory offset = none
  | .failed reason => o.error? = some reason ∨ s.files.directory offset = none
  | _ => False

def Task.Ends (codec : Codec TrajectoryGroup) (s s' : Storage) (o : DeviceOutcome) :
    Task → Ended → Prop
  | .spilling groups _ => SpillEnds codec groups s o
  | .loading known offsets _ => LoadEnds known offsets s.gone o
  | .removing offset => RemoveEnds offset s s' o

theorem spillStep_ends (h : Books codec s) {groups : List TrajectoryGroup} {t : SpillTask}
    (ht : t.Sound codec s groups) (hunreturned : ∀ id ∈ t.owned, id ∉ s.returned)
    (o : DeviceOutcome) {ended : Ended} (he : (spillStep codec o t s).1 = .inl ended) :
    SpillEnds codec groups s o ended := by
  obtain ⟨passed, phase, left⟩ := t
  cases phase with
  | next =>
    cases left with
    | nil =>
      cases he
      have hasked := ht.asked
      have hincreasing := ht.increasing
      rw [SpillPhase.current, List.append_nil, List.append_nil] at hasked
      rw [SpillTask.owned_next] at hincreasing
      refine ⟨hasked, hincreasing, fun p hp => ⟨ht.stored p hp, hunreturned p.2 ?_⟩⟩
      exact List.mem_map_of_mem (List.mem_append_left _ hp)
    | cons group left =>
      cases hs : codec.serialize group with
      | none =>
        simp only [spillStep, h.initialized, hs] at he
        cases he
        refine .inr ⟨group, ?_, hs⟩
        rw [← ht.asked]
        exact List.mem_append_right _ List.mem_cons_self
      | some data => simp [spillStep, h.initialized, hs] at he
  | opening id group data =>
    cases herror : o.error? with
    | some e =>
      simp only [spillStep, herror] at he
      cases he
      exact .inl herror
    | none => simp [spillStep, herror] at he
  | writing id group data file =>
    cases o with
    | fails kept =>
      cases he
      exact .inl rfl
    | noMemory =>
      cases he
      exact .inl rfl
    | short written => cases he
    | done ahead => cases he
  | closing id group =>
    cases herror : o.error? with
    | some e =>
      simp only [spillStep, herror] at he
      cases he
      exact .inl herror
    | none => simp [spillStep, herror] at he

theorem removeStep_cases (h : Books codec s) (offset : ℕ) (o : DeviceOutcome) :
    (∃ e, removeStep o offset s = (.failed e, s) ∧
        (o.error? = some e ∨ s.files.directory offset = none)) ∨
      removeStep o offset s = (.removed,
        { s with files := s.files.unlink offset, gone := s.gone ++ [offset] }) := by
  cases he : o.error? with
  | some e => exact .inl ⟨e, by simp [removeStep, h.initialized, he], .inl rfl⟩
  | none =>
    cases hd : s.files.directory offset with
    | none => exact .inl ⟨_, by simp only [removeStep, h.initialized, he, hd]; rfl, .inr rfl⟩
    | some file =>
      refine .inr ?_
      simp [removeStep, h.initialized, he, hd]

theorem taskStep_advances (inverts : codec.Inverts) (h : Books codec s) {task : Task}
    (ht : task.Sound codec s) (hunreturned : ∀ id ∈ task.owned, id ∉ s.returned)
    {o : DeviceOutcome} (hfair : Fair s o) :
    Advances codec task s (taskStep codec o task s).1 (taskStep codec o task s).2 ∧
      ∀ ended, (taskStep codec o task s).1 = .inl ended →
        task.Ends codec s (taskStep codec o task s).2 o ended := by
  cases task with
  | spilling groups t =>
    refine ⟨spillStep_advances h ht hunreturned hfair, fun ended he => ?_⟩
    rw [taskStep] at he
    cases hr : (spillStep codec o t s).1 with
    | inl ended' =>
      rw [hr] at he
      cases he
      exact spillStep_ends h ht hunreturned o hr
    | inr t' =>
      rw [hr] at he
      cases he
  | loading known offsets t =>
    have hload := loadStep_advances (o := o) inverts h ht
    rw [taskStep]
    cases hr : loadStep codec o t s with
    | inl ended' =>
      rw [hr] at hload
      refine ⟨h.ended _ _, fun ended he => ?_⟩
      cases he
      exact hload
    | inr t' =>
      rw [hr] at hload
      refine ⟨⟨h, ⟨none, .same (fun _ h => h) rfl rfl rfl, by simp⟩, ?_,
        fun _ hid => .inl hid⟩, by simp⟩
      rintro task' htask
      cases htask
      exact ⟨hload, rfl, fun _ hid => absurd hid List.not_mem_nil⟩
  | removing offset =>
    rw [taskStep]
    rcases removeStep_cases h offset o with ⟨e, hstep, hwhy⟩ | hstep <;> rw [hstep]
    · refine ⟨h.ended _ _, fun ended he => ?_⟩
      cases he
      exact hwhy
    · refine ⟨⟨h.files (unlink_frame s offset) (by simp), ⟨none, unlink_frame s offset, by simp⟩,
        by simp, fun _ hid => .inl hid⟩, fun ended he => ?_⟩
      cases he
      exact FileSystem.directory_unlink_self

end Ends

section Runs

/-- The storage is in order, and the calls in progress hold their ids for themselves. -/
structure Inv (codec : Codec TrajectoryGroup) (s : Store) : Prop where
  books : Books codec s.storage
  tasks : ∀ c task, s.tasks c = some task → task.Sound codec s.storage
  apart : ∀ c c' task task', c ≠ c' → s.tasks c = some task → s.tasks c' = some task' →
    ∀ id ∈ task.owned, id ∉ task'.owned
  unreturned : ∀ c task, s.tasks c = some task → ∀ id ∈ task.owned, id ∉ s.storage.returned

variable {store : Store}

theorem Task.Sound.owned_issued {task : Task} (h : task.Sound codec s) :
    ∀ id ∈ task.owned, id ∈ s.issued := by
  cases task with
  | spilling groups t => exact h.issued
  | loading known offsets t => exact fun _ hid => absurd hid List.not_mem_nil
  | removing offset => exact fun _ hid => absurd hid List.not_mem_nil

theorem Inv.proceed (h : Inv codec store) {c : ℕ} {task : Task} (hc : store.tasks c = some task)
    {r : Ended ⊕ Task} (hadv : Advances codec task store.storage r s') {next : Option Task}
    (hnext : ∀ task', next = some task' → r = .inr task') :
    Inv codec ⟨s', Function.update store.tasks c next⟩ := by
  obtain ⟨name, hframe, hname⟩ := hadv.frame
  -- the tasks of the new state: the one that moved, and the others
  have hcases : ∀ c' task', Function.update store.tasks c next c' = some task' →
      (c' = c ∧ next = some task') ∨ (c' ≠ c ∧ store.tasks c' = some task') := by
    intro c' task' h'
    rcases eq_or_ne c' c with rfl | hne
    · rw [Function.update_self] at h'
      exact .inl ⟨rfl, h'⟩
    · rw [Function.update_of_ne hne] at h'
      exact .inr ⟨hne, h'⟩
  -- an id of the task that moved is no other task's
  have hmoved : ∀ c' task' task'', c' ≠ c → store.tasks c' = some task' → next = some task'' →
      ∀ id ∈ task''.owned, id ∉ task'.owned := by
    intro c' task' task'' hne h' h'' id hid hother
    obtain ⟨-, -, howned⟩ := hadv.next task'' (hnext task'' h'')
    rcases howned id hid with hold | hfresh
    · exact h.apart c c' task task' hne.symm hc h' id hold hother
    · exact hfresh ((h.tasks c' task' h').owned_issued id hother)
  refine ⟨hadv.books, fun c' task' h' => ?_, fun c₁ c₂ task₁ task₂ hne h₁ h₂ id hid => ?_,
    fun c' task' h' id hid => ?_⟩
  · rcases hcases c' task' h' with ⟨-, hnew⟩ | ⟨hne, hold⟩
    · exact (hadv.next task' (hnext task' hnew)).1
    · refine (h.tasks c' task' hold).kept hframe (fun id hid hid' => ?_) fun p hp hid' => ?_
      · exact h.apart c' c task' task hne hold hc id hid (hname id hid').1
      · exact (hname p.1 hid').2 p.2 hp
  · rcases hcases c₁ task₁ h₁ with ⟨rfl, hnew₁⟩ | ⟨hne₁, hold₁⟩ <;>
      rcases hcases c₂ task₂ h₂ with ⟨rfl, hnew₂⟩ | ⟨hne₂, hold₂⟩
    · exact absurd rfl hne
    · exact hmoved c₂ task₂ task₁ hne₂ hold₂ hnew₁ id hid
    · exact fun hid' => hmoved c₁ task₁ task₂ hne₁ hold₁ hnew₂ id hid' hid
    · exact h.apart c₁ c₂ task₁ task₂ hne hold₁ hold₂ id hid
  · rcases hcases c' task' h' with ⟨rfl, hnew⟩ | ⟨hne, hold⟩
    · obtain ⟨-, hreturned, howned⟩ := hadv.next task' (hnext task' hnew)
      rw [hreturned]
      rcases howned id hid with hmem | hfresh
      · exact h.unreturned c' task hc id hmem
      · intro hid'
        obtain ⟨group, hstored⟩ := h.books.returnedStored id hid'
        exact hfresh (h.books.storedIssued _ hstored)
    · intro hid'
      rcases hadv.returned id hid' with hmem | hmem
      · exact h.unreturned c' task' hold id hid hmem
      · exact h.apart c' c task' task hne hold hc id hid hmem

/-- The groups of a spill are within the limit of a load. -/
def Call.Fits (codec : Codec TrajectoryGroup) : Call → Prop
  | .spill group => ∀ data, codec.serialize group = some data → data.length ≤ 100 * 1024 * 1024
  | .spillBatch groups => ∀ group ∈ groups, ∀ data, codec.serialize group = some data →
      data.length ≤ 100 * 1024 * 1024
  | _ => True

/-- Groups that a load accepts, and a device that writes what it reports as written. -/
def Action.Allowed (codec : Codec TrajectoryGroup) : Action → Prop
  | .start _ call => call.Fits codec
  | .proceed _ (.short _) => False
  | _ => True

/-- Nor does the 64-bit sum wrap. -/
def Assumed (codec : Codec TrajectoryGroup) (s : Store) (a : Action) : Prop :=
  s.storage.clock + s.storage.counter < 2 ^ 64 ∧ a.Allowed codec

theorem Call.task_sound (s : Storage) {call : Call} (hfits : call.Fits codec) :
    (call.task s.stored).Sound codec s ∧ (call.task s.stored).owned = [] := by
  have hspill : ∀ groups, (∀ group ∈ groups, ∀ data, codec.serialize group = some data →
      data.length ≤ 100 * 1024 * 1024) → SpillTask.Sound codec s groups ⟨[], .next, groups⟩ :=
    fun groups hfits => ⟨rfl, hfits, .nil, fun _ hid => absurd hid List.not_mem_nil,
      fun _ hp => absurd hp List.not_mem_nil, fun _ hp => absurd hp List.not_mem_nil, trivial⟩
  have hload : ∀ offsets, LoadTask.Sound codec s s.stored offsets ⟨[], .next, offsets⟩ :=
    fun offsets => ⟨rfl, fun _ hp => hp, fun _ hp => absurd hp List.not_mem_nil, trivial⟩
  cases call with
  | spill group => exact ⟨hspill [group] (by simpa [Fits] using hfits), rfl⟩
  | spillBatch groups => exact ⟨hspill groups hfits, rfl⟩
  | load offset => exact ⟨hload [offset], rfl⟩
  | loadBatch offsets => exact ⟨hload offsets, rfl⟩
  | remove offset => exact ⟨trivial, rfl⟩

theorem Inv.advance (h : Inv codec store) {clock counter : ℕ}
    (hle : store.storage.clock + store.storage.counter ≤ clock + counter) :
    Inv codec { store with storage := { store.storage with clock, counter } } := by
  have hframe : Frame none store.storage { store.storage with clock, counter } :=
    .same (fun _ h => h) rfl rfl rfl
  have hb := h.books
  exact ⟨⟨hb.initialized, hb.increasing, fun id hid => (hb.drawn id hid).trans_le hle,
    hb.storedIssued, hb.storedNodup, fun p hp => (hb.filed p hp).kept hframe (by simp),
    hb.returnedStored, hb.returnedNodup⟩,
    fun c task hc => (h.tasks c task hc).kept hframe (by simp) (by simp), h.apart, h.unreturned⟩

theorem Inv.start (h : Inv codec store) {c : ℕ} (hc : store.tasks c = none) {call : Call}
    (hfits : call.Fits codec) : Inv codec { store with
      tasks := Function.update store.tasks c (some (call.task store.storage.stored)) } := by
  obtain ⟨hsound, howned⟩ := Call.task_sound store.storage hfits
  have hcases : ∀ c' task', Function.update store.tasks c
      (some (call.task store.storage.stored)) c' = some task' →
      (task' = call.task store.storage.stored) ∨ store.tasks c' = some task' := by
    intro c' task' h'
    rcases eq_or_ne c' c with rfl | hne
    · rw [Function.update_self] at h'
      exact .inl (Option.some.inj h').symm
    · rw [Function.update_of_ne hne] at h'
      exact .inr h'
  refine ⟨h.books, fun c' task' h' => ?_, fun c₁ c₂ task₁ task₂ hne h₁ h₂ id hid => ?_,
    fun c' task' h' id hid => ?_⟩
  · rcases hcases c' task' h' with rfl | hold
    · exact hsound
    · exact h.tasks c' task' hold
  · rcases hcases c₁ task₁ h₁ with rfl | hold₁
    · rw [howned] at hid
      exact absurd hid List.not_mem_nil
    · rcases hcases c₂ task₂ h₂ with rfl | hold₂
      · rw [howned]
        exact List.not_mem_nil
      · exact h.apart c₁ c₂ task₁ task₂ hne hold₁ hold₂ id hid
  · rcases hcases c' task' h' with rfl | hold
    · rw [howned] at hid
      exact absurd hid List.not_mem_nil
    · exact h.unreturned c' task' hold id hid

/-- The invariant of a step. -/
theorem Inv.step (inverts : codec.Inverts) (h : Inv codec store) {a : Action}
    (ha : Assumed codec store a) : Inv codec (step codec store a).2 := by
  obtain ⟨hwrap, hallowed⟩ := ha
  cases a with
  | tick nanoseconds => exact h.advance (by omega)
  | others draws => exact h.advance (by omega)
  | start c call =>
    cases hc : store.tasks c with
    | some task => simpa only [StorageCalls.step, hc] using h
    | none => simpa only [StorageCalls.step, hc] using h.start hc hallowed
  | proceed c o =>
    have hfair : Fair store.storage o := by
      refine ⟨hwrap, ?_⟩
      rintro written rfl
      exact hallowed
    cases hc : store.tasks c with
    | none => simpa only [StorageCalls.step, hc] using h
    | some task =>
      obtain ⟨hadv, -⟩ := taskStep_advances inverts h.books (h.tasks c task hc)
        (h.unreturned c task hc) hfair
      simp only [StorageCalls.step, hc]
      rcases hstep : taskStep codec o task store.storage with ⟨ended | task', storage⟩ <;>
        rw [hstep] at hadv
      · exact h.proceed hc hadv (by simp)
      · refine h.proceed hc hadv fun task'' htask => ?_
        cases htask
        rfl

end Runs

end TransferQueue.StorageCalls
