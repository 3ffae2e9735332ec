import TransferQueue.Environment
import TransferQueue.Library.DoForEach

/-! The storage directory of a shard, at the level of groups: a file named by a
spill id holds the group spilled under it. Every reason for which a device call
can fail is a fault of the environment. -/

namespace TransferQueue

structure DiskStorage where
  initialized : Bool
  /-- File name and content, newest first; a file may hold no whole group. -/
  files : List (ℕ × Option TrajectoryGroup)
  /-- Spill ids drawn so far. -/
  spills : ℕ
  /-- Device calls made so far. -/
  calls : ℕ
  deriving DecidableEq

namespace DiskStorage

def fresh : DiskStorage := ⟨true, [], 0, 0⟩

def find (d : DiskStorage) (offset : ℕ) : Option TrajectoryGroup :=
  (d.files.find? fun f => f.1 = offset).bind Prod.snd

def has (d : DiskStorage) (offset : ℕ) : Bool := d.files.any fun f => f.1 = offset

section Calls
variable (env : Env)

def spill (group : TrajectoryGroup) (d : DiskStorage) : Except Failure ℕ × DiskStorage :=
  if !d.initialized then (.error (.runtimeError "Not initialized"), d)
  else
    let id := env.spillId d.spills
    let d' := { d with spills := d.spills + 1, calls := d.calls + 1 }
    if env.fault d.calls then
      (.error .deviceError, { d' with files := (env.leftover d.calls).files id group ++ d.files })
    else (.ok id, { d' with files := (id, some group) :: d.files })

def load (offset : ℕ) (d : DiskStorage) : Except Failure TrajectoryGroup × DiskStorage :=
  if !d.initialized then (.error (.runtimeError "Not initialized"), d)
  else
    let d' := { d with calls := d.calls + 1 }
    if env.fault d.calls then (.error .deviceError, d')
    else
      match d.find offset with
      | some group => (.ok group, d')
      | none => (.error (if d.has offset then .unreadableFile else .noSuchFile), d')

def remove (offset : ℕ) (d : DiskStorage) : Except Failure Unit × DiskStorage :=
  if !d.initialized then (.ok (), d)
  else
    let d' := { d with calls := d.calls + 1 }
    if env.fault d.calls then (.error .deviceError, d')
    else if d.has offset then (.ok (), { d' with files := d.files.filter fun f => f.1 ≠ offset })
    else (.error .noSuchFile, d')

def spillBatch (groups : List TrajectoryGroup) (d : DiskStorage) :
    Except Failure (List ℕ) × DiskStorage :=
  DoForEach.doForEach (spill env) groups d

def loadBatch (offsets : List ℕ) (d : DiskStorage) :
    Except Failure (List TrajectoryGroup) × DiskStorage :=
  DoForEach.doForEach (load env) offsets d

/-- `do_for_each(offsets, remove)`. -/
def removeAll (offsets : List ℕ) (d : DiskStorage) : Except Failure (List Unit) × DiskStorage :=
  DoForEach.doForEach (remove env) offsets d

/-- The same over a vector that nobody keeps alive. A removal is waited for, unless there is
no directory. -/
def removeFreed (offsets : List ℕ) (d : DiskStorage) : Except Failure Unit × DiskStorage :=
  DoForEach.doForEachFreed .useAfterFree
    (fun offset d => ((d.remove env offset).1.map fun _ => d.initialized, (d.remove env offset).2))
    offsets d

end Calls

section Lookup

theorem find_congr {d d' : DiskStorage} (h : d.files = d'.files) (offset : ℕ) :
    d.find offset = d'.find offset := by
  rw [find, find, h]

theorem has_of_find {d : DiskStorage} {offset : ℕ} (h : d.find offset ≠ none) :
    d.has offset = true := by
  obtain ⟨group, hfind⟩ := Option.ne_none_iff_exists'.mp h
  obtain ⟨file, hfile, -⟩ := Option.bind_eq_some_iff.mp hfind
  have hname := List.find?_some hfile
  exact List.any_eq_true.mpr ⟨file, List.mem_of_find?_eq_some hfile, hname⟩

theorem find_write (d d' : DiskStorage) (id : ℕ) (content : Option TrajectoryGroup)
    (h : d'.files = (id, content) :: d.files) (offset : ℕ) :
    d'.find offset = if offset = id then content else d.find offset := by
  rw [find, h, List.find?_cons]
  by_cases hid : id = offset
  · simp [hid]
  · simp [hid, Ne.symm hid, find]

theorem has_write (d d' : DiskStorage) (id : ℕ) (content : Option TrajectoryGroup)
    (h : d'.files = (id, content) :: d.files) (offset : ℕ) :
    d'.has offset = true ↔ offset = id ∨ d.has offset = true := by
  simp [has, h, @eq_comm _ offset id]

theorem find_delete (d d' : DiskStorage) (id : ℕ)
    (h : d'.files = d.files.filter fun f => f.1 ≠ id) (offset : ℕ) :
    d'.find offset = if offset = id then none else d.find offset := by
  rw [find, h, List.find?_filter]
  by_cases hid : offset = id
  · subst hid
    rw [if_pos rfl, List.find?_eq_none.mpr (by simp), Option.bind_none]
  · rw [if_neg hid, find]
    congr 2
    funext f
    by_cases hf : f.1 = offset <;> simp [hf, hid]

theorem find_leftover {d d' : DiskStorage} {left : Leftover} {id : ℕ} {group : TrajectoryGroup}
    (h : d'.files = left.files id group ++ d.files) {offset : ℕ} (hne : offset ≠ id) :
    d'.find offset = d.find offset := by
  cases left with
  | nothing => exact find_congr h offset
  | unreadable => rw [find_write d d' id none h, if_neg hne]
  | whole => rw [find_write d d' id (some group) h, if_neg hne]

theorem find_leftover_some {d d' : DiskStorage} {left : Leftover} {id : ℕ}
    {group : TrajectoryGroup} (h : d'.files = left.files id group ++ d.files) {offset : ℕ}
    {g : TrajectoryGroup} (hfind : d'.find offset = some g) :
    d.find offset = some g ∨ g = group := by
  cases left with
  | nothing => exact .inl ((find_congr h offset).symm.trans hfind)
  | unreadable =>
    rw [find_write d d' id none h] at hfind
    split at hfind
    · cases hfind
    · exact .inl hfind
  | whole =>
    rw [find_write d d' id (some group) h] at hfind
    split at hfind
    · exact .inr (Option.some.inj hfind).symm
    · exact .inl hfind

end Lookup

section AnyDisk
variable (env : Env)

/-- What a call can do to an initialised directory, working or not: a spill writes the
next file, or fails and leaves what it leaves, -/
theorem spill_cases {d : DiskStorage} (hi : d.initialized = true) (group : TrajectoryGroup) :
    ∃ d', d'.initialized = true ∧ d'.spills = d.spills + 1 ∧
      ((d.spill env group = (.error .deviceError, d') ∧
          d'.files = (env.leftover d.calls).files (env.spillId d.spills) group ++ d.files) ∨
        (d.spill env group = (.ok (env.spillId d.spills), d') ∧
          d'.files = (env.spillId d.spills, some group) :: d.files)) := by
  cases hf : env.fault d.calls with
  | true =>
    exact ⟨{ d with
      files := (env.leftover d.calls).files (env.spillId d.spills) group ++ d.files
      spills := d.spills + 1
      calls := d.calls + 1 }, hi, rfl, .inl ⟨by simp [spill, hi, hf], rfl⟩⟩
  | false =>
    exact ⟨{ d with
      files := (env.spillId d.spills, some group) :: d.files
      spills := d.spills + 1
      calls := d.calls + 1 }, hi, rfl, .inr ⟨by simp [spill, hi, hf], rfl⟩⟩

/-- a load changes no file, -/
theorem load_cases {d : DiskStorage} (hi : d.initialized = true) (offset : ℕ) :
    ∃ d', d'.initialized = true ∧ d'.spills = d.spills ∧ d'.calls = d.calls + 1 ∧
      d'.files = d.files ∧
      ((∃ e, d.load env offset = (.error e, d') ∧
          ¬(env.fault d.calls = false ∧ d.find offset ≠ none)) ∨
        ∃ group, d.load env offset = (.ok group, d') ∧ env.fault d.calls = false ∧
          d.find offset = some group) := by
  refine ⟨{ d with calls := d.calls + 1 }, hi, rfl, rfl, rfl, ?_⟩
  cases hf : env.fault d.calls with
  | true => exact .inl ⟨.deviceError, by simp [load, hi, hf], by simp⟩
  | false =>
    cases hg : d.find offset with
    | none => exact .inl ⟨_, by simp only [load, hi, hf, hg]; rfl, by simp⟩
    | some group => exact .inr ⟨group, by simp [load, hi, hf, hg], rfl, rfl⟩

/-- and a removal removes its file or none. -/
theorem remove_cases {d : DiskStorage} (hi : d.initialized = true) (offset : ℕ) :
    ∃ d', d'.initialized = true ∧ d'.spills = d.spills ∧ d'.calls = d.calls + 1 ∧
      ((∃ e, d.remove env offset = (.error e, d') ∧
          ¬(env.fault d.calls = false ∧ d.find offset ≠ none) ∧ d'.files = d.files) ∨
        (d.remove env offset = (.ok (), d') ∧
          (env.fault d.calls = false ∧ d.has offset = true) ∧
          d'.files = d.files.filter fun f => f.1 ≠ offset)) := by
  cases hf : env.fault d.calls with
  | true =>
    exact ⟨{ d with calls := d.calls + 1 }, hi, rfl, rfl,
      .inl ⟨.deviceError, by simp [remove, hi, hf], by simp, rfl⟩⟩
  | false =>
    cases hg : d.has offset with
    | false =>
      have hnone : ¬d.find offset ≠ none := fun hfind => by
        rw [has_of_find hfind] at hg
        cases hg
      exact ⟨{ d with calls := d.calls + 1 }, hi, rfl, rfl,
        .inl ⟨.noSuchFile, by simp [remove, hi, hf, hg], fun h => hnone h.2, rfl⟩⟩
    | true =>
      exact ⟨{ d with
        files := d.files.filter fun f => f.1 ≠ offset
        calls := d.calls + 1 }, hi, rfl, rfl, .inr ⟨by simp [remove, hi, hf, hg], by simp, rfl⟩⟩

/-- Files bear ids that have been drawn. -/
def Named (d : DiskStorage) : Prop := ∀ f ∈ d.files, f.1 < env.spillId d.spills

/-- No id to come, and if there is a file of this name, it holds a group. -/
def Readable (d : DiskStorage) (offset : ℕ) : Prop :=
  offset < env.spillId d.spills ∧ (d.has offset = true → d.find offset ≠ none)

/-- What a device call keeps of a directory. -/
structure Keeps (d d' : DiskStorage) : Prop where
  initialized : d'.initialized = true
  named : d.Named env → d'.Named env
  readable : ∀ offset, d.Readable env offset → d'.Readable env offset

variable {env} in
theorem Named.readable {d : DiskStorage} (h : d.Named env) {offset : ℕ} {group : TrajectoryGroup}
    (hf : d.find offset = some group) : d.Readable env offset := by
  obtain ⟨file, hfile, -⟩ := Option.bind_eq_some_iff.mp hf
  have hname : file.1 = offset := of_decide_eq_true (List.find?_some hfile :)
  exact ⟨hname ▸ h file (List.mem_of_find?_eq_some hfile), fun _ => by simp [hf]⟩

theorem keeps_of_sublist {d d' : DiskStorage} (hi : d'.initialized = true)
    (hspills : d'.spills = d.spills) (hfiles : d'.files.Sublist d.files)
    (hfind : ∀ offset, d'.has offset = true → d'.find offset = d.find offset) :
    Keeps env d d' where
  initialized := hi
  named h f hf := hspills ▸ h f (hfiles.subset hf)
  readable offset h := by
    refine ⟨hspills ▸ h.1, fun hhas => hfind offset hhas ▸ h.2 ?_⟩
    exact List.any_eq_true.mpr ((List.any_eq_true.mp hhas).imp fun f hf =>
      hf.imp_left fun hmem => hfiles.subset hmem)

theorem keeps_spill {d : DiskStorage} (hi : d.initialized = true) (group : TrajectoryGroup) :
    Keeps env d (d.spill env group).2 := by
  obtain ⟨files, hd, hid⟩ : ∃ files, (d.spill env group).2 = { d with
      files := files ++ d.files, spills := d.spills + 1, calls := d.calls + 1 } ∧
      ∀ f ∈ files, f.1 = env.spillId d.spills := by
    simp only [spill, hi, Bool.not_true, Bool.false_eq_true, if_false]
    split
    · refine ⟨_, rfl, ?_⟩
      cases env.leftover d.calls <;> simp [Leftover.files]
    · exact ⟨[(_, some group)], rfl, by simp⟩
  have hnext := env.spillId_strictMono (Nat.lt_succ_self d.spills)
  rw [hd]
  refine ⟨hi, fun h f hf => ?_, fun offset h => ⟨h.1.trans hnext, fun hhas => ?_⟩⟩
  · rcases List.mem_append.mp hf with hnew | hold
    · exact (hid f hnew).trans_lt hnext
    · exact (h f hold).trans hnext
  · have hother : ∀ f ∈ files, ¬decide (f.1 = offset) = true := fun f hf => by
      rw [decide_eq_true_iff, hid f hf]
      exact h.1.ne'
    have hnone : files.find? (fun f => decide (f.1 = offset)) = none :=
      List.find?_eq_none.mpr hother
    have hold : d.has offset = true := by
      rw [has, List.any_append, Bool.or_eq_true] at hhas
      refine hhas.resolve_left fun hany => ?_
      obtain ⟨f, hf, heq⟩ := List.any_eq_true.mp hany
      exact hother f hf heq
    rw [find, List.find?_append, hnone, Option.none_or]
    exact h.2 hold

theorem keeps_load {d : DiskStorage} (hi : d.initialized = true) (offset : ℕ) :
    Keeps env d (d.load env offset).2 := by
  obtain ⟨d', hi', hspills, -, hfiles, ⟨e, hload, -⟩ | ⟨group, hload, -⟩⟩ :=
    load_cases env hi offset <;>
  · rw [hload]
    exact keeps_of_sublist env hi' hspills (hfiles ▸ .refl _) fun o _ => find_congr hfiles o

theorem keeps_remove {d : DiskStorage} (hi : d.initialized = true) (offset : ℕ) :
    Keeps env d (d.remove env offset).2 := by
  obtain ⟨d', hi', hspills, -, ⟨e, hremove, -, hfiles⟩ | ⟨hremove, -, hfiles⟩⟩ :=
    remove_cases env hi offset
  · rw [hremove]
    exact keeps_of_sublist env hi' hspills (hfiles ▸ .refl _) fun o _ => find_congr hfiles o
  · rw [hremove]
    refine keeps_of_sublist env hi' hspills (hfiles ▸ List.filter_sublist) fun o ho => ?_
    rw [find_delete d d' offset hfiles, if_neg]
    rintro rfl
    simp [has, hfiles] at ho

/-- A batch of spills draws increasing fresh ids and leaves the files drawn before
untouched; if it succeeds, each group is stored under its id. -/
theorem spillBatch_cases (groups : List TrajectoryGroup) {d : DiskStorage}
    (hi : d.initialized = true) :
    ∃ r d', d.spillBatch env groups = (r, d') ∧ d'.initialized = true ∧ d.spills ≤ d'.spills ∧
      (∀ offset, offset < env.spillId d.spills → d'.find offset = d.find offset) ∧
      ∀ offsets, r = .ok offsets →
        List.Forall₂ (fun group offset => d'.find offset = some group) groups offsets ∧
        offsets.Pairwise (· < ·) ∧
        ∀ offset ∈ offsets, env.spillId d.spills ≤ offset ∧ offset < env.spillId d'.spills := by
  induction groups generalizing d with
  | nil =>
    refine ⟨.ok [], d, rfl, hi, le_rfl, fun _ _ => rfl, fun offsets h => ?_⟩
    cases h
    exact ⟨.nil, .nil, by simp⟩
  | cons group groups ih =>
    have hnext : env.spillId d.spills < env.spillId (d.spills + 1) :=
      env.spillId_strictMono (Nat.lt_succ_self _)
    obtain ⟨d₁, hi₁, hspills, ⟨hfail, hfiles⟩ | ⟨hspill, hfiles⟩⟩ := spill_cases env hi group
    · refine ⟨.error .deviceError, d₁, ?_, hi₁, by omega,
        fun _ ho => find_leftover hfiles (ne_of_lt ho), fun _ h => by cases h⟩
      rw [spillBatch, DoForEach.doForEach, hfail]
    · have hwrite := find_write d d₁ _ group hfiles
      rw [← hspills] at hnext
      obtain ⟨r, d', hbatch, hi', hle, hframe, hok⟩ := ih hi₁
      have hold : ∀ offset, offset < env.spillId d.spills → d'.find offset = d.find offset :=
        fun offset ho => by
          rw [hframe offset (ho.trans hnext), hwrite, if_neg (ne_of_lt ho)]
      rw [spillBatch] at hbatch
      cases r with
      | error e =>
        refine ⟨.error e, d', ?_, hi', by omega, hold, fun _ h => by cases h⟩
        rw [spillBatch, DoForEach.doForEach, hspill]
        simp only [hbatch]
      | ok offsets =>
        obtain ⟨hstored, hsorted, hrange⟩ := hok offsets rfl
        refine ⟨.ok (env.spillId d.spills :: offsets), d', ?_, hi', by omega, hold,
          fun all hall => ?_⟩
        · rw [spillBatch, DoForEach.doForEach, hspill]
          simp only [hbatch]
        · cases hall
          refine ⟨.cons ?_ hstored, ?_, fun offset ho => ?_⟩
          · rw [hframe _ hnext, hwrite, if_pos rfl]
          · exact List.pairwise_cons.mpr
              ⟨fun offset ho => hnext.trans_le (hrange offset ho).1, hsorted⟩
          · rcases List.mem_cons.mp ho with rfl | ho
            · exact ⟨le_rfl, hnext.trans_le (env.spillId_strictMono.monotone hle)⟩
            · exact ⟨hnext.le.trans (hrange offset ho).1, (hrange offset ho).2⟩

/-- The calls of a batch of spills: one for each group, up to the first that fails. -/
theorem spillBatch_calls (groups : List TrajectoryGroup) {d : DiskStorage}
    (hi : d.initialized = true) :
    ∃ r d', d.spillBatch env groups = (r, d') ∧
      ((∃ offsets, r = .ok offsets ∧ d'.calls = d.calls + groups.length ∧
          ∀ j < groups.length, env.fault (d.calls + j) = false) ∨
        ∃ j < groups.length, r = .error .deviceError ∧ d'.calls = d.calls + (j + 1) ∧
          (∀ i < j, env.fault (d.calls + i) = false) ∧ env.fault (d.calls + j) = true) := by
  induction groups generalizing d with
  | nil => exact ⟨.ok [], d, rfl, .inl ⟨[], rfl, rfl, by simp⟩⟩
  | cons group groups ih =>
    rw [spillBatch, DoForEach.doForEach]
    cases hf : env.fault d.calls with
    | true =>
      refine ⟨.error .deviceError, { d with
        files := (env.leftover d.calls).files (env.spillId d.spills) group ++ d.files
        spills := d.spills + 1
        calls := d.calls + 1 }, ?_, .inr ⟨0, Nat.succ_pos _, rfl, rfl, by simp, hf⟩⟩
      simp [spill, hi, hf]
    | false =>
      have hspill : d.spill env group = (.ok (env.spillId d.spills), { d with
          files := (env.spillId d.spills, some group) :: d.files
          spills := d.spills + 1
          calls := d.calls + 1 }) := by simp [spill, hi, hf]
      obtain ⟨r, d', hbatch, hr⟩ := ih (d := { d with
        files := (env.spillId d.spills, some group) :: d.files
        spills := d.spills + 1
        calls := d.calls + 1 }) hi
      rw [spillBatch] at hbatch
      simp only [hspill, hbatch]
      have hnext : ∀ j, d.calls + (j + 1) = d.calls + 1 + j := fun j => by omega
      have hworks : ∀ n, (∀ j < n, env.fault (d.calls + 1 + j) = false) →
          ∀ j < n + 1, env.fault (d.calls + j) = false := by
        intro n h
        rw [Nat.forall_lt_succ_left]
        exact ⟨hf, fun j hj => by rw [hnext]; exact h j hj⟩
      rcases hr with ⟨offsets, rfl, hcalls, hrest⟩ | ⟨j, hj, rfl, hcalls, hrest, hfail⟩
      · refine ⟨_, d', rfl, .inl ⟨_, rfl, ?_, hworks _ hrest⟩⟩
        simp only [hcalls, List.length_cons]
        omega
      · refine ⟨_, d', rfl, .inr ⟨j + 1, Nat.succ_lt_succ hj, rfl, ?_, hworks _ hrest, ?_⟩⟩
        · simp only [hcalls]
          omega
        · rw [hnext]
          exact hfail

theorem spillBatch_uninitialized {group : TrajectoryGroup} {groups : List TrajectoryGroup}
    {d : DiskStorage} (hi : d.initialized = false) :
    d.spillBatch env (group :: groups) = (.error (.runtimeError "Not initialized"), d) := by
  rw [spillBatch, DoForEach.doForEach, spill, hi]
  rfl

/-- The next calls, one for each of the offsets, work and find their files. -/
def Answers (offsets : List ℕ) (d : DiskStorage) : Prop :=
  (∀ offset ∈ offsets, d.find offset ≠ none) ∧
    ∀ j < offsets.length, env.fault (d.calls + j) = false

theorem answers_cons (offset : ℕ) {offsets : List ℕ} {d d' : DiskStorage}
    (hcalls : d'.calls = d.calls + 1)
    (hfind : ∀ o ∈ offsets, d'.find o = d.find o) :
    d.Answers env (offset :: offsets) ↔
      (env.fault d.calls = false ∧ d.find offset ≠ none) ∧ d'.Answers env offsets := by
  have hfiles : (∀ o ∈ offsets, d'.find o ≠ none) ↔ ∀ o ∈ offsets, d.find o ≠ none :=
    forall₂_congr fun o ho => by rw [hfind o ho]
  rw [Answers, Answers, hfiles, hcalls, List.forall_mem_cons, List.length_cons,
    Nat.forall_lt_succ_left]
  simp only [Nat.add_zero, Nat.add_right_comm _ 1, Nat.add_assoc]
  tauto

theorem loadBatch_spec (offsets : List ℕ) {d : DiskStorage} (hi : d.initialized = true) :
    ∃ r d', d.loadBatch env offsets = (r, d') ∧ d'.initialized = true ∧ d'.spills = d.spills ∧
      d'.files = d.files ∧
      ((∃ e, r = .error e ∧ ¬d.Answers env offsets) ∨
        ∃ groups, r = .ok groups ∧ d.Answers env offsets ∧
          List.Forall₂ (fun offset group => d.find offset = some group) offsets groups ∧
          d'.calls = d.calls + offsets.length) := by
  induction offsets generalizing d with
  | nil => exact ⟨.ok [], d, rfl, hi, rfl, rfl, .inr ⟨[], rfl, by simp [Answers], .nil, rfl⟩⟩
  | cons offset offsets ih =>
    obtain ⟨d₁, hi₁, hspills₁, hcalls₁, hfiles₁, hload⟩ := load_cases env hi offset
    have hans := answers_cons env offset hcalls₁ fun o (_ : o ∈ offsets) => find_congr hfiles₁ o
    rcases hload with ⟨e, hload, hno⟩ | ⟨group, hload, hf, hg⟩
    · refine ⟨.error e, d₁, ?_, hi₁, hspills₁, hfiles₁, .inl ⟨e, rfl, fun h => hno (hans.mp h).1⟩⟩
      rw [loadBatch, DoForEach.doForEach, hload]
    · obtain ⟨r, d', hbatch, hi', hspills, hfiles, hr⟩ := ih hi₁
      rw [loadBatch] at hbatch
      rw [loadBatch, DoForEach.doForEach, hload]
      simp only [hbatch]
      rcases hr with ⟨e, rfl, hno⟩ | ⟨groups, rfl, hyes, hgroups, hcalls⟩
      · exact ⟨.error e, d', rfl, hi', hspills.trans hspills₁, hfiles.trans hfiles₁,
          .inl ⟨e, rfl, fun h => hno (hans.mp h).2⟩⟩
      · have hrest := hgroups.imp fun o group (hfound : d₁.find o = some group) =>
          (find_congr hfiles₁ o).symm.trans hfound
        refine ⟨.ok (group :: groups), d', rfl, hi', hspills.trans hspills₁,
          hfiles.trans hfiles₁, .inr ⟨_, rfl, hans.mpr ⟨⟨hf, by simp [hg]⟩, hyes⟩,
            .cons hg hrest, ?_⟩⟩
        rw [hcalls, hcalls₁, List.length_cons]
        omega

theorem removeAll_spec (offsets : List ℕ) (hnodup : offsets.Nodup) {d : DiskStorage}
    (hi : d.initialized = true)
    (hreadable : ∀ offset ∈ offsets, d.has offset = true → d.find offset ≠ none) :
    ∃ r d', d.removeAll env offsets = (r, d') ∧ d'.initialized = true ∧ d'.spills = d.spills ∧
      (∀ offset, d'.find offset = d.find offset ∨ offset ∈ offsets ∧ d'.find offset = none) ∧
      ((∃ e, r = .error e ∧ ¬d.Answers env offsets) ∨
        ∃ units, r = .ok units ∧ d.Answers env offsets ∧
          ∀ offset, d'.find offset = if offset ∈ offsets then none else d.find offset) := by
  induction offsets generalizing d with
  | nil =>
    exact ⟨.ok [], d, rfl, hi, rfl, fun _ => .inl rfl,
      .inr ⟨[], rfl, by simp [Answers], by simp⟩⟩
  | cons offset offsets ih =>
    obtain ⟨hnotin, hrest⟩ := List.nodup_cons.mp hnodup
    obtain ⟨d₁, hi₁, hspills₁, hcalls₁, ⟨e, hremove, hno, hfiles₁⟩ | ⟨hremove, hyes₁, hfiles₁⟩⟩ :=
      remove_cases env hi offset
    · have hans := answers_cons env offset hcalls₁ fun o (_ : o ∈ offsets) => find_congr hfiles₁ o
      refine ⟨.error e, d₁, ?_, hi₁, hspills₁, fun o => .inl (find_congr hfiles₁ o),
        .inl ⟨e, rfl, fun h => hno (hans.mp h).1⟩⟩
      rw [removeAll, DoForEach.doForEach, hremove]
    · have hfind := find_delete d d₁ offset hfiles₁
      have hsame : ∀ o ∈ offsets, d₁.find o = d.find o := fun o ho => by
        rw [hfind]
        exact if_neg fun he : o = offset => hnotin (he ▸ ho)
      have hans := answers_cons env offset hcalls₁ hsame
      have hreadable₁ : ∀ o ∈ offsets, d₁.has o = true → d₁.find o ≠ none := fun o ho hhas => by
        rw [hsame o ho]
        refine hreadable o (List.mem_cons_of_mem _ ho) ?_
        rw [has, hfiles₁] at hhas
        exact List.any_eq_true.mpr ((List.any_eq_true.mp hhas).imp fun f hf =>
          hf.imp_left List.mem_of_mem_filter)
      obtain ⟨r, d', hall, hi', hspills, hfiles, hr⟩ := ih hrest hi₁ hreadable₁
      rw [removeAll] at hall
      rw [removeAll, DoForEach.doForEach, hremove]
      simp only [hall]
      have hgone : ∀ o, d'.find o = d.find o ∨ o ∈ offset :: offsets ∧ d'.find o = none := by
        intro o
        rcases hfiles o with heq | ⟨hmem, hnone⟩
        · rw [heq, hfind]
          by_cases ho : o = offset
          · exact .inr ⟨by simp [ho], if_pos ho⟩
          · exact .inl (if_neg ho)
        · exact .inr ⟨List.mem_cons_of_mem _ hmem, hnone⟩
      rcases hr with ⟨e, rfl, hno⟩ | ⟨units, rfl, hyes, hexact⟩
      · exact ⟨.error e, d', rfl, hi', hspills.trans hspills₁, hgone,
          .inl ⟨e, rfl, fun h => hno (hans.mp h).2⟩⟩
      · have hfirst := hreadable offset List.mem_cons_self hyes₁.2
        refine ⟨.ok (() :: units), d', rfl, hi', hspills.trans hspills₁, hgone,
          .inr ⟨_, rfl, hans.mpr ⟨⟨hyes₁.1, hfirst⟩, hyes⟩, fun o => ?_⟩⟩
        rw [hexact, hfind]
        by_cases ho : o = offset <;> simp [ho]

theorem removeAll_untouched_iff (offsets : List ℕ) {d : DiskStorage} (hi : d.initialized = true)
    (hfind : ∀ offset ∈ offsets, d.find offset ≠ none) :
    (∀ offset, (d.removeAll env offsets).2.find offset = d.find offset) ↔
      offsets = [] ∨ env.fault d.calls = true := by
  cases offsets with
  | nil => simp [removeAll, DoForEach.doForEach]
  | cons offset offsets =>
    have hfirst := hfind offset List.mem_cons_self
    obtain ⟨d₁, hi₁, -, -, ⟨e, hremove, hno, hfiles⟩ | ⟨hremove, hyes, hfiles⟩⟩ :=
      remove_cases env hi offset
    · have hfault : env.fault d.calls = true := by
        by_contra hworks
        exact hno ⟨Bool.eq_false_of_not_eq_true hworks, hfirst⟩
      rw [removeAll, DoForEach.doForEach_cons_error hremove]
      exact ⟨fun _ => .inr hfault, fun _ => find_congr hfiles⟩
    · have hgone : d₁.initialized = true ∧ d₁.find offset = none :=
        ⟨hi₁, (find_delete d d₁ offset hfiles offset).trans (if_pos rfl)⟩
      have hkept : ∀ o (d : DiskStorage), d.initialized = true ∧ d.find offset = none →
          (d.remove env o).2.initialized = true ∧ (d.remove env o).2.find offset = none := by
        rintro o d ⟨hi, hnone⟩
        obtain ⟨d', hi', -, -, ⟨e, hremove, -, hfiles⟩ | ⟨hremove, -, hfiles⟩⟩ :=
          remove_cases env hi o
        · rw [hremove]
          exact ⟨hi', (find_congr hfiles offset).trans hnone⟩
        · rw [hremove, find_delete d d' o hfiles, hnone, ite_self]
          exact ⟨hi', rfl⟩
      rw [removeAll, DoForEach.doForEach_cons_ok hremove]
      refine ⟨fun hall => absurd (hall offset) ?_, ?_⟩
      · rw [(DoForEach.doForEach_keeps hkept offsets hgone).2]
        exact hfirst.symm
      · rintro (hnil | hfault)
        · cases hnil
        · cases hfault.symm.trans hyes.1

theorem removeFreed_cons {d : DiskStorage} (hi : d.initialized = true) (offset : ℕ)
    (rest : List ℕ) : d.removeFreed env (offset :: rest) =
      match d.remove env offset with
      | (.error e, d) => (.error e, d)
      | (.ok _, d) => (if rest = [] then .ok () else .error .useAfterFree, d) := by
  rw [removeFreed, DoForEach.doForEachFreed]
  rcases d.remove env offset with ⟨e | _, d'⟩
  · rfl
  · by_cases h : rest = [] <;> simp [Except.map, hi, h, DoForEach.doForEachFreed]

theorem removeFreed_uninitialized {d : DiskStorage} (hi : d.initialized = false)
    (offsets : List ℕ) : d.removeFreed env offsets = (.ok (), d) := by
  rw [removeFreed]
  induction offsets with
  | nil => rfl
  | cons offset rest ih =>
    rw [DoForEach.doForEachFreed]
    simp only [remove, hi, Bool.not_false, if_true, Except.map, Bool.false_eq_true, false_and,
      if_false]
    simpa only [remove, hi, Bool.not_false, if_true, Except.map] using ih

theorem removeFreed_spec (offsets : List ℕ) {d : DiskStorage} (hi : d.initialized = true) :
    ∃ r d', d.removeFreed env offsets = (r, d') ∧ d'.initialized = true ∧ d'.spills = d.spills ∧
      ∀ offset, d'.find offset = d.find offset ∨ offset ∈ offsets ∧ d'.find offset = none := by
  cases offsets with
  | nil => exact ⟨_, d, rfl, hi, rfl, fun _ => .inl rfl⟩
  | cons offset rest =>
    rw [removeFreed_cons env hi]
    obtain ⟨d₁, hi₁, hspills₁, -, ⟨e, hremove, -, hfiles₁⟩ | ⟨hremove, -, hfiles₁⟩⟩ :=
      remove_cases env hi offset
    · rw [hremove]
      exact ⟨_, d₁, rfl, hi₁, hspills₁, fun o => .inl (find_congr hfiles₁ o)⟩
    · rw [hremove]
      refine ⟨_, d₁, rfl, hi₁, hspills₁, fun o => ?_⟩
      rw [find_delete d d₁ offset hfiles₁]
      by_cases ho : o = offset
      · exact .inr ⟨by simp [ho], if_pos ho⟩
      · exact .inl (if_neg ho)

end AnyDisk

section WorkingDisk
variable {env : Env}

theorem spill_ok (hr : env.Reliable) {d : DiskStorage} (hi : d.initialized = true)
    (group : TrajectoryGroup) :
    d.spill env group = (.ok (env.spillId d.spills),
      { d with
        files := (env.spillId d.spills, some group) :: d.files
        spills := d.spills + 1
        calls := d.calls + 1 }) := by
  simp [spill, hi, hr d.calls]

theorem load_ok (hr : env.Reliable) {d : DiskStorage} (hi : d.initialized = true)
    {offset : ℕ} {group : TrajectoryGroup} (hf : d.find offset = some group) :
    d.load env offset = (.ok group, { d with calls := d.calls + 1 }) := by
  simp [load, hi, hr d.calls, hf]

theorem remove_ok (hr : env.Reliable) {d : DiskStorage} (hi : d.initialized = true)
    {offset : ℕ} {group : TrajectoryGroup} (hf : d.find offset = some group) :
    d.remove env offset = (.ok (),
      { d with
        files := d.files.filter fun f => f.1 ≠ offset
        calls := d.calls + 1 }) := by
  simp [remove, hi, hr d.calls, has_of_find (hf ▸ Option.some_ne_none group)]

/-- On a working disk the removal that loses its vector removes its first file, and fails if
there are others. -/
theorem removeFreed_ok (hr : env.Reliable) {d : DiskStorage} (hi : d.initialized = true)
    {offset : ℕ} {group : TrajectoryGroup} (hf : d.find offset = some group) (rest : List ℕ) :
    d.removeFreed env (offset :: rest) =
      (if rest = [] then .ok () else .error .useAfterFree,
        { d with
          files := d.files.filter fun f => f.1 ≠ offset
          calls := d.calls + 1 }) := by
  rw [removeFreed_cons env hi, remove_ok hr hi hf]

theorem spillBatch_ok (hr : env.Reliable) (groups : List TrajectoryGroup) {d : DiskStorage}
    (hi : d.initialized = true) : ∃ offsets, (d.spillBatch env groups).1 = .ok offsets := by
  obtain ⟨offsets, d', hbatch, -⟩ := DoForEach.doForEach_ok (f := spill env)
    (fun _ d => d.initialized = true) (fun _ _ => True)
    (fun group _ _ hi => ⟨_, _, spill_ok hr hi group, trivial, hi⟩) groups hi
  exact ⟨offsets, congrArg Prod.fst hbatch⟩

theorem answers_of_reliable (hr : env.Reliable) {d : DiskStorage} {offsets : List ℕ}
    (hf : ∀ offset ∈ offsets, ∃ group, d.find offset = some group) : d.Answers env offsets :=
  ⟨fun offset ho => Option.ne_none_iff_exists'.mpr (hf offset ho), fun _ _ => hr _⟩

end WorkingDisk

end DiskStorage
end TransferQueue
