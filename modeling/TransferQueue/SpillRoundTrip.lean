import TransferQueue.SpillFile
import TransferQueue.SpillTarget

/-! What a spill promises: the id it returns leads back to the group. When the limit
of the load and the number of bytes written let it, and what a spill of the shard
destroys when they do not. -/

namespace TransferQueue
namespace ByteStorage
open SpillFile Bytes

variable {env : Env} {codec : Codec TrajectoryGroup} {device : ℕ → SpillOutcome}
variable {group : TrajectoryGroup} {data : List UInt8} {d : ByteStorage}

section Limits

/-- Whatever id a spill of the group returns, a load of it returns the group. -/
def LoadsBack (env : Env) (codec : Codec TrajectoryGroup) (device : ℕ → SpillOutcome)
    (group : TrajectoryGroup) (d : ByteStorage) : Prop :=
  ∀ id d', d.spill env codec device group = (.ok id, d') → d'.load codec id = .ok group

/-- The device takes the whole buffer. -/
def TakesAll (device : ℕ → SpillOutcome) (data : List UInt8) (d : ByteStorage) : Prop :=
  device d.spills = .closes (frame data).length

/-- The frame fits its buffer at every length protobuf can produce and the spill is
accepted, but it loads back only up to the limit of the load. -/
theorem loads_back_iff (inverts : codec.Inverts) (hi : d.initialized = true)
    (hs : codec.serialize group = some data) (hlen : data.length < 2 ^ 31)
    (hdevice : TakesAll device data d) :
    SizesFit data ∧ (∃ id d', d.spill env codec device group = (.ok id, d')) ∧
      (LoadsBack env codec device group d ↔ data.length ≤ 100 * 1024 * 1024) := by
  have hfits := sizesFit hlen
  have hspill := spill_closes env hi hs hdevice
  have hcovers : 4 + data.length ≤ (frame data).length := by
    rw [hfits.buffer]
    exact hfits.covers
  have hfile := readFile_frame_iff hlen (frame data).length (inverts group data hs)
  rw [← load_writeFile hi (env.spillId d.spills) _ (d.spills + 1)] at hfile
  refine ⟨hfits, ⟨_, _, hspill⟩, fun h => (hfile.mp (h _ _ hspill)).2, fun hle id d' h => ?_⟩
  cases hspill.symm.trans h
  exact hfile.mpr ⟨hcovers, hle⟩

/-- A small group on an empty disk. -/
theorem loads_back_small :
    let group : TrajectoryGroup := ⟨"q", [.bare "u" "q"], 1, true⟩
    LoadsBack (.sample []) (.sample [group])
      (fun _ => .closes (frame (group.encode fun _ => 0)).length) group fresh := by
  intro group
  have hlen : (group.encode fun _ => 0).length = 15 := by
    rw [TrajectoryGroup.length_encode _ _ (by decide) (by decide)]
    decide +kernel
  have hdata : (Codec.sample [group]).serialize group = some (group.encode fun _ => 0) :=
    Codec.ofEncoding_serialize (List.mem_singleton_self _)
  have htakes : TakesAll (fun _ => .closes (frame (group.encode fun _ => 0)).length)
      (group.encode fun _ => 0) fresh := rfl
  exact (loads_back_iff (Codec.ofEncoding_inverts (by simp)) rfl hdata (by omega) htakes).2.2.mpr
    (by omega)

/-- A group whose only message has a content of `n` bytes. -/
def letters (n : ℕ) : TrajectoryGroup :=
  ⟨"q", [⟨"u", "q", [⟨"user", String.ofList (List.replicate n 'a')⟩], 0, []⟩], 1, true⟩

theorem letters_wireSize {n : ℕ} (h : n ≠ 0) : (letters n).wireSize =
    7 + lengthDelimited (6 + lengthDelimited (6 + lengthDelimited n)) := by
  have hcontent : (String.ofList (List.replicate n 'a')).utf8ByteSize = n := by
    rw [← String.size_toByteArray, String.toByteArray_ofList]
    clear h
    induction n with
    | zero => rfl
    | succ n ih =>
      have hletter : [('a' : Char)].utf8Encode.size = 1 := by decide
      rw [List.replicate_succ, List.utf8Encode_cons, ByteArray.size_append, ih, hletter,
        Nat.add_comm]
  have hrole : ("user" : String).utf8ByteSize = 4 := by decide
  have huid : ("u" : String).utf8ByteSize = 1 := by decide
  have hinstance : ("q" : String).utf8ByteSize = 1 := by decide
  have hone : lengthDelimited 1 = 3 := by decide
  have hfour : lengthDelimited 4 = 6 := by decide
  have hvarint : varintSize 1 = 1 := by decide
  simp only [letters, TrajectoryGroup.wireSize, Trajectory.wireSize, ChatMessage.wireSize,
    stringField, int32Field, hcontent, hrole, huid, hinstance, h, List.map_cons, List.map_nil,
    List.sum_cons, List.sum_nil, if_false, if_true, one_ne_zero, OfNat.ofNat_ne_zero,
    Int.reduceLT, Int.toNat_one, hone, hfour, hvarint, Nat.add_zero, Nat.reduceAdd]
  omega

/-- A message of 100 MiB: its group is spilled, and its id is of no use. -/
theorem large_group_lost :
    let group := letters (100 * 1024 * 1024)
    let codec := Codec.sample [group]
    ∃ data d', codec.Inverts ∧ codec.serialize group = some data ∧ data.length < 2 ^ 31 ∧
      fresh.spill (.sample []) codec (fun _ => .closes (frame data).length) group = (.ok 1, d') ∧
      d'.load codec 1 = .error (.runtimeError "Group size too large") := by
  intro group codec
  have hdata : codec.serialize group = some (group.encode fun _ => 0) :=
    Codec.ofEncoding_serialize (List.mem_singleton_self _)
  have hsize : (group.encode fun _ => 0).length =
      7 + lengthDelimited (6 + lengthDelimited (6 + lengthDelimited (100 * 1024 * 1024))) := by
    rw [TrajectoryGroup.length_encode _ _ (by decide) (by decide)]
    exact letters_wireSize (by decide)
  have hlo : 100 * 1024 * 1024 < (group.encode fun _ => 0).length := by
    rw [hsize]
    decide +kernel
  have hhi : (group.encode fun _ => 0).length < 2 ^ 31 := by
    rw [hsize]
    decide +kernel
  refine ⟨_, _, Codec.ofEncoding_inverts (by simp), hdata, hhi, spill_closes _ rfl hdata rfl, ?_⟩
  have hfits := sizesFit hhi
  have hbuffer := hfits.buffer
  have hcovers := hfits.covers
  rw [← hbuffer] at hcovers
  rw [show (Env.sample []).spillId fresh.spills = 1 from rfl, load_writeFile rfl,
    readFile_frame hhi, if_neg (by omega), if_pos hlo]

end Limits
section ShortWrites

/-- If the spill is reported done, header and body were written, and not too much of
them for a load. -/
def Covers (codec : Codec TrajectoryGroup) (group : TrajectoryGroup) (outcome : SpillOutcome) :
    Prop :=
  ∀ data written, codec.serialize group = some data → outcome = .closes written →
    4 + data.length ≤ written ∧ data.length ≤ 100 * 1024 * 1024

/-- The file of an id holds the whole frame of a group, and a load returns the group. -/
structure Complete (codec : Codec TrajectoryGroup) (d : ByteStorage) (id : ℕ)
    (group : TrajectoryGroup) : Prop where
  whole : ∃ data contents, codec.serialize group = some data ∧ d.files.read id = some contents ∧
    writeU32LE (UInt32.ofNat data.length) ++ data <+: contents
  loads : d.load codec id = .ok group

theorem prefix_frame_iff (hlen : data.length < 2 ^ 31) (written : ℕ) :
    writeU32LE (UInt32.ofNat data.length) ++ data <+: (frame data).take written ↔
      4 + data.length ≤ written := by
  obtain ⟨padding, hframe, hpadding⟩ := frame_eq hlen
  have hhead : (writeU32LE (UInt32.ofNat data.length) ++ data).length = 4 + data.length := by
    rw [List.length_append, writeU32LE, length_toLE]
  rw [List.prefix_take_iff, hhead, hframe]
  exact and_iff_right (List.prefix_append _ _)

theorem spill_complete_iff (inverts : codec.Inverts) (bounded : codec.Bounded)
    (hi : d.initialized = true) :
    (∀ id d', d.spill env codec device group = (.ok id, d') → Complete codec d' id group) ↔
      Covers codec group (device d.spills) := by
  cases hs : codec.serialize group with
  | none =>
    have hfails : ∀ id d', d.spill env codec device group ≠ (.ok id, d') := by
      simp [spill, hi, hs]
    exact ⟨fun _ data _ h => by simp [hs] at h, fun _ id d' h => absurd h (hfails id d')⟩
  | some data =>
    have hlen := bounded group data hs
    constructor
    · intro h data' written hs' hd
      cases hs.symm.trans hs'
      have hspill := spill_closes env hi hs hd
      have hloads := (h _ _ hspill).loads
      rw [load_writeFile hi] at hloads
      exact (readFile_frame_iff hlen written (inverts group data hs)).mp hloads
    · rintro h id d' hspill
      obtain ⟨written, hd, rfl, rfl⟩ := (spill_ok_iff env hi hs).mp hspill
      obtain ⟨hwritten, hle⟩ := h data written hs hd
      constructor
      · exact ⟨data, _, hs, read_writeFile .., (prefix_frame_iff hlen written).mpr hwritten⟩
      · rw [load_writeFile hi]
        exact (readFile_frame_iff hlen written (inverts group data hs)).mpr ⟨hwritten, hle⟩

/-- The device takes the group: the spill resolves. -/
def Accepts (codec : Codec TrajectoryGroup) (group : TrajectoryGroup) (outcome : SpillOutcome) :
    Prop :=
  codec.serialize group ≠ none ∧ ∃ written, outcome = .closes written

def outcomes (device : ℕ → SpillOutcome) : ℕ → List TrajectoryGroup →
    List (TrajectoryGroup × SpillOutcome)
  | _, [] => []
  | k, group :: groups => (group, device k) :: outcomes device (k + 1) groups

theorem spill_cases (env : Env) (codec : Codec TrajectoryGroup) (device : ℕ → SpillOutcome)
    (hi : d.initialized = true) (group : TrajectoryGroup) :
    (∃ e d', d.spill env codec device group = (.error e, d') ∧
        ¬Accepts codec group (device d.spills)) ∨
      ∃ data written, codec.serialize group = some data ∧ device d.spills = .closes written ∧
        d.spill env codec device group = (.ok (env.spillId d.spills),
          { d with
            files := writeFile (env.spillId d.spills) data written d.files
            spills := d.spills + 1 }) := by
  cases hs : codec.serialize group with
  | none => exact .inl ⟨.runtimeError "Failed to serialize group", d, by simp [spill, hi, hs],
      fun h => h.1 hs⟩
  | some data =>
    cases hd : device d.spills with
    | closes written => exact .inr ⟨data, written, rfl, rfl, spill_closes env hi hs hd⟩
    | _ =>
      refine .inl ⟨_, _, by simp only [spill, hi, hs, hd]; rfl, ?_⟩
      rintro ⟨-, written, h⟩
      cases h

theorem spillBatch_spec (env : Env) (codec : Codec TrajectoryGroup) (device : ℕ → SpillOutcome)
    (groups : List TrajectoryGroup) (hi : d.initialized = true) :
    (∃ e d', d.spillBatch env codec device groups = (.error e, d') ∧
        ¬∀ p ∈ outcomes device d.spills groups, Accepts codec p.1 p.2) ∨
      ∃ offsets d', d.spillBatch env codec device groups = (.ok offsets, d') ∧
        d'.initialized = true ∧
        (∀ p ∈ outcomes device d.spills groups, Accepts codec p.1 p.2) ∧
        (∀ id < env.spillId d.spills, d'.files.read id = d.files.read id) ∧
        List.Forall₂ (fun p id => ∃ data written, codec.serialize p.1 = some data ∧
            p.2 = .closes written ∧ d'.files.read id = some ((frame data).take written))
          (outcomes device d.spills groups) offsets := by
  induction groups generalizing d with
  | nil => exact .inr ⟨[], d, rfl, hi, by simp [outcomes], fun _ _ => rfl, .nil⟩
  | cons group groups ih =>
    rw [spillBatch, DoForEach.doForEach, outcomes, List.forall_mem_cons]
    rcases spill_cases env codec device hi group with
      ⟨e, d', hspill, hno⟩ | ⟨data, written, hs, hd, hspill⟩
    · exact .inl ⟨e, d', by rw [hspill], fun h => hno h.1⟩
    · have hnext : env.spillId d.spills < env.spillId (d.spills + 1) :=
        env.spillId_strictMono (Nat.lt_succ_self _)
      rw [hspill]
      rcases ih (d := { d with
          files := writeFile (env.spillId d.spills) data written d.files
          spills := d.spills + 1 }) hi with
        ⟨e, d', hbatch, hno⟩ | ⟨offsets, d', hbatch, hi', hyes, hframe, hfiles⟩
      · rw [spillBatch] at hbatch
        exact .inl ⟨e, d', by simp only [hbatch], fun h => hno h.2⟩
      · rw [spillBatch] at hbatch
        refine .inr ⟨env.spillId d.spills :: offsets, d', by simp only [hbatch], hi',
          ⟨⟨by rw [hs]; exact Option.some_ne_none _, written, hd⟩, hyes⟩, fun id hid => ?_,
          .cons ⟨data, written, hs, hd, ?_⟩ hfiles⟩
        · rw [hframe id (hid.trans hnext), read_writeFile_of_ne hid.ne]
        · rw [hframe _ hnext, read_writeFile]

def trySpillGroups (env : Env) (codec : Codec TrajectoryGroup) (device : ℕ → SpillOutcome)
    (s : BufferShard) (d : ByteStorage) : Except Failure ℕ × BufferShard × ByteStorage :=
  match s.spillSelection env with
  | none => (.ok 0, s, d)
  | some selection =>
    match d.spillBatch env codec device selection.groups with
    | (.error e, d) => (.error e, s, d)
    | (.ok offsets, d) =>
      match BufferShard.commitSpill env selection.keys offsets s with
      | (.error e, s) => (.error e, s, d)
      | (.ok _, s) => (.ok selection.spilledBytes, s, d)

/-- The shard has the group, in memory or in a file it loads from. -/
def Has (codec : Codec TrajectoryGroup) (s : BufferShard) (d : ByteStorage) (id : String)
    (group : TrajectoryGroup) : Prop :=
  ∃ e, s.groups.get? id = some e ∧
    (e.groupPtr = some group ∨ e.groupPtr = none ∧ d.load codec e.diskOffset = .ok group)

/-- If no spill of the batch fails, each is of a group that loads back from what the
device wrote. -/
def BatchCovers (env : Env) (codec : Codec TrajectoryGroup) (device : ℕ → SpillOutcome)
    (s : BufferShard) (d : ByteStorage) : Prop :=
  ∀ selection, s.spillSelection env = some selection →
    (∀ p ∈ outcomes device d.spills selection.groups, Accepts codec p.1 p.2) →
    ∀ p ∈ outcomes device d.spills selection.groups, Covers codec p.1 p.2

theorem outcomes_map (device : ℕ → SpillOutcome) (k : ℕ) (groups : List TrajectoryGroup) :
    (outcomes device k groups).map Prod.fst = groups := by
  induction groups generalizing k with
  | nil => rfl
  | cons group groups ih => rw [outcomes, List.map_cons, ih]

theorem forall_mem_iff_of_forall₂ {α β γ : Type*} {R : α → β → Prop} {P : α → Prop}
    {Q : γ → β → Prop} {f : α → γ} (same : ∀ a b, R a b → (P a ↔ Q (f a) b)) {as : List α}
    {bs : List β} (h : List.Forall₂ R as bs) :
    (∀ a ∈ as, P a) ↔ ∀ q ∈ (as.map f).zip bs, Q q.1 q.2 := by
  induction h with
  | nil => simp
  | cons hhead _ ih =>
    rw [List.map_cons, List.zip_cons_cons, List.forall_mem_cons, List.forall_mem_cons, ih,
      same _ _ hhead]

theorem loads_iff_covers (inverts : codec.Inverts) (bounded : codec.Bounded)
    (hi : d.initialized = true) {outcome : SpillOutcome} {id written : ℕ}
    (hs : codec.serialize group = some data) (hd : outcome = .closes written)
    (hread : d.files.read id = some ((frame data).take written)) :
    d.load codec id = .ok group ↔ Covers codec group outcome := by
  have hload : d.load codec id = readFile codec ((frame data).take written) := by
    simp [load, hi, hread]
  rw [hload, readFile_frame_iff (bounded group data hs) written (inverts group data hs)]
  constructor
  · intro h data' written' hs' hd'
    cases hs.symm.trans hs'
    cases hd.symm.trans hd'
    exact h
  · exact fun h => h data written hs hd

/-- A commit keeps the groups of a shard exactly if the files it points them to load. -/
theorem commits_keep_iff {s s' : BufferShard} {chosen : List (String × TrajectoryGroup)}
    {offsets : List ℕ} (hlen : chosen.length = offsets.length)
    (hheld : ∀ p ∈ chosen, ∃ e, s.groups.get? p.1 = some e ∧ e.groupPtr = some p.2)
    (hframe : ∀ id ∉ chosen.map Prod.fst, s'.groups.get? id = s.groups.get? id)
    (hmoved : ∀ p ∈ chosen.zip offsets, s'.groups.get? p.1.1 =
      (s.groups.get? p.1.1).map fun e => BufferShard.committed env e p.2) :
    (∀ id group, (∃ e, s.groups.get? id = some e ∧ e.groupPtr = some group) →
      Has codec s' d id group) ↔ ∀ p ∈ chosen.zip offsets, d.load codec p.2 = .ok p.1.2 := by
  constructor
  · rintro h ⟨⟨id, group⟩, offset⟩ hp
    obtain ⟨e, he, hptr⟩ := hheld (id, group) (List.of_mem_zip hp).1
    obtain ⟨e', he', hhas⟩ := h id group ⟨e, he, hptr⟩
    rw [hmoved _ hp, he] at he'
    cases he'
    rcases hhas with hmemory | ⟨-, hload⟩
    · cases hmemory
    · exact hload
  · rintro h id group ⟨e, he, hptr⟩
    by_cases hmem : id ∈ chosen.map Prod.fst
    · obtain ⟨p, hp, rfl⟩ := List.mem_map.mp hmem
      obtain ⟨e₁, he₁, hptr₁⟩ := hheld p hp
      cases he.symm.trans he₁
      obtain ⟨offset, hpair⟩ := BufferShard.exists_mem_zip hlen hp
      refine ⟨_, by rw [hmoved _ hpair, he]; rfl, .inr ⟨rfl, ?_⟩⟩
      rw [Option.some.inj (hptr.symm.trans hptr₁)]
      exact h _ hpair
    · exact ⟨e, by rw [hframe id hmem, he], .inl hptr⟩

/-- A spill of the shard destroys no group exactly if some spill of its batch is reported
to have failed, or all were written as far as a load needs them. -/
theorem spill_destroys_nothing_iff (inverts : codec.Inverts) (bounded : codec.Bounded)
    (hi : d.initialized = true) (s : BufferShard) :
    (∀ id group, (∃ e, s.groups.get? id = some e ∧ e.groupPtr = some group) →
      Has codec (trySpillGroups env codec device s d).2.1
        (trySpillGroups env codec device s d).2.2 id group) ↔
      BatchCovers env codec device s d := by
  cases hsel : s.spillSelection env with
  | none =>
    rw [trySpillGroups, hsel]
    refine ⟨fun _ _ h => by simp [hsel] at h, ?_⟩
    rintro - id group ⟨e, he, hp⟩
    exact ⟨e, he, .inl hp⟩
  | some selection =>
    obtain ⟨chosen, rest, hsplit, -, rfl, -⟩ := BufferShard.spillSelection_some hsel
    rcases spillBatch_spec env codec device (chosen.map Prod.snd) hi with
      ⟨e, d', hbatch, hno⟩ | ⟨offsets, d', hbatch, hi', hyes, -, hfiles⟩
    · simp only [trySpillGroups, hsel, hbatch]
      constructor
      · intro _ selection h hall
        cases hsel.symm.trans h
        exact absurd hall hno
      · rintro - id group ⟨e, he, hp⟩
        exact ⟨e, he, .inl hp⟩
    · obtain ⟨hids, hheld⟩ := BufferShard.chosen_held hsplit
      have hlen : chosen.length = offsets.length := by
        have hgroups := congrArg List.length (outcomes_map device d.spills (chosen.map Prod.snd))
        rw [List.length_map, List.length_map] at hgroups
        rw [← hgroups, hfiles.length_eq]
      obtain ⟨s', hfold, -, -, hframe, hmoved⟩ := @BufferShard.commits_moves env chosen offsets
        hlen hids s fun p hp => (hheld p hp).2
      have hspill : trySpillGroups env codec device s d =
          (.ok (sizeT (BufferShard.chosenBytes env chosen)), s', d') := by
        simp only [trySpillGroups, hsel, hbatch, BufferShard.commitSpill, List.length_map, hlen,
          ne_eq, not_true, if_false, hfold]
      have hcovers : BatchCovers env codec device s d ↔
          ∀ p ∈ chosen.zip offsets, d'.load codec p.2 = .ok p.1.2 := by
        have hloads := forall_mem_iff_of_forall₂ (f := Prod.fst)
          (P := fun p => Covers codec p.1 p.2) (Q := fun g id => d'.load codec id = .ok g)
          (fun p id h => by
            obtain ⟨data, written, hs, hd, hread⟩ := h
            exact (loads_iff_covers inverts bounded hi' hs hd hread).symm) hfiles
        rw [outcomes_map, List.zip_map_left, List.forall_mem_map] at hloads
        refine .trans ?_ hloads
        refine ⟨fun h => h _ hsel hyes, fun h selection hsel' _ => ?_⟩
        cases hsel.symm.trans hsel'
        exact h
      rw [hspill, hcovers]
      exact commits_keep_iff hlen (fun p hp => (hheld p hp).2) hframe hmoved

/-- A spill of one group is reported done only when its file is complete, and a spill of
the shard destroys no group, exactly if what the device reports as done covers what a
load needs: the number of bytes written is not looked at. -/
theorem short_writes_iff (inverts : codec.Inverts) (bounded : codec.Bounded)
    (hi : d.initialized = true) :
    (∀ group, (∀ id d', d.spill env codec device group = (.ok id, d') →
        Complete codec d' id group) ↔ Covers codec group (device d.spills)) ∧
      ∀ s : BufferShard, (∀ id group, (∃ e, s.groups.get? id = some e ∧ e.groupPtr = some group) →
        Has codec (trySpillGroups env codec device s d).2.1
          (trySpillGroups env codec device s d).2.2 id group) ↔
        BatchCovers env codec device s d :=
  ⟨fun _ => spill_complete_iff inverts bounded hi,
    spill_destroys_nothing_iff inverts bounded hi⟩

/-- A device that writes all of a small group. -/
theorem short_writes_small :
    let group : TrajectoryGroup := ⟨"q", [.bare "u" "q"], 1, true⟩
    ∀ id d',
      fresh.spill (.sample []) (.sample [group]) (fun _ => .closes 4096) group = (.ok id, d') →
      Complete (.sample [group]) d' id group := by
  intro group
  have hdata : (Codec.sample [group]).serialize group = some (group.encode fun _ => 0) :=
    Codec.ofEncoding_serialize (List.mem_singleton_self _)
  have hlen : (group.encode fun _ => 0).length = 15 := by
    rw [TrajectoryGroup.length_encode _ _ (by decide) (by decide)]
    decide +kernel
  have hbounded : (Codec.sample [group]).Bounded := by
    intro a data h
    simp only [Codec.sample, Codec.ofEncoding, List.mem_singleton] at h
    split_ifs at h with ha
    cases h
    rw [ha, hlen]
    decide
  refine ((short_writes_iff (Codec.ofEncoding_inverts (by simp)) hbounded rfl).1 group).mpr ?_
  intro data written hs hd
  cases hdata.symm.trans hs
  cases hd
  omega

/-- Of a group of 628 bytes the device writes 512 and says so: the spill resolves, the
shard frees the group, and its file does not load. -/
theorem short_write_destroys :
    let group := letters 600
    let codec := Codec.sample [group]
    let s := ((BufferShard.create (.tight 1) 0 0).writeStart (.sample [])
      ⟨"u", "q", [⟨"user", String.ofList (List.replicate 600 'a')⟩], 0, []⟩).2
    let after := trySpillGroups (.sample []) codec (fun _ => .closes 512) s fresh
    (s.groups.get? "q").bind GroupEntry.groupPtr = some group ∧ after.1 = .ok 628 ∧
      after.2.2.load codec 1 = .error (.runtimeError "Unexpected EOF reading body") ∧
      ¬Has codec after.2.1 after.2.2 "q" group := by
  intro group codec s after
  have hheld : (s.groups.get? "q").bind GroupEntry.groupPtr = some group := by decide +kernel
  have hspill : after.1 = .ok 628 := by decide +kernel
  have hload : after.2.2.load codec 1 = .error (.runtimeError "Unexpected EOF reading body") := by
    decide +kernel
  have hentry : (after.2.1.groups.get? "q").map (fun e => (e.groupPtr, e.diskOffset)) =
      some (none, 1) := by decide +kernel
  refine ⟨hheld, hspill, hload, ?_⟩
  rintro ⟨e, he, hhas⟩
  rw [he, Option.map_some, Option.some.injEq, Prod.mk.injEq] at hentry
  rcases hhas with hmemory | ⟨-, hfile⟩
  · rw [hentry.1] at hmemory
    cases hmemory
  · rw [hentry.2, hload] at hfile
    cases hfile

end ShortWrites
section GroupLevel

/-- The directory of groups stands for the directory of bytes: it has the same files, and what
it finds in one is what a load makes of it. -/
structure Represents (env : Env) (codec : Codec TrajectoryGroup) (d : ByteStorage)
    (g : DiskStorage) : Prop where
  initialized : d.initialized = true ∧ g.initialized = true
  spills : d.spills = g.spills
  named : g.Named env
  files : ∀ offset, g.has offset = true ↔ d.files.read offset ≠ none
  loads : ∀ offset group, g.find offset = some group ↔ d.load codec offset = .ok group

theorem represents_fresh (env : Env) (codec : Codec TrajectoryGroup) :
    Represents env codec fresh .fresh where
  initialized := ⟨rfl, rfl⟩
  spills := rfl
  named _ h := nomatch h
  files _ := by simp [DiskStorage.has, DiskStorage.fresh, fresh, FileSystem.read, FileSystem.empty]
  loads _ _ := by simp [DiskStorage.find, DiskStorage.fresh, load, fresh, FileSystem.read,
    FileSystem.empty]

/-- The file that a spill leaves, done or not. -/
def leaves (data : List UInt8) : Option ℕ → Leftover
  | none => .nothing
  | some kept =>
    if 4 + data.length ≤ kept ∧ data.length ≤ 100 * 1024 * 1024 then .whole else .unreadable

theorem read_spill (hi : d.initialized = true) (hs : codec.serialize group = some data)
    (offset : ℕ) : (d.spill env codec device group).2.files.read offset =
      (device d.spills).kept.elim (d.files.read offset) fun kept =>
        if offset = env.spillId d.spills then some ((frame data).take kept)
        else d.files.read offset := by
  have hwrite : ∀ kept, (writeFile (env.spillId d.spills) data kept d.files).read offset =
      if offset = env.spillId d.spills then some ((frame data).take kept)
      else d.files.read offset := fun _ => FileSystem.read_write_openCreate _
  cases hd : device d.spills with
  | openFails => simp [spill, hi, hs, hd, SpillOutcome.kept]
  | noMemory => simp [spill, hi, hs, hd, SpillOutcome.kept, FileSystem.read_openCreate]
  | writeFails kept => simp [spill, hi, hs, hd, SpillOutcome.kept, hwrite]
  | closeFails written => simp [spill, hi, hs, hd, SpillOutcome.kept, hwrite]
  | closes written => simp [spill, hi, hs, hd, SpillOutcome.kept, hwrite]

theorem spill_draws (env : Env) (device : ℕ → SpillOutcome)
    (hi : d.initialized = true) (hs : codec.serialize group = some data) :
    (d.spill env codec device group).2.initialized = true ∧
      (d.spill env codec device group).2.spills = d.spills + 1 ∧
      ∀ id, (d.spill env codec device group).1 = .ok id ↔
        id = env.spillId d.spills ∧ Accepts codec group (device d.spills) := by
  cases hd : device d.spills <;> simp [spill, hi, hs, hd, Accepts, eq_comm]

theorem Represents.spilled {g g' : DiskStorage} {d' : ByteStorage} (h : Represents env codec d g)
    (hi : d'.initialized = true ∧ g'.initialized = true)
    (hdrawn : d'.spills = d.spills + 1 ∧ g'.spills = g.spills + 1) {kept : Option ℕ}
    (hread : ∀ offset, d'.files.read offset = kept.elim (d.files.read offset) fun kept =>
      if offset = env.spillId d.spills then some ((frame data).take kept)
      else d.files.read offset)
    (hfiles : g'.files = (leaves data kept).files (env.spillId g.spills) group ++ g.files)
    (hlen : data.length < 2 ^ 31) (hparse : codec.parse data = some group) :
    Represents env codec d' g' := by
  have hspills : d'.spills = g'.spills := by rw [hdrawn.1, hdrawn.2, h.spills]
  have hload : ∀ offset, d'.files.read offset = d.files.read offset →
      d'.load codec offset = d.load codec offset := fun offset ho => by
    simp only [load, hi.1, h.initialized.1, ho]
  cases kept with
  | none =>
    have hfiles' : g'.files = g.files := hfiles
    have hread' : ∀ offset, d'.files.read offset = d.files.read offset := hread
    refine ⟨hi, hspills, fun f hf => ?_, fun offset => ?_, fun offset group => ?_⟩
    · rw [hdrawn.2]
      exact (h.named f (hfiles' ▸ hf)).trans (env.spillId_strictMono (Nat.lt_succ_self _))
    · rw [hread', ← h.files, DiskStorage.has, hfiles', DiskStorage.has]
    · rw [hload offset (hread' offset), ← h.loads, DiskStorage.find_congr hfiles']
  | some kept =>
    -- what the new file holds is what a load of it returns
    obtain ⟨content, hfiles', hcontent⟩ : ∃ content,
        g'.files = (env.spillId g.spills, content) :: g.files ∧ ∀ group',
          content = some group' ↔ readFile codec ((frame data).take kept) = .ok group' := by
      by_cases hwhole : 4 + data.length ≤ kept ∧ data.length ≤ 100 * 1024 * 1024
      · rw [leaves, if_pos hwhole] at hfiles
        refine ⟨some group, hfiles, fun group' => ?_⟩
        rw [(readFile_frame_iff hlen kept hparse).mpr hwhole, Option.some.injEq,
          Except.ok.injEq]
      · rw [leaves, if_neg hwhole] at hfiles
        refine ⟨none, hfiles, fun group' => ?_⟩
        rw [readFile_frame hlen, readBody_data hlen hparse]
        split_ifs <;> simp
        omega
    have hread' : ∀ offset, d'.files.read offset =
        if offset = env.spillId g.spills then some ((frame data).take kept)
        else d.files.read offset := h.spills ▸ hread
    refine ⟨hi, hspills, fun f hf => ?_, fun offset => ?_, fun offset group => ?_⟩
    · have hnext := env.spillId_strictMono (Nat.lt_succ_self g.spills)
      rw [hfiles'] at hf
      rw [hdrawn.2]
      rcases List.mem_cons.mp hf with rfl | hf
      · exact hnext
      · exact (h.named f hf).trans hnext
    · rw [DiskStorage.has_write g g' _ content hfiles', hread', h.files]
      split_ifs with ho <;> simp [ho]
    · rw [DiskStorage.find_write g g' _ content hfiles']
      split_ifs with ho
      · rw [hcontent, load, hi.1, hread', if_pos ho]
        rfl
      · rw [hload offset ((hread' offset).trans (if_neg ho)), h.loads]

/-- A spill at the level of groups is one at the level of bytes, if the device fails where it
does, leaving the same, and covers what it takes. -/
theorem spill_represents {g : DiskStorage} (h : Represents env codec d g)
    (hs : codec.serialize group = some data) (hlen : data.length < 2 ^ 31)
    (hparse : codec.parse data = some group)
    (same : env.fault g.calls = false ↔ Accepts codec group (device d.spills))
    (left : env.fault g.calls = true →
      env.leftover g.calls = leaves data (device d.spills).kept)
    (covers : Covers codec group (device d.spills)) :
    (∀ id, (d.spill env codec device group).1 = .ok id ↔ (g.spill env group).1 = .ok id) ∧
      Represents env codec (d.spill env codec device group).2 (g.spill env group).2 := by
  obtain ⟨hi, hdrawn, hok⟩ := spill_draws env device h.initialized.1 hs
  have hleaves : env.fault g.calls = false →
      leaves data (device d.spills).kept = .whole := fun hf => by
    obtain ⟨-, written, hd⟩ := same.mp hf
    rw [hd, SpillOutcome.kept, leaves, if_pos (covers data written hs hd)]
  have hspill : g.spill env group =
      (if env.fault g.calls then .error .deviceError else .ok (env.spillId g.spills), { g with
        files := (leaves data (device d.spills).kept).files (env.spillId g.spills) group ++ g.files
        spills := g.spills + 1
        calls := g.calls + 1 }) := by
    cases hf : env.fault g.calls with
    | true => simp [DiskStorage.spill, h.initialized.2, hf, left hf]
    | false => simp [DiskStorage.spill, h.initialized.2, hf, hleaves hf, Leftover.files]
  rw [hspill]
  refine ⟨fun id => ?_, h.spilled ⟨hi, h.initialized.2⟩ ⟨hdrawn, rfl⟩
    (read_spill h.initialized.1 hs) rfl hlen hparse⟩
  rw [hok, ← same, h.spills]
  cases env.fault g.calls <;> simp [eq_comm]

theorem load_represents {g : DiskStorage} (h : Represents env codec d g) {offset : ℕ}
    (works : env.fault g.calls = false) (group : TrajectoryGroup) :
    (g.load env offset).1 = .ok group ↔ d.load codec offset = .ok group := by
  rw [← h.loads]
  cases hfind : g.find offset <;> simp [DiskStorage.load, h.initialized.2, works, hfind]

end GroupLevel
end ByteStorage
end TransferQueue
