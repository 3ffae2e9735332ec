import TransferQueue.Protobuf
import TransferQueue.Library.FileSystem
import TransferQueue.Library.DoForEach

/-! The storage directory at the level of bytes: the frame a group is written in,
what the device does to a spill, and what a load makes of the file it finds. -/

namespace TransferQueue

open Bytes

namespace SpillFile

section Frame

def writeU32LE (val : UInt32) : List UInt8 := toLE 4 val.toNat

def readU32LE (buf : List UInt8) : UInt32 := UInt32.ofNat (ofLE buf)

/-- The sum is one of 32-bit numbers. -/
def totalSize (dataLen : UInt32) : UInt64 := (4 + dataLen).toUInt64

def align : UInt64 := 4096

def alignedSize (dataLen : UInt32) : UInt64 := (totalSize dataLen + align - 1) / align * align

/-- The buffer handed to `dma_write`: length, data, zeros. -/
def frame (data : List UInt8) : List UInt8 :=
  let dataLen := UInt32.ofNat data.length
  writeU32LE dataLen ++ data.take dataLen.toNat ++
    List.replicate (alignedSize dataLen - totalSize dataLen).toNat 0

theorem readU32LE_writeU32LE (val : UInt32) : readU32LE (writeU32LE val) = val := by
  rw [readU32LE, writeU32LE, ofLE_toLE_of_lt (w := 4) val.toNat_lt, UInt32.ofNat_toNat]

variable {data : List UInt8}

theorem dataLen_toNat (h : data.length < 2 ^ 31) : (UInt32.ofNat data.length).toNat = data.length :=
  UInt32.toNat_ofNat_of_lt' (by simp only [UInt32.size]; omega)

theorem totalSize_toNat (h : data.length < 2 ^ 31) :
    (totalSize (UInt32.ofNat data.length)).toNat = 4 + data.length := by
  rw [totalSize, UInt32.toNat_toUInt64, UInt32.toNat_add, dataLen_toNat h]
  exact Nat.mod_eq_of_lt (by simp only [UInt32.reduceToNat]; omega)

theorem alignedSize_toNat (h : data.length < 2 ^ 31) :
    (alignedSize (UInt32.ofNat data.length)).toNat = (4 + data.length + 4095) / 4096 * 4096 := by
  have htotal := totalSize_toNat h
  have hsum : (totalSize (UInt32.ofNat data.length) + align - 1).toNat =
      4 + data.length + 4095 := by
    rw [UInt64.toNat_sub, UInt64.toNat_add, htotal]
    simp only [align, UInt64.reduceToNat]
    omega
  rw [alignedSize, UInt64.toNat_mul, UInt64.toNat_div, hsum]
  simp only [align, UInt64.reduceToNat]
  exact Nat.mod_eq_of_lt (by omega)

/-- The aligned size covers header and body, by less than a block. -/
structure SizesFit (data : List UInt8) : Prop where
  total : (totalSize (UInt32.ofNat data.length)).toNat = 4 + data.length
  blocks : 4096 ∣ (alignedSize (UInt32.ofNat data.length)).toNat
  covers : 4 + data.length ≤ (alignedSize (UInt32.ofNat data.length)).toNat
  tight : (alignedSize (UInt32.ofNat data.length)).toNat < 4 + data.length + 4096
  buffer : (frame data).length = (alignedSize (UInt32.ofNat data.length)).toNat

theorem frame_eq (h : data.length < 2 ^ 31) : ∃ padding, frame data =
    writeU32LE (UInt32.ofNat data.length) ++ data ++ padding ∧
      4 + data.length + padding.length = (alignedSize (UInt32.ofNat data.length)).toNat := by
  have haligned := alignedSize_toNat h
  have htotal := totalSize_toNat h
  refine ⟨List.replicate (alignedSize (UInt32.ofNat data.length) -
    totalSize (UInt32.ofNat data.length)).toNat 0, ?_, ?_⟩
  · rw [frame, dataLen_toNat h, List.take_length]
  · rw [List.length_replicate, UInt64.toNat_sub_of_le _ _ (UInt64.le_iff_toNat_le.mpr ?_)]
    all_goals omega

theorem sizesFit (h : data.length < 2 ^ 31) : SizesFit data where
  total := totalSize_toNat h
  blocks := by
    rw [alignedSize_toNat h]
    exact dvd_mul_left ..
  covers := by
    rw [alignedSize_toNat h]
    omega
  tight := by
    rw [alignedSize_toNat h]
    omega
  buffer := by
    obtain ⟨padding, hframe, hlength⟩ := frame_eq h
    rw [hframe, List.length_append, List.length_append, writeU32LE, length_toLE, hlength]

end Frame

section Load

/-- The limit `load` sets on the length it reads. -/
def maxLength : UInt32 := 100 * 1024 * 1024

def readHeader (header : List UInt8) : Except Failure UInt32 :=
  if header.length < 4 then .error (.runtimeError "Unexpected EOF reading header")
  else
    let len := readU32LE header
    if maxLength < len then .error (.runtimeError "Group size too large") else .ok len

variable (codec : Codec TrajectoryGroup)

def readBody (len : UInt32) (body : List UInt8) : Except Failure TrajectoryGroup :=
  if body.length < len.toNat then .error (.runtimeError "Unexpected EOF reading body")
  else
    match codec.parse body with
    | none => .error (.runtimeError "Failed to parse group")
    | some group => .ok group

/-- `load` on the contents of the file. -/
def readFile (contents : List UInt8) : Except Failure TrajectoryGroup := do
  let len ← readHeader (contents.take 4)
  readBody codec len ((contents.drop 4).take len.toNat)

variable {codec} {data : List UInt8}

theorem header_of_frame (h : data.length < 2 ^ 31) {written : ℕ} (hw : 4 ≤ written) :
    ((frame data).take written).take 4 = writeU32LE (UInt32.ofNat data.length) := by
  obtain ⟨padding, hframe, -⟩ := frame_eq h
  have hheader : (writeU32LE (UInt32.ofNat data.length)).length = 4 := length_toLE ..
  rw [List.take_take, min_eq_left hw, hframe, List.append_assoc, ← hheader, List.take_left]

theorem body_of_frame (h : data.length < 2 ^ 31) {n : ℕ} (hn : n ≤ data.length) :
    ((frame data).drop 4).take n = data.take n := by
  obtain ⟨padding, hframe, -⟩ := frame_eq h
  have hheader : (writeU32LE (UInt32.ofNat data.length)).length = 4 := length_toLE ..
  rw [hframe, List.append_assoc, ← hheader, List.drop_left, List.take_append_of_le_length hn]

theorem readHeader_length (h : data.length < 2 ^ 31) :
    readHeader (writeU32LE (UInt32.ofNat data.length)) =
      if 100 * 1024 * 1024 < data.length then .error (.runtimeError "Group size too large")
      else .ok (UInt32.ofNat data.length) := by
  have hheader : (writeU32LE (UInt32.ofNat data.length)).length = 4 := length_toLE ..
  have hlimit : (maxLength < UInt32.ofNat data.length) ↔ 100 * 1024 * 1024 < data.length := by
    rw [UInt32.lt_iff_toNat_lt, dataLen_toNat h]
    rfl
  rw [readHeader, hheader, if_neg (lt_irrefl 4), readU32LE_writeU32LE]
  simp only [hlimit]

theorem readBody_data (h : data.length < 2 ^ 31) {group : TrajectoryGroup}
    (hparse : codec.parse data = some group) :
    readBody codec (UInt32.ofNat data.length) data = .ok group := by
  rw [readBody, dataLen_toNat h, if_neg (lt_irrefl _), hparse]

/-- What a load makes of a frame of which a part reached the file. -/
theorem readFile_frame (h : data.length < 2 ^ 31) (written : ℕ) :
    readFile codec ((frame data).take written) =
      if written < 4 then .error (.runtimeError "Unexpected EOF reading header")
      else if 100 * 1024 * 1024 < data.length then .error (.runtimeError "Group size too large")
      else if written < 4 + data.length then .error (.runtimeError "Unexpected EOF reading body")
      else readBody codec (UInt32.ofNat data.length) data := by
  by_cases hw : written < 4
  · have hshort : (((frame data).take written).take 4).length < 4 := by
      simp only [List.length_take]
      omega
    rw [readFile, readHeader, if_pos hshort, if_pos hw]
    rfl
  · have hbody : (((frame data).take written).drop 4).take data.length =
        data.take (min data.length (written - 4)) := by
      rw [List.drop_take, List.take_take, body_of_frame h (min_le_left _ _)]
    rw [readFile, header_of_frame h (Nat.le_of_not_lt hw), readHeader_length h, if_neg hw]
    split_ifs with hlarge hend
    · rfl
    · change readBody codec _ _ = _
      rw [dataLen_toNat h, hbody, readBody, dataLen_toNat h, if_pos]
      rw [List.length_take]
      omega
    · change readBody codec _ _ = _
      rw [dataLen_toNat h, hbody, min_eq_left (by omega), List.take_length]

theorem readFile_frame_iff (h : data.length < 2 ^ 31) (written : ℕ) {group : TrajectoryGroup}
    (hparse : codec.parse data = some group) :
    readFile codec ((frame data).take written) = .ok group ↔
      4 + data.length ≤ written ∧ data.length ≤ 100 * 1024 * 1024 := by
  rw [readFile_frame h, readBody_data h hparse]
  split_ifs <;> simp only [false_iff, true_iff] <;> omega

end Load
end SpillFile

/-- What becomes of one spill once its file is asked for. `dma_write` reports how many
bytes it wrote, which may be fewer than it was given; when it fails, some may have
reached the file. -/
inductive SpillOutcome where
  | openFails
  | noMemory
  | writeFails (kept : ℕ)
  | closeFails (written : ℕ)
  | closes (written : ℕ)
  deriving DecidableEq

/-- How much of the buffer the file holds afterwards, if there is a file. -/
def SpillOutcome.kept : SpillOutcome → Option ℕ
  | openFails => none
  | noMemory => some 0
  | writeFails kept => some kept
  | closeFails written => some written
  | closes written => some written

/-- The directory of a shard with the bytes of its files. -/
structure ByteStorage where
  initialized : Bool
  files : FileSystem ℕ UInt8
  /-- Spill ids drawn so far. -/
  spills : ℕ

namespace ByteStorage
open SpillFile

def fresh : ByteStorage := ⟨true, .empty, 0⟩

/-- The part of the buffer that `dma_write` takes, in a file opened anew. -/
def writeFile (id : ℕ) (data : List UInt8) (written : ℕ) (files : FileSystem ℕ UInt8) :
    FileSystem ℕ UInt8 :=
  let r := files.openCreate id
  r.2.write r.1 ((frame data).take written)

theorem read_writeFile (id : ℕ) (data : List UInt8) (written : ℕ) (files : FileSystem ℕ UInt8) :
    (writeFile id data written files).read id = some ((frame data).take written) := by
  rw [writeFile, FileSystem.read_write_openCreate, if_pos rfl]

theorem read_writeFile_of_ne {id id' : ℕ} (h : id' ≠ id) (data : List UInt8) (written : ℕ)
    (files : FileSystem ℕ UInt8) : (writeFile id data written files).read id' = files.read id' := by
  rw [writeFile, FileSystem.read_write_openCreate, if_neg h]

section Calls
variable (env : Env) (codec : Codec TrajectoryGroup) (device : ℕ → SpillOutcome)

/-- The `k`-th spill meets the `k`-th outcome. What `dma_write` reports is ignored. -/
def spill (group : TrajectoryGroup) (d : ByteStorage) : Except Failure ℕ × ByteStorage :=
  if !d.initialized then (.error (.runtimeError "Not initialized"), d)
  else
    match codec.serialize group with
    | none => (.error (.runtimeError "Failed to serialize group"), d)
    | some data =>
      let id := env.spillId d.spills
      let d' := { d with spills := d.spills + 1 }
      match device d.spills with
      | .openFails => (.error .deviceError, d')
      | .noMemory =>
        (.error (.runtimeError "std::bad_alloc"), { d' with files := (d.files.openCreate id).2 })
      | .writeFails kept =>
        (.error .deviceError, { d' with files := writeFile id data kept d.files })
      | .closeFails written =>
        (.error .deviceError, { d' with files := writeFile id data written d.files })
      | .closes written => (.ok id, { d' with files := writeFile id data written d.files })

def spillBatch (groups : List TrajectoryGroup) (d : ByteStorage) :
    Except Failure (List ℕ) × ByteStorage :=
  DoForEach.doForEach (spill env codec device) groups d

def load (offset : ℕ) (d : ByteStorage) : Except Failure TrajectoryGroup :=
  if !d.initialized then .error (.runtimeError "Not initialized")
  else
    match d.files.read offset with
    | none => .error .noSuchFile
    | some contents => readFile codec contents

variable {codec device} {group : TrajectoryGroup} {data : List UInt8} {d : ByteStorage}

/-- A spill resolves exactly if the device reports success, whatever it has written. -/
theorem spill_closes (hi : d.initialized = true) (hs : codec.serialize group = some data)
    {written : ℕ} (h : device d.spills = .closes written) :
    d.spill env codec device group = (.ok (env.spillId d.spills),
      { d with
        files := writeFile (env.spillId d.spills) data written d.files
        spills := d.spills + 1 }) := by
  simp [spill, hi, hs, h]

theorem spill_ok_iff (hi : d.initialized = true) (hs : codec.serialize group = some data) {id : ℕ}
    {d' : ByteStorage} : d.spill env codec device group = (.ok id, d') ↔
      ∃ written, device d.spills = .closes written ∧ id = env.spillId d.spills ∧
        d' = { d with
          files := writeFile (env.spillId d.spills) data written d.files
          spills := d.spills + 1 } := by
  constructor
  · intro h
    cases hd : device d.spills with
    | closes written =>
      rw [spill_closes env hi hs hd] at h
      cases h
      exact ⟨written, rfl, rfl, rfl⟩
    | _ => simp [spill, hi, hs, hd] at h
  · rintro ⟨written, hd, rfl, rfl⟩
    exact spill_closes env hi hs hd

theorem load_writeFile (hi : d.initialized = true) (id written : ℕ) (spills : ℕ) :
    ({ d with files := writeFile id data written d.files, spills } : ByteStorage).load codec id =
      readFile codec ((frame data).take written) := by
  simp [load, hi, read_writeFile]

end Calls
end ByteStorage
end TransferQueue
