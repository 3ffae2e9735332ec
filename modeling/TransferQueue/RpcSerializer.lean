import TransferQueue.Protobuf

/-! The serializer of the RPC protocol: a recursive family of types, written
little-endian with 32-bit length prefixes. -/

namespace TransferQueue.RpcSerializer

open Bytes

/-- The types an RPC carries, over the protobuf message types `M`. -/
inductive WireType (M : Type) where
  | int32
  | uint32
  | int64
  | uint64
  | bool
  | sstring
  | message (type : M)
  | vector (item : WireType M)

/-- A `std::runtime_error` of the serializer, or the error with which an input stream
refuses to read past its end. -/
inductive WireError where
  | runtimeError (what : String)
  | outOfRange
  deriving DecidableEq

variable {M : Type} (msg : M → Type)

abbrev Value : WireType M → Type
  | .int32 => Int32
  | .uint32 => UInt32
  | .int64 => Int64
  | .uint64 => UInt64
  | .bool => Bool
  | .sstring => List UInt8
  | .message m => msg m
  | .vector t => List (Value t)

section Streams

/-- `write_stream_le` of a value of `w` bytes. -/
def writeStreamLE (w bits : ℕ) : List UInt8 := toLE w bits

def readStreamLE (w : ℕ) : Reader WireError ℕ := ofLE <$> Reader.take .outOfRange w

def writeInt32 (v : Int32) : List UInt8 := writeStreamLE 4 v.toUInt32.toNat
def writeUInt32 (v : UInt32) : List UInt8 := writeStreamLE 4 v.toNat
def writeInt64 (v : Int64) : List UInt8 := writeStreamLE 8 v.toUInt64.toNat
def writeUInt64 (v : UInt64) : List UInt8 := writeStreamLE 8 v.toNat
def writeBool (v : Bool) : List UInt8 := writeStreamLE 1 v.toNat

def readInt32 : Reader WireError Int32 := (fun n => (UInt32.ofNat n).toInt32) <$> readStreamLE 4
def readUInt32 : Reader WireError UInt32 := UInt32.ofNat <$> readStreamLE 4
def readInt64 : Reader WireError Int64 := (fun n => (UInt64.ofNat n).toInt64) <$> readStreamLE 8
def readUInt64 : Reader WireError UInt64 := UInt64.ofNat <$> readStreamLE 8
def readBool : Reader WireError Bool := (fun n => decide (n ≠ 0)) <$> readStreamLE 1

theorem reads_stream {w bits : ℕ} (h : bits < 256 ^ w) :
    Reads (readStreamLE w) (writeStreamLE w bits) bits := by
  have hread := (Reads.take WireError.outOfRange (length_toLE w bits)).map ofLE
  rwa [ofLE_toLE_of_lt h] at hread

theorem reads_uint32 (v : UInt32) : Reads readUInt32 (writeUInt32 v) v := by
  have hread := (reads_stream (w := 4) v.toNat_lt).map UInt32.ofNat
  rwa [UInt32.ofNat_toNat] at hread

theorem reads_int32 (v : Int32) : Reads readInt32 (writeInt32 v) v := by
  have hread := (reads_stream (w := 4) v.toUInt32.toNat_lt).map fun n =>
    (UInt32.ofNat n).toInt32
  rwa [UInt32.ofNat_toNat, Int32.toInt32_toUInt32] at hread

theorem reads_uint64 (v : UInt64) : Reads readUInt64 (writeUInt64 v) v := by
  have hread := (reads_stream (w := 8) v.toNat_lt).map UInt64.ofNat
  rwa [UInt64.ofNat_toNat] at hread

theorem reads_int64 (v : Int64) : Reads readInt64 (writeInt64 v) v := by
  have hread := (reads_stream (w := 8) v.toUInt64.toNat_lt).map fun n =>
    (UInt64.ofNat n).toInt64
  rwa [UInt64.ofNat_toNat, Int64.toInt64_toUInt64] at hread

theorem reads_bool (v : Bool) : Reads readBool (writeBool v) v := by
  have hread := (@reads_stream 1 v.toNat (by cases v <;> decide)).map fun n =>
    decide (n ≠ 0)
  rw [show decide (v.toNat ≠ 0) = v by cases v <;> rfl] at hread
  exact hread

/-- A string or a serialised message behind its length. -/
def writeBytes (s : List UInt8) : List UInt8 := writeUInt32 (UInt32.ofNat s.length) ++ s

def readBytes : Reader WireError (List UInt8) := do
  let size ← readUInt32
  Reader.take .outOfRange size.toNat

theorem reads_bytes {s : List UInt8} (h : s.length < 2 ^ 32) :
    Reads readBytes (writeBytes s) s :=
  (reads_uint32 _).bind (Reads.take _ (UInt32.toNat_ofNat_of_lt' h).symm)

end Streams

section Messages
variable {α : Type} (codec : Codec α)

def writeMessage (v : α) : Except WireError (List UInt8) :=
  match codec.serialize v with
  | none => .error (.runtimeError "Protobuf serialize failed")
  | some s => .ok (writeBytes s)

def readMessage : Reader WireError α := do
  let s ← readBytes
  match codec.parse s with
  | none => Reader.fail (.runtimeError "Protobuf parse failed")
  | some v => pure v

theorem reads_message {codec : Codec α} (inverts : codec.Inverts) {v : α} {s : List UInt8}
    (hs : codec.serialize v = some s) (h : s.length < 2 ^ 32) :
    Reads (readMessage codec) (writeBytes s) v := by
  refine (reads_bytes h).bind_pure ?_
  rw [inverts v s hs]
  exact Reads.pure v

end Messages

variable {msg} (codec : ∀ m, Codec (msg m))

/-- `write` and `write_impl`. -/
def write : (t : WireType M) → Value msg t → Except WireError (List UInt8)
  | .int32, v => .ok (writeInt32 v)
  | .uint32, v => .ok (writeUInt32 v)
  | .int64, v => .ok (writeInt64 v)
  | .uint64, v => .ok (writeUInt64 v)
  | .bool, v => .ok (writeBool v)
  | .sstring, v => .ok (writeBytes v)
  | .message m, v => writeMessage (codec m) v
  | .vector t, v => do
    let items ← v.mapM (write t)
    .ok (writeUInt32 (UInt32.ofNat v.length) ++ items.flatten)

/-- `read` and `read_impl`. -/
def read : (t : WireType M) → Reader WireError (Value msg t)
  | .int32 => readInt32
  | .uint32 => readUInt32
  | .int64 => readInt64
  | .uint64 => readUInt64
  | .bool => readBool
  | .sstring => readBytes
  | .message m => readMessage (codec m)
  | .vector t => do
    let size ← readUInt32
    Reader.times (read t) size.toNat

/-- The lengths of strings, serialised messages and vectors fit their prefixes. -/
def Fits : (t : WireType M) → Value msg t → Prop
  | .sstring, v => v.length < 2 ^ 32
  | .message m, v => ∀ s, (codec m).serialize v = some s → s.length < 2 ^ 32
  | .vector t, v => v.length < 2 ^ 32 ∧ ∀ item ∈ v, Fits t item
  | _, _ => True

/-- `SerializeToString` accepts every message in the value. -/
def Serializes : (t : WireType M) → Value msg t → Prop
  | .message m, v => (codec m).serialize v ≠ none
  | .vector t, v => ∀ item ∈ v, Serializes t item
  | _, _ => True

section Vectors
variable {α : Type} {f : α → Except WireError (List UInt8)}

theorem mapM_ok_iff (as : List α) :
    (∃ items, as.mapM f = .ok items) ↔ ∀ a ∈ as, ∃ item, f a = .ok item := by
  induction as with
  | nil => exact ⟨fun _ _ h => absurd h List.not_mem_nil, fun _ => ⟨[], rfl⟩⟩
  | cons a as ih =>
    rw [List.mapM_cons, List.forall_mem_cons, ← ih]
    rcases f a with e | item
    · exact ⟨fun ⟨_, h⟩ => (nomatch h), fun ⟨⟨_, h⟩, _⟩ => (nomatch h)⟩
    · rcases as.mapM f with e | items
      · exact ⟨fun ⟨_, h⟩ => (nomatch h), fun ⟨_, ⟨_, h⟩⟩ => (nomatch h)⟩
      · exact ⟨fun _ => ⟨⟨item, rfl⟩, ⟨items, rfl⟩⟩, fun _ => ⟨item :: items, rfl⟩⟩

theorem forall₂_of_mapM {as : List α} {items : List (List UInt8)} (h : as.mapM f = .ok items) :
    List.Forall₂ (fun item a => a ∈ as ∧ f a = .ok item) items as := by
  induction as generalizing items with
  | nil =>
    cases h
    exact .nil
  | cons a as ih =>
    rw [List.mapM_cons] at h
    rcases hf : f a with e | item
    · rw [hf] at h
      nomatch h
    · rw [hf] at h
      rcases hfs : as.mapM f with e | rest
      · rw [hfs] at h
        nomatch h
      · rw [hfs] at h
        cases h
        exact .cons ⟨List.mem_cons_self .., hf⟩
          ((ih hfs).imp fun _ _ h => ⟨List.mem_cons_of_mem _ h.1, h.2⟩)

end Vectors

theorem write_ok_iff (t : WireType M) (v : Value msg t) :
    (∃ bytes, write codec t v = .ok bytes) ↔ Serializes codec t v := by
  induction t with
  | int32 | uint32 | int64 | uint64 | bool | sstring => exact ⟨fun _ => trivial, fun _ => ⟨_, rfl⟩⟩
  | message m =>
    rw [write, writeMessage, Serializes]
    cases (codec m).serialize v <;> simp
  | vector t ih =>
    rw [Serializes, ← forall₂_congr fun item (_ : item ∈ v) => ih item, ← mapM_ok_iff, write]
    rcases v.mapM (write codec t) with e | items
    · exact ⟨fun ⟨_, h⟩ => (nomatch h), fun ⟨_, h⟩ => (nomatch h)⟩
    · exact ⟨fun _ => ⟨items, rfl⟩, fun _ => ⟨_, rfl⟩⟩

variable {codec}

/-- What `write` wrote, `read` reads back, and nothing more. -/
theorem reads_write (inverts : ∀ m, (codec m).Inverts) (t : WireType M) (v : Value msg t)
    (hfits : Fits codec t v) {bytes : List UInt8} (h : write codec t v = .ok bytes) :
    Reads (read codec t) bytes v := by
  induction t generalizing bytes with
  | int32 => cases h; exact reads_int32 v
  | uint32 => cases h; exact reads_uint32 v
  | int64 => cases h; exact reads_int64 v
  | uint64 => cases h; exact reads_uint64 v
  | bool => cases h; exact reads_bool v
  | sstring => cases h; exact reads_bytes hfits
  | message m =>
    rw [write, writeMessage] at h
    cases hs : (codec m).serialize v with
    | none =>
      rw [hs] at h
      nomatch h
    | some s =>
      rw [hs] at h
      cases h
      exact reads_message (inverts m) hs (hfits s hs)
  | vector t ih =>
    rw [write] at h
    rcases hitems : v.mapM (write codec t) with e | items
    · rw [hitems] at h
      nomatch h
    · rw [hitems] at h
      cases h
      -- each chunk is what one item was written as
      have hchunks : List.Forall₂ (Reads (read codec t)) items v :=
        (forall₂_of_mapM hitems).imp fun item a ⟨hmem, hwrite⟩ => ih a (hfits.2 a hmem) hwrite
      have hsize : (UInt32.ofNat v.length).toNat = v.length := UInt32.toNat_ofNat_of_lt' hfits.1
      refine (reads_uint32 _).bind ?_
      rw [hsize]
      exact Reads.times hchunks

theorem write_injective (inverts : ∀ m, (codec m).Inverts) (t : WireType M) {v v' : Value msg t}
    (hfits : Fits codec t v) (hfits' : Fits codec t v') {bytes : List UInt8}
    (h : write codec t v = .ok bytes) (h' : write codec t v' = .ok bytes) : v = v' :=
  (reads_write inverts t v hfits h).unique (reads_write inverts t v' hfits' h')

/-- The round trip through the wire: a value whose lengths fit their prefixes is
written if its messages serialise, and what was written is read back whole, with
all that follows it left in the stream. -/
theorem read_write (inverts : ∀ m, (codec m).Inverts) (t : WireType M) (v : Value msg t)
    (hfits : Fits codec t v) :
    ((∃ bytes, write codec t v = .ok bytes) ↔ Serializes codec t v) ∧
      ∀ bytes, write codec t v = .ok bytes →
        ∀ rest, (read codec t).run (bytes ++ rest) = .ok (v, rest) :=
  ⟨write_ok_iff codec t v, fun _ h => reads_write inverts t v hfits h⟩

/-- A nested vector of messages that protobuf serialises. -/
theorem read_write_nested :
    let group : TrajectoryGroup := ⟨"q", [.bare "u" "q"], 1, true⟩
    let codec : Unit → Codec TrajectoryGroup := fun _ => .sample [group]
    ∃ bytes, write codec (.vector (.vector (.message ()))) [[group], [], [group]] = .ok bytes ∧
      ∀ rest, (read codec (.vector (.vector (.message ())))).run (bytes ++ rest) =
        .ok ([[group], [], [group]], rest) := by
  intro group codec
  have inverts : ∀ m, (codec m).Inverts := fun _ => Codec.ofEncoding_inverts (by simp)
  have hserialize : (codec ()).serialize group = some (group.encode fun _ => 0) :=
    Codec.ofEncoding_serialize (List.mem_singleton_self group)
  have hfits : Fits codec (.message ()) group := by
    intro s hs
    cases hserialize.symm.trans hs
    rw [TrajectoryGroup.length_encode _ _ (by decide) (by decide)]
    decide +kernel
  have hroundtrip := read_write inverts (.vector (.vector (.message ())))
    [[group], [], [group]] ⟨by decide, by simpa [Fits] using hfits⟩
  obtain ⟨bytes, hwrite⟩ := hroundtrip.1.mpr (by simp [Serializes, hserialize])
  exact ⟨bytes, hwrite, hroundtrip.2 bytes hwrite⟩

end TransferQueue.RpcSerializer
