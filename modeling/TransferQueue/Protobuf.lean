import TransferQueue.Environment
import TransferQueue.Library.Bytes

/-! Serialised protobuf messages. The protobuf library is a parameter of the
model; the encoding below is the one it gives the messages of the buffer. -/

namespace TransferQueue

open Bytes

section Codec
variable {α : Type}

/-- `SerializeToString` and `ParseFromString` of a message type; both may fail. -/
structure Codec (α : Type) where
  serialize : α → Option (List UInt8)
  parse : List UInt8 → Option α

def Codec.Inverts (codec : Codec α) : Prop :=
  ∀ a data, codec.serialize a = some data → codec.parse data = some a

/-- No message is serialised to more than `INT_MAX` bytes. -/
def Codec.Bounded (codec : Codec α) : Prop :=
  ∀ a data, codec.serialize a = some data → data.length < 2 ^ 31

def Codec.ofEncoding [DecidableEq α] (encode : α → List UInt8) (known : List α) : Codec α where
  serialize a := if a ∈ known then some (encode a) else none
  parse data := known.find? fun a => encode a = data

variable [DecidableEq α] {encode : α → List UInt8}

theorem Codec.ofEncoding_serialize {known : List α} {a : α} (h : a ∈ known) :
    (Codec.ofEncoding encode known).serialize a = some (encode a) := if_pos h

/-- Messages whose encodings differ are told apart. -/
theorem Codec.ofEncoding_inverts {known : List α}
    (h : ∀ a ∈ known, ∀ b ∈ known, encode a = encode b → a = b) :
    (Codec.ofEncoding encode known).Inverts := by
  intro a data hs
  simp only [ofEncoding] at hs
  split_ifs at hs with ha
  cases hs
  change known.find? (fun b => decide (encode b = encode a)) = some a
  cases hf : known.find? fun b => decide (encode b = encode a) with
  | none =>
    have hne := List.find?_eq_none.mp hf a ha
    exact absurd (decide_eq_true rfl) hne
  | some b =>
    have hfound := List.find?_some hf
    have hb : encode b = encode a := of_decide_eq_true hfound
    rw [h b (List.mem_of_find?_eq_some hf) a ha hb]

end Codec

section Encoding

/-- Base-128 digits, least significant first, all but the last marked. -/
def varintDigits : ℕ → ℕ → List UInt8
  | 0, n => [UInt8.ofNat (n % 128)]
  | k + 1, n => UInt8.ofNat (n % 128 + 128) :: varintDigits k (n / 128)

def varint (n : ℕ) : List UInt8 := varintDigits (n.log2 / 7) n

theorem length_varint (n : ℕ) : (varint n).length = varintSize n := by
  have hdigits : ∀ k n, (varintDigits k n).length = k + 1 := by
    intro k
    induction k with
    | zero => exact fun _ => rfl
    | succ k ih => exact fun n => by rw [varintDigits, List.length_cons, ih]
  exact hdigits _ _

def encodeDelimited (tag : UInt8) (body : List UInt8) : List UInt8 :=
  tag :: varint body.length ++ body

theorem length_encodeDelimited (tag : UInt8) (body : List UInt8) :
    (encodeDelimited tag body).length = lengthDelimited body.length := by
  rw [encodeDelimited, List.cons_append, List.length_cons, List.length_append, length_varint,
    lengthDelimited]
  omega

def utf8 (s : String) : List UInt8 := s.toByteArray.data.toList

@[simp] theorem length_utf8 (s : String) : (utf8 s).length = s.utf8ByteSize := rfl

def encodeString (tag : UInt8) (s : String) : List UInt8 :=
  if s.utf8ByteSize = 0 then [] else encodeDelimited tag (utf8 s)

theorem length_encodeString (tag : UInt8) (s : String) :
    (encodeString tag s).length = stringField s := by
  rw [encodeString, stringField]
  split_ifs
  · rfl
  · rw [length_encodeDelimited, length_utf8]

/-- Negative numbers are sent as 64-bit two's complement. -/
def encodeInt32 (tag : UInt8) (n : ℤ) : List UInt8 :=
  if n = 0 then [] else tag :: varint (n % 2 ^ 64).toNat

theorem length_encodeInt32 (tag : UInt8) {n : ℤ} (hlo : -2 ^ 31 ≤ n) (hhi : n < 2 ^ 31) :
    (encodeInt32 tag n).length = int32Field n := by
  rw [encodeInt32, int32Field]
  split_ifs with hzero hneg
  · rfl
  · have hmod : (n % 2 ^ 64).toNat = (n + 2 ^ 64).toNat := by omega
    have hlog : (n % 2 ^ 64).toNat.log2 = 63 := by
      rw [hmod, Nat.log2_eq_iff (by omega)]
      omega
    rw [List.length_cons, length_varint, varintSize, hlog]
  · have hmod : (n % 2 ^ 64).toNat = n.toNat := by omega
    rw [List.length_cons, length_varint, hmod]
    omega

def ChatMessage.encode (m : ChatMessage) : List UInt8 :=
  encodeString 0x0A m.role ++ encodeString 0x12 m.content

def encodeMapEntry (p : String × String) : List UInt8 :=
  encodeDelimited 0x0A (utf8 p.1) ++ encodeDelimited 0x12 (utf8 p.2)

/-- The bits of a `double` are left to the parameter. -/
def Trajectory.encode (doubleBits : ℚ → ℕ) (t : Trajectory) : List UInt8 :=
  encodeString 0x0A t.uid ++ encodeString 0x12 t.instanceId ++
    t.messages.flatMap (fun m => encodeDelimited 0x1A m.encode) ++
    (if t.reward = 0 then [] else 0x21 :: toLE 8 (doubleBits t.reward)) ++
    t.extraInfo.flatMap fun p => encodeDelimited 0x2A (encodeMapEntry p)

def TrajectoryGroup.encode (doubleBits : ℚ → ℕ) (g : TrajectoryGroup) : List UInt8 :=
  encodeString 0x0A g.instanceId ++
    g.trajectories.flatMap (fun t => encodeDelimited 0x12 (t.encode doubleBits)) ++
    encodeInt32 0x18 g.groupSize ++ if g.isComplete then [0x20, 1] else []

theorem ChatMessage.length_encode (m : ChatMessage) : m.encode.length = m.wireSize := by
  rw [encode, List.length_append, length_encodeString, length_encodeString, wireSize]

theorem length_encodeMapEntry (p : String × String) :
    (encodeMapEntry p).length = mapEntrySize p := by
  rw [encodeMapEntry, List.length_append, length_encodeDelimited, length_encodeDelimited,
    length_utf8, length_utf8, mapEntrySize]

variable (doubleBits : ℚ → ℕ)

theorem Trajectory.length_encode (t : Trajectory) :
    (t.encode doubleBits).length = t.wireSize := by
  have hreward : (if t.reward = 0 then [] else 0x21 :: toLE 8 (doubleBits t.reward)).length =
      if t.reward = 0 then 0 else 9 := by
    split_ifs
    · rfl
    · rw [List.length_cons, length_toLE]
  simp only [encode, List.length_append, length_encodeString, List.length_flatMap, hreward,
    length_encodeDelimited, ChatMessage.length_encode, length_encodeMapEntry, wireSize]

theorem TrajectoryGroup.length_encode (g : TrajectoryGroup) (hlo : -2 ^ 31 ≤ g.groupSize)
    (hhi : g.groupSize < 2 ^ 31) : (g.encode doubleBits).length = g.wireSize := by
  have hcomplete : (if g.isComplete then [0x20, 1] else ([] : List UInt8)).length =
      if g.isComplete then 2 else 0 := by
    split_ifs <;> rfl
  simp only [encode, List.length_append, length_encodeString, List.length_flatMap,
    length_encodeDelimited, Trajectory.length_encode, length_encodeInt32 _ hlo hhi, hcomplete,
    wireSize]

/-- Protobuf on the groups listed, none of which carries a reward. -/
def Codec.sample (known : List TrajectoryGroup) : Codec TrajectoryGroup :=
  .ofEncoding (TrajectoryGroup.encode fun _ => 0) known

end Encoding
end TransferQueue
