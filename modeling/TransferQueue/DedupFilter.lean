import TransferQueue.Environment

/-! The uid filter of a shard: a bloom filter in front of an exact LRU set.
List nodes carry an address, so that the map can point into the list as the
iterators of the source do. -/

namespace TransferQueue

structure DedupFilter where
  maxSize : ℕ
  bloomBits : List Bool
  bloomNumHashes : ℕ
  /-- Front is newest. -/
  lruList : List (ℕ × String)
  /-- uid to the address of its list node. -/
  lruMap : List (String × ℕ)
  nextNode : ℕ
  deriving DecidableEq

namespace DedupFilter

/-- The constructor, given the bit and hash counts it computes. -/
def create (maxSize bitCount numHashes : ℕ) : DedupFilter :=
  ⟨max maxSize 1, List.replicate bitCount false, numHashes, [], [], 0⟩

def size (f : DedupFilter) : ℕ := f.lruMap.length

def bloomBitCount (f : DedupFilter) : ℕ := f.bloomBits.length

/-- FNV-1a; a byte above 127 is sign-extended by the cast from `char`. -/
def fnv1a (uid : String) : ℕ :=
  uid.toUTF8.toList.foldl
    (fun h c =>
      let byte := if c.toNat < 128 then c.toNat else 2 ^ 64 - 256 + c.toNat
      sizeT ((h ^^^ byte) * 1099511628211))
    14695981039346656037

/-- `h1 + i * h2`, before the reduction to the number of bits. -/
def doubleHash (stdHash : String → ℕ) (uid : String) (i : ℕ) : ℕ :=
  sizeT (stdHash uid + i * fnv1a uid)

section Operations
variable (hash : String → ℕ → ℕ)

def bloomHash (f : DedupFilter) (uid : String) (i : ℕ) : ℕ := hash uid i % f.bloomBits.length

def bloomAdd (f : DedupFilter) (uid : String) : DedupFilter :=
  { f with
    bloomBits := (List.range f.bloomNumHashes).foldl
      (fun bits i => bits.set (f.bloomHash hash uid i) true) f.bloomBits }

def bloomMaybeContains (f : DedupFilter) (uid : String) : Bool :=
  (List.range f.bloomNumHashes).all fun i => f.bloomBits.getD (f.bloomHash hash uid i) false

def bloomRebuild (f : DedupFilter) : DedupFilter :=
  f.lruList.foldl (fun f node => f.bloomAdd hash node.2)
    { f with bloomBits := List.replicate f.bloomBits.length false }

/-- The eviction loop, on the list from its oldest node on. -/
def evictLoop (maxSize : ℕ) :
    List (ℕ × String) → List (String × ℕ) → List (ℕ × String) × List (String × ℕ)
  | [], map => ([], map)
  | oldest :: newer, map =>
    if maxSize < map.length then
      evictLoop maxSize newer (map.filter fun p => p.1 ≠ oldest.2)
    else (oldest :: newer, map)

def evictOldest (f : DedupFilter) : DedupFilter :=
  if f.maxSize < f.size then
    let left := evictLoop f.maxSize f.lruList.reverse f.lruMap
    bloomRebuild hash { f with lruList := left.1.reverse, lruMap := left.2 }
  else f

def contains (f : DedupFilter) (uid : String) : Bool :=
  f.bloomMaybeContains hash uid && (f.lruMap.find? fun p => p.1 = uid).isSome

def insert (f : DedupFilter) (uid : String) : Bool × DedupFilter :=
  match f.lruMap.find? fun p => p.1 = uid with
  | some (_, node) =>
    (false, { f with
      lruList := (f.lruList.filter fun n => n.1 = node) ++
        f.lruList.filter fun n => n.1 ≠ node })
  | none =>
    let f := { f with
      lruList := (f.nextNode, uid) :: f.lruList
      lruMap := (uid, f.nextNode) :: f.lruMap
      nextNode := f.nextNode + 1 }
    let f := f.bloomAdd hash uid
    (true, if f.maxSize < f.size then f.evictOldest hash else f)

end Operations

def clear (f : DedupFilter) : DedupFilter :=
  { f with lruList := [], lruMap := [], bloomBits := List.replicate f.bloomBits.length false }

end DedupFilter
end TransferQueue
