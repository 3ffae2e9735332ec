import Mathlib.Data.List.Perm.Basic
import TransferQueue.DedupFilter
import TransferQueue.Library.Machine
import TransferQueue.Library.Recency

/-! What the uid filter remembers. List, map and bits are kept in step by insertion,
promotion, eviction and clearing; the list is a recency list, so the filter answers for
the uids used within its window, and the bits never change an answer. -/

namespace TransferQueue
namespace DedupFilter

/-- The uids on the list, the one used last in front. -/
def uids (f : DedupFilter) : List String := f.lruList.map Prod.snd

/-- The map has one item for every node of the list and points to it; no uid and no address
occurs twice, and there is no node beyond the capacity. -/
structure Linked (f : DedupFilter) : Prop where
  paired : f.lruMap.Perm (f.lruList.map Prod.swap)
  distinct : f.uids.Nodup
  nodes : (f.lruList.map Prod.fst).Nodup
  fresh : ∀ n ∈ f.lruList, n.1 < f.nextNode
  bounded : f.lruList.length ≤ f.maxSize

structure Exact (hash : String → ℕ → ℕ) (f : DedupFilter) : Prop where
  nonempty : 0 < f.bloomBitCount
  bits : ∀ j, f.bloomBits.getD j false = true ↔
    ∃ uid ∈ f.uids, ∃ i < f.bloomNumHashes, f.bloomHash hash uid i = j

section Map
variable {list : List (ℕ × String)} {map : List (String × ℕ)} {uid : String}

theorem keys_perm (h : map.Perm (list.map Prod.swap)) :
    (map.map Prod.fst).Perm (list.map Prod.snd) := by
  have hswap : list.map (Prod.fst ∘ Prod.swap) = list.map Prod.snd := rfl
  simpa [hswap] using h.map Prod.fst

theorem find?_eq_none (h : map.Perm (list.map Prod.swap)) (uid : String) :
    (map.find? fun p => p.1 = uid) = none ↔ uid ∉ list.map Prod.snd := by
  rw [← (keys_perm h).mem_iff, List.find?_eq_none]
  simp only [decide_eq_true_eq, List.mem_map, not_exists, not_and]

theorem mem_of_find? (h : map.Perm (list.map Prod.swap)) {p : String × ℕ}
    (hfind : (map.find? fun p => p.1 = uid) = some p) : p.1 = uid ∧ (p.2, uid) ∈ list := by
  have huid : p.1 = uid := by simpa using List.find?_some hfind
  obtain ⟨node, hnode, hswap⟩ := List.mem_map.mp (h.subset (List.mem_of_find?_eq_some hfind))
  subst hswap
  exact ⟨huid, huid ▸ hnode⟩

end Map

section Bits
variable {hash : String → ℕ → ℕ} {f : DedupFilter} {uid : String}

theorem foldl_set_length (g : ℕ → ℕ) (is : List ℕ) (bits : List Bool) :
    (is.foldl (fun bits i => bits.set (g i) true) bits).length = bits.length := by
  induction is generalizing bits with
  | nil => rfl
  | cons i is ih => rw [List.foldl_cons, ih, List.length_set]

theorem foldl_set_getD (g : ℕ → ℕ) (is : List ℕ) (bits : List Bool) (j : ℕ)
    (hg : ∀ i, g i < bits.length) :
    (is.foldl (fun bits i => bits.set (g i) true) bits).getD j false = true ↔
      bits.getD j false = true ∨ ∃ i ∈ is, g i = j := by
  induction is generalizing bits with
  | nil => simp
  | cons i is ih =>
    rw [List.foldl_cons, ih _ (by simpa using hg), List.exists_mem_cons_iff, ← or_assoc]
    refine or_congr_left ?_
    by_cases hi : g i = j
    · subst hi
      simp [hg i]
    · simp [hi, List.getD_eq_getElem?_getD, List.getElem?_set_ne hi]

@[simp] theorem bloomAdd_bitCount (f : DedupFilter) (uid : String) :
    (f.bloomAdd hash uid).bloomBits.length = f.bloomBits.length :=
  foldl_set_length ..

theorem bloomAdd_bit (hash : String → ℕ → ℕ) (hf : 0 < f.bloomBits.length) (uid : String) (j : ℕ) :
    (f.bloomAdd hash uid).bloomBits.getD j false = true ↔
      f.bloomBits.getD j false = true ∨ ∃ i < f.bloomNumHashes, f.bloomHash hash uid i = j := by
  refine (foldl_set_getD (f.bloomHash hash uid) _ _ j fun i => Nat.mod_lt _ hf).trans ?_
  simp only [List.mem_range]

theorem bloomAdds (nodes : List (ℕ × String)) (hf : 0 < f.bloomBits.length) (j : ℕ) :
    (nodes.foldl (fun f node => f.bloomAdd hash node.2) f).bloomBits.getD j false = true ↔
      f.bloomBits.getD j false = true ∨
        ∃ uid ∈ nodes.map Prod.snd, ∃ i < f.bloomNumHashes, f.bloomHash hash uid i = j := by
  induction nodes generalizing f with
  | nil => simp
  | cons node nodes ih =>
    have hhash : ∀ uid i, (f.bloomAdd hash node.2).bloomHash hash uid i = f.bloomHash hash uid i :=
      fun uid i => by rw [bloomHash, bloomAdd_bitCount, bloomHash]
    rw [List.foldl_cons, ih (by simpa using hf), bloomAdd_bit hash hf, List.map_cons,
      List.exists_mem_cons_iff, ← or_assoc]
    simp only [hhash]
    rfl

theorem bloomAdds_frame (hash : String → ℕ → ℕ) (nodes : List (ℕ × String)) (f : DedupFilter) :
    nodes.foldl (fun f node => f.bloomAdd hash node.2) f =
      { f with bloomBits :=
          (nodes.foldl (fun f node => f.bloomAdd hash node.2) f).bloomBits } ∧
      (nodes.foldl (fun f node => f.bloomAdd hash node.2) f).bloomBits.length =
        f.bloomBits.length := by
  induction nodes generalizing f with
  | nil => exact ⟨rfl, rfl⟩
  | cons node nodes ih =>
    obtain ⟨hframe, hlength⟩ := ih (f.bloomAdd hash node.2)
    rw [List.foldl_cons]
    exact ⟨hframe, hlength.trans (bloomAdd_bitCount f node.2)⟩

theorem bloomRebuild_frame (hash : String → ℕ → ℕ) (f : DedupFilter) :
    f.bloomRebuild hash = { f with bloomBits := (f.bloomRebuild hash).bloomBits } ∧
      (f.bloomRebuild hash).bloomBits.length = f.bloomBits.length := by
  obtain ⟨hframe, hlength⟩ := bloomAdds_frame hash f.lruList
    { f with bloomBits := List.replicate f.bloomBits.length false }
  refine ⟨hframe, ?_⟩
  rw [bloomRebuild, hlength, List.length_replicate]

theorem bloomRebuild_exact (hf : 0 < f.bloomBitCount) : (f.bloomRebuild hash).Exact hash := by
  obtain ⟨hframe, hlength⟩ := bloomRebuild_frame hash f
  have huids : (f.bloomRebuild hash).uids = f.uids := by rw [hframe]; rfl
  have hhashes : (f.bloomRebuild hash).bloomNumHashes = f.bloomNumHashes := by rw [hframe]
  refine ⟨by rwa [bloomBitCount, hlength], fun j => ?_⟩
  simp only [huids, hhashes, bloomHash, hlength]
  rw [bloomRebuild, bloomAdds _ (by simpa [bloomBitCount] using hf)]
  refine (or_iff_right ?_).trans ?_
  · rw [List.getD_eq_getElem?_getD, List.getElem?_replicate]
    split <;> simp
  · simp [bloomHash, uids]

end Bits

section Insert
variable {hash : String → ℕ → ℕ} {f : DedupFilter} {uid : String}

theorem evictLoop_spec (maxSize : ℕ) (olds : List (ℕ × String)) (map : List (String × ℕ))
    (hpaired : map.Perm (olds.map Prod.swap)) (hdistinct : (olds.map Prod.snd).Nodup) :
    (evictLoop maxSize olds map).1 = olds.drop (olds.length - maxSize) ∧
      (evictLoop maxSize olds map).2.Perm ((evictLoop maxSize olds map).1.map Prod.swap) := by
  induction olds generalizing map with
  | nil => exact ⟨by simp [evictLoop], by simpa [evictLoop] using hpaired⟩
  | cons oldest newer ih =>
    have hlength : map.length = newer.length + 1 := by simpa using hpaired.length_eq
    obtain ⟨hnot, hrest⟩ := List.nodup_cons.mp hdistinct
    rw [evictLoop]
    split
    · rename_i hover
      have hkept : ((oldest :: newer).map Prod.swap).filter (fun p => p.1 ≠ oldest.2) =
          newer.map Prod.swap := by
        rw [List.map_cons, List.filter_cons_of_neg (by simp), List.filter_eq_self]
        intro p hp
        obtain ⟨node, hnode, rfl⟩ := List.mem_map.mp hp
        simpa using fun he : node.2 = oldest.2 => hnot (he ▸ List.mem_map_of_mem hnode)
      obtain ⟨hlist, hmap⟩ := ih _ (hkept ▸ hpaired.filter _) hrest
      refine ⟨?_, hmap⟩
      rw [hlist, List.length_cons, show newer.length + 1 - maxSize =
        (newer.length - maxSize) + 1 by omega, List.drop_succ_cons]
    · rename_i hfits
      refine ⟨?_, hpaired⟩
      rw [List.length_cons, show newer.length + 1 - maxSize = 0 by omega, List.drop_zero]

theorem evictOldest_spec (hash : String → ℕ → ℕ) (hpaired : f.lruMap.Perm (f.lruList.map Prod.swap))
    (hdistinct : f.uids.Nodup) :
    (f.evictOldest hash).lruList = f.lruList.take f.maxSize ∧
      (f.evictOldest hash).lruMap.Perm ((f.evictOldest hash).lruList.map Prod.swap) ∧
      (f.evictOldest hash).maxSize = f.maxSize ∧
      (f.evictOldest hash).nextNode = f.nextNode ∧
      (f.evictOldest hash).bloomNumHashes = f.bloomNumHashes ∧
      (f.evictOldest hash).bloomBits.length = f.bloomBits.length := by
  have hlength : f.lruMap.length = f.lruList.length := by simpa using hpaired.length_eq
  have hreverse : f.lruMap.Perm (f.lruList.reverse.map Prod.swap) := by
    rw [List.map_reverse]
    exact hpaired.trans (List.reverse_perm _).symm
  obtain ⟨hlist, hmap⟩ := evictLoop_spec f.maxSize f.lruList.reverse f.lruMap hreverse
    (by rw [List.map_reverse]; exact List.nodup_reverse.mpr hdistinct)
  rw [evictOldest, size]
  split
  · obtain ⟨hframe, hbits⟩ := bloomRebuild_frame hash { f with
      lruList := (evictLoop f.maxSize f.lruList.reverse f.lruMap).1.reverse
      lruMap := (evictLoop f.maxSize f.lruList.reverse f.lruMap).2 }
    rw [hframe]
    refine ⟨?_, ?_, rfl, rfl, rfl, hbits⟩
    · rename_i hover
      rw [hlength] at hover
      rw [hlist, List.length_reverse, List.drop_reverse, List.reverse_reverse,
        Nat.sub_sub_self hover.le]
    · rw [List.map_reverse]
      exact hmap.trans (List.reverse_perm _).symm
  · rename_i hfits
    rw [hlength, not_lt] at hfits
    exact ⟨(List.take_of_length_le hfits).symm, hpaired, rfl, rfl, rfl, rfl⟩

theorem create_linked (maxSize bitCount numHashes : ℕ) :
    (create maxSize bitCount numHashes).Linked :=
  ⟨.nil, List.nodup_nil, List.nodup_nil, fun _ hn => (nomatch hn), Nat.zero_le _⟩

theorem clear_linked (f : DedupFilter) : f.clear.Linked :=
  ⟨.nil, List.nodup_nil, List.nodup_nil, fun _ hn => (nomatch hn), Nat.zero_le _⟩

theorem Linked.promote (h : f.Linked) {node : ℕ} (hmem : (node, uid) ∈ f.lruList) :
    ((f.lruList.filter fun n => n.1 = node) ++ f.lruList.filter fun n => n.1 ≠ node).map Prod.snd =
      uid :: f.uids.erase uid := by
  have hsame : ∀ n ∈ f.lruList, n.1 = node ↔ n.2 = uid := fun n hn =>
    ⟨fun he => congrArg Prod.snd (List.inj_on_of_nodup_map h.nodes hn hmem he),
      fun he => congrArg Prod.fst (List.inj_on_of_nodup_map h.distinct hn hmem he)⟩
  have hfront : (f.lruList.filter fun n => n.1 = node).map Prod.snd = [uid] := by
    rw [List.filter_congr fun n hn => decide_eq_decide.mpr (hsame n hn)]
    have hcount : f.uids.count uid = 1 :=
      List.count_eq_one_of_mem h.distinct (List.mem_map.mpr ⟨_, hmem, rfl⟩)
    have hfilter := List.filter_eq (l := f.uids) uid
    rw [hcount, uids, List.filter_map] at hfilter
    exact hfilter
  have hrest : (f.lruList.filter fun n => n.1 ≠ node).map Prod.snd = f.uids.erase uid := by
    rw [h.distinct.erase_eq_filter, uids, List.filter_map]
    refine congrArg (List.map Prod.snd) (List.filter_congr fun n hn => ?_)
    by_cases he : n.2 = uid <;> simp [hsame n hn, he]
  rw [List.map_append, hfront, hrest, List.singleton_append]

def push (f : DedupFilter) (uid : String) : DedupFilter :=
  { f with
    lruList := (f.nextNode, uid) :: f.lruList
    lruMap := (uid, f.nextNode) :: f.lruMap
    nextNode := f.nextNode + 1 }

theorem insert_hit {p : String × ℕ} (hfind : (f.lruMap.find? fun p => p.1 = uid) = some p) :
    f.insert hash uid = (false, { f with
      lruList := (f.lruList.filter fun n => n.1 = p.2) ++
        f.lruList.filter fun n => n.1 ≠ p.2 }) := by
  rw [DedupFilter.insert, hfind]

theorem insert_miss (hfind : (f.lruMap.find? fun p => p.1 = uid) = none) :
    f.insert hash uid = (true, ((f.push uid).bloomAdd hash uid).evictOldest hash) := by
  have hsame : ∀ f' : DedupFilter,
      (if f'.maxSize < f'.size then f'.evictOldest hash else f') = f'.evictOldest hash :=
    fun f' => by
      rw [evictOldest]
      split <;> rfl
  rw [DedupFilter.insert, hfind]
  exact congrArg (Prod.mk true) (hsame _)

theorem Linked.push_distinct (h : f.Linked) (huid : uid ∉ f.uids) : (f.push uid).uids.Nodup :=
  List.nodup_cons.mpr ⟨huid, h.distinct⟩

/-- A new node, followed by an eviction if there is no room for it. -/
theorem Linked.insert_new (h : f.Linked) (hash : String → ℕ → ℕ) (huid : uid ∉ f.uids) :
    (((f.push uid).bloomAdd hash uid).evictOldest hash).Linked := by
  obtain ⟨hlist, hpaired, hmax, hnext, -, -⟩ := evictOldest_spec hash
    (f := (f.push uid).bloomAdd hash uid) (h.paired.cons (uid, f.nextNode))
    (h.push_distinct huid)
  have hsub : (((f.push uid).bloomAdd hash uid).evictOldest hash).lruList.Sublist
      (f.push uid).lruList := hlist ▸ List.take_sublist ..
  have hnodes : ((f.push uid).lruList.map Prod.fst).Nodup := by
    refine List.nodup_cons.mpr ⟨fun hmem => ?_, h.nodes⟩
    obtain ⟨n, hn, he⟩ := List.mem_map.mp hmem
    exact (h.fresh n hn).ne he
  refine ⟨hpaired, (h.push_distinct huid).sublist (hsub.map _), hnodes.sublist (hsub.map _),
    fun n hn => ?_, ?_⟩
  · rw [hnext]
    rcases List.mem_cons.mp (hsub.subset hn) with rfl | hold
    · exact Nat.lt_succ_self _
    · exact Nat.lt_succ_of_lt (h.fresh n hold)
  · rw [hlist, hmax, List.length_take]
    exact min_le_left ..

theorem Linked.insert (h : f.Linked) (hash : String → ℕ → ℕ) (uid : String) :
    (f.insert hash uid).1 = decide (uid ∉ f.uids) ∧
      (f.insert hash uid).2.uids = Recency.touch f.maxSize f.uids uid ∧
      (f.insert hash uid).2.Linked := by
  cases hfind : f.lruMap.find? fun p => p.1 = uid with
  | some p =>
    obtain ⟨-, hmem⟩ := mem_of_find? h.paired hfind
    have huid : uid ∈ f.uids := List.mem_map.mpr ⟨_, hmem, rfl⟩
    have hpromote := h.promote hmem
    have hperm := List.filter_append_perm (fun n : ℕ × String => n.1 = p.2) f.lruList
    simp only [← decide_not] at hperm
    rw [insert_hit hfind]
    refine ⟨by simp [huid], ?_, ⟨?_, ?_, ?_, ?_, ?_⟩⟩
    · rw [Recency.touch, List.take_of_length_le]
      · exact hpromote
      · rw [← hpromote, List.length_map, hperm.length_eq]
        exact h.bounded
    · exact h.paired.trans (hperm.symm.map _)
    · exact (hperm.map Prod.snd).nodup_iff.mpr h.distinct
    · exact (hperm.map Prod.fst).nodup_iff.mpr h.nodes
    · exact fun n hn => h.fresh n (hperm.subset hn)
    · exact hperm.length_eq.trans_le h.bounded
  | none =>
    have huid : uid ∉ f.uids := (find?_eq_none h.paired uid).mp hfind
    obtain ⟨hlist, -⟩ := evictOldest_spec hash (f := (f.push uid).bloomAdd hash uid)
      (h.paired.cons (uid, f.nextNode)) (h.push_distinct huid)
    rw [insert_miss hfind]
    refine ⟨by simp [huid], ?_, h.insert_new hash huid⟩
    rw [uids, hlist, List.map_take, Recency.touch, List.erase_of_not_mem huid]
    rfl

theorem insert_frame (hash : String → ℕ → ℕ) (h : f.Linked) (uid : String) :
    (f.insert hash uid).2.maxSize = f.maxSize ∧
      (f.insert hash uid).2.bloomBitCount = f.bloomBitCount ∧
      (f.insert hash uid).2.bloomNumHashes = f.bloomNumHashes := by
  cases hfind : f.lruMap.find? fun p => p.1 = uid with
  | some p =>
    rw [insert_hit hfind]
    exact ⟨rfl, rfl, rfl⟩
  | none =>
    have huid : uid ∉ f.uids := (find?_eq_none h.paired uid).mp hfind
    obtain ⟨-, -, hmax, -, hhashes, hbits⟩ := evictOldest_spec hash
      (f := (f.push uid).bloomAdd hash uid) (h.paired.cons (uid, f.nextNode))
      (h.push_distinct huid)
    rw [insert_miss hfind]
    exact ⟨hmax, hbits.trans (bloomAdd_bitCount _ _), hhashes⟩

theorem create_exact (hash : String → ℕ → ℕ) (maxSize numHashes : ℕ) {bitCount : ℕ}
    (h : 0 < bitCount) : (create maxSize bitCount numHashes).Exact hash := by
  refine ⟨by simpa [create, bloomBitCount] using h, fun j => ?_⟩
  simp [create, uids, List.getD_eq_getElem?_getD, List.getElem?_replicate]
  split <;> simp

theorem Exact.clear (h : f.Exact hash) : f.clear.Exact hash := by
  refine ⟨by simpa [DedupFilter.clear, bloomBitCount] using h.nonempty, fun j => ?_⟩
  simp [DedupFilter.clear, uids, List.getD_eq_getElem?_getD, List.getElem?_replicate]
  split <;> simp

theorem Exact.insert (h : f.Exact hash) (uid : String) :
    (f.insert hash uid).2.Exact hash := by
  cases hfind : f.lruMap.find? fun p => p.1 = uid with
  | some p =>
    have hperm := List.filter_append_perm (fun n : ℕ × String => n.1 = p.2) f.lruList
    simp only [← decide_not] at hperm
    rw [insert_hit hfind]
    refine ⟨h.nonempty, fun j => (h.bits j).trans (exists_congr fun uid' => ?_)⟩
    exact and_congr_left' (hperm.map Prod.snd).mem_iff.symm
  | none =>
    rw [insert_miss hfind, evictOldest]
    split
    · exact bloomRebuild_exact (by simpa [bloomBitCount, push] using h.nonempty)
    · have hbit := fun j => bloomAdd_bit hash (f := f.push uid) h.nonempty uid j
      refine ⟨by simpa [bloomBitCount, push] using h.nonempty, fun j => (hbit j).trans ?_⟩
      have hold : (f.push uid).bloomBits.getD j false = true ↔ _ := h.bits j
      have huids : ((f.push uid).bloomAdd hash uid).uids = uid :: f.uids := rfl
      simp only [bloomHash, bloomAdd_bitCount] at hold ⊢
      rw [hold, huids, List.exists_mem_cons_iff, or_comm]
      rfl

theorem Exact.maybeContains (h : f.Exact hash) (huid : uid ∈ f.uids) :
    f.bloomMaybeContains hash uid = true :=
  List.all_eq_true.mpr fun i hi =>
    (h.bits _).mpr ⟨uid, huid, i, List.mem_range.mp hi, rfl⟩

/-- The look at the bits first does not change the answer. -/
theorem contains_eq (h : f.Linked) (hbits : f.Exact hash) (uid : String) :
    f.contains hash uid = decide (uid ∈ f.uids) := by
  have hfind := find?_eq_none h.paired uid
  rw [contains]
  by_cases huid : uid ∈ f.uids
  · have hsome : (f.lruMap.find? fun p => p.1 = uid).isSome = true :=
      Option.isSome_iff_ne_none.mpr fun hnone => hfind.mp hnone huid
    simp [hsome, hbits.maybeContains huid, huid]
  · simp [hfind.mpr huid, huid]

end Insert

section Calls
variable (hash : String → ℕ → ℕ)

inductive FilterCall where
  | insert (uid : String)
  | contains (uid : String)
  | clear

def call (f : DedupFilter) : FilterCall → Option Bool × DedupFilter
  | .insert uid => (some (f.insert hash uid).1, (f.insert hash uid).2)
  | .contains uid => (some (f.contains hash uid), f)
  | .clear => (none, f.clear)

/-- The uids inserted since the last `clear`, newest first. -/
def insertedAfter (history : List String) : FilterCall → List String
  | .insert uid => uid :: history
  | .contains _ => history
  | .clear => []

def inserted (calls : List FilterCall) : List String := calls.foldl insertedAfter []

structure Tracks (capacity : ℕ) (history : List String) (f : DedupFilter) : Prop where
  linked : f.Linked
  exact : f.Exact hash
  sized : f.maxSize = capacity
  window : f.uids = (Recency.ranked history).take capacity

structure Consistent (f : DedupFilter) : Prop where
  distinct : f.uids.Nodup
  keyed : (f.lruMap.map Prod.fst).Nodup
  located : ∀ uid node, (uid, node) ∈ f.lruMap ↔ (node, uid) ∈ f.lruList
  addressed : (f.lruList.map Prod.fst).Nodup
  bounded : f.lruList.length ≤ f.maxSize
  bits : ∀ j, f.bloomBits.getD j false = true ↔
    ∃ uid ∈ f.uids, ∃ i < f.bloomNumHashes, f.bloomHash hash uid i = j
  noFalseNegatives : ∀ uid ∈ f.uids, f.bloomMaybeContains hash uid = true
  fastPath : ∀ uid, f.contains hash uid = (f.lruMap.find? fun p => p.1 = uid).isSome
  freshness : ∀ uid, (f.insert hash uid).1 = !f.contains hash uid

variable {hash}

theorem Tracks.create (maxSize numHashes : ℕ) {bitCount : ℕ} (h : 0 < bitCount) :
    Tracks hash (max maxSize 1) [] (create maxSize bitCount numHashes) :=
  ⟨create_linked .., create_exact hash maxSize numHashes h, rfl, List.take_nil.symm⟩

theorem Tracks.call {capacity : ℕ} {history : List String} {f : DedupFilter}
    (h : Tracks hash capacity history f) (c : FilterCall) :
    Tracks hash capacity (insertedAfter history c) (f.call hash c).2 := by
  cases c with
  | insert uid =>
    obtain ⟨-, huids, hlinked⟩ := h.linked.insert hash uid
    refine ⟨hlinked, h.exact.insert uid, (insert_frame hash h.linked uid).1.trans h.sized, ?_⟩
    rw [DedupFilter.call, huids, h.window, h.sized]
    exact Recency.touch_ranked capacity history uid
  | contains uid => exact h
  | clear => exact ⟨clear_linked f, h.exact.clear, h.sized, List.take_nil.symm⟩

theorem Tracks.run {capacity : ℕ} {history : List String} {f : DedupFilter}
    (h : Tracks hash capacity history f) (calls : List FilterCall) :
    Tracks hash capacity (calls.foldl insertedAfter history)
      (Machine.final (DedupFilter.call hash) f calls) := by
  induction calls generalizing f history with
  | nil => exact h
  | cons c calls ih => exact ih (h.call c)

theorem Tracks.consistent {capacity : ℕ} {history : List String} {f : DedupFilter}
    (h : Tracks hash capacity history f) : f.Consistent hash := by
  have hcontains := contains_eq h.linked h.exact
  refine ⟨h.linked.distinct, (keys_perm h.linked.paired).nodup_iff.mpr h.linked.distinct,
    fun uid node => ?_, h.linked.nodes, h.linked.bounded, h.exact.bits,
    fun _ => h.exact.maybeContains, fun uid => ?_, fun uid => ?_⟩
  · rw [h.linked.paired.mem_iff, List.mem_map]
    exact ⟨fun ⟨n, hn, he⟩ => by cases he; exact hn, fun hn => ⟨_, hn, rfl⟩⟩
  · have hfind := find?_eq_none h.linked.paired uid
    have hsome : (f.lruMap.find? fun p => p.1 = uid).isSome = true ↔ uid ∈ f.uids := by
      rw [Option.isSome_iff_ne_none, ne_eq, hfind, not_not, uids]
    rw [hcontains, Bool.eq_iff_iff, decide_eq_true_iff, hsome]
  · rw [(h.linked.insert hash uid).1, hcontains, decide_not]

/-- In every state of a filter its list, its map and its bits agree: no bit is left by an
evicted uid and none is missing, so a uid is new to `insert` exactly if `contains` says
that it is absent. -/
theorem filter_consistent (hash : String → ℕ → ℕ) (maxSize numHashes : ℕ) {bitCount : ℕ}
    (h : 0 < bitCount) (calls : List FilterCall) :
    (Machine.final (call hash) (create maxSize bitCount numHashes) calls).Consistent hash :=
  ((Tracks.create maxSize numHashes h).run calls).consistent

/-- A filter of one uid, with two hash functions that collide. -/
theorem filter_consistent_colliding : 0 < 2 ∧
    (Machine.final (call fun uid i => uid.length + i) (create 0 2 2)
      [.insert "u", .insert "v", .insert "u"]).Consistent fun uid i => uid.length + i :=
  ⟨by decide, filter_consistent _ 0 2 (by decide) _⟩

/-- The filter knows a uid exactly as long as fewer distinct others than its capacity have
been inserted since the uid itself was, new or not. -/
theorem lru_window (hash : String → ℕ → ℕ) (maxSize numHashes : ℕ) {bitCount : ℕ}
    (h : 0 < bitCount) (calls : List FilterCall) (uid : String) :
    let f := Machine.final (call hash) (create maxSize bitCount numHashes) calls
    ((f.insert hash uid).1 = false ↔ Recency.Within (max maxSize 1) (inserted calls) uid) ∧
      (f.contains hash uid = true ↔ Recency.Within (max maxSize 1) (inserted calls) uid) := by
  have htracks : Tracks hash (max maxSize 1) (inserted calls)
      (Machine.final (call hash) (create maxSize bitCount numHashes) calls) :=
    (Tracks.create maxSize numHashes h).run calls
  have hmem := Recency.mem_take_ranked_iff (max maxSize 1) (inserted calls) uid
  rw [← htracks.window] at hmem
  constructor
  · rw [(htracks.linked.insert hash uid).1, decide_eq_false_iff_not, not_not, hmem]
  · rw [contains_eq htracks.linked htracks.exact, decide_eq_true_iff, hmem]

theorem lru_window_touched : 0 < 64 ∧
    let calls : List FilterCall :=
      [.insert "u", .insert "v", .insert "u", .contains "v", .insert "w"]
    let f := Machine.final (call fun uid i => uid.length + i) (create 2 64 2) calls
    ((f.insert (fun uid i => uid.length + i) "u").1 = false ↔
        Recency.Within (max 2 1) (inserted calls) "u") ∧
      (f.contains (fun uid i => uid.length + i) "u" = true ↔
        Recency.Within (max 2 1) (inserted calls) "u") :=
  ⟨by decide, lru_window _ 2 2 (by decide) _ "u"⟩

end Calls

end DedupFilter
end TransferQueue
