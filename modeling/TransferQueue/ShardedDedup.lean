import Mathlib.Data.Finset.Card
import TransferQueue.ManagerOps

/-! Deduplication over all cores. Each shard has a filter of its own, and a trajectory goes
to the shard of its instance, so what the filters together reject depends on where the
instances are routed: a uid is accepted once on every shard that it gets to. -/

namespace TransferQueue
open UnorderedMap

namespace DedupFilter

def seen (f : DedupFilter) : Finset String := (f.lruMap.map Prod.fst).toFinset

variable {hash : String → ℕ → ℕ} {f : DedupFilter} {uid : String}

theorem mem_seen : uid ∈ f.seen ↔ uid ∈ f.lruMap.map Prod.fst := List.mem_toFinset

theorem find?_eq_none_iff : (f.lruMap.find? fun p => p.1 = uid) = none ↔ uid ∉ f.seen := by
  rw [mem_seen, List.find?_eq_none]
  simp only [decide_eq_true_eq, List.mem_map, not_exists, not_and]

theorem insert_fst : (f.insert hash uid).1 = decide (uid ∉ f.seen) := by
  rw [insert]
  cases hfind : f.lruMap.find? fun p => p.1 = uid with
  | some p =>
    have hseen : uid ∈ f.seen := by
      by_contra hnot
      rw [find?_eq_none_iff.mpr hnot] at hfind
      cases hfind
    simp [hseen]
  | none => simp [find?_eq_none_iff.mp hfind]

theorem insert_seen (hash : String → ℕ → ℕ) (hkeys : (f.lruMap.map Prod.fst).Nodup)
    (hroom : (Insert.insert uid f.seen).card ≤ f.maxSize) :
    (f.insert hash uid).2.seen = Insert.insert uid f.seen ∧
      ((f.insert hash uid).2.lruMap.map Prod.fst).Nodup ∧
      (f.insert hash uid).2.maxSize = f.maxSize := by
  rw [insert]
  cases hfind : f.lruMap.find? fun p => p.1 = uid with
  | some p =>
    have hseen : uid ∈ f.seen := by
      by_contra hnot
      rw [find?_eq_none_iff.mpr hnot] at hfind
      cases hfind
    exact ⟨(Finset.insert_eq_of_mem hseen).symm, hkeys, rfl⟩
  | none =>
    have hseen := find?_eq_none_iff.mp hfind
    have hsize : f.seen.card = f.lruMap.length := by
      rw [seen, List.toFinset_card_of_nodup hkeys, List.length_map]
    rw [Finset.card_insert_of_notMem hseen, hsize] at hroom
    have hfits : ¬f.maxSize < f.lruMap.length + 1 := by omega
    have hnodup : ((uid, f.nextNode) :: f.lruMap |>.map Prod.fst).Nodup :=
      List.nodup_cons.mpr ⟨fun hmem => hseen (mem_seen.mpr hmem), hkeys⟩
    simp only [bloomAdd, size, List.length_cons, hfits, if_false]
    exact ⟨List.toFinset_cons, hnodup, trivial⟩

end DedupFilter

namespace BufferShard

variable {env : Env}

theorem write_answer {t : Trajectory} {s : BufferShard} {accepted : Bool}
    (h : (s.write env t).1 = .ok accepted) : accepted = (s.dedup env t.uid).1 := by
  have hfresh := writeStart_duplicate_iff env t s
  rcases write_cases env t s with ⟨-, hwrite⟩ | ⟨happended, hwrite⟩ <;> rw [hwrite] at h
  · cases h
    simp [hfresh]
  · rw [happended] at hfresh
    cases hspill : ((s.writeStart env t).2.trySpillGroups env).1 with
    | error e => simp [hspill, Except.map] at h
    | ok bytes =>
      rw [hspill] at h
      cases h
      simpa using hfresh

section Submissions
variable (env : Env)

def accepted (s : BufferShard) (ts : List Trajectory) : List Trajectory :=
  Machine.record (writeStep env) (fun s t => if (s.write env t).1 = .ok true then [t] else []) s ts

end Submissions

end BufferShard

def uidsOf (ts : List Trajectory) : Finset String := (ts.map Trajectory.uid).toFinset

theorem uidsOf_append (ts ts' : List Trajectory) : uidsOf (ts ++ ts') = uidsOf ts ∪ uidsOf ts' := by
  rw [uidsOf, List.map_append, List.toFinset_append, uidsOf, uidsOf]

theorem mem_uidsOf {ts : List Trajectory} {uid : String} :
    uid ∈ uidsOf ts ↔ ∃ t ∈ ts, t.uid = uid := by
  simp [uidsOf]

namespace BufferShard

variable {env : Env} {s : BufferShard}

/-- A deduplicating shard whose filter has not forgotten any of the uids `S`. -/
structure Remembers (s : BufferShard) (capacity : ℕ) (S : Finset String) : Prop where
  on : s.config.uidDedup = true
  capacity : s.dedupFilter.maxSize = capacity
  keys : (s.dedupFilter.lruMap.map Prod.fst).Nodup
  seen : s.dedupFilter.seen = S

namespace Remembers

variable {capacity : ℕ} {S : Finset String}

theorem create {config : TransferQueueConfig} (hon : config.uidDedup = true)
    (bitCount numHashes : ℕ) :
    (BufferShard.create config bitCount numHashes).Remembers 100000 ∅ :=
  ⟨hon, rfl, List.nodup_nil, rfl⟩

theorem write (h : s.Remembers capacity S) (env : Env) {t : Trajectory}
    (hroom : (insert t.uid S).card ≤ capacity) :
    (s.write env t).2.Remembers capacity (insert t.uid S) ∧
      ∀ accepted, (s.write env t).1 = .ok accepted → accepted = decide (t.uid ∉ S) := by
  obtain ⟨hfilter, hconfig⟩ := write_frame env t s
  rw [← h.seen, ← h.capacity] at hroom
  obtain ⟨hseen, hkeys, hmax⟩ :=
    DedupFilter.insert_seen (DedupFilter.doubleHash env.stdHash) h.keys hroom
  have hdedup : s.dedup env t.uid =
      ((s.dedupFilter.insert (DedupFilter.doubleHash env.stdHash) t.uid).1,
        { s with
          dedupFilter :=
            (s.dedupFilter.insert (DedupFilter.doubleHash env.stdHash) t.uid).2 }) := by
    rw [dedup, h.on, if_pos rfl]
  rw [hdedup] at hfilter
  refine ⟨⟨hconfig ▸ h.on, ?_, ?_, ?_⟩, fun accepted hok => ?_⟩
  · rw [hfilter, hmax, h.capacity]
  · rw [hfilter]
    exact hkeys
  · rw [hfilter, hseen, h.seen]
  · rw [write_answer hok, hdedup, DedupFilter.insert_fst, h.seen]

theorem batchWriteLoop (h : s.Remembers capacity S) (env : Env) {ts : List Trajectory}
    (hroom : (S ∪ uidsOf ts).card ≤ capacity) {written total : ℕ}
    (hok : (batchWriteLoop env written ts s).1 = .ok total) :
    total = written + (s.accepted env ts).length ∧
      ((s.accepted env ts).map Trajectory.uid).Nodup ∧
      uidsOf (s.accepted env ts) = uidsOf ts \ S ∧
      (BufferShard.batchWriteLoop env written ts s).2.Remembers capacity (S ∪ uidsOf ts) := by
  induction ts generalizing s S written with
  | nil =>
    have hsame : S ∪ uidsOf [] = S := Finset.union_empty S
    refine ⟨(Except.ok.inj hok).symm, List.nodup_nil, ?_, ?_⟩
    · simp [uidsOf, accepted, Machine.record]
    · rw [hsame]
      exact h
  | cons t ts ih =>
    have hall : insert t.uid S ∪ uidsOf ts = S ∪ uidsOf (t :: ts) := by
      rw [uidsOf, uidsOf, List.map_cons, List.toFinset_cons, Finset.insert_union,
        Finset.union_insert]
    have hroom' : (insert t.uid S).card ≤ capacity :=
      (Finset.card_le_card (hall ▸ Finset.subset_union_left)).trans hroom
    obtain ⟨hnext, hanswer⟩ := h.write env hroom'
    have haccepted : s.accepted env (t :: ts) =
        (if (s.write env t).1 = .ok true then [t] else []) ++
          (s.write env t).2.accepted env ts := rfl
    have hsdiff : uidsOf (t :: ts) \ S =
        (if t.uid ∈ S then ∅ else {t.uid}) ∪ uidsOf ts \ insert t.uid S := by
      rw [uidsOf, List.map_cons, List.toFinset_cons]
      ext uid
      by_cases hin : t.uid ∈ S <;> by_cases huid : uid = t.uid <;> simp_all [uidsOf]
    rw [haccepted, hsdiff]
    rw [BufferShard.batchWriteLoop] at hok ⊢
    rcases hw : s.write env t with ⟨e | fresh, s'⟩
    · rw [hw] at hok
      cases hok
    · rw [hw] at hok hnext hanswer
      obtain rfl := hanswer fresh rfl
      rw [← hall]
      by_cases hin : t.uid ∈ S
      · simp only [hin, not_true, decide_false] at hok ⊢
        obtain ⟨htotal, hnodup, huids, hlast⟩ := ih hnext (hall ▸ hroom) hok
        exact ⟨by simpa using htotal, by simpa using hnodup, by simpa using huids, hlast⟩
      · simp only [hin, not_false_eq_true, decide_true] at hok ⊢
        obtain ⟨htotal, hnodup, huids, hlast⟩ := ih hnext (hall ▸ hroom) hok
        have hnew : t.uid ∉ (s'.accepted env ts).map Trajectory.uid := fun hmem => by
          have hdiff : t.uid ∈ uidsOf ts \ insert t.uid S := huids ▸ List.mem_toFinset.mpr hmem
          exact (Finset.mem_sdiff.mp hdiff).2 (Finset.mem_insert_self ..)
        refine ⟨by simp [htotal]; omega, ?_, ?_, hlast⟩
        · rw [if_pos trivial, List.cons_append, List.nil_append, List.map_cons]
          exact List.nodup_cons.mpr ⟨hnew, hnodup⟩
        · rw [← huids]
          simp [uidsOf]

end Remembers
end BufferShard

def Request.submitted : Request → List Trajectory
  | .write t => [t]
  | .batchWrite ts => ts
  | _ => []

def Request.IsWrite : Request → Prop
  | .write _ | .batchWrite _ => True
  | _ => False

instance : (request : Request) → Decidable request.IsWrite
  | .write _ | .batchWrite _ => .isTrue trivial
  | .readReadyGroups _ | .hasReadyGroups | .deleteInstance _ | .reset | .getStatus =>
    .isFalse id

/-- The write or batch is answered, with a result or a count. -/
def Response.Answered : Response → Prop
  | .written (.ok _) | .counted (.ok _) => True
  | _ => False

def Response.count : Response → ℕ
  | .written (.ok accepted) => if accepted then 1 else 0
  | .counted (.ok n) => n
  | _ => 0

instance : (response : Response) → Decidable response.Answered
  | .written (.ok _) | .counted (.ok _) => .isTrue trivial
  | .written (.error _) | .counted (.error _) | .groups _ | .ready _ | .done _ | .status _ =>
    .isFalse id

namespace BufferShard

variable {env : Env} {s : BufferShard}

theorem batchWrite_singleton {t : Trajectory} {accepted : Bool}
    (hok : (s.write env t).1 = .ok accepted) :
    s.batchWrite env [t] = (.ok (if accepted then 1 else 0), (s.write env t).2) := by
  rw [batchWrite, batchWriteLoop]
  rcases hw : s.write env t with ⟨r, s'⟩
  rw [hw] at hok
  obtain rfl : r = .ok accepted := hok
  cases accepted <;> rfl

theorem respond_submits {request : Request} (hwrite : request.IsWrite)
    (hanswered : (s.respond env request).1.Answered) :
    s.batchWrite env request.submitted =
      (.ok (s.respond env request).1.count, (s.respond env request).2) := by
  cases request with
  | write t =>
    simp only [respond, Prod.map, Request.submitted] at hanswered ⊢
    rcases hw : (s.write env t).1 with e | accepted
    · rw [hw] at hanswered
      exact hanswered.elim
    · exact batchWrite_singleton hw
  | batchWrite ts =>
    simp only [respond, Prod.map, Request.submitted] at hanswered ⊢
    rcases hb : s.batchWrite env ts with ⟨e | total, s'⟩
    · rw [hb] at hanswered
      exact hanswered.elim
    · rfl
  | _ => exact hwrite.elim

theorem Remembers.respond {capacity : ℕ} {S : Finset String} (h : s.Remembers capacity S)
    (env : Env) {request : Request} (hwrite : request.IsWrite)
    (hroom : (S ∪ uidsOf request.submitted).card ≤ capacity)
    (hanswered : (s.respond env request).1.Answered) :
    (s.respond env request).2.Remembers capacity (S ∪ uidsOf request.submitted) ∧
      (s.respond env request).1.count = (uidsOf request.submitted \ S).card := by
  have hbatch := respond_submits hwrite hanswered
  obtain ⟨htotal, hnodup, huids, hnext⟩ :=
    h.batchWriteLoop env hroom (congrArg Prod.fst hbatch)
  rw [← batchWrite, hbatch] at hnext
  refine ⟨hnext, ?_⟩
  rw [htotal, Nat.zero_add, ← huids, uidsOf, List.toFinset_card_of_nodup hnodup, List.length_map]

theorem Remembers.run {capacity : ℕ} {ts : List Trajectory} (h : s.Remembers capacity (uidsOf ts))
    {requests : List Request} (hwrites : ∀ request ∈ requests, request.IsWrite)
    (hroom : (uidsOf (ts ++ requests.flatMap Request.submitted)).card ≤ capacity)
    (hanswered : ∀ response ∈ Machine.outputs (BufferShard.respond env) s requests,
      response.Answered) :
    ((Machine.outputs (BufferShard.respond env) s requests).map Response.count).sum +
        (uidsOf ts).card = (uidsOf (ts ++ requests.flatMap Request.submitted)).card := by
  induction requests generalizing s ts with
  | nil => simp [Machine.outputs]
  | cons request requests ih =>
    obtain ⟨hwrite, hrest⟩ := List.forall_mem_cons.mp hwrites
    obtain ⟨hfirst, hlater⟩ := List.forall_mem_cons.mp hanswered
    rw [List.flatMap_cons, ← List.append_assoc] at hroom ⊢
    have hroom' : (uidsOf (ts ++ request.submitted)).card ≤ capacity := by
      refine (Finset.card_le_card ?_).trans hroom
      rw [uidsOf_append (ts ++ request.submitted)]
      exact Finset.subset_union_left
    rw [uidsOf_append] at hroom'
    obtain ⟨hnext, hcount⟩ := h.respond env hwrite hroom' hfirst
    rw [← uidsOf_append] at hnext
    have hcounts := ih hnext hrest hroom hlater
    rw [← hcounts, uidsOf_append, Finset.union_comm, ← Finset.card_sdiff_add_card, ← hcount]
    simp only [Machine.outputs, List.map_cons, List.sum_cons]
    omega

end BufferShard

namespace BufferManager

variable {k : ℕ} [NeZero k]

section Statement
variable (env : Fin k → Env) (stdHash : String → ℕ)

def accepted (m : BufferManager k) (request : Request) : List Trajectory :=
  (List.finRange k).flatMap fun i =>
    (m.shards i).accepted (env i) (batchFor stdHash request.submitted i)

/-- Trajectories with the same uid are routed to the same shard. -/
def Colocated (ts : List Trajectory) : Prop :=
  ∀ t ∈ ts, ∀ t' ∈ ts, t.uid = t'.uid →
    (shardFor stdHash t.instanceId : Fin k) = shardFor stdHash t'.instanceId

instance (ts : List Trajectory) : Decidable (Colocated (k := k) stdHash ts) :=
  inferInstanceAs (Decidable (∀ t ∈ ts, ∀ t' ∈ ts, _ → _))

end Statement

variable {env : Fin k → Env} {stdHash : String → ℕ} {m : BufferManager k}

theorem batchFor_append (ts ts' : List Trajectory) (i : Fin k) :
    batchFor stdHash (ts ++ ts') i = batchFor stdHash ts i ++ batchFor stdHash ts' i :=
  List.filter_append ..

/-- Every filter remembers what of the trajectories has been routed to it. -/
def Remembers (stdHash : String → ℕ) (m : BufferManager k) (capacity : ℕ)
    (ts : List Trajectory) : Prop :=
  ∀ i, (m.shards i).Remembers capacity (uidsOf (batchFor stdHash ts i))

theorem respond_submits {request : Request} (hwrite : request.IsWrite)
    (hanswered : (m.respond env stdHash request).1.Answered) :
    ∃ total : Fin k → ℕ, (m.respond env stdHash request).1.count = ∑ i, total i ∧
      ∀ i, (m.shards i).batchWrite (env i) (batchFor stdHash request.submitted i) =
        (.ok (total i), (m.respond env stdHash request).2.shards i) := by
  cases request with
  | write t =>
    simp only [BufferManager.respond, Prod.map, Request.submitted, BufferManager.write]
      at hanswered ⊢
    generalize hi : (shardFor stdHash t.instanceId : Fin k) = i at hanswered ⊢
    rcases hw : ((m.shards i).write (env i) t).1 with e | accepted
    · rw [hw] at hanswered
      exact hanswered.elim
    · refine ⟨fun j => if j = i then (if accepted then 1 else 0) else 0, ?_, fun j => ?_⟩
      · rw [Finset.sum_ite_eq' Finset.univ i, if_pos (Finset.mem_univ i)]
        rfl
      · by_cases hj : j = i
        · subst hj
          have hpart : batchFor stdHash [t] j = [t] := by simp [batchFor, hi]
          rw [hpart, BufferShard.batchWrite_singleton hw]
          exact Prod.ext (by simp) (by simp)
        · have hpart : batchFor stdHash [t] j = [] := by simp [batchFor, hi, Ne.symm hj]
          rw [hpart]
          exact Prod.ext (by simp [hj]; rfl) (by simp [hj]; rfl)
  | batchWrite ts =>
    simp only [BufferManager.respond, Prod.map, Request.submitted, batchWrite_eq] at hanswered ⊢
    have hparts : ∀ i, ∃ total,
        ((m.shards i).batchWrite (env i) (batchFor stdHash ts i)).1 = .ok total := fun i => by
      rcases hb : ((m.shards i).batchWrite (env i) (batchFor stdHash ts i)).1 with e | total
      · obtain ⟨e', he'⟩ := (Sharded.map_error_iff (s := m.shards)
          (f := fun i shard => BufferShard.batchWrite (env i) (batchFor stdHash ts i) shard)).mpr
            ⟨i, e, hb⟩
        rw [he'] at hanswered
        exact hanswered.elim
      · exact ⟨total, rfl⟩
    choose total htotal using hparts
    have hmap := Sharded.map_ok (s := m.shards)
      (f := fun i shard => BufferShard.batchWrite (env i) (batchFor stdHash ts i) shard) htotal
    refine ⟨total, ?_, fun i => Prod.ext (htotal i) rfl⟩
    rw [hmap, Fin.sum_univ_def]
    rfl
  | _ => exact hwrite.elim

theorem uidsOf_batchFor_subset (stdHash : String → ℕ) (ts : List Trajectory) (i : Fin k) :
    uidsOf (batchFor stdHash ts i) ⊆ uidsOf ts := by
  intro uid huid
  obtain ⟨t, ht, rfl⟩ := mem_uidsOf.mp huid
  exact mem_uidsOf.mpr ⟨t, List.mem_of_mem_filter ht, rfl⟩

theorem mem_uidsOf_iff (stdHash : String → ℕ) (ts : List Trajectory) {uid : String} :
    uid ∈ uidsOf ts ↔ ∃ i : Fin k, uid ∈ uidsOf (batchFor stdHash ts i) := by
  constructor
  · intro huid
    obtain ⟨t, ht, huid⟩ := mem_uidsOf.mp huid
    exact ⟨shardFor stdHash t.instanceId,
      mem_uidsOf.mpr ⟨t, List.mem_filter.mpr ⟨ht, by simp⟩, huid⟩⟩
  · rintro ⟨i, huid⟩
    exact uidsOf_batchFor_subset stdHash ts i huid

theorem accepted_uids {ts : List Trajectory} {request : Request}
    (h : ∀ i : Fin k,
      uidsOf ((m.shards i).accepted (env i) (batchFor stdHash request.submitted i)) =
        uidsOf (batchFor stdHash request.submitted i) \ uidsOf (batchFor stdHash ts i)) :
    uidsOf (m.accepted env stdHash request) ∪ uidsOf ts = uidsOf (ts ++ request.submitted) := by
  ext uid
  have hnew : uid ∈ uidsOf (m.accepted env stdHash request) ↔
      ∃ i : Fin k, uid ∈ uidsOf (batchFor stdHash request.submitted i) ∧
        uid ∉ uidsOf (batchFor stdHash ts i) := by
    simp only [← Finset.mem_sdiff, ← h]
    simp only [mem_uidsOf, accepted, List.mem_flatMap, List.mem_finRange, true_and]
    constructor
    · rintro ⟨t, ⟨i, ht⟩, huid⟩
      exact ⟨i, t, ht, huid⟩
    · rintro ⟨i, t, ht, huid⟩
      exact ⟨t, ⟨i, ht⟩, huid⟩
  rw [uidsOf_append, Finset.mem_union, Finset.mem_union, hnew]
  constructor
  · rintro (⟨i, hmem, -⟩ | hmem)
    · exact .inr (uidsOf_batchFor_subset stdHash _ i hmem)
    · exact .inl hmem
  · rintro (hmem | hmem)
    · exact .inr hmem
    · obtain ⟨i, hi⟩ := (mem_uidsOf_iff (k := k) stdHash _).mp hmem
      by_cases hold : uid ∈ uidsOf (batchFor stdHash ts i)
      · exact .inr (uidsOf_batchFor_subset stdHash ts i hold)
      · exact .inl ⟨i, hi, hold⟩

/-- The step: what the filters remember, what the request counts and what it accepts. -/
theorem Remembers.respond {capacity : ℕ} {ts : List Trajectory}
    (h : m.Remembers stdHash capacity ts) (env : Fin k → Env) {request : Request}
    (hwrite : request.IsWrite)
    (hroom : (uidsOf (ts ++ request.submitted)).card ≤ capacity)
    (hanswered : (m.respond env stdHash request).1.Answered) :
    (m.respond env stdHash request).2.Remembers stdHash capacity (ts ++ request.submitted) ∧
      (m.respond env stdHash request).1.count =
        ∑ i : Fin k, (uidsOf (batchFor stdHash request.submitted i) \
          uidsOf (batchFor stdHash ts i)).card ∧
      (m.accepted env stdHash request).length = (m.respond env stdHash request).1.count ∧
      uidsOf (m.accepted env stdHash request) ∪ uidsOf ts = uidsOf (ts ++ request.submitted) := by
  obtain ⟨total, hcount, hparts⟩ := respond_submits hwrite hanswered
  have hroom' : ∀ i : Fin k, (uidsOf (batchFor stdHash ts i) ∪
      uidsOf (batchFor stdHash request.submitted i)).card ≤ capacity := fun i => by
    rw [← uidsOf_append, ← batchFor_append]
    exact (Finset.card_le_card (uidsOf_batchFor_subset ..)).trans hroom
  have hstep := fun i : Fin k =>
    (h i).batchWriteLoop (env i) (hroom' i) (congrArg Prod.fst (hparts i))
  have hlength : ∀ i : Fin k, total i = (uidsOf (batchFor stdHash request.submitted i) \
      uidsOf (batchFor stdHash ts i)).card := fun i => by
    obtain ⟨htotal, hnodup, huids, -⟩ := hstep i
    rw [htotal, Nat.zero_add, ← huids, uidsOf, List.toFinset_card_of_nodup hnodup, List.length_map]
  refine ⟨fun i => ?_, ?_, ?_, ?_⟩
  · obtain ⟨-, -, -, hnext⟩ := hstep i
    rw [batchFor_append, uidsOf_append]
    rwa [← BufferShard.batchWrite, hparts i] at hnext
  · rw [hcount]
    exact Finset.sum_congr rfl fun i _ => hlength i
  · rw [hcount, accepted, List.length_flatMap, Fin.sum_univ_def]
    exact congrArg List.sum (List.map_congr_left fun i _ => by
      rw [(hstep i).1, Nat.zero_add])
  · exact accepted_uids fun i => (hstep i).2.2.1

theorem sum_card_sdiff (stdHash : String → ℕ) (ts ts' : List Trajectory) :
    ∑ i : Fin k, (uidsOf (batchFor stdHash ts' i) \ uidsOf (batchFor stdHash ts i)).card +
        ∑ i : Fin k, (uidsOf (batchFor stdHash ts i)).card =
      ∑ i : Fin k, (uidsOf (batchFor stdHash (ts ++ ts') i)).card := by
  rw [← Finset.sum_add_distrib]
  refine Finset.sum_congr rfl fun i _ => ?_
  rw [Finset.card_sdiff_add_card, batchFor_append, uidsOf_append, Finset.union_comm]

theorem sum_card_eq_iff (stdHash : String → ℕ) (ts : List Trajectory) :
    ∑ i : Fin k, (uidsOf (batchFor stdHash ts i)).card = (uidsOf ts).card ↔
      Colocated (k := k) stdHash ts := by
  have hkeys := Sharded.sum_card_keys_eq_iff
    (fun t : Trajectory => (shardFor stdHash t.instanceId : Fin k)) Trajectory.uid ts
  exact hkeys

theorem Remembers.same_answer {env₀ : Env} {s : BufferShard} {capacity : ℕ}
    {ts : List Trajectory} (h : m.Remembers stdHash capacity ts)
    (h₀ : s.Remembers capacity (uidsOf ts)) {request : Request} (hwrite : request.IsWrite)
    (hroom : (uidsOf (ts ++ request.submitted)).card ≤ capacity)
    (hanswered : (m.respond env stdHash request).1.Answered)
    (hanswered₀ : (s.respond env₀ request).1.Answered)
    (hcolocated : Colocated (k := k) stdHash (ts ++ request.submitted)) :
    (m.respond env stdHash request).1 = (s.respond env₀ request).1 := by
  have hcolocated' : Colocated (k := k) stdHash ts := fun t ht t' ht' =>
    hcolocated t (List.mem_append_left _ ht) t' (List.mem_append_left _ ht')
  have hcount := (h.respond env hwrite hroom hanswered).2.1
  have hcount₀ := (h₀.respond env₀ hwrite (by rwa [← uidsOf_append]) hanswered₀).2
  have hsame : (m.respond env stdHash request).1.count = (s.respond env₀ request).1.count := by
    have hsum := sum_card_sdiff (k := k) stdHash ts request.submitted
    rw [(sum_card_eq_iff stdHash _).mpr hcolocated, (sum_card_eq_iff stdHash _).mpr hcolocated',
      uidsOf_append, Finset.union_comm, ← Finset.card_sdiff_add_card] at hsum
    rw [hcount, hcount₀]
    omega
  cases request with
  | write t =>
    simp only [BufferManager.respond, BufferShard.respond, Prod.map] at hanswered hanswered₀ hsame ⊢
    rcases hw : (m.write env stdHash t).1 with e | accepted <;> rw [hw] at hanswered hsame
    · exact hanswered.elim
    rcases hw₀ : (s.write env₀ t).1 with e | accepted₀ <;> rw [hw₀] at hanswered₀ hsame
    · exact hanswered₀.elim
    cases accepted <;> cases accepted₀ <;> first | rfl | cases hsame
  | batchWrite ts =>
    simp only [BufferManager.respond, BufferShard.respond, Prod.map] at hanswered hanswered₀ hsame ⊢
    rcases hb : (m.batchWrite env stdHash ts).1 with e | n <;> rw [hb] at hanswered hsame
    · exact hanswered.elim
    rcases hb₀ : (s.batchWrite env₀ ts).1 with e | n₀ <;> rw [hb₀] at hanswered₀ hsame
    · exact hanswered₀.elim
    obtain rfl : n = n₀ := hsame
    rfl
  | _ => exact hwrite.elim

/-- A run of writes: the filters remember all of it, and the manager has accepted every uid
once for each shard that it got to. -/
theorem Remembers.run {capacity : ℕ} {ts : List Trajectory} (h : m.Remembers stdHash capacity ts)
    {requests : List Request} (hwrites : ∀ request ∈ requests, request.IsWrite)
    (hroom : (uidsOf (ts ++ requests.flatMap Request.submitted)).card ≤ capacity)
    (hanswered : ∀ response ∈ Machine.outputs (BufferManager.respond env stdHash) m requests,
      response.Answered) :
    let outputs := Machine.outputs (BufferManager.respond env stdHash) m requests
    let accepted := Machine.record (BufferManager.respond env stdHash)
      (BufferManager.accepted env stdHash) m requests
    (outputs.map Response.count).sum + ∑ i : Fin k, (uidsOf (batchFor stdHash ts i)).card =
        ∑ i : Fin k,
          (uidsOf (batchFor stdHash (ts ++ requests.flatMap Request.submitted) i)).card ∧
      accepted.length = (outputs.map Response.count).sum ∧
      uidsOf accepted ∪ uidsOf ts = uidsOf (ts ++ requests.flatMap Request.submitted) := by
  induction requests generalizing m ts with
  | nil => simp [Machine.outputs, Machine.record, uidsOf]
  | cons request requests ih =>
    obtain ⟨hwrite, hrest⟩ := List.forall_mem_cons.mp hwrites
    obtain ⟨hfirst, hlater⟩ := List.forall_mem_cons.mp hanswered
    rw [List.flatMap_cons, ← List.append_assoc] at hroom ⊢
    have hroom' : (uidsOf (ts ++ request.submitted)).card ≤ capacity := by
      refine (Finset.card_le_card ?_).trans hroom
      rw [uidsOf_append (ts ++ request.submitted)]
      exact Finset.subset_union_left
    obtain ⟨hnext, hcount, hlength, huids⟩ := h.respond env hwrite hroom' hfirst
    obtain ⟨hcounts, hlengths, hall⟩ := ih hnext hrest hroom hlater
    have hsum := sum_card_sdiff (k := k) stdHash ts request.submitted
    simp only [Machine.outputs, Machine.record, List.map_cons, List.sum_cons, List.length_append]
    refine ⟨by omega, by omega, ?_⟩
    rw [uidsOf_append, ← hall, ← huids, Finset.union_assoc, Finset.union_left_comm]

theorem Remembers.same_answers {env₀ : Env} {s : BufferShard} {capacity : ℕ}
    {ts : List Trajectory} (h : m.Remembers stdHash capacity ts)
    (h₀ : s.Remembers capacity (uidsOf ts)) {requests : List Request}
    (hwrites : ∀ request ∈ requests, request.IsWrite)
    (hroom : (uidsOf (ts ++ requests.flatMap Request.submitted)).card ≤ capacity)
    (hanswered : ∀ response ∈ Machine.outputs (BufferManager.respond env stdHash) m requests,
      response.Answered)
    (hanswered₀ : ∀ response ∈ Machine.outputs (BufferShard.respond env₀) s requests,
      response.Answered)
    (hcolocated : Colocated (k := k) stdHash (ts ++ requests.flatMap Request.submitted)) :
    Machine.outputs (BufferManager.respond env stdHash) m requests =
      Machine.outputs (BufferShard.respond env₀) s requests := by
  induction requests generalizing m s ts with
  | nil => rfl
  | cons request requests ih =>
    obtain ⟨hwrite, hrest⟩ := List.forall_mem_cons.mp hwrites
    obtain ⟨hfirst, hlater⟩ := List.forall_mem_cons.mp hanswered
    obtain ⟨hfirst₀, hlater₀⟩ := List.forall_mem_cons.mp hanswered₀
    rw [List.flatMap_cons, ← List.append_assoc] at hroom hcolocated
    have hroom' : (uidsOf (ts ++ request.submitted)).card ≤ capacity := by
      refine (Finset.card_le_card ?_).trans hroom
      rw [uidsOf_append (ts ++ request.submitted)]
      exact Finset.subset_union_left
    have hcolocated' : Colocated (k := k) stdHash (ts ++ request.submitted) :=
      fun t ht t' ht' =>
        hcolocated t (List.mem_append_left _ ht) t' (List.mem_append_left _ ht')
    have hanswer := h.same_answer h₀ hwrite hroom' hfirst hfirst₀ hcolocated'
    have hnext := (h.respond env hwrite hroom' hfirst).1
    have hnext₀ := (h₀.respond env₀ hwrite (by rwa [← uidsOf_append]) hfirst₀).1
    rw [← uidsOf_append] at hnext₀
    rw [Machine.outputs, Machine.outputs, hanswer,
      ih hnext hnext₀ hrest hroom hlater hlater₀ hcolocated]

/-- A run of writes and batches with the dedup check on and no more uids than a filter
holds, all of them answered, is answered as by a single shard, and accepts every uid at
most once, if and only if all trajectories with one uid are routed to one shard. -/
theorem dedup_as_one_shard_iff (env : Fin k → Env) (env₀ : Env) (stdHash : String → ℕ)
    {config : TransferQueueConfig} (hon : config.uidDedup = true) (bitCount numHashes : ℕ)
    {requests : List Request} (hwrites : ∀ request ∈ requests, request.IsWrite)
    (hroom : (uidsOf (requests.flatMap Request.submitted)).card ≤ 100000)
    (hanswered : ∀ response ∈ Machine.outputs (BufferManager.respond env stdHash)
      (start k config bitCount numHashes) requests, response.Answered)
    (hanswered₀ : ∀ response ∈ Machine.outputs (BufferShard.respond env₀)
      (.create config bitCount numHashes) requests, response.Answered) :
    (Machine.outputs (BufferManager.respond env stdHash) (start k config bitCount numHashes)
        requests =
      Machine.outputs (BufferShard.respond env₀) (.create config bitCount numHashes) requests ↔
        Colocated (k := k) stdHash (requests.flatMap Request.submitted)) ∧
    (((Machine.record (BufferManager.respond env stdHash) (BufferManager.accepted env stdHash)
        (start k config bitCount numHashes) requests).map Trajectory.uid).Nodup ↔
      Colocated (k := k) stdHash (requests.flatMap Request.submitted)) := by
  have h : (start k config bitCount numHashes).Remembers stdHash 100000 [] := fun _ =>
    .create hon bitCount numHashes
  have h₀ : (BufferShard.create config bitCount numHashes).Remembers 100000 (uidsOf []) :=
    .create hon bitCount numHashes
  obtain ⟨htotal, hlength, huids⟩ := h.run hwrites hroom hanswered
  have htotal₀ := h₀.run hwrites hroom hanswered₀
  have hzero : ∑ i : Fin k, (uidsOf (batchFor stdHash [] i)).card = 0 :=
    Finset.sum_const_zero
  have hnone : (uidsOf []).card = 0 := rfl
  rw [hzero, Nat.add_zero, List.nil_append] at htotal
  rw [hnone, Nat.add_zero, List.nil_append] at htotal₀
  rw [show uidsOf [] = ∅ from rfl, Finset.union_empty, List.nil_append] at huids
  refine ⟨⟨fun hsame => ?_, fun hcolocated => ?_⟩, ?_⟩
  · rw [← sum_card_eq_iff, ← htotal, ← htotal₀, hsame]
  · exact h.same_answers h₀ hwrites hroom hanswered hanswered₀ hcolocated
  · rw [← sum_card_eq_iff, ← htotal, ← hlength, ← huids, ← Multiset.coe_nodup,
      ← Multiset.toFinset_card_eq_card_iff_nodup, eq_comm]
    simp [uidsOf]

section Samples

/-- A uid submitted twice for one instance, in a batch and alone. -/
theorem dedup_as_one_shard_iff_together :
    let requests : List Request := [.batchWrite [.bare "u" "a", .bare "v" "bb"],
      .write (.bare "u" "a")]
    Machine.outputs (BufferManager.respond (fun _ : Fin 2 => .sample []) String.length)
        (start 2 {} 8 1) requests =
      Machine.outputs (BufferShard.respond (.sample [])) (.create {} 8 1) requests :=
  ((dedup_as_one_shard_iff (k := 2) (fun _ => .sample []) (.sample []) String.length rfl 8 1
    (by decide +kernel) (by decide +kernel) (by decide +kernel) (by decide +kernel)).1).mpr
      (by decide +kernel)

/-- A uid submitted for two instances on two shards is accepted twice; a single shard
rejects it the second time. -/
theorem dedup_depends_on_sharding :
    let requests : List Request := [.write (.bare "u" "a"), .write (.bare "u" "bb")]
    Machine.outputs (BufferManager.respond (fun _ : Fin 2 => .sample []) String.length)
        (start 2 {} 8 1) requests ≠
      Machine.outputs (BufferShard.respond (.sample [])) (.create {} 8 1) requests ∧
    ¬((Machine.record (BufferManager.respond (fun _ : Fin 2 => .sample []) String.length)
      (BufferManager.accepted (fun _ => .sample []) String.length) (start 2 {} 8 1)
        requests).map Trajectory.uid).Nodup := by
  refine ⟨fun hsame => ?_, by decide +kernel⟩
  have hcounts := congrArg (List.map Response.count) hsame
  exact absurd hcounts (by decide +kernel)

end Samples

end BufferManager
end TransferQueue
