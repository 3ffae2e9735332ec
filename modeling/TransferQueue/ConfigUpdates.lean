import TransferQueue.ShardedDedup

/-! Configuration requests. A field of the configuration is overwritten if the request
gives it an admissible value, and proto3 reads an absent field as its default, which is
not admissible; the switch of the dedup check is overwritten by every request. -/

namespace TransferQueue

section LastGiven
variable {α β : Type*} {field : β → Option α} {admissible : α → Prop} [DecidablePred admissible]

/-- The last admissible value that the bodies give to a field, or its initial one. -/
def lastGiven (field : β → Option α) (admissible : α → Prop) [DecidablePred admissible]
    (initial : α) (bodies : List β) : α :=
  ((bodies.filterMap field).filter fun a => decide (admissible a)).getLastD initial

theorem lastGiven_cons (initial : α) (b : β) (bodies : List β) :
    lastGiven field admissible initial (b :: bodies) =
      lastGiven field admissible (((field b).filter fun a => decide (admissible a)).getD initial)
        bodies := by
  rw [lastGiven, lastGiven, List.filterMap_cons]
  cases field b with
  | none => rfl
  | some a =>
    by_cases ha : admissible a
    · rw [List.filter_cons_of_pos (by simpa using ha), List.getLastD_cons,
        Option.filter_some_pos (by simpa using ha), Option.getD_some]
    · rw [List.filter_cons_of_neg (by simpa using ha), Option.filter_some_neg (by simpa using ha),
        Option.getD_none]

theorem lastGiven_concat (initial : α) (bodies : List β) (b : β) :
    lastGiven field admissible initial (bodies ++ [b]) =
      ((field b).filter fun a => decide (admissible a)).getD
        (lastGiven field admissible initial bodies) := by
  rw [lastGiven, lastGiven, List.filterMap_append, List.filter_append]
  cases hb : field b with
  | none => simp [hb]
  | some a => by_cases ha : admissible a <;> simp [hb, ha, Option.filter_some]

/-- Assignments guarded against the default keep the last admissible value. -/
theorem foldl_guarded {absent : α} (habsent : ¬admissible absent) (initial : α)
    (bodies : List β) :
    bodies.foldl (fun v b =>
        if admissible ((field b).getD absent) then (field b).getD absent else v) initial =
      lastGiven field admissible initial bodies := by
  induction bodies generalizing initial with
  | nil => rfl
  | cons b bodies ih =>
    rw [List.foldl_cons, ih, lastGiven_cons]
    cases field b with
    | none => simp [habsent]
    | some a => by_cases ha : admissible a <;> simp [ha, Option.filter_some]

end LastGiven

/-- The message of a configuration request; what is not set has its default. -/
structure ConfigRequest where
  groupSize : ℤ := 0
  taskType : String := ""
  maxMemoryBytes : ℤ := 0
  spillToDiskThreshold : ℚ := 0
  uidDedup : Bool := false
  groupTimeoutSeconds : ℤ := 0

/-- The fields that the JSON body of a request contains. -/
structure ConfigBody where
  groupSize : Option ℤ := none
  taskType : Option String := none
  maxMemoryBytes : Option ℤ := none
  spillToDiskThreshold : Option ℚ := none
  uidDedup : Option Bool := none
  groupTimeoutSeconds : Option ℤ := none

/-- `JsonStringToMessage` on the fields of a body. -/
def ConfigBody.message (b : ConfigBody) : ConfigRequest where
  groupSize := b.groupSize.getD 0
  taskType := b.taskType.getD ""
  maxMemoryBytes := b.maxMemoryBytes.getD 0
  spillToDiskThreshold := b.spillToDiskThreshold.getD 0
  uidDedup := b.uidDedup.getD false
  groupTimeoutSeconds := b.groupTimeoutSeconds.getD 0

namespace TransferQueueConfig

def update (req : ConfigRequest) (c : TransferQueueConfig) : TransferQueueConfig :=
  { c with
    groupSize := if 0 < req.groupSize then req.groupSize else c.groupSize
    taskType := if req.taskType ≠ "" then req.taskType else c.taskType
    maxMemoryBytes := if 0 < req.maxMemoryBytes then req.maxMemoryBytes else c.maxMemoryBytes
    spillToDiskThreshold :=
      if 0 < req.spillToDiskThreshold then req.spillToDiskThreshold else c.spillToDiskThreshold
    uidDedup := req.uidDedup
    groupTimeoutSeconds :=
      if 0 < req.groupTimeoutSeconds then req.groupTimeoutSeconds else c.groupTimeoutSeconds }

/-- The configuration that the bodies ask for: every field as it was last given. -/
def expected (initial : TransferQueueConfig) (bodies : List ConfigBody) : TransferQueueConfig where
  groupSize := lastGiven ConfigBody.groupSize (0 < ·) initial.groupSize bodies
  groupTimeoutSeconds :=
    lastGiven ConfigBody.groupTimeoutSeconds (0 < ·) initial.groupTimeoutSeconds bodies
  uidDedup := lastGiven ConfigBody.uidDedup (fun _ => True) initial.uidDedup bodies
  maxMemoryBytes := lastGiven ConfigBody.maxMemoryBytes (0 < ·) initial.maxMemoryBytes bodies
  spillToDiskThreshold :=
    lastGiven ConfigBody.spillToDiskThreshold (0 < ·) initial.spillToDiskThreshold bodies
  taskType := lastGiven ConfigBody.taskType (· ≠ "") initial.taskType bodies

def updateAll (initial : TransferQueueConfig) (bodies : List ConfigBody) : TransferQueueConfig :=
  bodies.foldl (fun c b => c.update b.message) initial

theorem updateAll_guarded {α : Type*} (get : TransferQueueConfig → α)
    (field : ConfigBody → Option α) (admissible : α → Prop) [DecidablePred admissible] {absent : α}
    (hget : ∀ (c : TransferQueueConfig) (b : ConfigBody), get (c.update b.message) =
      if admissible ((field b).getD absent) then (field b).getD absent else get c)
    (habsent : ¬admissible absent) (initial : TransferQueueConfig) (bodies : List ConfigBody) :
    get (initial.updateAll bodies) = lastGiven field admissible (get initial) bodies := by
  rw [updateAll, ← foldl_guarded habsent]
  exact (List.foldl_hom get fun c b => (hget c b).symm).symm

theorem updateAll_uidDedup (initial : TransferQueueConfig) (bodies : List ConfigBody) :
    (initial.updateAll bodies).uidDedup =
      (bodies.getLast?.map fun b => b.uidDedup.getD false).getD initial.uidDedup := by
  rcases List.eq_nil_or_concat' bodies with rfl | ⟨earlier, last, rfl⟩
  · rfl
  · rw [updateAll, List.foldl_append, List.getLast?_concat]
    rfl

theorem updateAll_eq (initial : TransferQueueConfig) (bodies : List ConfigBody) :
    initial.updateAll bodies =
      { initial.expected bodies with uidDedup := (initial.updateAll bodies).uidDedup } := by
  have hgroupSize := updateAll_guarded TransferQueueConfig.groupSize ConfigBody.groupSize (0 < ·)
    (fun _ _ => rfl) (lt_irrefl 0) initial bodies
  have htimeout := updateAll_guarded TransferQueueConfig.groupTimeoutSeconds
    ConfigBody.groupTimeoutSeconds (0 < ·) (fun _ _ => rfl) (by decide) initial bodies
  have hmemory := updateAll_guarded TransferQueueConfig.maxMemoryBytes ConfigBody.maxMemoryBytes
    (0 < ·) (fun _ _ => rfl) (by decide) initial bodies
  have hthreshold := updateAll_guarded TransferQueueConfig.spillToDiskThreshold
    ConfigBody.spillToDiskThreshold (0 < ·) (fun _ _ => rfl) (by decide) initial bodies
  have htaskType := updateAll_guarded TransferQueueConfig.taskType ConfigBody.taskType (· ≠ "")
    (fun _ _ => rfl) (by decide) initial bodies
  rw [expected, ← hgroupSize, ← htimeout, ← hmemory, ← hthreshold, ← htaskType]

/-- The last body gives the switch of the dedup check, or its last given value is off. -/
def SwitchGiven (initial : TransferQueueConfig) (bodies : List ConfigBody) : Prop :=
  (∀ b, bodies.getLast? = some b → b.uidDedup ≠ none) ∨ (initial.expected bodies).uidDedup = false

theorem expected_uidDedup_concat (initial : TransferQueueConfig) (bodies : List ConfigBody)
    (b : ConfigBody) : (initial.expected (bodies ++ [b])).uidDedup =
      b.uidDedup.getD (initial.expected bodies).uidDedup := by
  rw [expected, expected]
  simp only [lastGiven_concat]
  cases b.uidDedup <;> simp [Option.filter_some]

theorem updateAll_eq_expected_iff (initial : TransferQueueConfig) (bodies : List ConfigBody) :
    initial.updateAll bodies = initial.expected bodies ↔ initial.SwitchGiven bodies := by
  have hswitch : initial.updateAll bodies = initial.expected bodies ↔
      (initial.updateAll bodies).uidDedup = (initial.expected bodies).uidDedup := by
    constructor
    · exact fun h => congrArg _ h
    · intro h
      rw [updateAll_eq, h]
  rw [hswitch, updateAll_uidDedup, SwitchGiven]
  rcases List.eq_nil_or_concat' bodies with rfl | ⟨earlier, last, rfl⟩
  · exact ⟨fun _ => .inl fun b hb => (nomatch hb), fun _ => rfl⟩
  · rw [List.getLast?_concat, expected_uidDedup_concat, Option.map_some, Option.getD_some]
    cases hlast : last.uidDedup with
    | none =>
      have hsilent : ¬∀ b, some last = some b → b.uidDedup ≠ none := fun h => h last rfl hlast
      simp only [Option.getD_none, hsilent, false_or]
      exact eq_comm
    | some on => simp [hlast]

end TransferQueueConfig

namespace BufferShard

variable {env : Env}

section Frame

theorem batchWriteLoop_config (written : ℕ) (ts : List Trajectory) (s : BufferShard) :
    (batchWriteLoop env written ts s).2.config = s.config :=
  batchWriteLoop_keeps (P := fun s' => s'.config = s.config)
    (fun t s' h => (write_frame env t s').2.trans h) written ts rfl

theorem deleteInstance_config (id : String) (s : BufferShard) :
    (s.deleteInstance env id).config = s.config := by
  rw [deleteInstance, deleteEntry]
  cases s.groups.get? id with
  | none => rfl
  | some e => cases hd : e.isOnDisk <;> simp [hd]

theorem reset_config (s : BufferShard) : (s.reset env).2.config = s.config := by
  rfl

end Frame

section Remembered
variable (env)

/-- The uids that a write drives out of the filter. -/
def evicted (s : BufferShard) (t : Trajectory) : Finset String :=
  (if s.config.uidDedup then insert t.uid s.dedupFilter.seen else ∅) \
    (s.write env t).2.dedupFilter.seen

/-- The uids accepted and not evicted, after one more write. -/
def accept (s : BufferShard) (t : Trajectory) (live : Finset String) : Finset String :=
  (if (s.write env t).1 = .ok true then insert t.uid live else live) \ s.evicted env t

end Remembered

/-- The filter of a deduplicating shard holds the uids accepted and not evicted. -/
def Live (s : BufferShard) (live : Finset String) : Prop :=
  s.config.uidDedup = true → live ⊆ s.dedupFilter.seen

theorem Live.accept {s : BufferShard} {live : Finset String} (h : s.Live live) (t : Trajectory) :
    (s.write env t).2.Live (s.accept env t live) := by
  intro hon
  rw [(write_frame env t s).2] at hon
  intro uid huid
  obtain ⟨hlive, hkept⟩ := Finset.mem_sdiff.mp huid
  by_contra hout
  refine hkept (Finset.mem_sdiff.mpr ⟨?_, hout⟩)
  rw [if_pos hon]
  split at hlive
  · exact Finset.insert_subset_insert _ (h hon) hlive
  · exact Finset.mem_insert_of_mem (h hon hlive)

theorem Live.rejects_iff {s : BufferShard} {live : Finset String} (h : s.Live live)
    {t : Trajectory} (ht : t.uid ∈ live) :
    (s.write env t).1 = .ok false ↔ s.config.uidDedup = true := by
  constructor
  · intro hreject
    have hanswer := write_answer hreject
    rw [dedup] at hanswer
    by_contra hoff
    rw [if_neg hoff] at hanswer
    cases hanswer
  · intro hon
    have hdedup : (s.dedup env t.uid).1 = false := by
      rw [dedup, if_pos hon, DedupFilter.insert_fst, decide_eq_false_iff_not, not_not]
      exact h hon ht
    rw [write_duplicate hdedup]

end BufferShard

/-- What the server is asked for: an operation of the buffer, or `POST /config` with a body
that does not parse or the fields it contains. -/
inductive HttpRequest where
  | buffer (request : Request)
  | config (body : Except String ConfigBody)

def HttpRequest.isWriteOrSilent : HttpRequest → Bool
  | .buffer (.write _) => true
  | .config (.ok body) => body.uidDedup.isNone
  | .config (.error _) => true
  | _ => false

/-- The bodies that parse. -/
def bodies (requests : List HttpRequest) : List ConfigBody :=
  requests.filterMap fun
    | .config (.ok body) => some body
    | _ => none

namespace BufferManager

variable {k : ℕ}

/-- The new configuration goes to every shard. -/
def updateConfig (req : ConfigRequest) (m : BufferManager k) : BufferManager k :=
  let config := m.config.update req
  { config, shards := fun i => (m.shards i).updateConfig config }

def handleConfig (body : Except String ConfigBody) (m : BufferManager k) :
    Except Failure Unit × BufferManager k :=
  match body with
  | .error status => (.error (.runtimeError ("Invalid JSON: " ++ status)), m)
  | .ok body => (.ok (), m.updateConfig body.message)

variable [NeZero k] (env : Fin k → Env) (stdHash : String → ℕ)

def handle (m : BufferManager k) : HttpRequest → Response × BufferManager k
  | .buffer request => m.respond env stdHash request
  | .config body => (m.handleConfig body).map .done id

def Configured (config : TransferQueueConfig) (m : BufferManager k) : Prop :=
  m.config = config ∧ ∀ i, (m.shards i).config = config

variable {env stdHash}

theorem Configured.respond {config : TransferQueueConfig} {m : BufferManager k}
    (h : m.Configured config) (request : Request) :
    (m.respond env stdHash request).2.Configured config := by
  have hupdate : ∀ (i : Fin k) (s : BufferShard), s.config = (m.shards i).config → ∀ j,
      (Function.update m.shards i s j).config = config := by
    intro i s hs j
    by_cases hj : j = i
    · rw [hj, Function.update_self, hs, h.2]
    · rw [Function.update_of_ne hj, h.2]
  cases request with
  | write t => exact ⟨h.1, hupdate _ _ (BufferShard.write_frame _ t _).2⟩
  | batchWrite ts =>
    rw [BufferManager.respond, batchWrite_eq]
    exact ⟨h.1, fun i => (BufferShard.batchWriteLoop_config 0 _ _).trans (h.2 i)⟩
  | readReadyGroups maxGroups =>
    exact ⟨h.1, fun i => (BufferShard.readReadyGroups_config maxGroups _).trans (h.2 i)⟩
  | hasReadyGroups => exact h
  | deleteInstance id => exact ⟨h.1, hupdate _ _ (BufferShard.deleteInstance_config id _)⟩
  | reset => exact ⟨h.1, fun i => (BufferShard.reset_config _).trans (h.2 i)⟩
  | getStatus => exact h

theorem Configured.final {config : TransferQueueConfig} {m : BufferManager k}
    (h : m.Configured config) (env : Fin k → Env) (stdHash : String → ℕ)
    (requests : List HttpRequest) : (Machine.final (handle env stdHash) m requests).Configured
      (config.updateAll (bodies requests)) := by
  induction requests generalizing config m with
  | nil => exact h
  | cons request requests ih =>
    rw [Machine.final_cons]
    cases request with
    | buffer request => exact ih (h.respond request)
    | config body =>
      cases body with
      | error status => exact ih h
      | ok body =>
        have hnext : (m.updateConfig body.message).Configured (config.update body.message) := by
          rw [← h.1]
          exact ⟨rfl, fun _ => rfl⟩
        exact ih hnext

section Tracking
variable (env stdHash)

/-- A request, with the uids that the shards have accepted and not evicted. -/
def track (state : BufferManager k × (Fin k → Finset String)) (request : HttpRequest) :
    Response × BufferManager k × (Fin k → Finset String) :=
  let r := state.1.handle env stdHash request
  (r.1, r.2,
    match request with
    | .buffer (.write t) =>
      let i := shardFor stdHash t.instanceId
      Function.update state.2 i ((state.1.shards i).accept (env i) t (state.2 i))
    | _ => state.2)

end Tracking

theorem final_track (requests : List HttpRequest) (m : BufferManager k)
    (live : Fin k → Finset String) :
    (Machine.final (track env stdHash) (m, live) requests).1 =
      Machine.final (handle env stdHash) m requests := by
  induction requests generalizing m live with
  | nil => rfl
  | cons request requests ih => exact ih _ _

theorem live_track {state : BufferManager k × (Fin k → Finset String)}
    (h : ∀ i, (state.1.shards i).Live (state.2 i)) {request : HttpRequest}
    (hrequest : request.isWriteOrSilent = true) (i : Fin k) :
    ((track env stdHash state request).2.1.shards i).Live
      ((track env stdHash state request).2.2 i) := by
  cases request with
  | buffer request =>
    cases request with
    | write t =>
      change (Function.update state.1.shards _ _ i).Live (Function.update state.2 _ _ i)
      by_cases hi : i = shardFor stdHash t.instanceId
      · subst hi
        rw [Function.update_self, Function.update_self]
        exact (h _).accept t
      · rw [Function.update_of_ne hi, Function.update_of_ne hi]
        exact h i
    | _ => cases hrequest
  | config body =>
    cases body with
    | error status => exact h i
    | ok body =>
      intro hon
      have hoff : body.uidDedup.getD false = false := by
        rw [Option.isNone_iff_eq_none.mp hrequest, Option.getD_none]
      exact absurd (hoff.symm.trans hon) Bool.false_ne_true

theorem updateAll_silent {config : TransferQueueConfig} (hon : config.uidDedup = true)
    {requests : List HttpRequest} (hrequests : ∀ r ∈ requests, r.isWriteOrSilent = true) :
    (config.updateAll (bodies requests)).uidDedup = true ↔ bodies requests = [] := by
  rw [TransferQueueConfig.updateAll_uidDedup]
  cases hlast : (bodies requests).getLast? with
  | none =>
    rw [List.getLast?_eq_none_iff] at hlast
    simp [hlast, hon]
  | some b =>
    have hmem : b ∈ bodies requests := List.mem_of_getLast? hlast
    have hsilent : b.uidDedup = none := by
      obtain ⟨r, hr, hbody⟩ := List.mem_filterMap.mp hmem
      match r, hbody with
      | .config (.ok _), rfl => exact Option.isNone_iff_eq_none.mp (hrequests _ hr)
    simp [hsilent, List.ne_nil_of_mem hmem]

/-- Every field of the configuration, of the manager and of every shard, is as it was last
given if and only if the last request gives the switch of the dedup check, or the switch
was last given as off. And when the server starts with the check on and no request
mentions it, a uid that was accepted and not evicted is rejected by its shard if and only
if no configuration request has come in. -/
theorem config_as_given_iff (config : TransferQueueConfig) (bitCount numHashes : ℕ) :
    (∀ requests : List HttpRequest,
      (Machine.final (handle env stdHash) (start k config bitCount numHashes) requests).Configured
        (config.expected (bodies requests)) ↔ config.SwitchGiven (bodies requests)) ∧
    (config.uidDedup = true → ∀ requests : List HttpRequest,
      (∀ r ∈ requests, r.isWriteOrSilent = true) → ∀ (m : BufferManager k) live,
        Machine.final (track env stdHash) (start k config bitCount numHashes, fun _ => ∅) requests =
          (m, live) →
        ∀ t : Trajectory, t.uid ∈ live (shardFor stdHash t.instanceId) →
          ((m.write env stdHash t).1 = .ok false ↔ bodies requests = [])) := by
  have hstart : (start k config bitCount numHashes).Configured config := ⟨rfl, fun _ => rfl⟩
  refine ⟨fun requests => ?_, fun hon requests hrequests m live hfinal t ht => ?_⟩
  · have hconfigured := hstart.final env stdHash requests
    rw [← TransferQueueConfig.updateAll_eq_expected_iff]
    constructor
    · exact fun h => hconfigured.1.symm.trans h.1
    · exact fun h => h ▸ hconfigured
  · have hlive : ∀ i, ((Machine.final (track env stdHash) (start k config bitCount numHashes,
        fun _ => ∅) requests).1.shards i).Live ((Machine.final (track env stdHash)
          (start k config bitCount numHashes, fun _ => ∅) requests).2 i) :=
      (Machine.along_of_inv (P := fun _ _ => True)
        (fun state : BufferManager k × (Fin k → Finset String) =>
          ∀ i, (state.1.shards i).Live (state.2 i))
        (fun _ _ hs hr => ⟨trivial, live_track hs hr⟩) requests
        (fun _ _ => Finset.empty_subset _) (Machine.along_of_mem hrequests _)).2
    have hm : m =
        Machine.final (handle env stdHash) (start k config bitCount numHashes) requests := by
      rw [← final_track, hfinal]
    have hconfigured := hstart.final env stdHash requests
    rw [← hm] at hconfigured
    rw [hfinal] at hlive
    rw [← updateAll_silent hon hrequests, ← hconfigured.2 (shardFor stdHash t.instanceId)]
    exact (hlive _).rejects_iff ht

/-- A uid written twice, with no configuration request in between. -/
theorem config_as_given_iff_silent :
    ((Machine.final (handle (k := 1) (fun _ => .sample []) fun _ => 0) (start 1 {} 8 1)
      [.buffer (.write (.bare "u" "i"))]).write (fun _ => .sample []) (fun _ => 0)
        (.bare "u" "j")).1 = .ok false :=
  (((config_as_given_iff {} 8 1).2 rfl [.buffer (.write (.bare "u" "i"))] (by decide) _ _ rfl
    (.bare "u" "j") (by decide +kernel)).mpr rfl)

/-- A request for a larger group size turns the dedup check off. -/
theorem config_drops_dedup :
    let m := Machine.final (handle (k := 1) (fun _ => .sample []) fun _ => 0) (start 1 {} 8 1)
      [.buffer (.write (.bare "u" "i")), .config (.ok { groupSize := some 32 })]
    m.config.uidDedup = false ∧
      (({} : TransferQueueConfig).expected [{ groupSize := some 32 }]).uidDedup = true ∧
      (m.write (fun _ => .sample []) (fun _ => 0) (.bare "u" "i")).1 = .ok true := by
  decide +kernel

end BufferManager
end TransferQueue
