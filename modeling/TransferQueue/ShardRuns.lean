import TransferQueue.Library.Machine
import TransferQueue.ReadRefinement

/-! Sequential runs of a shard: each operation is complete before the next starts.
On a working disk the shard refines its buffer, operation by operation and hence
over whole runs; the buffer is only told which writes are ignored. -/

namespace TransferQueue

/-- The operations of a shard that change it. -/
inductive Op where
  | write (t : Trajectory)
  | batchWrite (ts : List Trajectory)
  | readReadyGroups (maxGroups : Int32)
  | checkGroupTimeouts
  | deleteInstance (id : String)
  | reset
  | updateConfig (config : TransferQueueConfig)

/-- What the future of an operation resolves to. -/
inductive Output where
  | written (r : Except Failure Bool)
  | counted (r : Except Failure ℕ)
  | groups (r : Except Failure (List TrajectoryGroup))
  | done (r : Except Failure Unit)

/-- What a future without a value resolves to on a working disk; only a reset may fail. -/
def Settles (r : Except Failure Unit) : Prop := r = .ok () ∨ r = .error .useAfterFree

/-- Outputs that differ in the order of the groups of a read and in the failure of a reset at
most. -/
inductive Output.Agrees : Output → Output → Prop where
  | written (b : Bool) : Agrees (.written (.ok b)) (.written (.ok b))
  | counted (n : ℕ) : Agrees (.counted (.ok n)) (.counted (.ok n))
  | groups {xs ys : List TrajectoryGroup} (perm : xs.Perm ys) :
      Agrees (.groups (.ok xs)) (.groups (.ok ys))
  | done {r r' : Except Failure Unit} (left : Settles r) (right : Settles r') :
      Agrees (.done r) (.done r')

theorem Output.Agrees.symm {o o' : Output} (h : o.Agrees o') : o'.Agrees o := by
  cases h with
  | written b => exact .written b
  | counted n => exact .counted n
  | groups perm => exact .groups perm.symm
  | done left right => exact .done right left

theorem Output.Agrees.trans {o o' o'' : Output} (h : o.Agrees o') (h' : o'.Agrees o'') :
    o.Agrees o'' := by
  cases h with
  | written b => exact h'
  | counted n => exact h'
  | groups perm =>
    cases h' with
    | groups perm' => exact .groups (perm.trans perm')
  | done left right =>
    cases h' with
    | done _ right' => exact .done left right'

theorem Output.Agrees.resolved : Output.Agrees (.done (.ok ())) (.done (.ok ())) :=
  .done (.inl rfl) (.inl rfl)

namespace Buffer

/-- An operation as the buffer sees it: with the writes to be ignored. -/
inductive Input where
  | write (ignored : Bool) (t : Trajectory)
  | batchWrite (ts : List (Bool × Trajectory))
  | take (maxGroups : Int32)
  | expire
  | delete (id : String)
  | reset
  | configure (settings : Settings)

variable (env : Env)

def writeStep (b : Buffer) (p : Bool × Trajectory) : Bool × Buffer := b.write env p.1 p.2

def exec (b : Buffer) : Input → Output × Buffer
  | .write ignored t => (.written (.ok (b.write env ignored t).1), (b.write env ignored t).2)
  | .batchWrite ts =>
    (.counted (.ok ((Machine.outputs (writeStep env) b ts).count true)),
      Machine.final (writeStep env) b ts)
  | .take maxGroups => (.groups (.ok (b.take maxGroups).1), (b.take maxGroups).2)
  | .expire => (.done (.ok ()), b.expire env)
  | .delete id => (.done (.ok ()), b.delete id)
  | .reset => (.done (.ok ()), b.reset)
  | .configure settings => (.done (.ok ()), b.configure settings)

variable {env}

theorem Sound.exec {b : Buffer} (h : b.Sound) (input : Input) : (b.exec env input).2.Sound := by
  cases input with
  | write ignored t => exact h.write ignored t
  | batchWrite ts => exact Machine.final_inv Sound (fun _ p hb => hb.write p.1 p.2) ts h
  | take maxGroups => exact h.take maxGroups
  | expire => exact h.expire
  | delete id => exact h.delete id
  | reset => exact Sound.reset b
  | configure settings => exact h

end Buffer

namespace BufferShard

variable (env : Env)

def writeStep (s : BufferShard) (t : Trajectory) : Except Failure Bool × BufferShard :=
  s.write env t

def exec (s : BufferShard) : Op → Output × BufferShard
  | .write t => (s.write env t).map .written id
  | .batchWrite ts => (s.batchWrite env ts).map .counted id
  | .readReadyGroups maxGroups => (s.readReadyGroups env maxGroups).map .groups id
  | .checkGroupTimeouts => (.done (.ok ()), s.checkGroupTimeouts env)
  | .deleteInstance id => (.done (.ok ()), s.deleteInstance env id)
  | .reset => (s.reset env).map .done id
  | .updateConfig config => (.done (.ok ()), s.updateConfig config)

def run (s : BufferShard) (ops : List Op) : BufferShard := Machine.final (exec env) s ops

/-- The writes of a batch, each with whether it is ignored. -/
def batchInput (s : BufferShard) (ts : List Trajectory) : List (Bool × Trajectory) :=
  Machine.record (writeStep env) (fun s t => [(s.drops env t, t)]) s ts

def input (s : BufferShard) : Op → Buffer.Input
  | .write t => .write (s.drops env t) t
  | .batchWrite ts => .batchWrite (s.batchInput env ts)
  | .readReadyGroups maxGroups => .take maxGroups
  | .checkGroupTimeouts => .expire
  | .deleteInstance id => .delete id
  | .reset => .reset
  | .updateConfig config => .configure config.settings

variable {env}

theorem resetAnswer_settles (s : BufferShard) : Settles s.resetAnswer := by
  rw [resetAnswer]
  split
  · exact .inl rfl
  · exact .inr rfl

theorem write_buffer (hr : env.Reliable) {s : BufferShard} (hs : s.Settled env)
    (t : Trajectory) :
    (s.write env t).1 = .ok (s.buffer.write env (s.drops env t) t).1 ∧
      (s.write env t).2.Settled env ∧
      (s.write env t).2.buffer = (s.buffer.write env (s.drops env t) t).2 := by
  obtain ⟨s', hwrite, hs', -, hbuffer⟩ := write_refines hr hs t
  rw [hwrite, hbuffer]
  exact ⟨rfl, hs', rfl⟩

theorem batchWriteLoop_refines (hr : env.Reliable) {s : BufferShard} (hs : s.Settled env)
    (written : ℕ) (ts : List Trajectory) :
    batchWriteLoop env written ts s =
        (.ok (written + (Machine.outputs (Buffer.writeStep env) s.buffer
          (s.batchInput env ts)).count true), Machine.final (writeStep env) s ts) ∧
      (Machine.final (writeStep env) s ts).Settled env ∧
      (Machine.final (writeStep env) s ts).buffer =
        Machine.final (Buffer.writeStep env) s.buffer (s.batchInput env ts) := by
  induction ts generalizing s written with
  | nil => exact ⟨rfl, hs, rfl⟩
  | cons t ts ih =>
    obtain ⟨hok, hs', hbuffer⟩ := write_buffer hr hs t
    have hinput : s.batchInput env (t :: ts) =
        (s.drops env t, t) :: (s.write env t).2.batchInput env ts := rfl
    rw [hinput, Machine.outputs, Machine.final_cons, Machine.final_cons, Buffer.writeStep,
      ← hbuffer, batchWriteLoop, writeStep]
    refine ⟨?_, (ih hs' written).2⟩
    rcases hw : s.write env t with ⟨r, s₁⟩
    rw [hw] at hok hs'
    simp only at hok hs'
    subst hok
    cases hb : (s.buffer.write env (s.drops env t) t).1 with
    | true =>
      simp only [(ih hs' (written + 1)).1, List.count_cons_self]
      congr 2
      omega
    | false =>
      simp only [(ih hs' written).1, List.count_cons_of_ne Bool.false_ne_true]

/-- One operation of a settled shard is the operation of its buffer. -/
theorem exec_refines (hr : env.Reliable) {s : BufferShard} (hs : s.Settled env) (op : Op) :
    (s.exec env op).1.Agrees (s.buffer.exec env (s.input env op)).1 ∧
      (s.exec env op).2.Settled env ∧
      (s.exec env op).2.buffer = (s.buffer.exec env (s.input env op)).2 := by
  cases op with
  | write t =>
    obtain ⟨hok, hs', hbuffer⟩ := write_buffer hr hs t
    refine ⟨?_, hs', hbuffer⟩
    simp only [exec, Prod.map, hok]
    exact .written _
  | batchWrite ts =>
    obtain ⟨hloop, hs', hbuffer⟩ := batchWriteLoop_refines hr hs 0 ts
    simp only [exec, batchWrite, hloop, Nat.zero_add]
    exact ⟨.counted _, hs', hbuffer⟩
  | readReadyGroups maxGroups =>
    obtain ⟨result, s', hread, hs', -, hperm, hbuffer⟩ := readReadyGroups_refines hr hs maxGroups
    simp only [exec, hread]
    exact ⟨.groups hperm, hs', hbuffer⟩
  | checkGroupTimeouts =>
    obtain ⟨hs', -, hbuffer⟩ := checkGroupTimeouts_refines hs
    exact ⟨.resolved, hs', hbuffer⟩
  | deleteInstance id =>
    obtain ⟨hs', -, hbuffer⟩ := deleteInstance_refines hr hs id
    exact ⟨.resolved, hs', hbuffer⟩
  | reset =>
    obtain ⟨s', hreset, hs', -, hbuffer⟩ := reset_refines hr hs
    simp only [exec, hreset]
    exact ⟨.done s.resetAnswer_settles (.inl rfl), hs', hbuffer⟩
  | updateConfig config =>
    obtain ⟨hs', hbuffer⟩ := updateConfig_refines hs config
    exact ⟨.resolved, hs', hbuffer⟩

/-- A settled shard with a sound buffer: what holds between the operations of a run. -/
structure Steady (env : Env) (s : BufferShard) : Prop where
  settled : s.Settled env
  sound : s.buffer.Sound

theorem Steady.create (config : TransferQueueConfig) (bitCount numHashes : ℕ) :
    (BufferShard.create config bitCount numHashes).Steady env :=
  ⟨.create config bitCount numHashes, fun _ _ h => nomatch h⟩

theorem Steady.exec (hr : env.Reliable) {s : BufferShard} (hs : s.Steady env) (op : Op) :
    (s.exec env op).2.Steady env := by
  obtain ⟨-, hsettled, hbuffer⟩ := exec_refines hr hs.settled op
  exact ⟨hsettled, hbuffer ▸ hs.sound.exec (s.input env op)⟩

theorem Steady.write (hr : env.Reliable) {s : BufferShard} (hs : s.Steady env)
    (t : Trajectory) : (s.writeStep env t).2.Steady env :=
  Steady.exec hr hs (.write t)

theorem Steady.run (hr : env.Reliable) {s : BufferShard} (hs : s.Steady env) (ops : List Op) :
    (s.run env ops).Steady env :=
  Machine.final_inv (Steady env) (fun _ op hs => hs.exec hr op) ops hs

end BufferShard
end TransferQueue
