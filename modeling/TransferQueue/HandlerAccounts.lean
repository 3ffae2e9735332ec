import Mathlib.Algebra.BigOperators.Group.Finset.Basic
import TransferQueue.HandlerRuns
import TransferQueue.ServerReads

/-! The accounts of the handlers. Every call is made by one session, and what the calls of a
session return is what it replies, sends, holds or drops. -/

namespace TransferQueue

namespace Server
variable {k : ℕ} [NeZero k] {env : Fin k → Env} {stdHash : String → ℕ} {s : Server k}

def returnedBy (stdHash : String → ℕ) (c : ℕ) (s : Server k) : Multiset TrajectoryGroup :=
  ((s.responseOf stdHash c).toList.flatMap Response.given : List TrajectoryGroup)

end Server

/-- What the calls of session `n` have returned, but for the one that it waits for. -/
def collected {k : ℕ} [NeZero k] (stdHash : String → ℕ) (server : Server k) (callers : List ℕ)
    (n : ℕ) (awaits : Option ℕ) : Multiset TrajectoryGroup :=
  ∑ c ∈ Finset.range callers.length,
    if callers[c]? = some n ∧ awaits ≠ some c then server.returnedBy stdHash c else 0

section Collected
variable {k : ℕ} [NeZero k] {stdHash : String → ℕ} {server server' : Server k}
  {callers : List ℕ} {n : ℕ}

theorem collected_congr {awaits : Option ℕ}
    (h : ∀ c, callers[c]? = some n → awaits ≠ some c →
      server'.returnedBy stdHash c = server.returnedBy stdHash c) :
    collected stdHash server' callers n awaits = collected stdHash server callers n awaits := by
  refine Finset.sum_congr rfl fun c _ => ?_
  split
  case isTrue hown => exact h c hown.1 hown.2
  case isFalse => rfl

theorem collected_settle {c : ℕ} (hc : callers[c]? = some n) :
    collected stdHash server callers n none =
      collected stdHash server callers n (some c) + server.returnedBy stdHash c := by
  have hlt : c ∈ Finset.range callers.length :=
    Finset.mem_range.mpr (List.getElem?_eq_some_iff.mp hc).1
  have hone : server.returnedBy stdHash c =
      ∑ c' ∈ Finset.range callers.length, if c = c' then server.returnedBy stdHash c' else 0 := by
    rw [Finset.sum_ite_eq, if_pos hlt]
  rw [hone, collected, collected, ← Finset.sum_add_distrib]
  refine Finset.sum_congr rfl fun c' _ => ?_
  by_cases hcc : c = c'
  · subst hcc
    simp [hc]
  · simp [hcc]

theorem collected_concat {m : ℕ} {awaits awaits' : Option ℕ}
    (hnew : m = n → awaits' = some callers.length)
    (hold : ∀ c < callers.length, awaits' ≠ some c ↔ awaits ≠ some c) :
    collected stdHash server (callers ++ [m]) n awaits' =
      collected stdHash server callers n awaits := by
  have hlast : (callers ++ [m])[callers.length]? = some m := by simp
  have hzero : ¬((callers ++ [m])[callers.length]? = some n ∧ awaits' ≠ some callers.length) := by
    rintro ⟨hown, hne⟩
    exact hne (hnew (Option.some.inj (hlast.symm.trans hown)))
  rw [collected, List.length_append, List.length_singleton, Finset.sum_range_succ, if_neg hzero,
    add_zero, collected]
  refine Finset.sum_congr rfl fun c hc => ?_
  have hlt : c < callers.length := Finset.mem_range.mp hc
  rw [List.getElem?_append_left hlt]
  simp only [hold c hlt]

theorem sum_collected {sessions : ℕ} (h : ∀ m ∈ callers, m < sessions) :
    ∑ n ∈ Finset.range sessions, collected stdHash server callers n none =
      ∑ c ∈ Finset.range callers.length, server.returnedBy stdHash c := by
  simp only [collected]
  rw [Finset.sum_comm]
  refine Finset.sum_congr rfl fun c hc => ?_
  have hlt : c < callers.length := Finset.mem_range.mp hc
  simp only [List.getElem?_eq_getElem hlt, ne_eq, reduceCtorEq, not_false_eq_true, and_true,
    Option.some.injEq]
  rw [Finset.sum_ite_eq, if_pos (Finset.mem_range.mpr (h _ (List.getElem_mem hlt)))]

end Collected

/-- The groups that a session has got: sent, replied, held and dropped. -/
def Session.got (session : Session) : Multiset TrajectoryGroup :=
  session.sent + (session.phase.replied ++ session.phase.held : List TrajectoryGroup) +
    session.dropped

theorem Session.sink_awaits (outcome : SendOutcome) (session : Session) :
    (session.sink outcome).phase.awaits = session.phase.awaits := by
  rw [sink]
  split
  · rename_i hphase
    rw [hphase]
    cases outcome with
    | pending =>
      dsimp only
      split <;> rfl
    | _ => rfl
  · rfl

theorem Session.sink_got (outcome : SendOutcome) (session : Session) :
    (session.sink outcome).got = session.got := by
  obtain ⟨source, phase, sent, dropped⟩ := session
  rw [sink]
  split
  · rename_i poll group rest hphase
    obtain rfl : phase = .sending poll (group :: rest) := hphase
    simp only [got, Multiset.coe_add]
    refine Multiset.coe_eq_coe.mpr ?_
    have hmove : (sent ++ dropped ++ group :: rest).Perm (sent ++ group :: rest ++ dropped) := by
      rw [List.append_assoc, List.append_assoc]
      exact List.perm_append_comm.append_left sent
    cases outcome with
    | ready => simp [Phase.replied, Phase.held]
    | pending =>
      by_cases hlast : rest = []
      · simp [Phase.replied, Phase.held, hlast]
      · simp only [Phase.replied, Phase.held, hlast, if_false, List.append_nil, List.nil_append]
        refine List.Perm.trans ?_ hmove
        simpa using List.perm_middle.symm.append_left sent
    | refused => simpa [Phase.replied, Phase.held] using hmove
  · rfl

/-- Session `n` waits for a call of its own, its other calls have resolved, and it has got what
they returned. -/
structure Tracks {k : ℕ} [NeZero k] (stdHash : String → ℕ) (server : Server k) (callers : List ℕ)
    (n : ℕ) (session : Session) : Prop where
  awaited : ∀ c ∈ session.phase.awaits, callers[c]? = some n
  settled : ∀ c, callers[c]? = some n → session.phase.awaits ≠ some c →
    (server.responseOf stdHash c).isSome = true
  account : collected stdHash server callers n session.phase.awaits = session.got

namespace Tracks
variable {k : ℕ} [NeZero k] {stdHash : String → ℕ} {server server' : Server k}
  {callers : List ℕ} {n : ℕ} {session : Session}

theorem of_not_mem (h : n ∉ callers) (hawaits : session.phase.awaits = none)
    (hgot : session.got = 0) : Tracks stdHash server callers n session := by
  have hnone : ∀ c, callers[c]? ≠ some n := fun c hc => h (List.mem_of_getElem? hc)
  refine ⟨by simp [hawaits], fun c hc => absurd hc (hnone c), ?_⟩
  rw [hgot]
  exact Finset.sum_eq_zero fun c _ => if_neg fun hown => hnone c hown.1

theorem serve (h : Tracks stdHash server callers n session)
    (hstays : ∀ c response, server.responseOf stdHash c = some response →
      server'.responseOf stdHash c = some response) : Tracks stdHash server' callers n session where
  awaited := h.awaited
  settled c hc hawaits := by
    obtain ⟨response, hresponse⟩ := Option.isSome_iff_exists.mp (h.settled c hc hawaits)
    rw [hstays c response hresponse]
    rfl
  account := by
    rw [← h.account]
    refine collected_congr fun c hc hawaits => ?_
    obtain ⟨response, hresponse⟩ := Option.isSome_iff_exists.mp (h.settled c hc hawaits)
    rw [Server.returnedBy, Server.returnedBy, hresponse, hstays c response hresponse]

theorem other (h : Tracks stdHash server callers n session) {m : ℕ} (hm : m ≠ n) :
    Tracks stdHash server (callers ++ [m]) n session where
  awaited c hc := by
    have hlt := (List.getElem?_eq_some_iff.mp (h.awaited c hc)).1
    rw [List.getElem?_append_left hlt]
    exact h.awaited c hc
  settled c hc hawaits := by
    by_cases hlt : c < callers.length
    · rw [List.getElem?_append_left hlt] at hc
      exact h.settled c hc hawaits
    · rw [List.getElem?_append_right (Nat.le_of_not_lt hlt)] at hc
      exact absurd (List.mem_singleton.mp (List.mem_of_getElem? hc)).symm hm
  account := (collected_concat (fun heq => absurd heq hm) fun _ _ => Iff.rfl).trans h.account

theorem total (h : Tracks stdHash server callers n session) :
    collected stdHash server callers n none = session.got +
      ((session.phase.awaits.bind fun c => server.responseOf stdHash c).toList.flatMap
        Response.given : List TrajectoryGroup) := by
  have haccount := h.account
  cases hawaits : session.phase.awaits with
  | none => simpa [hawaits] using haccount
  | some c =>
    rw [collected_settle (h.awaited c hawaits), ← hawaits, haccount, hawaits, Server.returnedBy]
    rfl

section Going
variable {phase : Phase}

theorem settle (h : Tracks stdHash server callers n session)
    (hready : ∀ c ∈ session.phase.awaits, (server.responseOf stdHash c).isSome = true)
    (hgroups : phase.replied ++ phase.held = session.phase.replied ++ session.phase.held ++
      (session.phase.awaits.bind fun c => server.responseOf stdHash c).toList.flatMap
        Response.given) :
    (∀ c, callers[c]? = some n → (server.responseOf stdHash c).isSome = true) ∧
      collected stdHash server callers n none = ({ session with phase } : Session).got := by
  constructor
  · intro c hc
    by_cases hawaits : session.phase.awaits = some c
    · exact hready c hawaits
    · exact h.settled c hc hawaits
  · rw [h.total, Session.got, Session.got, hgroups]
    simp only [← Multiset.coe_add]
    abel

theorem go (h : Tracks stdHash server callers n session)
    (hready : ∀ c ∈ session.phase.awaits, (server.responseOf stdHash c).isSome = true)
    (hgroups : phase.replied ++ phase.held = session.phase.replied ++ session.phase.held ++
      (session.phase.awaits.bind fun c => server.responseOf stdHash c).toList.flatMap
        Response.given) (hawaits : phase.awaits = none) :
    Tracks stdHash server callers n { session with phase } := by
  obtain ⟨hsettled, haccount⟩ := h.settle hready hgroups
  exact ⟨by simp [hawaits], fun c hc _ => hsettled c hc, hawaits.symm ▸ haccount⟩

theorem ask (h : Tracks stdHash server callers n session)
    (hready : ∀ c ∈ session.phase.awaits, (server.responseOf stdHash c).isSome = true)
    (hgroups : phase.replied ++ phase.held = session.phase.replied ++ session.phase.held ++
      (session.phase.awaits.bind fun c => server.responseOf stdHash c).toList.flatMap
        Response.given) (hawaits : phase.awaits = some callers.length) :
    Tracks stdHash server (callers ++ [n]) n { session with phase } := by
  obtain ⟨hsettled, haccount⟩ := h.settle hready hgroups
  refine ⟨?_, fun c hc hne => ?_, ?_⟩
  · intro c hc
    obtain rfl := Option.some.inj (hawaits.symm.trans hc)
    simp
  · have hne' : callers.length ≠ c := fun heq => hne (hawaits.trans (congrArg some heq))
    have hlt : c < callers.length := by
      have hlength := (List.getElem?_eq_some_iff.mp hc).1
      rw [List.length_append, List.length_singleton] at hlength
      omega
    rw [List.getElem?_append_left hlt] at hc
    exact hsettled c hc
  · refine (collected_concat (fun _ => hawaits) fun c hlt => ?_).trans haccount
    simpa [hawaits] using hlt.ne'

end Going

theorem sink (h : Tracks stdHash server callers n session) (outcome : SendOutcome) :
    Tracks stdHash server callers n (session.sink outcome) := by
  have hawaits := session.sink_awaits outcome
  exact ⟨hawaits.symm ▸ h.awaited, hawaits.symm ▸ h.settled,
    hawaits.symm ▸ h.account.trans (session.sink_got outcome).symm⟩

theorem rule (env : Fin k → Env) (stdHash : String → ℕ) (json : Json) (codecs : RpcCodecs) :
    Deployment.SessionRule env stdHash json codecs (Tracks stdHash) where
  serve a consistent h := h.serve fun _ _ hresponse =>
    Server.responseOf_step consistent a hresponse
  other hm h := h.other hm
  refused unknown _ := .of_not_mem unknown rfl rfl
  start {server callers n source job} clock fresh unknown _ _ callers_eq _ := by
    have hawaits := Phase.begin_awaits clock fresh job
    have hempty : Tracks stdHash (Deployment.asked env stdHash server callers n
        (job.begin clock fresh).2).1 callers n ⟨source, .configured, [], []⟩ :=
      .of_not_mem unknown rfl rfl
    obtain ⟨hreplied, hheld⟩ := Phase.begin_empty clock fresh job
    have hgroups : (job.begin clock fresh).1.replied ++ (job.begin clock fresh).1.held =
        [] ++ [] := by rw [hreplied, hheld]
    cases hrequest : (job.begin clock fresh).2 with
    | none =>
      rw [hrequest] at hawaits hempty
      exact hempty.go (by simp [Phase.awaits]) hgroups hawaits
    | some request =>
      rw [hrequest] at hawaits hempty
      exact hempty.ask (by simp [Phase.awaits]) hgroups (callers_eq ▸ hawaits)
  go {server callers n session} clock fresh move next _ callers_eq _ consistent h := by
    subst next
    rcases Phase.next_cases clock fresh (fun c => server.responseOf stdHash c) session.phase with
      hsame | ⟨hready, hawaits, hgroups⟩
    · rw [hsame]
      exact h
    · cases hrequest : (session.phase.next clock fresh fun c => server.responseOf stdHash c).2 with
      | none =>
        rw [hrequest] at hawaits
        exact h.go hready hgroups hawaits
      | some request =>
        rw [hrequest] at hawaits
        exact (h.ask hready hgroups (callers_eq ▸ hawaits)).serve fun _ _ hresponse =>
          Server.responseOf_step (fun _ => consistent) _ hresponse
  sink outcome h := h.sink outcome

end Tracks

namespace Deployment
variable {k : ℕ} [NeZero k] {env : Fin k → Env} {stdHash : String → ℕ} {json : Json}
  {codecs : RpcCodecs} {s : Deployment k}

section Accounts

theorem sum_map_range {α M : Type*} [AddCommMonoid M] {l : List α} {f : α → M} {g : ℕ → M}
    (h : ∀ n a, l[n]? = some a → g n = f a) :
    (l.map f).sum = ∑ n ∈ Finset.range l.length, g n := by
  induction l using List.reverseRecOn with
  | nil => rfl
  | append_singleton l a ih =>
    have hinit : ∀ n b, l[n]? = some b → g n = f b := fun n b hn => by
      refine h n b ?_
      rw [List.getElem?_append_left (List.getElem?_eq_some_iff.mp hn).1]
      exact hn
    rw [List.map_append, List.sum_append, ih hinit, List.length_append, List.length_singleton,
      Finset.sum_range_succ, h l.length a (by simp)]
    simp

def handed (session : Session) : List TrajectoryGroup := session.sent ++ session.phase.replied

/-- What a session has read and still has to hand on: what its call has returned, or the rest
of its batch. -/
def inHand (stdHash : String → ℕ) (s : Deployment k) (session : Session) : List TrajectoryGroup :=
  session.phase.held ++ (session.phase.awaits.bind fun c =>
    s.server.responseOf stdHash c).toList.flatMap Response.given

/-- What the calls of all sessions have returned, they have handed on, hold or have dropped. -/
theorem Wired.account (h : s.Wired stdHash (Tracks stdHash)) :
    (s.server.calls.map fun call => (call.returned stdHash : Multiset TrajectoryGroup)).sum =
      (s.sessions.map fun session =>
        (handed session : Multiset TrajectoryGroup) + s.inHand stdHash session +
          session.dropped).sum := by
  have hcalls : ∀ c call, s.server.calls[c]? = some call →
      s.server.returnedBy stdHash c = (call.returned stdHash : Multiset TrajectoryGroup) := by
    intro c call hcall
    rw [Server.returnedBy, Server.responseOf, hcall]
    rfl
  have hsessions : ∀ n session, s.sessions[n]? = some session →
      collected stdHash s.server s.callers n none =
        (handed session : Multiset TrajectoryGroup) + s.inHand stdHash session +
          session.dropped := by
    intro n session hsession
    rw [(h.sessions n session hsession).total, Session.got, handed, inHand]
    simp only [← Multiset.coe_add]
    abel
  rw [sum_map_range hcalls, sum_map_range hsessions, sum_collected h.owners, h.callers]

theorem drops_rule (env : Fin k → Env) (stdHash : String → ℕ) (json : Json) (codecs : RpcCodecs) :
    SessionRule env stdHash json codecs fun _ _ _ session =>
      session.dropped ≠ [] → session.phase = .broken where
  serve _ _ h := h
  other _ h := h
  refused _ _ hdropped := absurd rfl hdropped
  start _ _ _ _ _ _ _ hdropped := absurd rfl hdropped
  go {_ _ _ session} clock fresh move next _ _ _ _ h hdropped := by
    rw [h hdropped, Phase.next.eq_def] at next
    exact next ▸ rfl
  sink {_ _ _ session} outcome h hdropped := by
    obtain ⟨source, phase, sent, dropped⟩ := session
    rw [Session.sink] at hdropped ⊢
    split at hdropped
    · rename_i poll group rest hphase
      cases outcome with
      | ready => exact absurd ((h hdropped).symm.trans hphase) nofun
      | pending =>
        dsimp only at hdropped ⊢
        split at hdropped
        · exact absurd ((h hdropped).symm.trans hphase) nofun
        · rename_i hmore
          rw [if_neg hmore]
      | refused => rfl
    · exact h hdropped

/-- In every run, whatever overlaps and whatever fails, every group that a core has delivered is
in the reply or among the messages of one session, in its hands, dropped with the batch in the
middle of which the session has ended, or withheld by the manager. -/
theorem groups_account (env : Fin k → Env) (stdHash : String → ℕ) (json : Json)
    (codecs : RpcCodecs) (config : TransferQueueConfig) (bitCount numHashes : ℕ)
    (actions : List (DeploymentAction k)) :
    let s := (create k config bitCount numHashes).run env stdHash json codecs actions
    s.server.crashed = false →
      (∑ i, ((s.server.cores i).log.flatMap Event.groups : Multiset TrajectoryGroup)) =
          (s.sessions.map fun session =>
            (handed session : Multiset TrajectoryGroup) + s.inHand stdHash session +
              session.dropped).sum +
            (s.server.calls.map fun call =>
              (call.withheld stdHash : Multiset TrajectoryGroup)).sum ∧
        ∀ session ∈ s.sessions, session.dropped ≠ [] → session.phase = .broken := by
  intro s hup
  have hserver : s.server = (Server.create k config bitCount numHashes).run env stdHash _ :=
    run_server env stdHash json codecs (create k config bitCount numHashes) actions
  obtain ⟨hs, hb⟩ := Server.books_run Account.deliveries config bitCount numHashes _
    (hserver ▸ hup)
  rw [← hserver] at hs hb
  have hwired : s.Wired stdHash (Tracks stdHash) :=
    (Tracks.rule env stdHash json codecs).run config bitCount numHashes actions
  have hdrops := (drops_rule env stdHash json codecs).run config bitCount numHashes actions
  constructor
  · rw [Server.deliveries_returned hs hb, List.sum_map_add, hwired.account]
  · intro session hsession
    obtain ⟨n, hn⟩ := List.getElem?_of_mem hsession
    exact hdrops.sessions n session hn

end Accounts
end Deployment
end TransferQueue
