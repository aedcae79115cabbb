import Adaad.Federation.Consensus
import Adaad.Federation.Gossip

/-!
# Supervision of a node

`runtime/governance/federation/node_supervisor.py`: each tick looks at the peers, journals that a
partition was detected, and asks to rejoin every so often while it lasts.

The registry, the clock and the consensus engine are not part of the supervisor: a tick is given
what they say.  The three looks that it takes at the peers are at times of their own, so they need
not agree.
-/

namespace Adaad.NodeSupervisor

open Py Run
open Gossip (PeerRecord PeerRegistry)

variable (P : Platform)

/-- What the supervisor does with numbers, besides what its registry does. -/
structure Numbers extends Gossip.Arithmetic P where
  /-- `a / b` -/
  div : Nat → Nat → P.Float
  /-- `x <= y` -/
  le : Int ⊕ P.Float → Int ⊕ P.Float → Bool

inductive NodeSupervisorState where
  | healthy
  | degraded
  | partitioned
  | rejoining
  deriving DecidableEq, Repr

inductive JournalFailureMode where
  | failOpen
  | failClosedCritical
  deriving DecidableEq, Repr

/-- `NodeSupervisorJournalStatus` -/
structure JournalStatus where
  eventType : Str
  ok : Bool
  reason : Str
  errorType : Option Str

structure SupervisorStatus where
  state : NodeSupervisorState
  alivePeers : Nat
  stalePeers : Nat
  isLeader : Bool
  term : Int
  safeModeActive : Bool

structure Supervisor where
  partitionThreshold : Int ⊕ P.Float
  rejoinInterval : Int ⊕ P.Float
  /-- A `journal_fn` was given. -/
  hasJournal : Bool
  journalFailureMode : JournalFailureMode
  lastJournalStatus : Option JournalStatus
  state : NodeSupervisorState
  lastRejoinAttempt : P.Float
  /-- What `journal_fn` has persisted. -/
  journal : List (Str × Members P.Float)
  /-- What was given to the gossip protocol. -/
  broadcasts : List (Str × Members P.Float)

/-- What a tick is given. -/
structure Tick where
  registry : PeerRegistry P
  /-- The times of `alive_peers`, `stale_peers` and `is_partitioned`. -/
  aliveAt : P.Float
  staleAt : P.Float
  partitionedAt : P.Float
  /-- The times of the looks for the journal entry, and `_now_timestamp` there. -/
  entryAliveAt : P.Float
  entryStaleAt : P.Float
  detectedAt : P.Float
  /-- `_now_timestamp` in `_maybe_rejoin`. -/
  now : P.Float
  nodeId : Str
  role : Consensus.NodeRole
  term : Int
  commitIndex : Int
  /-- The class and the text of what `journal_fn` raises. -/
  fault : Option (Str × Str)

variable {P}

/-- `FederationNodeSupervisor(…)` -/
def Supervisor.new (partitionThreshold rejoinInterval : Int ⊕ P.Float) (hasJournal : Bool)
    (mode : JournalFailureMode) : Supervisor P where
  partitionThreshold := partitionThreshold
  rejoinInterval := rejoinInterval
  hasJournal := hasJournal
  journalFailureMode := mode
  lastJournalStatus := none
  state := .healthy
  lastRejoinAttempt := P.floatOf (.lit ⟨false, str "0", str "0", none⟩)
  journal := []
  broadcasts := []

def partitionDetected : Str := str "federation_partition_detected.v1"
def rejoinRequest : Str := str "federation_rejoin_request.v1"
def federationHeartbeat : Str := str "federation_heartbeat.v1"

def criticalJournalEvents : List Str := [partitionDetected]

variable (ar : Numbers P)

/-- `stale_peers` -/
def stalePeers (r : PeerRegistry P) (now : P.Float) : List (PeerRecord P) :=
  r.peers.filter fun p => !p.isSelf && !p.isAlive ar.toArithmetic r.ttl now

omit ar in
/-- `all_peers` -/
def allPeers (r : PeerRegistry P) : List (PeerRecord P) :=
  r.peers.filter fun p => !p.isSelf

/-- `is_partitioned` -/
def isPartitioned (r : PeerRegistry P) (partitionThreshold : Int ⊕ P.Float) (now : P.Float) :
    Bool :=
  let total := (allPeers r).length
  if total = 0 then false
  else
    let stale := (stalePeers ar r now).length
    ar.le partitionThreshold (.inr (ar.div stale total))

def Tick.partitioned (c : Tick P) (partitionThreshold : Int ⊕ P.Float) : Bool :=
  isPartitioned ar c.registry partitionThreshold c.partitionedAt

omit ar in
/-- `_journal`; the error is the text of a `NodeSupervisorJournalError`. -/
def Supervisor.journalEvent (s : Supervisor P) (eventType : Str) (payload : Members P.Float)
    (fault : Option (Str × Str)) : Except Str Unit × Supervisor P :=
  if s.hasJournal then
    match fault with
    | none =>
      (.ok (), { s with
        journal := s.journal ++ [(eventType, payload)]
        lastJournalStatus := some ⟨eventType, true, str "persisted", none⟩ })
    | some (className, text) =>
      let s := { s with
        lastJournalStatus :=
          some ⟨eventType, false, str "journal_persistence_failed", some className⟩ }
      if s.journalFailureMode = .failClosedCritical ∧ eventType ∈ criticalJournalEvents then
        (.error (str "journal_persistence_failed:" ++ eventType ++ str ":" ++ className ++
          str ":" ++ text), s)
      else (.ok (), s)
  else
    (.ok (), { s with
      lastJournalStatus := some ⟨eventType, true, str "journal_fn_not_configured", none⟩ })

/-- `_on_partition_detected` -/
def Supervisor.onPartitionDetected (s : Supervisor P) (c : Tick P) :
    Except Str Unit × Supervisor P :=
  s.journalEvent partitionDetected
    [(.str (str "node_id"), .str c.nodeId),
      (.str (str "alive_peers"),
        .int (c.registry.alivePeers ar.toArithmetic c.entryAliveAt).length),
      (.str (str "stale_peers"), .int (stalePeers ar c.registry c.entryStaleAt).length),
      (.str (str "detected_at"), .float c.detectedAt)]
    c.fault

/-- The interval since the last attempt is not over yet. -/
def Supervisor.waits (s : Supervisor P) (now : P.Float) : Bool :=
  P.numLt (.inr (ar.sub now s.lastRejoinAttempt)) s.rejoinInterval

/-- `_maybe_rejoin` -/
def Supervisor.maybeRejoin (s : Supervisor P) (c : Tick P) : Supervisor P :=
  if s.waits ar c.now then s
  else
    { s with
      lastRejoinAttempt := c.now
      state := .rejoining
      broadcasts := s.broadcasts ++ [(rejoinRequest,
        [(.str (str "node_id"), .str c.nodeId), (.str (str "term"), .int c.term),
          (.str (str "requested_at"), .float c.now)])] }

omit ar in
/-- The heartbeat of a leader, and the status that a tick returns. -/
def Supervisor.finish (s : Supervisor P) (c : Tick P) (alive stale : Nat) (partitioned : Bool) :
    SupervisorStatus × Supervisor P :=
  let s :=
    if c.role = .leader then
      { s with
        broadcasts := s.broadcasts ++ [(federationHeartbeat,
          [(.str (str "leader_id"), .str c.nodeId), (.str (str "term"), .int c.term),
            (.str (str "commit_index"), .int c.commitIndex)])] }
    else s
  (⟨s.state, alive, stale, c.role = .leader, c.term, partitioned⟩, s)

/-- `tick` -/
def Supervisor.tick (s : Supervisor P) (c : Tick P) :
    Except Str SupervisorStatus × Supervisor P :=
  let alive := (c.registry.alivePeers ar.toArithmetic c.aliveAt).length
  let stale := (stalePeers ar c.registry c.staleAt).length
  let partitioned := c.partitioned ar s.partitionThreshold
  if partitioned then
    let detected :=
      if s.state ≠ .partitioned then
        ({ s with state := .partitioned } : Supervisor P).onPartitionDetected ar c
      else (.ok (), s)
    match detected.1 with
    | .error e => (.error e, detected.2)
    | .ok _ =>
      let r := (detected.2.maybeRejoin ar c).finish c alive stale partitioned
      (.ok r.1, r.2)
  else
    let state := if 0 < stale then NodeSupervisorState.degraded else .healthy
    let r := ({ s with state := state } : Supervisor P).finish c alive stale partitioned
    (.ok r.1, r.2)

def step (s : Supervisor P) (c : Tick P) : Supervisor P :=
  (s.tick ar c).2

/-! ### Episodes

An episode is a stretch of ticks that observe a partition.  `_maybe_rejoin` leaves the state that
says that the episode has been journaled, so the tick after an attempt to rejoin journals it again.
-/

/-- How often the detection of a partition has been journaled. -/
def Supervisor.detections (s : Supervisor P) : Nat :=
  s.journal.countP fun e => e.1 = partitionDetected

/-- Each tick of the run journals the detection of a partition once if it observes one and the tick
before it did not, and not at all otherwise. -/
def OncePerEpisode (s : Supervisor P) (cs : List (Tick P)) : Prop :=
  ∀ before c after, cs = before ++ c :: after →
    (step ar (run (step ar) s before) c).detections =
      (run (step ar) s before).detections +
        if c.partitioned ar s.partitionThreshold = true ∧
            ¬(before.getLast?.any fun b => b.partitioned ar s.partitionThreshold) = true
        then 1 else 0

/-- The tick observes a partition right after an attempt to rejoin. -/
def AfterRejoin (s : Supervisor P) (c : Tick P) : Prop :=
  c.partitioned ar s.partitionThreshold = true ∧ s.state = .rejoining

section Episodes

variable {ar} {s : Supervisor P} {c : Tick P} {cs : List (Tick P)}

def Supervisor.InEpisode (s : Supervisor P) : Prop :=
  s.state = .partitioned ∨ s.state = .rejoining

omit ar in
@[simp] theorem finish_fields (s : Supervisor P) (c : Tick P) (alive stale : Nat) (b : Bool) :
    (s.finish c alive stale b).2.state = s.state ∧
      (s.finish c alive stale b).2.journal = s.journal ∧
      (s.finish c alive stale b).2.hasJournal = s.hasJournal ∧
      (s.finish c alive stale b).2.partitionThreshold = s.partitionThreshold := by
  unfold Supervisor.finish
  dsimp only
  split_ifs <;> exact ⟨rfl, rfl, rfl, rfl⟩

@[simp] theorem maybeRejoin_fields (s : Supervisor P) (c : Tick P) :
    (s.maybeRejoin ar c).journal = s.journal ∧ (s.maybeRejoin ar c).hasJournal = s.hasJournal ∧
      (s.maybeRejoin ar c).partitionThreshold = s.partitionThreshold := by
  unfold Supervisor.maybeRejoin
  split_ifs <;> exact ⟨rfl, rfl, rfl⟩

theorem inEpisode_maybeRejoin (h : s.state = .partitioned) (c : Tick P) :
    (s.maybeRejoin ar c).InEpisode := by
  unfold Supervisor.maybeRejoin
  split_ifs with hwait
  · exact .inl h
  · exact .inr rfl

variable (ar) in
theorem exists_onPartitionDetected (hs : s.hasJournal = true) (hc : c.fault = none) :
    ∃ s' : Supervisor P, s.onPartitionDetected ar c = (.ok (), s') ∧ s'.hasJournal = true ∧
      s'.partitionThreshold = s.partitionThreshold ∧ s'.state = s.state ∧
      s'.detections = s.detections + 1 := by
  unfold Supervisor.onPartitionDetected Supervisor.journalEvent
  rw [if_pos hs, hc]
  refine ⟨_, rfl, hs, rfl, rfl, ?_⟩
  simp [Supervisor.detections, List.countP_append]

variable (ar) in
/-- What a tick does to the part of the supervisor that tells its episodes, where the journal takes
what is written to it. -/
structure TickSpec (s : Supervisor P) (c : Tick P) (s' : Supervisor P) : Prop where
  hasJournal : s'.hasJournal = true
  partitionThreshold : s'.partitionThreshold = s.partitionThreshold
  inEpisode : s'.InEpisode ↔ c.partitioned ar s.partitionThreshold = true
  detections : s'.detections = s.detections +
    if c.partitioned ar s.partitionThreshold = true ∧ s.state ≠ .partitioned then 1 else 0

variable (ar) in
theorem tickSpec_step (hs : s.hasJournal = true) (hc : c.fault = none) :
    TickSpec ar s c (step ar s c) := by
  unfold step Supervisor.tick
  dsimp only
  by_cases hp : c.partitioned ar s.partitionThreshold = true
  · rw [if_pos hp]
    by_cases hstate : s.state ≠ .partitioned
    · rw [if_pos hstate]
      obtain ⟨s', heq, hjournal, hthreshold, hstate', hcount⟩ :=
        exists_onPartitionDetected ar (s := { s with state := .partitioned }) hs hc
      rw [heq]
      dsimp only
      refine ⟨by simp [hjournal], by simp [hthreshold], iff_of_true ?_ hp, ?_⟩
      · unfold Supervisor.InEpisode
        rw [(finish_fields ..).1]
        exact inEpisode_maybeRejoin hstate' c
      · rw [if_pos ⟨hp, hstate⟩]
        unfold Supervisor.detections at hcount ⊢
        rw [(finish_fields ..).2.1, (maybeRejoin_fields ..).1, hcount]
    · rw [if_neg hstate]
      dsimp only
      refine ⟨by simp [hs], by simp, iff_of_true ?_ hp, ?_⟩
      · unfold Supervisor.InEpisode
        rw [(finish_fields ..).1]
        exact inEpisode_maybeRejoin (not_not.mp hstate) c
      · rw [if_neg fun h => hstate h.2]
        simp [Supervisor.detections]
  · rw [if_neg hp]
    refine ⟨by simp [hs], by simp, iff_of_false ?_ hp, ?_⟩
    · unfold Supervisor.InEpisode
      rw [(finish_fields ..).1]
      dsimp only
      split_ifs <;> decide
    · rw [if_neg fun (h : _ ∧ s.state ≠ .partitioned) => hp h.1]
      simp [Supervisor.detections]

variable (ar) in
theorem run_spec (hs : s.hasJournal = true) (hcs : ∀ c ∈ cs, c.fault = none) :
    (run (step ar) s cs).hasJournal = true ∧
      (run (step ar) s cs).partitionThreshold = s.partitionThreshold := by
  induction cs generalizing s with
  | nil => exact ⟨hs, rfl⟩
  | cons c cs ih =>
    have hspec := tickSpec_step ar hs (hcs c (by simp))
    obtain ⟨hjournal, hthreshold⟩ := ih hspec.hasJournal fun d hd => hcs d (by simp [hd])
    exact ⟨hjournal, hthreshold.trans hspec.partitionThreshold⟩

variable (ar) in
theorem inEpisode_run (hs : s.hasJournal = true) (hstart : ¬s.InEpisode)
    (hcs : ∀ c ∈ cs, c.fault = none) :
    (run (step ar) s cs).InEpisode ↔
      (cs.getLast?.any fun b => b.partitioned ar s.partitionThreshold) = true := by
  rcases List.eq_nil_or_concat cs with rfl | ⟨cs, c, rfl⟩
  · exact iff_of_false hstart Bool.false_ne_true
  · rw [List.concat_eq_append] at hcs ⊢
    obtain ⟨hjournal, hthreshold⟩ :=
      run_spec ar hs fun d hd => hcs d (List.mem_append_left _ hd)
    rw [run_append, List.getLast?_append]
    have hin := (tickSpec_step ar hjournal (hcs c (by simp))).inEpisode
    rw [hthreshold] at hin
    exact hin

theorem oncePerEpisode_iff_of_start (hs : s.hasJournal = true) (hstart : ¬s.InEpisode)
    (hcs : ∀ c ∈ cs, c.fault = none) :
    OncePerEpisode ar s cs ↔ Meets (step ar) (fun s c => ¬AfterRejoin ar s c) s cs := by
  rw [meets_iff_forall_append]
  refine forall_congr' fun before => forall_congr' fun c => forall_congr' fun after =>
    imp_congr_right fun heq => ?_
  have hbefore : ∀ d ∈ before, d.fault = none := fun d hd => hcs d (by simp [heq, hd])
  obtain ⟨hjournal, hthreshold⟩ := run_spec ar hs hbefore
  have hspec := tickSpec_step ar hjournal (hcs c (by simp [heq]))
  have hin := inEpisode_run ar hs hstart hbefore
  rw [hspec.detections, hthreshold]
  unfold AfterRejoin
  rw [hthreshold]
  by_cases hp : c.partitioned ar s.partitionThreshold = true
  · -- The tick goes by the state, which is also `rejoining` in the middle of an episode.
    cases hstate : (run (step ar) s before).state with
    | rejoining =>
      have hlast := hin.mp (.inr hstate)
      simp [hp, hlast]
    | partitioned =>
      have hlast := hin.mp (.inl hstate)
      simp [hp, hlast]
    | healthy =>
      have hlast : ¬_ := fun h => absurd (hin.mpr h) (by simp [Supervisor.InEpisode, hstate])
      simp [hp, hlast]
    | degraded =>
      have hlast : ¬_ := fun h => absurd (hin.mpr h) (by simp [Supervisor.InEpisode, hstate])
      simp [hp, hlast]
  · simp [hp]

/-- The detection of a partition is journaled once per episode exactly when no tick of the run
observes a partition right after an attempt to rejoin. -/
theorem oncePerEpisode_iff (ar : Numbers P) (partitionThreshold rejoinInterval : Int ⊕ P.Float)
    (mode : JournalFailureMode) (cs : List (Tick P)) (hfault : ∀ c ∈ cs, c.fault = none) :
    OncePerEpisode ar (Supervisor.new partitionThreshold rejoinInterval true mode) cs ↔
      Meets (step ar) (fun s c => ¬AfterRejoin ar s c)
        (Supervisor.new partitionThreshold rejoinInterval true mode) cs :=
  oncePerEpisode_iff_of_start rfl (by simp [Supervisor.InEpisode, Supervisor.new]) hfault

end Episodes

/-! ### A peer that stays away -/

def seconds (i : Nat) : comparingReference.Float :=
  LiteralFloat.ofText (.lit ⟨false, natText i, str "0", none⟩)

/-- `x - y` of whole numbers. -/
def wholeSub (x y : comparingReference.Float) : comparingReference.Float :=
  match scaled x.1, scaled y.1 with
  | some (i, 1), some (j, 1) => seconds ((i - j) / 10).toNat
  | _, _ => LiteralFloat.ofText .nan

def wholeNumbers : Numbers comparingReference where
  sub := wholeSub
  ofText _ := none
  div a b := seconds (a / b)
  le x y := !literalLt y x

/-- A tick at which the only peer was last heard of at the time 0. -/
def awayTick (now : Nat) : Tick comparingReference where
  registry :=
    { selfId := str "node-a"
      peers := [⟨str "node-a", str "http://a", seconds 0, true⟩,
        ⟨str "node-b", str "http://b", seconds 0, false⟩]
      ttl := .inl 30 }
  aliveAt := seconds now
  staleAt := seconds now
  partitionedAt := seconds now
  entryAliveAt := seconds now
  entryStaleAt := seconds now
  detectedAt := seconds now
  now := seconds now
  nodeId := str "node-a"
  role := .follower
  term := 0
  commitIndex := -1
  fault := none

def awaySupervisor : Supervisor comparingReference :=
  .new (.inr half) (.inl 10) true .failClosedCritical

/-- The second tick of one episode journals it again: the first one asked to rejoin. -/
theorem not_oncePerEpisode_away :
    (run (step wholeNumbers) awaySupervisor [awayTick 1000, awayTick 1005]).detections = 2 ∧
      ¬OncePerEpisode wholeNumbers awaySupervisor [awayTick 1000, awayTick 1005] := by
  refine ⟨by decide +kernel, fun h => ?_⟩
  have hsecond := h [awayTick 1000] (awayTick 1005) [] rfl
  revert hsecond
  decide +kernel

/-- Where the interval is not over in the first ticks, the episode is journaled once. -/
theorem oncePerEpisode_away_iff :
    OncePerEpisode wholeNumbers (Supervisor.new (.inr half) (.inl 2000) true .failClosedCritical)
        [awayTick 1000, awayTick 1005] ↔
      Meets (step wholeNumbers) (fun s c => ¬AfterRejoin wholeNumbers s c)
        (Supervisor.new (.inr half) (.inl 2000) true .failClosedCritical)
        [awayTick 1000, awayTick 1005] :=
  oncePerEpisode_iff wholeNumbers (.inr half) (.inl 2000) .failClosedCritical
    [awayTick 1000, awayTick 1005] (by decide +kernel)

end Adaad.NodeSupervisor
