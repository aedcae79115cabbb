import Adaad.Py.Json.Loads
import Adaad.Run
import Mathlib.Logic.Function.Basic

/-!
# Leader election

The handlers of `FederationConsensusEngine` that take part in an election, and the nodes of a
federation that exchange their messages.

The network keeps everything that was ever sent: a message may be delivered late, in any order,
more than once or never.  What the engine does not decide itself (the random election id, whether
the journal writer raises) is an argument.
-/

namespace Adaad.Consensus

open Py

/-! ### The engine -/

inductive NodeRole where
  | follower
  | candidate
  | leader
  deriving DecidableEq, Repr

inductive JournalFailureMode where
  | failOpen
  | failClosedCritical
  deriving DecidableEq, Repr

structure ConsensusState where
  nodeId : Str
  currentTerm : Int
  role : NodeRole
  votedFor : Option Str
  leaderId : Option Str

/-- `FederationConsensusEngine`, as far as elections use it. -/
structure Engine where
  state : ConsensusState
  peerIds : List Str
  /-- `_votes_received.get(election_id, 0)` -/
  votesReceived : Str → Nat
  /-- A `journal_fn` was given. -/
  hasJournal : Bool
  journalFailureMode : JournalFailureMode
  criticalJournalEvents : List Str

def electionStarted : Str := str "federation_election_started.v1"
def leaderElected : Str := str "federation_leader_elected.v1"
def logAppended : Str := str "federation_log_appended.v1"

/-- `critical_journal_events` where none are given. -/
def defaultCriticalEvents : List Str :=
  [electionStarted, leaderElected, logAppended]

/-- `FederationConsensusEngine(node_id=…, peer_ids=…)` -/
def Engine.init (nodeId : Str) (peerIds : List Str) (hasJournal : Bool)
    (mode : JournalFailureMode) (critical : List Str) : Engine where
  state := ⟨nodeId, 0, .follower, none, none⟩
  peerIds := peerIds
  votesReceived _ := 0
  hasJournal := hasJournal
  journalFailureMode := mode
  criticalJournalEvents := if critical = [] then defaultCriticalEvents else critical

/-- `_journal(event_type, …)`, where `fault` is what the journal writer raises. -/
def Engine.journal (e : Engine) (eventType : Str) (fault : Option Exc) : Except Exc Unit :=
  if e.hasJournal then
    match fault with
    | none => .ok ()
    | some exc =>
      if e.journalFailureMode = .failClosedCritical ∧ eventType ∈ e.criticalJournalEvents then
        .error exc
      else .ok ()
  else .ok ()

/-- The answer of `request_vote`. -/
structure VoteReply where
  voteGranted : Bool
  term : Int
  deriving DecidableEq, Repr

/-- The state after a node heard of a candidate's term. -/
def ConsensusState.observe (s : ConsensusState) (candidateTerm : Int) : ConsensusState :=
  if s.currentTerm < candidateTerm then
    { s with currentTerm := candidateTerm, role := .follower, votedFor := none }
  else s

/-- `request_vote(candidate_id=…, candidate_term=…)` -/
def requestVote (e : Engine) (candidateId : Str) (candidateTerm : Int) : VoteReply × Engine :=
  if candidateTerm < e.state.currentTerm then (⟨false, e.state.currentTerm⟩, e)
  else
    let s := e.state.observe candidateTerm
    if s.votedFor = none ∨ s.votedFor = some candidateId then
      (⟨true, s.currentTerm⟩, { e with state := { s with votedFor := some candidateId } })
    else (⟨false, s.currentTerm⟩, { e with state := s })

/-- `start_election()`, with the election id that it draws. -/
def startElection (e : Engine) (electionId : Str) (fault : Option Exc) :
    Except Exc Str × Engine :=
  let e := { e with
    state := { e.state with
      currentTerm := e.state.currentTerm + 1
      role := .candidate
      votedFor := some e.state.nodeId }
    votesReceived := Function.update e.votesReceived electionId 1 }
  ((e.journal electionStarted fault).map fun _ => electionId, e)

/-- `votes / total_nodes > _QUORUM_THRESHOLD`.  The threshold is the `float` nearest to 0.51, which
is `4593671619917906 / 2 ^ 53`; a quotient is rounded to a larger `float` exactly when it lies
above the middle between the threshold and the next `float`. -/
def reachesQuorum (votes totalNodes : Nat) : Bool :=
  9187343239835813 * totalNodes < votes * 2 ^ 54

/-- `_votes_received` after a reply. -/
def Engine.count (e : Engine) (electionId : Str) (granted : Bool) : Engine :=
  if granted then
    { e with votesReceived :=
        Function.update e.votesReceived electionId (e.votesReceived electionId + 1) }
  else e

/-- `len(self._peer_ids) + 1` -/
def Engine.totalNodes (e : Engine) : Nat :=
  e.peerIds.length + 1

/-- `receive_vote(election_id, granted=…)` -/
def receiveVote (e : Engine) (electionId : Str) (granted : Bool) (fault : Option Exc) :
    Except Exc Bool × Engine :=
  let e := e.count electionId granted
  if reachesQuorum (e.votesReceived electionId) e.totalNodes then
    let e := { e with state := { e.state with role := .leader, leaderId := some e.state.nodeId } }
    ((e.journal leaderElected fault).map fun _ => true, e)
  else (.ok false, e)

/-- `receive_heartbeat(leader_id=…, leader_term=…)` -/
def receiveHeartbeat (e : Engine) (leaderId : Str) (leaderTerm : Int) : Engine :=
  if e.state.currentTerm ≤ leaderTerm then
    { e with state := { e.state with
        currentTerm := leaderTerm, role := .follower, leaderId := some leaderId } }
  else e

/-! ### The federation -/

/-- A message between nodes.  A reply goes back to the candidate with the id of the election that
it answers. -/
inductive Message where
  | voteRequest (electionId candidateId : Str) (candidateTerm : Int)
  | voteReply (electionId candidateId voterId : Str) (reply : VoteReply)
  | heartbeat (leaderId : Str) (leaderTerm : Int)
  deriving DecidableEq

/-- The nodes, all messages sent so far, and the granted votes that were delivered, each with its
election and its voter. -/
structure Federation where
  node : Str → Engine
  sent : List Message
  counted : List (Str × Str)

inductive Action where
  /-- The node starts an election with a random id. -/
  | startElection (node electionId : Str) (fault : Option Exc)
  /-- A request reaches a node, which replies. -/
  | requestVote (node electionId candidateId : Str) (candidateTerm : Int)
  /-- A reply reaches the candidate. -/
  | receiveVote (electionId candidateId voterId : Str) (reply : VoteReply) (fault : Option Exc)
  /-- A leader sends a heartbeat. -/
  | sendHeartbeat (node : Str)
  /-- A heartbeat reaches a node. -/
  | receiveHeartbeat (node leaderId : Str) (leaderTerm : Int)

def Federation.setNode (f : Federation) (id : Str) (e : Engine) : Federation :=
  { f with node := Function.update f.node id e }

def Federation.send (f : Federation) (m : Message) : Federation :=
  { f with sent := m :: f.sent }

/-- The granted votes that were delivered, with a reply that is delivered now. -/
def Federation.countedWith (f : Federation) (electionId voterId : Str) (granted : Bool) :
    List (Str × Str) :=
  if granted then (electionId, voterId) :: f.counted else f.counted

def step (f : Federation) : Action → Federation
  | .startElection n eid fault =>
    let e := (startElection (f.node n) eid fault).2
    (f.setNode n e).send (.voteRequest eid n e.state.currentTerm)
  | .requestVote n eid cid term =>
    let r := requestVote (f.node n) cid term
    (f.setNode n r.2).send (.voteReply eid cid n r.1)
  | .receiveVote eid cid vid reply fault =>
    { f.setNode cid (receiveVote (f.node cid) eid reply.voteGranted fault).2 with
      counted := f.countedWith eid vid reply.voteGranted }
  | .sendHeartbeat n => f.send (.heartbeat n (f.node n).state.currentTerm)
  | .receiveHeartbeat n lid term => f.setNode n (receiveHeartbeat (f.node n) lid term)

def Message.started : Message → Option Str
  | .voteRequest eid _ _ => some eid
  | _ => none

def Federation.Fresh (f : Federation) (electionId : Str) : Prop :=
  ∀ m ∈ f.sent, m.started ≠ some electionId

/-- What can happen in a federation of the given members: only what was sent is delivered, only a
leader sends heartbeats, and a drawn election id is new. -/
def Enabled (members : List Str) (f : Federation) : Action → Prop
  | .startElection n eid _ => n ∈ members ∧ f.Fresh eid
  | .requestVote n eid cid term => n ∈ members ∧ .voteRequest eid cid term ∈ f.sent
  | .receiveVote eid cid vid reply _ => .voteReply eid cid vid reply ∈ f.sent
  | .sendHeartbeat n => n ∈ members ∧ (f.node n).state.role = .leader
  | .receiveHeartbeat n lid term => n ∈ members ∧ .heartbeat lid term ∈ f.sent

/-- The members whose votes in an election were counted, and the candidate itself. -/
def supporters (members : List Str) (counted : List (Str × Str)) (electionId candidateId : Str) :
    List Str :=
  members.filter fun v => v = candidateId ∨ (electionId, v) ∈ counted

/-- A reply that brings the tally over the threshold comes in the term of its election, and the
votes are those of distinct members. -/
def Legitimate (members : List Str) (f : Federation) : Action → Prop
  | .receiveVote eid cid vid reply _ =>
    reachesQuorum (((f.node cid).count eid reply.voteGranted).votesReceived eid)
        (f.node cid).totalNodes = true →
      .voteRequest eid cid (f.node cid).state.currentTerm ∈ f.sent ∧
        reachesQuorum
          (supporters members (f.countedWith eid vid reply.voteGranted) eid cid).length
          members.length = true
  | _ => True

instance (members : List Str) (f : Federation) : (a : Action) → Decidable (Enabled members f a)
  | .startElection _ _ _ => inferInstanceAs (Decidable (_ ∧ ∀ m ∈ _, _))
  | .requestVote _ _ _ _ => inferInstanceAs (Decidable (_ ∧ _))
  | .receiveVote _ _ _ _ _ => inferInstanceAs (Decidable (_ ∈ _))
  | .sendHeartbeat _ => inferInstanceAs (Decidable (_ ∧ _))
  | .receiveHeartbeat _ _ _ => inferInstanceAs (Decidable (_ ∧ _))

instance (members : List Str) (f : Federation) : (a : Action) → Decidable (Legitimate members f a)
  | .startElection _ _ _ => isTrue trivial
  | .requestVote _ _ _ _ => isTrue trivial
  | .receiveVote _ _ _ _ _ => inferInstanceAs (Decidable (_ → _ ∧ _))
  | .sendHeartbeat _ => isTrue trivial
  | .receiveHeartbeat _ _ _ => isTrue trivial

/-- Engines that were just created, each with the other members as its peers. -/
structure Initial (members : List Str) (f : Federation) : Prop where
  sent_eq : f.sent = []
  counted_eq : f.counted = []
  isInit : ∀ n ∈ members, ∃ peers hasJournal mode critical,
    (n :: peers).Perm members ∧ f.node n = Engine.init n peers hasJournal mode critical

def ElectionSafe (members : List Str) (f : Federation) : Prop :=
  ∀ m ∈ members, ∀ n ∈ members, (f.node m).state.role = .leader →
    (f.node n).state.role = .leader →
    (f.node m).state.currentTerm = (f.node n).state.currentTerm → m = n

end Adaad.Consensus

/-!
## The replicated log

The part of `FederationConsensusEngine` that appends entries to the log and commits them, over the
engine that takes part in elections.

A payload is a value; a caller that changes its dictionary after the call is not modelled.
-/

namespace Adaad.Consensus

open Py

variable (P : Platform)

/-! ### Entries -/

structure LogEntry where
  term : Int
  index : Nat
  entryType : Str
  payload : P.Obj
  lineageDigest : Str
  committed : Bool := false

namespace LogEntry

/-- `LogEntry._digest_material(…)` -/
def digestMaterial (term : Int) (index : Nat) (entryType : Str) (payload : P.Obj) :
    Except Exc Str := do
  let some canonicalText := dumpsSortedAscii P .compact payload | throw .typeError
  let some canonicalPayload := loads P canonicalText | throw .jsonDecodeError
  let some material := dumpsSortedAscii P .compact (.dict
    [(.str (str "term"), .int term), (.str (str "index"), .int index),
      (.str (str "entry_type"), .str entryType), (.str (str "payload"), canonicalPayload)])
    | throw .typeError
  return material

/-- `LogEntry.recompute_digest(…)`.  The material is ASCII, so that encoding it does not fail. -/
def recomputeDigest (term : Int) (index : Nat) (entryType : Str) (payload : P.Obj) :
    Except Exc Str :=
  (digestMaterial P term index entryType payload).map fun material =>
    str "sha256:" ++ P.sha256 ((encode material).getD [])

variable {P}

/-- `LogEntry.verify_digest(entry)` -/
def verifyDigest (entry : LogEntry P) : Except Exc Bool :=
  (recomputeDigest P entry.term entry.index entry.entryType entry.payload).map fun digest =>
    entry.lineageDigest = digest

/-- `LogEntry.build(…)` -/
def build (term : Int) (index : Nat) (entryType : Str) (payload : P.Obj) :
    Except Exc (LogEntry P) :=
  (recomputeDigest P term index entryType payload).map fun digest =>
    { term := term, index := index, entryType := entryType, payload := payload,
      lineageDigest := digest }

end LogEntry

/-! ### The engine with its log -/

/-- `FederationConsensusEngine`, as far as elections and the log use it. -/
structure Replica where
  engine : Engine
  log : List (LogEntry P)
  commitIndex : Int

/-- `FederationConsensusEngine(node_id=…, peer_ids=…)` -/
def Replica.init (nodeId : Str) (peerIds : List Str) (hasJournal : Bool)
    (mode : JournalFailureMode) (critical : List Str) : Replica P where
  engine := .init nodeId peerIds hasJournal mode critical
  log := []
  commitIndex := -1

/-- What a call raises, by where it comes from. -/
inductive Raised where
  | digest (exc : Exc)
  | journal (exc : Exc)
  deriving DecidableEq, Repr

variable {P}

/-- `append_entry(entry_type, payload)` -/
def appendEntry (r : Replica P) (entryType : Str) (payload : P.Obj) (fault : Option Exc) :
    Except Raised (Option (LogEntry P)) × Replica P :=
  if r.engine.state.role = .leader then
    match LogEntry.build r.engine.state.currentTerm r.log.length entryType payload with
    | .error exc => (.error (.digest exc), r)
    | .ok entry =>
      let result := (r.engine.journal logAppended fault).mapError Raised.journal
      (result.map fun _ => some entry, { r with log := r.log ++ [entry] })
  else (.ok none, r)

/-- `commit_entry(index)` -/
def commitEntry (r : Replica P) (index : Int) : Except Raised Bool × Replica P :=
  if index < 0 then (.ok false, r)
  else
    match r.log[index.toNat]? with
    | none => (.ok false, r)
    | some entry =>
      match entry.verifyDigest with
      | .error exc => (.error (.digest exc), r)
      | .ok false => (.ok false, r)
      | .ok true =>
        (.ok true,
          { r with
            log := r.log.set index.toNat { entry with committed := true }
            commitIndex := max r.commitIndex index })

variable (P) in
/-- A call of the engine.  The random election id and what the journal writer raises come with
it. -/
inductive Call where
  | requestVote (candidateId : Str) (candidateTerm : Int)
  | startElection (electionId : Str) (fault : Option Exc)
  | receiveVote (electionId : Str) (granted : Bool) (fault : Option Exc)
  | appendEntry (entryType : Str) (payload : P.Obj) (fault : Option Exc)
  | commitEntry (index : Int)
  | receiveHeartbeat (leaderId : Str) (leaderTerm : Int)

/-- What a call raises, if anything, and the engine after it. -/
def Replica.call (r : Replica P) : Call P → Except Raised Unit × Replica P
  | .requestVote cid term => (.ok (), { r with engine := (requestVote r.engine cid term).2 })
  | .startElection eid fault =>
    let p := startElection r.engine eid fault
    ((p.1.mapError Raised.journal).map fun _ => (), { r with engine := p.2 })
  | .receiveVote eid granted fault =>
    let p := receiveVote r.engine eid granted fault
    ((p.1.mapError Raised.journal).map fun _ => (), { r with engine := p.2 })
  | .appendEntry entryType payload fault =>
    let p := Consensus.appendEntry r entryType payload fault
    (p.1.map fun _ => (), p.2)
  | .commitEntry index =>
    let p := Consensus.commitEntry r index
    (p.1.map fun _ => (), p.2)
  | .receiveHeartbeat lid term =>
    (.ok (), { r with engine := receiveHeartbeat r.engine lid term })

def Replica.step (r : Replica P) (c : Call P) : Replica P :=
  (r.call c).2

/-! ### Laws -/

/-- Entry `i` has index `i`. -/
def Replica.Numbered (r : Replica P) : Prop :=
  ∀ (i : Nat) (e : LogEntry P), r.log[i]? = some e → e.index = i

def Replica.TermsOrdered (r : Replica P) : Prop :=
  r.log.Pairwise fun e e' => e.term ≤ e'.term

/-- Every entry up to the commit index is committed. -/
def Replica.PrefixCommitted (r : Replica P) : Prop :=
  ∀ (i : Nat) (e : LogEntry P), r.log[i]? = some e → (i : Int) ≤ r.commitIndex →
    e.committed = true

/-- The commit index is the last index of a committed entry, or -1 where there is none. -/
structure Replica.CommitIndexLast (r : Replica P) : Prop where
  le : ∀ (i : Nat) (e : LogEntry P), r.log[i]? = some e → e.committed = true →
    (i : Int) ≤ r.commitIndex
  attained : r.commitIndex = -1 ∨
    ∃ (i : Nat) (e : LogEntry P), r.log[i]? = some e ∧ e.committed = true ∧
      r.commitIndex = (i : Int)

/-- What is committed before is at the same place, and the same, afterwards. -/
def Replica.Retains (r r' : Replica P) : Prop :=
  ∀ (i : Nat) (e : LogEntry P), r.log[i]? = some e → e.committed = true → r'.log[i]? = some e

/-- A call does not commit an entry beyond the one that comes next. -/
def Replica.CommitsNext (r : Replica P) : Call P → Prop
  | .commitEntry index => index < r.log.length → index ≤ r.commitIndex + 1
  | _ => True

instance (r : Replica P) : (c : Call P) → Decidable (r.CommitsNext c)
  | .commitEntry _ => inferInstanceAs (Decidable (_ < _ → _ ≤ _))
  | .requestVote _ _ => isTrue trivial
  | .startElection _ _ => isTrue trivial
  | .receiveVote _ _ _ => isTrue trivial
  | .appendEntry _ _ _ => isTrue trivial
  | .receiveHeartbeat _ _ => isTrue trivial

/-- The journal does not take an event, and the engine raises because of that. -/
def Engine.Refused (e : Engine) (eventType : Str) (fault : Option Exc) : Prop :=
  e.hasJournal = true ∧ e.journalFailureMode = .failClosedCritical ∧
    eventType ∈ e.criticalJournalEvents ∧ fault ≠ none

instance (e : Engine) (eventType : Str) (fault : Option Exc) :
    Decidable (e.Refused eventType fault) :=
  inferInstanceAs (Decidable (_ ∧ _ ∧ _ ∧ _))

/-- Where a call raises because of the journal, the state, the log and the commit index are as
before. -/
def Replica.FailsClosed (r : Replica P) (c : Call P) : Prop :=
  ∀ exc, (r.call c).1 = .error (.journal exc) →
    (r.step c).engine.state = r.engine.state ∧ (r.step c).log = r.log ∧
      (r.step c).commitIndex = r.commitIndex

/-- The journal takes the event of a call, or the call has nothing to change before it: it does not
come to the journal, or a leader that knows of itself is elected again. -/
def Replica.Unrefused (r : Replica P) : Call P → Prop
  | .startElection _ fault => ¬ r.engine.Refused electionStarted fault
  | .receiveVote eid granted fault =>
    r.engine.Refused leaderElected fault →
      reachesQuorum ((r.engine.count eid granted).votesReceived eid) r.engine.totalNodes = true →
        r.engine.state.role = .leader ∧ r.engine.state.leaderId = some r.engine.state.nodeId
  | .appendEntry entryType payload fault =>
    r.engine.Refused logAppended fault → r.engine.state.role = .leader →
      ∃ exc, LogEntry.recomputeDigest P r.engine.state.currentTerm r.log.length entryType
        payload = .error exc
  | _ => True

end Adaad.Consensus
