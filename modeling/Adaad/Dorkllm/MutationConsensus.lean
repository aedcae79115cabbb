import Adaad.Innovations.Ledger
import Adaad.Py.Assoc
import Adaad.Undo

/-!
# The mutation consensus engine

`dorkllm/constitutional_mutation_consensus_engine.py`: agents vote on a mutation in a round, which is
then closed; HUMAN-0 may close it at any time.  Each event is appended to a ledger that is chained by
HMAC, and a new engine goes through the events again.

The process may stop between two of these writes.
-/

namespace Adaad.MutationConsensus

open Py Innovations

variable {P : Platform}

/-! ### Constants -/

def governor : Str := str "DUSTIN L REID"
def innovNumber : Str := str "INNOV-103"

/-- `HUMAN0_IDENTIFIERS` -/
def human0Identifiers : List Str := [str "HUMAN-0", str "DUSTIN L REID", str "HUMAN0"]

def veto : Str := str "VETO"
def override : Str := str "OVERRIDE"

/-! ### Enums -/

inductive VoteType where
  | approve
  | reject
  | abstain
  | challenge
  deriving DecidableEq, Repr

def VoteType.value : VoteType → Str
  | approve => str "APPROVE"
  | reject => str "REJECT"
  | abstain => str "ABSTAIN"
  | challenge => str "CHALLENGE"

inductive ConsensusOutcome where
  | passed
  | blocked
  | challenged
  | pending
  | override
  deriving DecidableEq, Repr

def ConsensusOutcome.value : ConsensusOutcome → Str
  | passed => str "PASSED"
  | blocked => str "BLOCKED"
  | challenged => str "CHALLENGED"
  | pending => str "PENDING"
  | override => str "OVERRIDE"

inductive RoundStatus where
  | open
  | closed
  deriving DecidableEq, Repr

def RoundStatus.value : RoundStatus → Str
  | .open => str "OPEN"
  | .closed => str "CLOSED"

variable (P) in
/-- `VoteType(value)` -/
def VoteType.ofValue (s : Str) : Except LoadError VoteType :=
  match [approve, reject, abstain, challenge].find? fun v => v.value = s with
  | some v => .ok v
  | none => .error (.raised (.valueError (P.repr (.str s) ++ str " is not a valid VoteType")))

variable (P) in
/-- `ConsensusOutcome(value)` -/
def ConsensusOutcome.ofValue (s : Str) : Except LoadError ConsensusOutcome :=
  match [passed, blocked, challenged, pending, override].find? fun o => o.value = s with
  | some o => .ok o
  | none =>
    .error (.raised (.valueError (P.repr (.str s) ++ str " is not a valid ConsensusOutcome")))

variable (P) in
/-- `RoundStatus(value)` -/
def RoundStatus.ofValue (s : Str) : Except LoadError RoundStatus :=
  match [RoundStatus.open, .closed].find? fun o => o.value = s with
  | some o => .ok o
  | none => .error (.raised (.valueError (P.repr (.str s) ++ str " is not a valid RoundStatus")))

/-! ### Errors -/

/-- The subclasses of `CMCEError` that are raised, and the class itself. -/
inductive ErrorKind where
  | cmceError
  | duplicateVote
  | unknownAgent
  | voteMissing
  | human0Bypass
  | chainBroken
  | challengeUnresolved
  | scopeImmutabilityViolation
  | roundNotFound
  | roundClosed
  deriving DecidableEq, Repr

structure CMCEError where
  kind : ErrorKind
  message : Str
  deriving DecidableEq, Repr

/-! ### Rounds -/

variable (P) in
structure AgentVote where
  agent : Str
  vote : VoteType
  rationale : Str
  timestamp : P.Float
  voteId : Str

variable (P) in
structure ConsensusRound where
  roundId : Str
  mutationId : Str
  intentDeclarationId : Str
  scopePaths : List Str
  proposer : Str
  quorumRequired : Int
  openedAt : P.Float
  status : RoundStatus := .open
  votes : List (Str × AgentVote P) := []
  outcome : ConsensusOutcome := .pending
  outcomeReason : Str := []
  closedAt : Option P.Float := none
  human0Action : Option Str := none

def ConsensusRound.count (r : ConsensusRound P) (v : VoteType) : Nat :=
  r.votes.countP fun m => m.2.vote = v

/-- `evaluate` -/
def ConsensusRound.evaluate (r : ConsensusRound P) : ConsensusOutcome × Str :=
  if r.human0Action = some veto then
    (.blocked, str "HUMAN-0 exercised constitutional veto.")
  else if r.human0Action = some override then
    (.override,
      str "HUMAN-0 exercised constitutional override — mutation approved unconditionally.")
  else
    let approveCount := r.count .approve
    let rejectCount := r.count .reject
    if 0 < r.count .challenge then
      let agentsChallenged := (r.votes.filter fun m => m.2.vote = .challenge).map fun m => m.2.agent
      (.challenged, str "Unresolved CHALLENGE from: " ++ P.repr (.list (agentsChallenged.map .str)) ++
        str ". Escalate to HUMAN-0.")
    else if r.quorumRequired ≤ approveCount then
      (.passed, str "Quorum met: " ++ natText approveCount ++ str "/" ++ intText r.quorumRequired ++
        str " APPROVE votes (" ++ natText rejectCount ++ str " REJECT, " ++
        intText (r.votes.length - approveCount - rejectCount) ++ str " ABSTAIN).")
    else
      (.blocked, str "Quorum not met: " ++ natText approveCount ++ str "/" ++
        intText r.quorumRequired ++ str " APPROVE votes (" ++ natText rejectCount ++ str " REJECT).")

variable (P) in
/-- `_rounds` -/
abbrev Rounds := List (Str × ConsensusRound P)

/-! ### Rounds as JSON -/

/-- A value or `None`. -/
def optional {α : Type} (f : α → P.Obj) : Option α → P.Obj
  | none => .none
  | some a => f a

def AgentVote.toDict (v : AgentVote P) : Members P.Float :=
  [(.str (str "agent"), .str v.agent), (.str (str "vote"), .str v.vote.value),
    (.str (str "rationale"), .str v.rationale), (.str (str "timestamp"), .float v.timestamp),
    (.str (str "vote_id"), .str v.voteId)]

def ConsensusRound.toDict (r : ConsensusRound P) : Members P.Float :=
  [(.str (str "round_id"), .str r.roundId), (.str (str "mutation_id"), .str r.mutationId),
    (.str (str "intent_declaration_id"), .str r.intentDeclarationId),
    (.str (str "scope_paths"), .list (r.scopePaths.map .str)),
    (.str (str "proposer"), .str r.proposer), (.str (str "quorum_required"), .int r.quorumRequired),
    (.str (str "opened_at"), .float r.openedAt), (.str (str "status"), .str r.status.value),
    (.str (str "votes"), .dict (r.votes.map fun m => (.str m.1, .dict m.2.toDict))),
    (.str (str "outcome"), .str r.outcome.value), (.str (str "outcome_reason"), .str r.outcomeReason),
    (.str (str "closed_at"), optional .float r.closedAt),
    (.str (str "human0_action"), optional .str r.human0Action)]

/-- A `float`. -/
def floatOf : P.Obj → Except LoadError P.Float
  | .float x => .ok x
  | _ => .error .foreign

/-- A value or `None`. -/
def optionalOf {α : Type} (f : P.Obj → Except LoadError α) : P.Obj → Except LoadError (Option α)
  | .none => .ok none
  | v => (f v).map some

/-- `AgentVote.from_dict` -/
def AgentVote.fromDict (d : Members P.Float) : Except LoadError (AgentVote P) := do
  let agent ← textAt d (str "agent")
  let vote ← textAt d (str "vote") >>= VoteType.ofValue P
  let rationale ← textAt d (str "rationale")
  let timestamp ← fieldAt d (str "timestamp") >>= floatOf
  let voteId ← textAt d (str "vote_id")
  return { agent, vote, rationale, timestamp, voteId }

/-- An item of `votes`. -/
def voteOf (m : Key P.Float × P.Obj) : Except LoadError (Str × AgentVote P) :=
  match m.1 with
  | .str agent => do
    let vote ← itemsOf m.2 >>= AgentVote.fromDict
    return (agent, vote)
  | _ => .error .foreign

/-- `ConsensusRound.from_dict` -/
def ConsensusRound.fromDict (d : Members P.Float) : Except LoadError (ConsensusRound P) := do
  let roundId ← textAt d (str "round_id")
  let mutationId ← textAt d (str "mutation_id")
  let intentDeclarationId ← textAt d (str "intent_declaration_id")
  let scopePaths ← fieldAt d (str "scope_paths") >>= textsOf
  let proposer ← textAt d (str "proposer")
  let quorumRequired ← intAt d (str "quorum_required")
  let openedAt ← fieldAt d (str "opened_at") >>= floatOf
  let status ← textAt d (str "status") >>= RoundStatus.ofValue P
  let outcome ← textAt d (str "outcome") >>= ConsensusOutcome.ofValue P
  let outcomeReason ← textAt d (str "outcome_reason")
  let closedAt ← optionalOf floatOf ((get d (str "closed_at")).getD .none)
  let human0Action ← optionalOf textOf ((get d (str "human0_action")).getD .none)
  let items ← itemsOf ((get d (str "votes")).getD (.dict []))
  let votes ← items.mapM voteOf
  return {
    roundId, mutationId, intentDeclarationId, scopePaths, proposer, quorumRequired, openedAt, status,
    votes, outcome, outcomeReason, closedAt, human0Action }

/-! ### Events -/

variable (P) in
/-- An event of the ledger. -/
inductive Event where
  /-- `ROUND_OPENED` -/
  | roundOpened (round : ConsensusRound P)
  /-- `VOTE_CAST`; a vote that takes the place of a challenge is marked. -/
  | voteCast (roundId : Str) (vote : AgentVote P) (resolutionOfChallenge : Bool)
  /-- `ROUND_CLOSED`, with the round that is closed. -/
  | roundClosed (round : ConsensusRound P)
  /-- `HUMAN0_ACTION` -/
  | human0Action (roundId action reason : Str)

def Event.eventType : Event P → Str
  | roundOpened _ => str "ROUND_OPENED"
  | voteCast _ _ _ => str "VOTE_CAST"
  | roundClosed _ => str "ROUND_CLOSED"
  | human0Action _ _ _ => str "HUMAN0_ACTION"

/-- The `data` of the event. -/
def Event.data : Event P → Members P.Float
  | roundOpened r =>
    [(.str (str "round"), .dict r.toDict), (.str (str "governor"), .str governor),
      (.str (str "innov"), .str innovNumber)]
  | voteCast roundId vote false =>
    [(.str (str "round_id"), .str roundId), (.str (str "vote"), .dict vote.toDict),
      (.str (str "governor"), .str governor)]
  | voteCast roundId vote true =>
    [(.str (str "round_id"), .str roundId), (.str (str "vote"), .dict vote.toDict),
      (.str (str "governor"), .str governor), (.str (str "resolution_of_challenge"), .bool true)]
  | roundClosed r =>
    [(.str (str "round_id"), .str r.roundId), (.str (str "mutation_id"), .str r.mutationId),
      (.str (str "outcome"), .str r.outcome.value),
      (.str (str "outcome_reason"), .str r.outcomeReason),
      (.str (str "closed_at"), optional .float r.closedAt),
      (.str (str "human0_action"), optional .str r.human0Action),
      (.str (str "governor"), .str governor)]
  | human0Action roundId action reason =>
    [(.str (str "round_id"), .str roundId), (.str (str "action"), .str action),
      (.str (str "reason"), .str reason), (.str (str "governor"), .str governor)]

/-! ### The ledger -/

/-- `quorum`, `registered_agents` and the secret of the environment. -/
structure Config where
  quorum : Int
  /-- A `frozenset`. -/
  registeredAgents : List Str
  nodup : registeredAgents.Nodup
  hmacSecret : Bytes

/-- `json.dumps(data, sort_keys=True, separators=(",", ":"))`, of data whose keys are strings. -/
def payloadText (data : P.Obj) : Str :=
  (dumpsSortedAscii P .compact data).getD []

variable (P) in
/-- `_compute_hmac`, of texts that are ASCII. -/
def computeHmac (c : Config) (payload prevHmac : Str) : Str :=
  hmacSha256 P c.hmacSecret ((encode (prevHmac ++ 58 :: payload)).getD [])

/-- `_chain_valid` -/
def chainValid (c : Config) (record : Members P.Float) (prevHmac : Str) : Except LoadError Bool := do
  let stored ← textOf ((get record (str "chain_hmac")).getD (.str []))
  let payload := payloadText ((get record (str "data")).getD (.dict []))
  let expected := computeHmac P c payload prevHmac
  return stored.take 24 = expected.take 24

/-- The file of the ledger, and the `_chain_hmac` that an engine keeps of it. -/
structure Ledger where
  log : Bytes
  chainHmac : Str

variable (P) in
/-- An event, and the time that its record has. -/
structure Write where
  event : Event P
  timestamp : P.Float

def Write.record (w : Write P) (chainHmac : Str) : Members P.Float :=
  [(.str (str "event_type"), .str w.event.eventType), (.str (str "data"), .dict w.event.data),
    (.str (str "chain_hmac"), .str chainHmac), (.str (str "timestamp"), .float w.timestamp)]

/-- `_write_ledger` -/
def writeLedger (c : Config) (l : Ledger) (w : Write P) : Ledger :=
  let chainHmac := computeHmac P c (payloadText (.dict w.event.data)) l.chainHmac
  ⟨appendRow P l.log (w.record chainHmac), chainHmac⟩

variable (P) in
/-- `_read_ledger`; a ledger that does not exist is empty. -/
def readLedger (log : Bytes) : Except LoadError (List P.Obj) :=
  let r := readLines P log
  match ((r.1.map strip).filter fun line => line ≠ []).mapM (loads P) with
  | none => .error (.raised .jsonDecodeError)
  | some records => if r.2 then .ok records else .error (.raised .unicodeDecodeError)

/-! ### Replay -/

/-- `_apply_event` -/
def applyEvent (rounds : Rounds P) (eventType : Str) (data : Members P.Float) :
    Except LoadError (Rounds P) :=
  if eventType = str "ROUND_OPENED" then do
    let r ← fieldAt data (str "round") >>= itemsOf >>= ConsensusRound.fromDict
    return Assoc.set rounds r.roundId r
  else if eventType = str "VOTE_CAST" then do
    let roundId ← textAt data (str "round_id")
    match rounds.lookup roundId with
    | none => return rounds
    | some r =>
      let vote ← fieldAt data (str "vote") >>= itemsOf >>= AgentVote.fromDict
      return Assoc.set rounds roundId { r with votes := Assoc.set r.votes vote.agent vote }
  else if eventType = str "ROUND_CLOSED" then do
    let roundId ← textAt data (str "round_id")
    match rounds.lookup roundId with
    | none => return rounds
    | some r =>
      let outcome ← textAt data (str "outcome") >>= ConsensusOutcome.ofValue P
      let outcomeReason ← textAt data (str "outcome_reason")
      let closedAt ← fieldAt data (str "closed_at") >>= optionalOf floatOf
      let human0Action ← optionalOf textOf ((get data (str "human0_action")).getD .none)
      return Assoc.set rounds roundId
        { r with outcome, outcomeReason, status := .closed, closedAt, human0Action }
  else if eventType = str "HUMAN0_ACTION" then do
    let roundId ← textAt data (str "round_id")
    match rounds.lookup roundId with
    | none => return rounds
    | some r =>
      let action ← textAt data (str "action")
      return Assoc.set rounds roundId { r with human0Action := some action }
  else .ok rounds

/-- What stops an engine from being created. -/
inductive ReplayError where
  | cmce (e : CMCEError)
  | load (e : LoadError)

/-- The body of the loop of `_replay_ledger`. -/
def replayRecord (c : Config) (s : Rounds P × Str) (record : P.Obj) :
    Except ReplayError (Rounds P × Str) :=
  match record with
  | .dict record =>
    match chainValid c record s.2 with
    | .error e => .error (.load e)
    | .ok false =>
      .error (.cmce ⟨.chainBroken, str "CMCE-CHAIN-0: chain integrity failure at record type=" ++
        toStr P ((get record (str "event_type")).getD .none) ++ str "."⟩)
    | .ok true =>
      Except.mapError .load do
        let prev ← textAt record (str "chain_hmac")
        let eventType ← textAt record (str "event_type")
        let data ← fieldAt record (str "data") >>= itemsOf
        let rounds ← applyEvent s.1 eventType data
        return (rounds, prev)
  | _ => .error (.load .foreign)

variable (P) in
/-- What an engine has in memory. -/
structure Engine where
  rounds : Rounds P := []
  chainHmac : Str := str "GENESIS"

variable (P) in
/-- `__init__` with `_replay_ledger` -/
def replayLedger (c : Config) (log : Bytes) : Except ReplayError (Engine P) :=
  match readLedger P log with
  | .error e => .error (.load e)
  | .ok records =>
    (records.foldlM (replayRecord c) ([], str "GENESIS")).map fun s => ⟨s.1, s.2⟩

/-! ### Calls -/

/-- What the process gets from its runtime during a call. -/
structure Env (P : Platform) where
  /-- `str(uuid.uuid4())`; a call draws one at most. -/
  uuid4 : Str
  /-- `time.time()`, one time after the other. -/
  time : Nat → P.Float

variable (P) in
/-- What a call returns. -/
inductive Reply where
  | round (r : ConsensusRound P)
  | vote (v : AgentVote P)

variable (P) in
/-- What a call does when it is not stopped: how it ends, the rounds in memory after it, and what it
writes. -/
structure Attempt where
  reply : Except CMCEError (Reply P)
  rounds : Rounds P
  writes : List (Write P) := []

def raise (rounds : Rounds P) (e : CMCEError) : Attempt P :=
  ⟨.error e, rounds, []⟩

/-- `open_round` -/
def openRound (c : Config) (env : Env P) (rounds : Rounds P) (mutationId intentDeclarationId : Str)
    (scopePaths : List Str) (proposer : Str) : Attempt P :=
  if scopePaths = [] then
    raise rounds ⟨.scopeImmutabilityViolation,
      str "CMCE-SCOPE-0: scope_paths must be non-empty when opening a round."⟩
  else
    let r : ConsensusRound P :=
      { roundId := env.uuid4
        mutationId := mutationId
        intentDeclarationId := intentDeclarationId
        scopePaths := scopePaths
        proposer := proposer
        quorumRequired := c.quorum
        openedAt := env.time 0 }
    ⟨.ok (.round r), Assoc.set rounds env.uuid4 r, [⟨.roundOpened r, env.time 1⟩]⟩

/-- `_get_open_round` -/
def getOpenRound (rounds : Rounds P) (roundId : Str) : Except CMCEError (ConsensusRound P) :=
  match rounds.lookup roundId with
  | none => .error ⟨.roundNotFound, str "Consensus round '" ++ roundId ++ str "' not found."⟩
  | some r =>
    if r.status = .closed then
      .error ⟨.roundClosed, str "Consensus round '" ++ roundId ++
        str "' is already closed (outcome=" ++ r.outcome.value ++ str ")."⟩
    else .ok r

def ConsensusRound.withVote (r : ConsensusRound P) (v : AgentVote P) : ConsensusRound P :=
  { r with votes := Assoc.set r.votes v.agent v }

/-- `repr(sorted(…))` of texts. -/
def sortedRepr (P : Platform) (texts : List Str) : Str :=
  P.repr (.list ((texts.insertionSort fun a b => strLe a b = true).map .str))

/-- `cast_vote` -/
def castVote (c : Config) (env : Env P) (rounds : Rounds P) (roundId agent : Str) (vote : VoteType)
    (rationale : Str) : Attempt P :=
  if agent ∈ human0Identifiers then
    raise rounds ⟨.human0Bypass, str "CMCE-HUMAN0-0: HUMAN-0 authority must use human0_veto() " ++
      str "or human0_override() — not cast_vote()."⟩
  else
    match getOpenRound rounds roundId with
    | .error e => raise rounds e
    | .ok r =>
      if agent ∉ c.registeredAgents then
        raise rounds ⟨.unknownAgent, str "CMCE-VOTE-0: '" ++ agent ++
          str "' is not a registered consensus agent. Registered: " ++
          sortedRepr P c.registeredAgents ++ str "."⟩
      else if agent ∈ Assoc.keys r.votes then
        raise rounds ⟨.duplicateVote, str "CMCE-VOTE-0: agent '" ++ agent ++
          str "' has already voted in round " ++ roundId ++ str "."⟩
      else
        let agentVote : AgentVote P :=
          { agent := agent
            vote := vote
            rationale := rationale
            timestamp := env.time 0
            voteId := env.uuid4 }
        ⟨.ok (.vote agentVote), Assoc.set rounds roundId (r.withVote agentVote),
          [⟨.voteCast roundId agentVote false, env.time 1⟩]⟩

/-- A round that is closed, in `_close_round`. -/
def ConsensusRound.closing (r : ConsensusRound P) (closedAt : P.Float) : ConsensusRound P :=
  { r with
    outcome := r.evaluate.1
    outcomeReason := r.evaluate.2
    status := .closed
    closedAt := some closedAt }

/-- `human0_veto` and `human0_override`, which differ in the action. -/
def human0Act (action : Str) (env : Env P) (rounds : Rounds P) (roundId reason : Str) : Attempt P :=
  match getOpenRound rounds roundId with
  | .error e => raise rounds e
  | .ok r =>
    let closed := { r with human0Action := some action }.closing (env.time 1)
    ⟨.ok (.round closed), Assoc.set rounds roundId closed,
      [⟨.human0Action roundId action reason, env.time 0⟩, ⟨.roundClosed closed, env.time 2⟩]⟩

/-- `human0_veto` -/
def human0Veto (env : Env P) (rounds : Rounds P) (roundId reason : Str) : Attempt P :=
  human0Act veto env rounds roundId reason

/-- `human0_override` -/
def human0Override (env : Env P) (rounds : Rounds P) (roundId reason : Str) : Attempt P :=
  human0Act override env rounds roundId reason

/-- `_close_round`, with the record that it writes. -/
def closeAttempt (env : Env P) (rounds : Rounds P) (roundId : Str) (r : ConsensusRound P) :
    Attempt P :=
  let closed := r.closing (env.time 0)
  ⟨.ok (.round closed), Assoc.set rounds roundId closed, [⟨.roundClosed closed, env.time 1⟩]⟩

/-- The registered agents that have not voted. -/
def ConsensusRound.missing (c : Config) (r : ConsensusRound P) : List Str :=
  c.registeredAgents.filter fun agent => agent ∉ Assoc.keys r.votes

/-- `close_round` -/
def closeRound (c : Config) (env : Env P) (rounds : Rounds P) (roundId : Str) : Attempt P :=
  match getOpenRound rounds roundId with
  | .error e => raise rounds e
  | .ok r =>
    if r.human0Action = some veto ∨ r.human0Action = some override then
      closeAttempt env rounds roundId r
    else if r.missing c ≠ [] then
      raise rounds ⟨.voteMissing, str "CMCE-VOTE-0: round " ++ roundId ++
        str " cannot close — votes missing from: " ++ sortedRepr P (r.missing c) ++ str "."⟩
    else if r.evaluate.1 = .challenged ∧ r.human0Action.getD [] = [] then
      raise rounds ⟨.challengeUnresolved, str "CMCE-CHALLENGE-0: " ++ r.evaluate.2 ++
        str "  Use human0_veto() or human0_override() to resolve."⟩
    else closeAttempt env rounds roundId r

/-- `VoteType(resolution)`, of a resolution that is admitted. -/
def resolutionOf (resolution : Str) : Option VoteType :=
  if resolution = str "APPROVE" then some .approve
  else if resolution = str "REJECT" then some .reject
  else none

/-- `resolve_challenge` -/
def resolveChallenge (env : Env P) (rounds : Rounds P) (roundId challengingAgent resolution : Str) :
    Attempt P :=
  match getOpenRound rounds roundId with
  | .error e => raise rounds e
  | .ok r =>
    match r.votes.lookup challengingAgent with
    | none =>
      raise rounds ⟨.unknownAgent, str "Agent '" ++ challengingAgent ++
        str "' has not voted in round " ++ roundId ++ str "."⟩
    | some existing =>
      if existing.vote ≠ .challenge then
        raise rounds ⟨.cmceError, str "Agent '" ++ challengingAgent ++
          str "' did not cast a CHALLENGE in round " ++ roundId ++ str "."⟩
      else
        match resolutionOf resolution with
        | none => raise rounds ⟨.cmceError, str "Challenge resolution must be 'APPROVE' or 'REJECT'."⟩
        | some vote =>
          let newVote : AgentVote P :=
            { agent := challengingAgent
              vote := vote
              rationale := str "Challenge resolved: " ++ resolution
              timestamp := env.time 0
              voteId := env.uuid4 }
          ⟨.ok (.vote newVote), Assoc.set rounds roundId (r.withVote newVote),
            [⟨.voteCast roundId newVote true, env.time 1⟩]⟩

/-! ### Runs -/

/-- What the processes get from their runtime. -/
structure Runtime where
  /-- `str(uuid.uuid4())` in the call of this number. -/
  uuid4 : Nat → Str
  uuid4_injective : Function.Injective uuid4
  uuid4_ascii : ∀ n, ∀ c ∈ uuid4 n, c < 128

/-- A call, with its arguments. -/
inductive Request where
  | openRound (mutationId intentDeclarationId : Str) (scopePaths : List Str) (proposer : Str)
  | castVote (roundId agent : Str) (vote : VoteType) (rationale : Str)
  | resolveChallenge (roundId challengingAgent resolution : Str)
  | closeRound (roundId : Str)
  | human0Veto (roundId reason : Str)
  | human0Override (roundId reason : Str)

/-- What the call does when it is not stopped. -/
def Request.attempt (c : Config) (env : Env P) (rounds : Rounds P) : Request → Attempt P
  | .openRound mutationId intentDeclarationId scopePaths proposer =>
    MutationConsensus.openRound c env rounds mutationId intentDeclarationId scopePaths proposer
  | .castVote roundId agent vote rationale =>
    MutationConsensus.castVote c env rounds roundId agent vote rationale
  | .resolveChallenge roundId challengingAgent resolution =>
    MutationConsensus.resolveChallenge env rounds roundId challengingAgent resolution
  | .closeRound roundId => MutationConsensus.closeRound c env rounds roundId
  | .human0Veto roundId reason => MutationConsensus.human0Veto env rounds roundId reason
  | .human0Override roundId reason => MutationConsensus.human0Override env rounds roundId reason

structure Call (P : Platform) where
  request : Request
  time : Nat → P.Float
  /-- The process stops after this number of writes. -/
  stop : Option Nat

variable (P) in
inductive Action where
  | call (call : Call P)
  /-- The engine is created again, with the same quorum and agents. -/
  | recreate

variable (P) in
/-- The ledger and the engine; there is none where one could not be created. -/
structure World where
  log : Bytes := []
  engine : Option (Engine P) := some {}
  calls : Nat := 0

namespace World

variable (rt : Runtime) (c : Config) (w : World P)

/-- What the call does on this engine when it is not stopped. -/
def attempt (e : Engine P) (call : Call P) : Attempt P :=
  call.request.attempt c ⟨rt.uuid4 w.calls, call.time⟩ e.rounds

def recreate (log : Bytes) : Option (Engine P) :=
  (replayLedger P c log).toOption

/-- After a call that was stopped the engine is created again. -/
def call (e : Engine P) (call : Call P) : World P :=
  let a := w.attempt rt c e call
  let l := Writes.after (writeLedger c) ⟨w.log, e.chainHmac⟩ (Writes.done call.stop a.writes)
  { log := l.log
    engine :=
      if Writes.Finishes call.stop a.writes then some ⟨a.rounds, l.chainHmac⟩ else recreate c l.log
    calls := w.calls + 1 }

def step : Action P → World P
  | .call call =>
    match w.engine with
    | some e => w.call rt c e call
    | none => w
  | .recreate => { w with engine := recreate c w.log }

end World

end Adaad.MutationConsensus
