import Adaad.Py.Json.Loads
import Adaad.Py.Reference

/-!
# Gossip between nodes

`runtime/governance/federation/peer_discovery.py`: a node wraps a payload in an event and sends it
to its alive peers; what comes in is validated and waits to be drained.

The gossip of fitness scores is `FederationBudgetGossip` of
`runtime/evolution/budget/cross_node_arbitrator.py`, with `broadcast_fitness` and
`ingest_pending_gossip`.
-/

namespace Adaad.Gossip

open Py

variable (P : Platform)

/-- What is done with a `float` beyond comparing it. -/
structure Arithmetic where
  sub : P.Float → P.Float → P.Float
  /-- `float(text)`; `none` is a `ValueError`. -/
  ofText : Str → Option P.Float

inductive GossipError where
  | keyError
  | valueError
  | typeError
  | attributeError
  | overflowError
  deriving DecidableEq, Repr

variable {P}

/-- `math.isfinite` -/
def isFinite (x : P.Float) : Bool :=
  match P.floatText x with
  | .lit _ => true
  | _ => false

/-- `float(v)` -/
def toFloat (ar : Arithmetic P) : P.Obj → Except GossipError P.Float
  | .float x => .ok x
  | .int i =>
    let x := P.floatOf (.lit (NumLit.ofInt i))
    if isFinite x then .ok x else .error .overflowError
  | .bool b => .ok (P.floatOf (.lit (NumLit.ofInt (if b then 1 else 0))))
  | .str s =>
    match ar.ofText s with
    | some x => .ok x
    | none => .error .valueError
  | _ => .error .typeError

/-! ### Events -/

variable (P) in
structure GossipEvent where
  eventId : Str
  originPeerId : Str
  eventType : Str
  payload : Members P.Float
  emittedAt : P.Float
  lineageDigest : Str

variable (P) in
/-- `"sha256:" + hashlib.sha256(json.dumps(value, sort_keys=True).encode()).hexdigest()`, of a value
that JSON has -/
def jsonDigest (v : P.Obj) : Str :=
  str "sha256:" ++ P.sha256 ((encode ((dumpsSortedAscii P .spaced v).getD [])).getD [])

/-- `compute_lineage_digest` -/
def computeLineageDigest (eventId originPeerId eventType : Str) (emittedAt : P.Float) : Str :=
  jsonDigest P (.dict [(.str (str "eid"), .str eventId), (.str (str "origin"), .str originPeerId),
    (.str (str "type"), .str eventType), (.str (str "ts"), .float emittedAt)])

/-- `GossipEvent.build`, with the id and the time that it is given. -/
def GossipEvent.build (eventId originPeerId eventType : Str) (payload : Members P.Float)
    (now : P.Float) : GossipEvent P where
  eventId := eventId
  originPeerId := originPeerId
  eventType := eventType
  payload := payload
  emittedAt := now
  lineageDigest := computeLineageDigest eventId originPeerId eventType now

def GossipEvent.toDict (e : GossipEvent P) : Members P.Float :=
  [(.str (str "event_id"), .str e.eventId), (.str (str "origin_peer_id"), .str e.originPeerId),
    (.str (str "event_type"), .str e.eventType), (.str (str "payload"), .dict e.payload),
    (.str (str "emitted_at"), .float e.emittedAt), (.str (str "lineage_digest"), .str e.lineageDigest)]

/-! ### Peers -/

variable (P) in
structure PeerRecord where
  peerId : Str
  endpoint : Str
  lastHeartbeat : P.Float
  isSelf : Bool

variable (P) in
structure PeerRegistry where
  selfId : Str
  peers : List (PeerRecord P)
  ttl : Int ⊕ P.Float

/-- `is_alive` -/
def PeerRecord.isAlive (ar : Arithmetic P) (p : PeerRecord P) (ttl : Int ⊕ P.Float) (now : P.Float) :
    Bool :=
  P.numLt (.inr (ar.sub now p.lastHeartbeat)) ttl

def PeerRegistry.alivePeers (ar : Arithmetic P) (r : PeerRegistry P) (now : P.Float) :
    List (PeerRecord P) :=
  r.peers.filter fun p => !p.isSelf && p.isAlive ar r.ttl now

/-! ### The protocol -/

variable (P) in
structure GossipProtocol where
  registry : PeerRegistry P
  inbound : List (GossipEvent P)

/-- A request on its way: the endpoint and the body. -/
structure Message where
  endpoint : Str
  body : Bytes

/-- `_send`: nothing is sent where the body cannot be made. -/
def send (endpoint : Str) (event : GossipEvent P) : Option Message :=
  (encode (dumpsAscii P .spaced (.dict event.toDict))).map fun body =>
    { endpoint := endpoint, body := body }

/-- `broadcast`, with the id of the event and the time. -/
def GossipProtocol.broadcast (ar : Arithmetic P) (g : GossipProtocol P) (eventType : Str)
    (payload : Members P.Float) (eventId : Str) (now : P.Float) : List Message :=
  let event := GossipEvent.build eventId g.registry.selfId eventType payload now
  (g.registry.alivePeers ar now).filterMap fun p => send p.endpoint event

/-- A call of `broadcast` with positional arguments: it takes an event type and a payload, both
required. -/
def GossipProtocol.callBroadcast (ar : Arithmetic P) (g : GossipProtocol P) (args : List P.Obj)
    (eventId : Str) (now : P.Float) : Except GossipError (List Message) :=
  match args with
  | [.str eventType, .dict payload] => .ok (g.broadcast ar eventType payload eventId now)
  | _ => .error .typeError

def filledText : Option P.Obj → Option Str
  | some (.str s) => if strip s = [] then none else some s
  | _ => none

/-- `emitted_at`, where it is a number, finite and not negative. -/
def emittedAtOf (ar : Arithmetic P) (v : Option P.Obj) : Except GossipError (Option P.Float) := do
  let checked := fun x : P.Float =>
    if isFinite x && !P.numLt (.inr x) (.inl 0) then some x else none
  match v with
  | some (.int i) => return checked (← toFloat ar (.int i))
  | some (.float x) => return checked x
  | _ => return none

/-- The event that a raw one is taken for, if it is valid. -/
def validated (ar : Arithmetic P) : P.Obj → Except GossipError (Option (GossipEvent P))
  | .dict raw =>
    match filledText (get raw (str "event_id")), filledText (get raw (str "origin_peer_id")),
      filledText (get raw (str "event_type")), filledText (get raw (str "lineage_digest")),
      get raw (str "payload") with
    | some eventId, some originPeerId, some eventType, some lineageDigest, some (.dict payload) => do
      match ← emittedAtOf ar (get raw (str "emitted_at")) with
      | some emittedAt =>
        if lineageDigest = computeLineageDigest eventId originPeerId eventType emittedAt then
          return some ⟨eventId, originPeerId, eventType, payload, emittedAt, lineageDigest⟩
        else return none
      | none => return none
    | _, _, _, _, _ => return none
  | _ => return none

/-- `receive` -/
def GossipProtocol.receive (ar : Arithmetic P) (g : GossipProtocol P) (raw : P.Obj) :
    Except GossipError (GossipProtocol P) := do
  match ← validated ar raw with
  | some event => return { g with inbound := g.inbound ++ [event] }
  | none => return g

/-! ### Fitness scores -/

def budgetGossipEventType : Str := str "budget_fitness_broadcast.v1"

def scoresDict (scores : List (Str × P.Float)) : P.Obj :=
  .dict (scores.map fun m => (.str m.1, .float m.2))

/-- `fitness_payload` -/
def fitnessPayload (nodeId epochId : Str) (scores : List (Str × P.Float)) (now : P.Float) :
    Members P.Float :=
  [(.str (str "node_id"), .str nodeId), (.str (str "epoch_id"), .str epochId),
    (.str (str "scores"), scoresDict scores), (.str (str "sampled_at"), .float now),
    (.str (str "lineage_digest"), .str (jsonDigest P (.dict [(.str (str "node"), .str nodeId),
      (.str (str "epoch"), .str epochId), (.str (str "scores"), scoresDict scores)])))]

variable (P) in
structure PeerFitnessReport where
  nodeId : P.Obj
  epochId : P.Obj
  scores : List (Str × P.Float)
  sampledAt : P.Float
  lineageDigest : P.Obj

/-- `payload[key]` -/
def item (payload : Members P.Float) (key : Str) : Except GossipError P.Obj :=
  match get payload key with
  | some v => .ok v
  | none => .error .keyError

/-- `{str(k): float(v) for k, v in scores.items()}` -/
def scoresOf (ar : Arithmetic P) : P.Obj → Except GossipError (List (Str × P.Float))
  | .dict ms => ms.mapM fun m => do
    let x ← toFloat ar m.2
    return (keyName P m.1, x)
  | _ => .error .attributeError

/-- The report of a payload, or what `parse_fitness_payload` meets. -/
def reportOf (ar : Arithmetic P) : P.Obj → Except GossipError (PeerFitnessReport P)
  | .dict payload => do
    let nodeId ← item payload (str "node_id")
    let epochId ← item payload (str "epoch_id")
    let scores ← item payload (str "scores")
    let scores ← scoresOf ar scores
    let sampledAt ← item payload (str "sampled_at")
    let sampledAt ← toFloat ar sampledAt
    return {
      nodeId := nodeId
      epochId := epochId
      scores := scores
      sampledAt := sampledAt
      lineageDigest := (get payload (str "lineage_digest")).getD (.str []) }
  | _ => .error .typeError

/-- `parse_fitness_payload` -/
def parseFitnessPayload (ar : Arithmetic P) (payload : P.Obj) :
    Except GossipError (Option (PeerFitnessReport P)) :=
  match reportOf ar payload with
  | .ok report => .ok (some report)
  | .error .keyError | .error .valueError | .error .typeError => .ok none
  | .error e => .error e

/-- `is_fresh` -/
def PeerFitnessReport.isFresh (ar : Arithmetic P) (r : PeerFitnessReport P) (now : P.Float) :
    Bool :=
  P.numLt (.inr (ar.sub now r.sampledAt)) (.inr (P.floatOf (.lit ⟨false, str "45", str "0", none⟩)))

def hashable : P.Obj → Bool
  | .list _ | .dict _ => false
  | _ => true

def acceptedReport (ar : Arithmetic P) (nodeId : Str) (now : P.Float) (event : GossipEvent P) :
    Except GossipError (Option (PeerFitnessReport P)) :=
  if event.eventType ≠ budgetGossipEventType then .ok none
  else
    match get event.payload (str "budget") with
    | none => .ok none
    | some budget =>
      if truthy P budget then do
        match ← parseFitnessPayload ar budget with
        | none => return none
        | some report =>
          if isText report.nodeId nodeId || !report.isFresh ar now then return none
          else if hashable report.nodeId then return some report
          else .error .typeError
      else .ok none
where
  isText (v : P.Obj) (s : Str) : Bool :=
    match v with
    | .str t => t = s
    | _ => false

/-- `ingest_pending_gossip`: the reports that are accepted. -/
def GossipProtocol.ingestPendingGossip (ar : Arithmetic P) (g : GossipProtocol P) (nodeId : Str)
    (now : P.Float) : Except GossipError (List (PeerFitnessReport P)) := do
  let reports ← g.inbound.mapM (acceptedReport ar nodeId now)
  return reports.filterMap id

/-- `broadcast_fitness`: what is sent; an error is logged. -/
def broadcastFitness (ar : Arithmetic P) (g : GossipProtocol P) (nodeId epochId : Str)
    (localScores : List (Str × P.Float)) (eventId : Str) (now : P.Float) : List Message :=
  let payload := fitnessPayload nodeId epochId localScores now
  -- one argument
  match g.callBroadcast ar [.dict [(.str (str "event_type"), .str budgetGossipEventType),
      (.str (str "budget"), .dict payload)]] eventId now with
  | .ok messages => messages
  | .error _ => []

end Adaad.Gossip

/-!
## Delivery of fitness reports

`broadcast_fitness` calls `broadcast` with one argument of two, and the error is logged: nothing is
sent (`broadcastFitness_eq_nil`), so no node ever accepts a report that another one broadcasts
(`not_delivered`).
-/

namespace Adaad.Gossip

open Py

variable {P : Platform} {ar : Arithmetic P}

def arrivals (endpoint : Str) (messages : List Message) : List Bytes :=
  (messages.filter fun m => m.endpoint = endpoint).map Message.body

def receiveBody (ar : Arithmetic P) (g : GossipProtocol P) (body : Bytes) :
    Except GossipError (GossipProtocol P) :=
  match (P.jsonBytes body).bind (loads P) with
  | some raw => g.receive ar raw
  | none => .ok g

/-- A node that gossips: its id, its endpoint and its protocol. -/
structure Node (P : Platform) where
  nodeId : Str
  endpoint : Str
  gossip : GossipProtocol P

/-- After `a` broadcasts and what it sends to `b` arrives, in whatever order, `b` accepts one report
more than without: that of `a`, with its scores. -/
def Delivered (ar : Arithmetic P) (a b : Node P) (epochId : Str) (scores : List (Str × P.Float))
    (eventId : Str) (sentAt readAt : P.Float) : Prop :=
  ∀ bodies : List Bytes, bodies.Perm (arrivals b.endpoint
      (broadcastFitness ar a.gossip a.nodeId epochId scores eventId sentAt)) →
    ∃ g others report, bodies.foldlM (receiveBody ar) b.gossip = .ok g ∧
      b.gossip.ingestPendingGossip ar b.nodeId readAt = .ok others ∧
      g.ingestPendingGossip ar b.nodeId readAt = .ok (others ++ [report]) ∧
      report.nodeId = .str a.nodeId ∧ report.scores = scores

theorem broadcastFitness_eq_nil (g : GossipProtocol P) (nodeId epochId : Str)
    (scores : List (Str × P.Float)) (eventId : Str) (now : P.Float) :
    broadcastFitness ar g nodeId epochId scores eventId now = [] := rfl

theorem not_delivered_of_nil {a b : Node P} {epochId : Str} {scores : List (Str × P.Float)}
    {eventId : Str} {sentAt readAt : P.Float}
    (h : broadcastFitness ar a.gossip a.nodeId epochId scores eventId sentAt = []) :
    ¬ Delivered ar a b epochId scores eventId sentAt readAt := by
  intro hdelivered
  obtain ⟨g, others, report, hreceive, hothers, haccepted, -⟩ := hdelivered [] (by rw [h]; rfl)
  obtain rfl : b.gossip = g := Except.ok.inj hreceive
  have heq : others = others ++ [report] := Except.ok.inj (hothers.symm.trans haccepted)
  have := congrArg List.length heq
  rw [List.length_append, List.length_singleton] at this
  omega

/-- No broadcast is ever delivered. -/
theorem not_delivered (ar : Arithmetic P) (a b : Node P) (epochId : Str)
    (scores : List (Str × P.Float)) (eventId : Str) (sentAt readAt : P.Float) :
    ¬ Delivered ar a b epochId scores eventId sentAt readAt :=
  not_delivered_of_nil (broadcastFitness_eq_nil a.gossip a.nodeId epochId scores eventId sentAt)

/-! ### Two nodes -/

/-- `0.0` -/
def zeroTime :
    comparingReference.Float := LiteralFloat.ofText (.lit ⟨false, str "0", str "0", none⟩)

/-- The arithmetic of a clock that stands still. -/
def stillArithmetic : Arithmetic comparingReference where
  sub _ _ := zeroTime
  ofText _ := none

def pairNode (nodeId endpoint peerId peerEndpoint : Str) : Node comparingReference where
  nodeId := nodeId
  endpoint := endpoint
  gossip :=
    { registry :=
        { selfId := nodeId
          peers := [⟨peerId, peerEndpoint, zeroTime, false⟩]
          ttl := .inl 90 }
      inbound := [] }

def nodeA : Node comparingReference :=
  pairNode (str "node-a") (str "http://a") (str "node-b") (str "http://b")

def nodeB : Node comparingReference :=
  pairNode (str "node-b") (str "http://b") (str "node-a") (str "http://a")

/-- One node broadcasts to the other, which is alive. -/
theorem not_delivered_pair :
    (nodeA.gossip.registry.alivePeers stillArithmetic zeroTime).map PeerRecord.endpoint =
        [nodeB.endpoint] ∧
      ¬ Delivered stillArithmetic nodeA nodeB (str "epoch-1")
        [(str "agent-1", LiteralFloat.ofText (.lit ⟨false, str "0", str "8", none⟩))] (str "6f1c")
        zeroTime zeroTime :=
  ⟨by decide, not_delivered_of_nil (broadcastFitness_eq_nil _ _ _ _ _ _)⟩

end Adaad.Gossip
