import Adaad.BreadthFirst
import Adaad.Innovations.Ledger
import Adaad.Py.Assoc

/-!
# The mutation lineage graph

`dorkllm/constitutional_mutation_lineage_graph.py`: nodes for the checkpoints of mutations and edges
between them.  Each node and each edge is appended to a ledger that is chained by HMAC, and a new graph
goes through the entries again.
-/

namespace Adaad.MutationLineage

open Py Innovations

variable {P : Platform}

def governor : Str := str "DUSTIN L REID"

/-! ### Enums -/

inductive GateType where
  | genesis
  | sandbox
  | consensus
  | queue
  | cel
  | promote
  | rollback
  deriving DecidableEq, Repr

def GateType.value : GateType → Str
  | genesis => str "GENESIS"
  | sandbox => str "SANDBOX"
  | consensus => str "CONSENSUS"
  | queue => str "QUEUE"
  | cel => str "CEL"
  | promote => str "PROMOTE"
  | rollback => str "ROLLBACK"

inductive NodeStatus where
  | active
  | rolledBack
  /-- An orphaned node. -/
  | ghost
  deriving DecidableEq, Repr

def NodeStatus.value : NodeStatus → Str
  | active => str "ACTIVE"
  | rolledBack => str "ROLLED_BACK"
  | ghost => str "GHOST"

inductive EdgeStatus where
  | passed
  | failed
  | bypassed
  deriving DecidableEq, Repr

def EdgeStatus.value : EdgeStatus → Str
  | passed => str "PASSED"
  | failed => str "FAILED"
  | bypassed => str "BYPASSED"

variable (P) in
/-- What a call of an enum raises for a value that it does not have. -/
def invalidValue (s name : Str) : LoadError :=
  .raised (.valueError (P.repr (.str s) ++ str " is not a valid " ++ name))

variable (P) in
/-- `GateType(value)` -/
def GateType.ofValue (s : Str) : Except LoadError GateType :=
  match [genesis, sandbox, consensus, queue, cel, promote, rollback].find? fun g => g.value = s with
  | some g => .ok g
  | none => .error (invalidValue P s (str "GateType"))

variable (P) in
/-- `NodeStatus(value)` -/
def NodeStatus.ofValue (s : Str) : Except LoadError NodeStatus :=
  match [active, rolledBack, ghost].find? fun n => n.value = s with
  | some n => .ok n
  | none => .error (invalidValue P s (str "NodeStatus"))

variable (P) in
/-- `EdgeStatus(value)` -/
def EdgeStatus.ofValue (s : Str) : Except LoadError EdgeStatus :=
  match [passed, failed, bypassed].find? fun e => e.value = s with
  | some e => .ok e
  | none => .error (invalidValue P s (str "EdgeStatus"))

/-! ### Errors -/

/-- `CMLGConstitutionalViolation`, and its subclasses that a call raises. -/
inductive ErrorKind where
  | constitutionalViolation
  | cycleDetected
  | anchorViolation
  deriving DecidableEq, Repr

inductive Error where
  | cmlg (kind : ErrorKind) (message : Str)
  /-- `json.dumps` of a mapping whose keys cannot be sorted. -/
  | typeError
  deriving DecidableEq, Repr

/-! ### Nodes and edges -/

variable (P) in
structure LineageNode where
  nodeId : Str
  mutationId : Str
  phase : Int
  version : Str
  gate : GateType
  status : NodeStatus
  timestamp : Str
  actor : Str
  metadata : Members P.Float := []

def LineageNode.toDict (n : LineageNode P) : Members P.Float :=
  [(.str (str "node_id"), .str n.nodeId), (.str (str "mutation_id"), .str n.mutationId),
    (.str (str "phase"), .int n.phase), (.str (str "version"), .str n.version),
    (.str (str "gate"), .str n.gate.value), (.str (str "status"), .str n.status.value),
    (.str (str "timestamp"), .str n.timestamp), (.str (str "actor"), .str n.actor),
    (.str (str "metadata"), .dict n.metadata)]

variable (P) in
structure LineageEdge where
  edgeId : Str
  sourceNodeId : Str
  targetNodeId : Str
  gateType : GateType
  edgeStatus : EdgeStatus
  timestamp : Str
  actor : Str
  metadata : Members P.Float := []

def LineageEdge.toDict (e : LineageEdge P) : Members P.Float :=
  [(.str (str "edge_id"), .str e.edgeId), (.str (str "source_node_id"), .str e.sourceNodeId),
    (.str (str "target_node_id"), .str e.targetNodeId),
    (.str (str "gate_type"), .str e.gateType.value),
    (.str (str "edge_status"), .str e.edgeStatus.value), (.str (str "timestamp"), .str e.timestamp),
    (.str (str "actor"), .str e.actor), (.str (str "metadata"), .dict e.metadata)]

def LineageNode.ofPayload (p : Members P.Float) : Except LoadError (LineageNode P) := do
  let nodeId ← textAt p (str "node_id")
  let mutationId ← textAt p (str "mutation_id")
  let phase ← intAt p (str "phase")
  let version ← textAt p (str "version")
  let gate ← textAt p (str "gate") >>= GateType.ofValue P
  let status ← textAt p (str "status") >>= NodeStatus.ofValue P
  let timestamp ← textAt p (str "timestamp")
  let actor ← textAt p (str "actor")
  let metadata ← itemsOf ((get p (str "metadata")).getD (.dict []))
  return { nodeId, mutationId, phase, version, gate, status, timestamp, actor, metadata }

def LineageEdge.ofPayload (p : Members P.Float) : Except LoadError (LineageEdge P) := do
  let edgeId ← textAt p (str "edge_id")
  let sourceNodeId ← textAt p (str "source_node_id")
  let targetNodeId ← textAt p (str "target_node_id")
  let gateType ← textAt p (str "gate_type") >>= GateType.ofValue P
  let edgeStatus ← textAt p (str "edge_status") >>= EdgeStatus.ofValue P
  let timestamp ← textAt p (str "timestamp")
  let actor ← textAt p (str "actor")
  let metadata ← itemsOf ((get p (str "metadata")).getD (.dict []))
  return { edgeId, sourceNodeId, targetNodeId, gateType, edgeStatus, timestamp, actor, metadata }

/-! ### The ledger -/

variable (P) in
structure LedgerEntry where
  entryId : Str
  entryType : Str
  payload : Members P.Float
  ledgerIndex : Int
  prevHash : Str
  entryHash : Str
  timestamp : Str

def LedgerEntry.toDict (e : LedgerEntry P) : Members P.Float :=
  [(.str (str "entry_id"), .str e.entryId), (.str (str "entry_type"), .str e.entryType),
    (.str (str "payload"), .dict e.payload), (.str (str "ledger_index"), .int e.ledgerIndex),
    (.str (str "prev_hash"), .str e.prevHash), (.str (str "entry_hash"), .str e.entryHash),
    (.str (str "timestamp"), .str e.timestamp)]

/-- `LedgerEntry(**d)`, of a line that a ledger has written. -/
def LedgerEntry.ofDict (d : Members P.Float) : Except LoadError (LedgerEntry P) := do
  let entryId ← textAt d (str "entry_id")
  let entryType ← textAt d (str "entry_type")
  let payload ← fieldAt d (str "payload") >>= itemsOf
  let ledgerIndex ← intAt d (str "ledger_index")
  let prevHash ← textAt d (str "prev_hash")
  let entryHash ← textAt d (str "entry_hash")
  let timestamp ← textAt d (str "timestamp")
  return { entryId, entryType, payload, ledgerIndex, prevHash, entryHash, timestamp }

/-- `d.pop(key)` -/
def pop (d : Members P.Float) (key : Str) : Members P.Float :=
  d.filter fun m => !m.1.is key

variable (P) in
/-- `_hmac_hash` -/
def hmacHash (key content : Bytes) : Str :=
  hmacSha256 P key content

variable (P) in
/-- The `_entries` and the `_prev_hash` of a ledger. -/
structure LineageLedger where
  entries : List (LedgerEntry P) := []
  prevHash : Str := str "GENESIS"

/-- The body of the loop of `_load`. -/
def loadLine (l : LineageLedger P) (line : Str) : Except LoadError (LineageLedger P) :=
  if strip line = [] then .ok l
  else
    match loads P (strip line) with
    | none => .error (.raised .jsonDecodeError)
    | some d => do
      let entry ← itemsOf d >>= LedgerEntry.ofDict
      return ⟨l.entries ++ [entry], entry.entryHash⟩

variable (P) in
/-- `_load`; a ledger that does not exist is empty. -/
def loadLedger (log : Bytes) : Except LoadError (LineageLedger P) := do
  let lines := readLines P log
  let l ← lines.1.foldlM loadLine {}
  if lines.2 then return l else .error (.raised .unicodeDecodeError)

/-! ### The graph in memory -/

variable (P) in
structure MutationDag where
  nodes : List (Str × LineageNode P) := []
  edges : List (Str × LineageEdge P) := []
  adj : List (Str × List Str) := []
  rev : List (Str × List Str) := []

/-- `d.setdefault(k, [])` -/
def setDefault (d : List (Str × List Str)) (k : Str) : List (Str × List Str) :=
  if k ∈ Assoc.keys d then d else d ++ [(k, [])]

/-- `d.setdefault(k, []).append(x)` -/
def push (d : List (Str × List Str)) (k x : Str) : List (Str × List Str) :=
  Assoc.set d k ((d.lookup k).getD [] ++ [x])

/-- The number of edges, in the lists of a mapping. -/
def edgeCount (d : List (Str × List Str)) : Nat :=
  (d.map fun m => m.2.length).sum

namespace MutationDag

variable (d : MutationDag P)

/-- `self._adj.get(n, [])` -/
def children (n : Str) : List Str :=
  (d.adj.lookup n).getD []

/-- `self._rev.get(n, [])` -/
def parents (n : Str) : List Str :=
  (d.rev.lookup n).getD []

def addNode (node : LineageNode P) : MutationDag P :=
  if node.nodeId ∈ Assoc.keys d.nodes then d
  else
    { d with
      nodes := d.nodes ++ [(node.nodeId, node)]
      adj := setDefault d.adj node.nodeId
      rev := setDefault d.rev node.nodeId }

/-- `_would_cycle`; the loop makes as many steps as there are edges, and one more, at most. -/
def wouldCycle (src tgt : Str) : Bool :=
  if src = tgt then true
  else (DepthFirst.reaches d.children src (1 + edgeCount d.adj) [] [tgt]).getD true

def addEdge (edge : LineageEdge P) : Except Error (MutationDag P) :=
  let src := edge.sourceNodeId
  let tgt := edge.targetNodeId
  if d.wouldCycle src tgt = true then
    .error (.cmlg .cycleDetected (str "CMLG-DAG-0: Adding edge " ++ src ++ str " → " ++ tgt ++
      str " would create a cycle."))
  else
    .ok { d with
      edges := Assoc.set d.edges edge.edgeId edge
      adj := push d.adj src tgt
      rev := push d.rev tgt src }

/-- `ancestors` -/
def ancestors (nodeId : Str) : List Str :=
  (DepthFirst.walk d.parents ((d.parents nodeId).length + edgeCount d.rev) []
    (d.parents nodeId).reverse).getD []

/-- There is such a node, and its gate is GENESIS. -/
def isGenesis (nodeId : Str) : Bool :=
  (d.nodes.lookup nodeId).any fun node => node.gate = .genesis

/-- `path_to_genesis` -/
def pathToGenesis (nodeId : Str) : List Str :=
  if nodeId ∉ Assoc.keys d.nodes then []
  else
    match BreadthFirst.shortest d.parents d.isGenesis (1 + edgeCount d.rev) [] [([], nodeId)] with
    | some (some path) => path
    | _ => [nodeId]

/-- `edges_for_node` -/
def edgesForNode (nodeId : Str) : List (LineageEdge P) :=
  (d.edges.map Prod.snd).filter fun e => e.sourceNodeId = nodeId ∨ e.targetNodeId = nodeId

end MutationDag

/-! ### The engine -/

variable (P) in
structure Engine where
  ledger : LineageLedger P := {}
  dag : MutationDag P := {}
  /-- `_genesis_id`; an identifier is not empty. -/
  genesisId : Option Str := none

/-- The body of the loop of `_rebuild_from_ledger`. -/
def rebuildEntry (s : MutationDag P × Option Str) (entry : LedgerEntry P) :
    Except LoadError (MutationDag P × Option Str) :=
  if entry.entryType = str "NODE" then do
    let node ← LineageNode.ofPayload entry.payload
    return (s.1.addNode node, if node.gate = .genesis then some node.nodeId else s.2)
  else if entry.entryType = str "EDGE" then do
    let edge ← LineageEdge.ofPayload entry.payload
    match s.1.addEdge edge with
    | .ok dag => return (dag, s.2)
    | .error _ => return s
  else .ok s

variable (P) in
/-- `__init__` with `_rebuild_from_ledger` -/
def create (log : Bytes) : Except LoadError (Engine P) := do
  let ledger ← loadLedger P log
  let s ← ledger.entries.foldlM rebuildEntry ({}, none)
  return ⟨ledger, s.1, s.2⟩

variable (P) in
/-- An engine and the file of its ledger. -/
structure State where
  log : Bytes
  engine : Engine P

/-- What a call gets from the runtime. -/
structure Env where
  /-- `str(uuid.uuid4())`: of the node or the edge, and of its entry. -/
  uuid4 : Nat → Str
  /-- The time of the node or the edge, and of its entry. -/
  isoNow : Nat → Str

/-- The entry that `_seal` makes, before it is hashed. -/
def draftEntry (env : Env) (l : LineageLedger P) (entryType : Str) (payload : Members P.Float) :
    LedgerEntry P :=
  { entryId := env.uuid4 1
    entryType := entryType
    payload := payload
    ledgerIndex := l.entries.length
    prevHash := l.prevHash
    entryHash := []
    timestamp := env.isoNow 1 }

/-- `_seal` -/
def sealEntry (key : Bytes) (env : Env) (s : State P) (entryType : Str) (payload : Members P.Float) :
    Except Error (State P) :=
  let l := s.engine.ledger
  let entry := draftEntry env l entryType payload
  match dumpsSortedAscii P .spaced (.dict (pop entry.toDict (str "entry_hash"))) with
  | none => .error .typeError
  | some text =>
    let entry := { entry with entryHash := hmacHash P key ((encode text).getD []) }
    .ok
      { log := appendRow P s.log entry.toDict
        engine := { s.engine with ledger := ⟨l.entries ++ [entry], entry.entryHash⟩ } }

variable (P) in
/-- What a call returns. -/
inductive Reply where
  | node (n : Option (LineageNode P))
  | edge (e : LineageEdge P)
  | purged (ghostNodeId sourceNodeId actor : Str)

/-- `_dag.add_node(node)` and `_ledger.append_node(node)` -/
def commitNode (key : Bytes) (env : Env) (s : State P) (node : LineageNode P) :
    Except Error Unit × State P :=
  let s := { s with engine := { s.engine with dag := s.engine.dag.addNode node } }
  match sealEntry key env s (str "NODE") node.toDict with
  | .error e => (.error e, s)
  | .ok s => (.ok (), s)

/-- `bootstrap_genesis` -/
def bootstrapGenesis (key : Bytes) (env : Env) (s : State P) (phase : Int) (version actor : Str) :
    Except Error (Reply P) × State P :=
  match s.engine.genesisId with
  | some genesisId => (.ok (.node (s.engine.dag.nodes.lookup genesisId)), s)
  | none =>
    let node : LineageNode P :=
      { nodeId := env.uuid4 0
        mutationId := str "GENESIS"
        phase := phase
        version := version
        gate := .genesis
        status := .active
        timestamp := env.isoNow 0
        actor := actor }
    match commitNode key env s node with
    | (.error e, s) => (.error e, s)
    | (.ok _, s) =>
      (.ok (.node (some node)),
        { s with engine := { s.engine with genesisId := some node.nodeId } })

/-- `_assert_anchor`; a gate is always there. -/
def assertAnchor (phase : Int) (version : Str) : Except Error Unit :=
  if phase = 0 ∨ version = [] then
    .error (.cmlg .anchorViolation
      (str "CMLG-ANCHOR-0: phase, version, and gate are required for every node."))
  else .ok ()

def IsHuman0 (identity : Str) : Prop :=
  identity = governor ∨ str "HUMAN-0" <:+: identity

instance (identity : Str) : Decidable (IsHuman0 identity) :=
  inferInstanceAs (Decidable (_ ∨ _))

/-- `_assert_human0` -/
def assertHuman0 (identity : Str) : Except Error Unit :=
  if ¬ IsHuman0 identity then
    .error (.cmlg .constitutionalViolation
      (str "CMLG-HUMAN0-0: Operation requires HUMAN-0. Got: '" ++ identity ++ str "'"))
  else .ok ()

/-- A node that is committed, and what the call then returns. -/
def returning (reply : Reply P) (r : Except Error Unit × State P) :
    Except Error (Reply P) × State P :=
  (r.1.map fun _ => reply, r.2)

/-- `add_node` -/
def addNode (key : Bytes) (env : Env) (s : State P) (mutationId : Str) (phase : Int) (version : Str)
    (gate : GateType) (actor : Str) (metadata : Members P.Float) :
    Except Error (Reply P) × State P :=
  match assertAnchor phase version with
  | .error e => (.error e, s)
  | .ok _ =>
    let node : LineageNode P :=
      { nodeId := env.uuid4 0
        mutationId := mutationId
        phase := phase
        version := version
        gate := gate
        status := .active
        timestamp := env.isoNow 0
        actor := actor
        metadata := metadata }
    returning (.node (some node)) (commitNode key env s node)

/-- `add_edge` -/
def addEdge (key : Bytes) (env : Env) (s : State P) (sourceNodeId targetNodeId : Str)
    (gateType : GateType) (edgeStatus : EdgeStatus) (actor : Str) (metadata : Members P.Float) :
    Except Error (Reply P) × State P :=
  let edge : LineageEdge P :=
    { edgeId := env.uuid4 0
      sourceNodeId := sourceNodeId
      targetNodeId := targetNodeId
      gateType := gateType
      edgeStatus := edgeStatus
      timestamp := env.isoNow 0
      actor := actor
      metadata := metadata }
  match s.engine.dag.addEdge edge with
  | .error e => (.error e, s)
  | .ok dag =>
    let s := { s with engine := { s.engine with dag := dag } }
    match sealEntry key env s (str "EDGE") edge.toDict with
    | .error e => (.error e, s)
    | .ok s => (.ok (.edge edge), s)

/-- `mark_rolled_back` -/
def markRolledBack (key : Bytes) (env : Env) (s : State P) (nodeId human0Identity : Str) :
    Except Error (Reply P) × State P :=
  match assertHuman0 human0Identity with
  | .error e => (.error e, s)
  | .ok _ =>
    match s.engine.dag.nodes.lookup nodeId with
    | none =>
      (.error (.cmlg .constitutionalViolation
        (str "CMLG-ROLLBACK-0: Node " ++ nodeId ++ str " not in graph.")), s)
    | some original =>
      let rollbackNode : LineageNode P :=
        { nodeId := env.uuid4 0
          mutationId := original.mutationId
          phase := original.phase
          version := original.version
          gate := .rollback
          status := .rolledBack
          timestamp := env.isoNow 0
          actor := human0Identity
          metadata := [(.str (str "rolled_back_node_id"), .str nodeId)] }
      returning (.node (some rollbackNode)) (commitNode key env s rollbackNode)

/-- `purge_ghost` -/
def purgeGhost (key : Bytes) (env : Env) (s : State P) (nodeId human0Identity : Str) :
    Except Error (Reply P) × State P :=
  match assertHuman0 human0Identity with
  | .error e => (.error e, s)
  | .ok _ =>
    match s.engine.dag.nodes.lookup nodeId with
    | none =>
      (.error (.cmlg .constitutionalViolation (str "Node " ++ nodeId ++ str " not found.")), s)
    | some node =>
      let edges := s.engine.dag.edgesForNode nodeId
      if edges ≠ [] then
        (.error (.cmlg .constitutionalViolation (str "CMLG-IMMUT-0: Cannot purge node " ++ nodeId ++
          str " — it has " ++ natText edges.length ++ str " edges.")), s)
      else
        let ghost : LineageNode P :=
          { nodeId := env.uuid4 0
            mutationId := node.mutationId
            phase := node.phase
            version := node.version
            gate := node.gate
            status := .ghost
            timestamp := env.isoNow 0
            actor := human0Identity
            metadata := [(.str (str "ghost_source_node_id"), .str nodeId)] }
        returning (.purged ghost.nodeId nodeId human0Identity) (commitNode key env s ghost)

/-! ### Runs -/

/-- What the calls get from their runtime. -/
structure Runtime where
  /-- `str(uuid.uuid4())`: the draws of the call of this number. -/
  uuid4 : Nat → Nat → Str
  uuid4_injective : ∀ {n m k l}, uuid4 n k = uuid4 m l → n = m ∧ k = l
  uuid4_ascii : ∀ n k, ∀ c ∈ uuid4 n k, c < 128
  /-- `time.strftime("%Y-%m-%dT%H:%M:%SZ", time.gmtime())` -/
  isoNow : Nat → Nat → Str
  isoNow_ascii : ∀ n k, ∀ c ∈ isoNow n k, c < 128

variable (P) in
/-- A call, with its arguments. -/
inductive Request where
  | bootstrapGenesis (phase : Int) (version actor : Str)
  | addNode (mutationId : Str) (phase : Int) (version : Str) (gate : GateType) (actor : Str)
    (metadata : Members P.Float)
  | addEdge (sourceNodeId targetNodeId : Str) (gateType : GateType) (edgeStatus : EdgeStatus)
    (actor : Str) (metadata : Members P.Float)
  | markRolledBack (nodeId human0Identity : Str)
  | purgeGhost (nodeId human0Identity : Str)

def Request.call (key : Bytes) (env : Env) (s : State P) :
    Request P → Except Error (Reply P) × State P
  | .bootstrapGenesis phase version actor =>
    MutationLineage.bootstrapGenesis key env s phase version actor
  | .addNode mutationId phase version gate actor metadata =>
    MutationLineage.addNode key env s mutationId phase version gate actor metadata
  | .addEdge sourceNodeId targetNodeId gateType edgeStatus actor metadata =>
    MutationLineage.addEdge key env s sourceNodeId targetNodeId gateType edgeStatus actor metadata
  | .markRolledBack nodeId human0Identity =>
    MutationLineage.markRolledBack key env s nodeId human0Identity
  | .purgeGhost nodeId human0Identity => MutationLineage.purgeGhost key env s nodeId human0Identity

variable (P) in
inductive Action where
  | call (request : Request P)
  /-- The engine is created again, on the same ledger. -/
  | recreate

variable (P) in
/-- The ledger and the engine; there is none where one could not be created. -/
structure World where
  log : Bytes := []
  engine : Option (Engine P) := some {}
  calls : Nat := 0

namespace World

variable (rt : Runtime) (key : Bytes) (w : World P)

def call (e : Engine P) (request : Request P) : World P :=
  let s := (request.call key ⟨rt.uuid4 w.calls, rt.isoNow w.calls⟩ ⟨w.log, e⟩).2
  ⟨s.log, some s.engine, w.calls + 1⟩

def step : Action P → World P
  | .call request =>
    match w.engine with
    | some e => w.call rt key e request
    | none => w
  | .recreate => { w with engine := (create P w.log).toOption }

end World

end Adaad.MutationLineage
