import Adaad.Py.Assoc
import Adaad.Py.Json.Loads

/-!
# The lineage DAG

`runtime/evolution/lineage_dag.py`: the ancestry of agents and mutations.  The nodes are kept in
memory under their ids and in a file of one row for each addition and each promotion; a SHA-256
chain runs over the additions.

A file that does not exist is an empty one.  A row that this class does not write is answered with
`foreignRow` where what becomes of it depends on more than its keys.
-/

namespace Adaad.Evolution.LineageDag

open Py

/-- `MAX_GENERATION_DEPTH` -/
def maxGenerationDepth : Int := 20

inductive DagError where
  /-- `LineageDAGNodeError` -/
  | node (message : Str)
  /-- `LineageDAGIntegrityError` -/
  | integrity (message : Str)
  | overflowError
  /-- The file cannot be written, or `json.dumps` meets an object that has no JSON text. -/
  | writeFails
  | foreignRow
  | raised (e : Exc)
  deriving DecidableEq, Repr

variable (P : Platform)

/-- What callers pass where a `float` is asked for. -/
inductive Score where
  | float (x : P.Float)
  | int (i : Int)
  | bool (b : Bool)

def Score.value : Score P → P.Obj
  | .float x => .float x
  | .int i => .int i
  | .bool b => .bool b

structure LineageNode where
  nodeId : Str
  /-- `None` for a root. -/
  parentId : Option Str
  generation : Int
  agentOrigin : Str
  epochId : Str
  fitnessScore : Score P
  mutationType : Str
  humanApproved : Bool
  promoted : Bool
  createdAt : Str
  metadata : Members P.Float

namespace LineageNode

variable {P}

/-- `parent_id` as it is written. -/
def parentValue (n : LineageNode P) : P.Obj :=
  match n.parentId with
  | none => .none
  | some p => .str p

/-- `to_payload` -/
def toPayload (n : LineageNode P) : Members P.Float :=
  [(.str (str "node_id"), .str n.nodeId), (.str (str "parent_id"), n.parentValue),
    (.str (str "generation"), .int n.generation), (.str (str "agent_origin"), .str n.agentOrigin),
    (.str (str "epoch_id"), .str n.epochId), (.str (str "fitness_score"), n.fitnessScore.value),
    (.str (str "mutation_type"), .str n.mutationType),
    (.str (str "human_approved"), .bool n.humanApproved),
    (.str (str "promoted"), .bool n.promoted), (.str (str "created_at"), .str n.createdAt),
    (.str (str "metadata"), .dict n.metadata)]

/-- `core` -/
def core (n : LineageNode P) : Members P.Float :=
  [(.str (str "node_id"), .str n.nodeId), (.str (str "parent_id"), n.parentValue),
    (.str (str "generation"), .int n.generation), (.str (str "agent_origin"), .str n.agentOrigin),
    (.str (str "epoch_id"), .str n.epochId), (.str (str "fitness_score"), n.fitnessScore.value),
    (.str (str "mutation_type"), .str n.mutationType)]

/-- `digest_input`: the values of `core` are scalars, so only its own keys are there to be
sorted. -/
def digestInput (n : LineageNode P) : Str :=
  dumpsAscii P .compact (.dict (sortMembers P n.core))

/-- `LineageNode(**{**node.to_payload(), "created_at": now_iso()})` unless `created_at` is there. -/
def stamped (n : LineageNode P) (now : Str) : LineageNode P :=
  if n.createdAt = [] then { n with createdAt := now } else n

/-- `LineageNode(**{**node.to_payload(), "human_approved": True, "promoted": True})` -/
def approved (n : LineageNode P) : LineageNode P :=
  { n with
    humanApproved := true
    promoted := true }

end LineageNode

/-- What a `LineageDAG` holds in memory. -/
structure Dag where
  /-- `_nodes` -/
  nodes : List (Str × LineageNode P)
  chainDigest : Str

/-- The DAG and its file. -/
structure DagStore where
  dag : Dag P
  file : Bytes

/-- `"0" * 64` -/
def genesisDigest : Str := List.replicate 64 48

/-- `hashlib.sha256((prev + node.digest_input()).encode("utf-8")).hexdigest()`, of ASCII text. -/
def nextDigest (prev : Str) (n : LineageNode P) : Str :=
  P.sha256 ((encode (prev ++ n.digestInput)).getD [])

/-! ### Writing -/

variable {P}

/-- `expected_gen` -/
def expectedGeneration (nodes : List (Str × LineageNode P)) : Option Str → Option Int
  | none => some 0
  | some p => (nodes.lookup p).map (·.generation + 1)

/-- `_validate_node` -/
def validateNode (nodes : List (Str × LineageNode P)) (n : LineageNode P) : Except DagError Unit :=
  if n.nodeId ∈ Assoc.keys nodes then
    .error (.node (str "duplicate_node_id:" ++ n.nodeId))
  else
    match expectedGeneration nodes n.parentId with
    | none => .error (.node (str "parent_not_found:" ++ n.parentId.getD []))
    | some expected =>
      if n.generation ≠ expected then
        .error (.node (str "invalid_generation:" ++ intText n.generation ++ str " expected:" ++
          intText expected))
      else if n.generation > maxGenerationDepth then
        .error (.node (str "generation_exceeds_max:" ++ intText n.generation ++ str " max:" ++
          intText maxGenerationDepth))
      else if n.promoted ∧ ¬ n.humanApproved then
        .error (.node (str "promoted_without_approval:" ++ n.nodeId))
      else .ok ()

/-- `_append`; `fault` is that the write fails, before anything of the row is written. -/
def appendRow (file : Bytes) (record : Members P.Float) (fault : Bool) : Except DagError Bytes :=
  if fault then .error .writeFails
  else (appendSorted P file (.dict record)).mapError .raised

def additionRecord (n : LineageNode P) (digest : Str) : Members P.Float :=
  n.toPayload ++ [(.str (str "chain_digest"), .str digest)]

def promotionRecord (n : LineageNode P) (operatorId now digest : Str) : Members P.Float :=
  n.toPayload ++
    [(.str (str "event_type"), .str (str "promotion")), (.str (str "operator_id"), .str operatorId),
      (.str (str "promoted_at"), .str now), (.str (str "chain_digest"), .str digest)]

/-- `add_node`: the digest is set before the row is written, and stays set when that fails. -/
def addNode (w : DagStore P) (n : LineageNode P) (now : Str) (fault : Bool) :
    DagStore P × Except DagError Str :=
  match validateNode w.dag.nodes n with
  | .error e => (w, .error e)
  | .ok () =>
    let n := n.stamped now
    let digest := nextDigest P w.dag.chainDigest n
    match appendRow w.file (additionRecord n digest) fault with
    | .error e => ({ w with dag := { w.dag with chainDigest := digest } }, .error e)
    | .ok file =>
      ({ dag :=
          { nodes := Assoc.set w.dag.nodes n.nodeId n
            chainDigest := digest }
         file }, .ok digest)

/-- `promote_node` -/
def promoteNode (w : DagStore P) (nodeId operatorId now : Str) (fault : Bool) :
    DagStore P × Except DagError (LineageNode P) :=
  match w.dag.nodes.lookup nodeId with
  | none => (w, .error (.node (str "node_not_found:" ++ nodeId)))
  | some n =>
    match appendRow w.file (promotionRecord n.approved operatorId now w.dag.chainDigest) fault with
    | .error e => (w, .error e)
    | .ok file =>
      ({ dag := { w.dag with nodes := Assoc.set w.dag.nodes nodeId n.approved }
         file }, .ok n.approved)

/-! ### Reading -/

/-- `_read_raw` -/
def readRaw (P : Platform) (file : Bytes) : Except DagError (List P.Obj) :=
  (looseRows P file).mapError .raised

/-- `float(i)`; beyond the largest `float` it is an `OverflowError`. -/
def floatOfInt (i : Int) : Except DagError P.Float :=
  let x := P.floatOf (.lit (NumLit.ofInt i))
  if P.floatText x = .infinity ∨ P.floatText x = .negInfinity then .error .overflowError
  else .ok x

/-- `float(record.get("fitness_score", 0.0))`; `none` is a `TypeError`. -/
def fitnessOf (record : Members P.Float) : Except DagError (Option P.Float) :=
  match get record (str "fitness_score") with
  | none => (floatOfInt 0).map some
  | some (.float x) => .ok (some x)
  | some (.int i) => (floatOfInt i).map some
  | some (.bool b) => (floatOfInt (if b then 1 else 0)).map some
  | some (.str _) => .error .foreignRow
  | some _ => .ok none

/-- `record.get(key, default)` -/
def textOr (record : Members P.Float) (key default : Str) : Except DagError Str :=
  match get record key with
  | none => .ok default
  | some (.str s) => .ok s
  | some _ => .error .foreignRow

/-- `record.get("parent_id")` -/
def parentOf (record : Members P.Float) : Except DagError (Option Str) :=
  match get record (str "parent_id") with
  | none => .ok none
  | some .none => .ok none
  | some (.str p) => .ok (some p)
  | some _ => .error .foreignRow

/-- `bool(record.get(key, False))` -/
def flagOf (record : Members P.Float) (key : Str) : Bool :=
  ((get record key).map (truthy P)).getD false

/-- `dict(record.get("metadata") or {})` -/
def metadataOf (record : Members P.Float) : Except DagError (Members P.Float) :=
  match get record (str "metadata") with
  | none => .ok []
  | some (.dict kvs) => .ok kvs
  | some v => if truthy P v then .error .foreignRow else .ok []

/-- `_record_to_node` -/
def recordToNode (record : Members P.Float) : Except DagError (Option (LineageNode P)) :=
  match get record (str "node_id"), get record (str "generation") with
  | none, _ => .ok none
  | _, none => .ok none
  | some (.str nodeId), some (.int generation) => do
    let parentId ← parentOf record
    let agentOrigin ← textOr record (str "agent_origin") (str "unknown")
    let epochId ← textOr record (str "epoch_id") []
    let fitness ← fitnessOf record
    let mutationType ← textOr record (str "mutation_type") (str "unknown")
    let createdAt ← textOr record (str "created_at") []
    let metadata ← metadataOf record
    return fitness.map fun x =>
      { nodeId, parentId, generation, agentOrigin, epochId
        fitnessScore := .float x
        mutationType
        humanApproved := flagOf record (str "human_approved")
        promoted := flagOf record (str "promoted")
        createdAt, metadata }
  | _, _ => .error .foreignRow

/-- `record.get("event_type") == "promotion"` -/
def isPromotion (record : Members P.Float) : Bool :=
  match get record (str "event_type") with
  | some (.str s) => s = str "promotion"
  | _ => false

/-- The body of the loop of `integrity_check`: the digest after the row, `none` where the check
answers `False`. -/
def checkRow (digest : Str) : P.Obj → Except DagError (Option Str)
  | .dict record =>
    if isPromotion record then .ok (some digest)
    else do
      match ← recordToNode record with
      | none => return none
      | some n =>
        let next := nextDigest P digest n
        match get record (str "chain_digest") with
        | some (.str s) => return if s = next then some next else none
        | _ => return none
  | _ => .error (.raised .attributeError)

/-- The loop of `integrity_check`. -/
def checkRows : Str → List P.Obj → Except DagError Bool
  | _, [] => .ok true
  | digest, row :: rows => do
    match ← checkRow digest row with
    | none => return false
    | some next => checkRows next rows

/-- `integrity_check` -/
def integrityCheck (P : Platform) (file : Bytes) : Except DagError Bool := do
  checkRows genesisDigest (← readRaw P file)

/-- The body of the loop of `_load`. -/
def loadRow (d : Dag P) : P.Obj → Except DagError (Dag P)
  | .dict record =>
    if isPromotion record then
      match get record (str "node_id") with
      | none => .ok d
      | some (.str nodeId) =>
        if nodeId = [] then .ok d
        else
          match d.nodes.lookup nodeId with
          | none => .ok d
          | some existing => .ok { d with nodes := Assoc.set d.nodes nodeId existing.approved }
      | some _ => .error .foreignRow
    else do
      match ← recordToNode record with
      | none => return d
      | some n =>
        return {
          nodes := Assoc.set d.nodes n.nodeId n
          chainDigest := nextDigest P d.chainDigest n }
  | _ => .error (.raised .attributeError)

variable (P) in
def Dag.empty : Dag P where
  nodes := []
  chainDigest := genesisDigest

/-- `_load` -/
def load (P : Platform) (file : Bytes) : Except DagError (Dag P) := do
  (← readRaw P file).foldlM loadRow (Dag.empty P)

/-! ### Traversals -/

/-- The loop of `get_lineage_chain`; it may take `fuel` steps. -/
def climb (nodes : List (Str × LineageNode P)) :
    Nat → LineageNode P → List (LineageNode P) → List Str →
      Option (Except DagError (List (LineageNode P)))
  | 0, _, _, _ => none
  | fuel + 1, current, chain, visited =>
    match current.parentId with
    | none => some (.ok chain.reverse)
    | some p =>
      if p ∈ visited then some (.error (.integrity (str "cycle_detected:" ++ p)))
      else
        match nodes.lookup p with
        | none => some (.error (.node (str "parent_not_found:" ++ p)))
        | some parent => climb nodes fuel parent (chain ++ [parent]) (p :: visited)

/-- `get_lineage_chain` -/
def getLineageChain (nodes : List (Str × LineageNode P)) (fuel : Nat) (nodeId : Str) :
    Option (Except DagError (List (LineageNode P))) :=
  match nodes.lookup nodeId with
  | none => some (.error (.node (str "node_not_found:" ++ nodeId)))
  | some n => climb nodes fuel n [n] [nodeId]

/-- `get_children` -/
def getChildren (nodes : List (Str × LineageNode P)) (nodeId : Str) : List (LineageNode P) :=
  (nodes.map Prod.snd).filter fun n => n.parentId = some nodeId

/-- The loop of `_collect_subtree`, which may take `fuel` steps; the end of `stack` comes first. -/
def collect (nodes : List (Str × LineageNode P)) :
    Nat → List Str → List (LineageNode P) → Option (List (LineageNode P))
  | _, [], result => some result
  | 0, _ :: _, _ => none
  | fuel + 1, nid :: stack, result =>
    match nodes.lookup nid with
    | none => collect nodes fuel stack result
    | some n =>
      collect nodes fuel (((getChildren nodes nid).map (·.nodeId)).reverse ++ stack) (result ++ [n])

/-- `_collect_subtree` -/
def collectSubtree (nodes : List (Str × LineageNode P)) (fuel : Nat) (nodeId : Str) :
    Option (List (LineageNode P)) :=
  collect nodes fuel [nodeId] []

/-- `self._nodes.get(current)`, and `node.parent_id if node else None`. -/
def above (nodes : List (Str × LineageNode P)) (current : Str) : Option Str :=
  (nodes.lookup current).bind (·.parentId)

/-- The first loop of `_find_common_ancestor`, which fills `ancestors_a`; `while current` ends at an
empty id as well.  It may take `fuel` steps. -/
def collectAncestors (nodes : List (Str × LineageNode P)) :
    Nat → Option Str → List Str → Option (List Str)
  | 0, _, _ => none
  | _ + 1, none, ancestors => some ancestors
  | fuel + 1, some current, ancestors =>
    if current = [] then some ancestors
    else collectAncestors nodes fuel (above nodes current) (current :: ancestors)

/-- The second loop of `_find_common_ancestor`. -/
def firstCommon (nodes : List (Str × LineageNode P)) (ancestors : List Str) :
    Nat → Option Str → Option (Option Str)
  | 0, _ => none
  | _ + 1, none => some none
  | fuel + 1, some current =>
    if current = [] then some none
    else if current ∈ ancestors then some (some current)
    else firstCommon nodes ancestors fuel (above nodes current)

/-- `_find_common_ancestor` -/
def findCommonAncestor (nodes : List (Str × LineageNode P)) (fuel : Nat) (idA idB : Str) :
    Option (Option Str) :=
  (collectAncestors nodes fuel (some idA) []).bind fun ancestors =>
    firstCommon nodes ancestors fuel (some idB)

/-! ### Runs -/

variable (P) in
/-- A call, with the time and whether the write fails. -/
inductive DagCall where
  | addNode (node : LineageNode P) (wf : (Value.dict node.metadata).WF) (now : Str) (fault : Bool)
  | promoteNode (nodeId operatorId now : Str) (fault : Bool)
  /-- `LineageDAG(dag_path)` on the same file. -/
  | reopen

/-- The store after a call, and the exception it raises if any. -/
def DagStore.call (w : DagStore P) : DagCall P → DagStore P × Option DagError
  | .addNode node _ now fault =>
    match LineageDag.addNode w node now fault with
    | (w', .ok _) => (w', none)
    | (w', .error e) => (w', some e)
  | .promoteNode nodeId operatorId now fault =>
    match LineageDag.promoteNode w nodeId operatorId now fault with
    | (w', .ok _) => (w', none)
    | (w', .error e) => (w', some e)
  | .reopen =>
    match load P w.file with
    | .ok dag => ({ w with dag }, none)
    | .error e => (w, some e)

def DagStore.step (w : DagStore P) (c : DagCall P) : DagStore P :=
  (w.call c).1

variable (P) in
def DagStore.fresh : DagStore P where
  dag := Dag.empty P
  file := []

end Adaad.Evolution.LineageDag
