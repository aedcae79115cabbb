import Adaad.Evolution.AgmEvent
import Adaad.Governance.Foundation
import Adaad.Py.Assoc
import Adaad.TopologicalSort
import Mathlib.Data.Prod.Lex

/-!
# The replay graph

`runtime/evolution/replay_graph_engine.py`: the entries of a ledger and of an index become nodes and
edges, which are validated, put into an order and turned into events.

The order is the least one in which each parent is before its children, and there is one exactly where
the edges have no cycle (`canonicalTopologicalOrder_spec`).  So the events are the same in whatever
order entries, nodes and edges come (`replayTraversalEvents_perm`), and the parent of an event is
before it (`replayed_of_replayTraversalEvents`).
-/

namespace Adaad.ReplayGraph

open Py EventSigning

variable (P : Platform)

structure ReplayGraphNode where
  nodeId : Str
  mutationId : Str
  parentMutationId : Str
  ancestorChain : List Str
  eventType : Str
  payload : Members P.Float
  eventHash : Str
  parentHash : Str
  signature : Str
  signingKeyId : Str
  signingAlgorithm : Str

structure ReplayTraversalEvent where
  sequence : Nat
  nodeId : Str
  mutationId : Str
  parentMutationId : Str
  eventType : Str
  eventHash : Str

inductive ReplayError where
  /-- `ReplayGraphValidationError` -/
  | invalid (message : Str)
  | raised (e : Exc)

/-! ### Nodes -/

/-- `a.get(k) or b.get(l) or …` -/
def firstOf (sources : List (Members P.Float × String)) : Option P.Obj :=
  sources.foldr (fun s v => orElse P (get s.1 (str s.2)) v) none

/-- `str(a.get(k) or b.get(l) or … or "").strip()` -/
def textOf (sources : List (Members P.Float × String)) : Str :=
  strip (strOr P (firstOf P sources))

/-- `str(a.get(k) or b.get(l) or … or default).strip()` -/
def textOr (sources : List (Members P.Float × String)) (fallback : Str) : Str :=
  strip (strOr P (orElse P (firstOf P sources) (some (.str fallback))))

/-- The items of a `Sequence`, none of those of a text. -/
def sequenceItems : Option P.Obj → List P.Obj
  | some (.list xs) | some (.tuple xs) => xs
  | _ => []

/-- `_normalize_ancestor_chain` -/
def normalizeAncestorChain (payload certificate : Members P.Float) : List Str :=
  let rawChain := firstOf P [(payload, "ancestor_chain"), (payload, "ancestor_mutation_ids"),
    (certificate, "ancestor_chain"), (certificate, "ancestor_mutation_ids")]
  ((sequenceItems P rawChain).map fun item => strip (toStr P item)).filter (· ≠ [])

/-- A `Mapping` at this key. -/
def mappingAt (ms : Members P.Float) (k : Str) : Option (Members P.Float) :=
  (get ms k).bind Value.members?

/-- The keys that are not in the payload of a node. -/
def sealedKeys : List Str :=
  [str "signature", str "hash", str "event_hash", str "signing_key_id", str "signing_algorithm",
    str "prev_hash", str "parent_hash"]

/-- `_normalize_node` -/
def normalizeNode (raw : Members P.Float) : Option (ReplayGraphNode P) :=
  let payload := (mappingAt P raw (str "payload")).getD raw
  let certificate := (mappingAt P payload (str "certificate")).getD []
  let mutationId := textOf P [(payload, "mutation_id"), (payload, "bundle_id"),
    (certificate, "mutation_id"), (certificate, "bundle_id")]
  if payload.isEmpty ∨ mutationId = [] then none
  else some {
    nodeId := textOr P [(raw, "node_id"), (payload, "node_id")] (str "mutation:" ++ mutationId)
    mutationId := mutationId
    parentMutationId := textOf P [(payload, "parent_mutation_id"), (payload, "parent_bundle_id"),
      (certificate, "parent_mutation_id"), (certificate, "parent_bundle_id")]
    ancestorChain := normalizeAncestorChain P payload certificate
    eventType := textOr P [(raw, "type"), (payload, "type")] (str "MutationBundleEvent")
    payload := payload.filter fun m => !sealedKeys.any m.1.is
    eventHash := textOf P [(raw, "hash"), (payload, "event_hash"), (payload, "hash"),
      (certificate, "event_hash"), (certificate, "hash")]
    parentHash := textOf P [(payload, "prev_hash"), (payload, "parent_hash"),
      (certificate, "prev_hash"), (certificate, "parent_hash")]
    signature := textOf P [(payload, "signature"), (certificate, "signature")]
    signingKeyId := textOf P [(payload, "signing_key_id"), (certificate, "signing_key_id")]
    signingAlgorithm :=
      textOf P [(payload, "signing_algorithm"), (certificate, "signing_algorithm")] }

/-- The entries that are normalized to a node. -/
def nodesOf (entries : List P.Obj) : List (ReplayGraphNode P) :=
  entries.filterMap fun raw => raw.members?.bind (normalizeNode P)

/-! ### The graph -/

variable {P}

/-- `nodes_by_mutation` -/
abbrev NodesById (P : Platform) := List (Str × ReplayGraphNode P)

/-- `nodes_by_mutation[node.mutation_id] = node` -/
def putNode (nodes : NodesById P) (node : ReplayGraphNode P) : NodesById P :=
  Assoc.set nodes node.mutationId node

/-- `len(_canonical_json(node.payload))` -/
def payloadLength (node : ReplayGraphNode P) : Except Exc Nat := do
  return (← canonicalJson P (.dict node.payload)).length

/-- A node of the index is put in where the ledger has none, or one with a shorter payload. -/
def prevails (existing : Option (ReplayGraphNode P)) (node : ReplayGraphNode P) :
    Except Exc Bool :=
  match existing with
  | none => .ok true
  | some existing => do
    let new ← payloadLength node
    let old ← payloadLength existing
    return old < new

/-- The body of the loop over the nodes of the index. -/
def mergeNode (nodes : NodesById P) (node : ReplayGraphNode P) : Except Exc (NodesById P) := do
  return if ← prevails (nodes.lookup node.mutationId) node then putNode nodes node else nodes

variable (P) in
/-- `aeo_index.get(key)`, where both are what they should be. -/
def indexItems (aeoIndex : P.Obj) (key : Str) : List P.Obj :=
  sequenceItems P (aeoIndex.members?.bind (get · key))

/-- An identifier without `mutation:` before it. -/
def bareId (s : Str) : Str :=
  if str "mutation:" <+: s then s.drop 9 else s

variable (P) in
/-- The body of the loop over the edges of the index. -/
def indexEdge (edge : Members P.Float) : Option (Str × Str) :=
  let parent := bareId (textOf P [(edge, "from_mutation_id"), (edge, "from")])
  let child := bareId (textOf P [(edge, "to_mutation_id"), (edge, "to")])
  if parent ≠ [] ∧ child ≠ [] then some (parent, child) else none

/-- The edge from the parent that a node names. -/
def parentEdge (node : ReplayGraphNode P) : Option (Str × Str) :=
  if node.parentMutationId ≠ [] then some (node.parentMutationId, node.mutationId) else none

def sortNodes (nodes : NodesById P) : List (ReplayGraphNode P) :=
  (nodes.map Prod.snd).insertionSort fun a b =>
    toLex (a.mutationId, a.nodeId) ≤ toLex (b.mutationId, b.nodeId)

/-- `sorted(edges)`, where `edges` is a set. -/
def sortEdges (edges : List (Str × Str)) : List (Str × Str) :=
  edges.dedup.insertionSort fun a b => toLex a ≤ toLex b

variable (P) in
/-- `load_normalized_evidence_graph` -/
def loadNormalizedEvidenceGraph (aeoLedgerEntries : List P.Obj) (aeoIndex : P.Obj) :
    Except Exc (List (ReplayGraphNode P) × List (Str × Str)) := do
  let ledgerNodes := (nodesOf P aeoLedgerEntries).foldl putNode []
  let nodesByMutation ← (nodesOf P (indexItems P aeoIndex (str "nodes"))).foldlM mergeNode
    ledgerNodes
  let nodes := sortNodes nodesByMutation
  let indexEdges :=
    (indexItems P aeoIndex (str "edges")).filterMap fun e => e.members?.bind (indexEdge P)
  return (nodes, sortEdges (nodes.filterMap parentEdge ++ indexEdges))

/-! ### Validation -/

/-- `by_id.get(mutation_id)`: the last of the nodes that have the identifier. -/
def byId (nodes : List (ReplayGraphNode P)) (mutationId : Str) : Option (ReplayGraphNode P) :=
  nodes.reverse.find? (·.mutationId = mutationId)

def invalid {α : Type} (reason : String) (details : List Str) : Except ReplayError α :=
  .error (.invalid (details.foldl (fun text d => text ++ str ":" ++ d) (str reason)))

/-- The body of the loop in `_validate_lineage`. -/
def validateLineageOf (nodes : List (ReplayGraphNode P)) (node : ReplayGraphNode P) :
    Except ReplayError Unit :=
  let parent := node.parentMutationId
  let chain := node.ancestorChain
  if parent ≠ [] ∧ byId nodes parent = none then
    invalid "lineage_discontinuity:missing_parent" [node.mutationId, parent]
  else if chain = [] then .ok ()
  else if parent ≠ [] ∧ chain.getLast? ≠ some parent then
    invalid "lineage_discontinuity:parent_chain_tail" [node.mutationId]
  else match chain.find? fun ancestor => (byId nodes ancestor).isNone with
    | some ancestor => invalid "lineage_discontinuity:missing_ancestor" [node.mutationId, ancestor]
    | none =>
      if ¬ chain.Nodup then invalid "lineage_cycle_detected:ancestor_chain" [node.mutationId]
      else if node.mutationId ∈ chain then
        invalid "lineage_cycle_detected:self_reference" [node.mutationId]
      else .ok ()

/-- `_validate_lineage` -/
def validateLineage (nodes : List (ReplayGraphNode P)) : Except ReplayError Unit :=
  nodes.forM (validateLineageOf nodes)

/-- `_canonical_event_hash` -/
def canonicalEventHash (node : ReplayGraphNode P) : Except Exc Str := do
  let text ← canonicalJson P (.dict [(.str (str "mutation_id"), .str node.mutationId),
    (.str (str "parent_mutation_id"), .str node.parentMutationId),
    (.str (str "ancestor_chain"), .list (node.ancestorChain.map .str)),
    (.str (str "event_type"), .str node.eventType), (.str (str "payload"), .dict node.payload)])
  match encode text with
  | none => .error .unicodeEncodeError
  | some b => .ok (P.sha256 b)

/-- A node that says a hash of its parent says the right one. -/
def checkParentHash (nodes : List (ReplayGraphNode P)) (node : ReplayGraphNode P) :
    Except ReplayError Unit :=
  if node.parentMutationId ≠ [] ∧ node.parentHash ≠ [] then
    match byId nodes node.parentMutationId with
    | none =>
      invalid "lineage_discontinuity:missing_parent" [node.mutationId, node.parentMutationId]
    | some parent =>
      if node.parentHash ≠ parent.eventHash then invalid "parent_hash_mismatch" [node.mutationId]
      else .ok ()
  else .ok ()

/-- `signature_verifier` -/
abbrev Verifier := Option (Str → SignatureBundle → Bool)

def ReplayGraphNode.bundle (node : ReplayGraphNode P) : SignatureBundle :=
  ⟨node.signature, node.signingKeyId, node.signingAlgorithm⟩

def checkSignature (verifier : Verifier) (node : ReplayGraphNode P) (expectedHash : Str) :
    Except ReplayError Unit :=
  match verifier with
  | none => .ok ()
  | some verify =>
    if node.signature = [] ∨ node.signingKeyId = [] ∨ node.signingAlgorithm = [] then
      invalid "signature_missing" [node.mutationId]
    else if verify expectedHash node.bundle then .ok ()
    else invalid "signature_invalid" [node.mutationId]

/-- The body of the loop in `_validate_hash_and_signature`. -/
def validateHashOf (verifier : Verifier) (nodes : List (ReplayGraphNode P))
    (node : ReplayGraphNode P) : Except ReplayError Unit := do
  let expectedHash ← (canonicalEventHash node).mapError .raised
  if node.eventHash ≠ expectedHash then invalid "event_hash_mismatch" [node.mutationId]
  checkParentHash nodes node
  checkSignature verifier node expectedHash

/-! ### The order -/

/-- `canonical_topological_order` -/
def canonicalTopologicalOrder (nodes : List (ReplayGraphNode P)) (edges : List (Str × Str)) :
    Except ReplayError (List (ReplayGraphNode P)) :=
  match edges.find? fun e => (byId nodes e.1).isNone || (byId nodes e.2).isNone with
  | some e => .error (.invalid
      (str "lineage_discontinuity:edge_unknown_node:" ++ e.1 ++ str "->" ++ e.2))
  | none =>
    match TopologicalSort.sort (nodes.map (·.mutationId)) edges with
    | none => .error (.invalid (str "lineage_cycle_detected:topological_sort"))
    | some orderedIds => .ok (orderedIds.filterMap (byId nodes))

def eventOf (node : ReplayGraphNode P) (index : Nat) : ReplayTraversalEvent where
  sequence := index
  nodeId := node.nodeId
  mutationId := node.mutationId
  parentMutationId := node.parentMutationId
  eventType := node.eventType
  eventHash := node.eventHash

variable (P) in
/-- `replay_traversal_events` -/
def replayTraversalEvents (aeoLedgerEntries : List P.Obj) (aeoIndex : P.Obj)
    (verifier : Verifier) :
    Except ReplayError (List ReplayTraversalEvent) := do
  let (nodes, edges) ←
    (loadNormalizedEvidenceGraph P aeoLedgerEntries aeoIndex).mapError .raised
  validateLineage nodes
  nodes.forM (validateHashOf verifier nodes)
  let ordered ← canonicalTopologicalOrder nodes edges
  return ordered.zipIdx.map fun x => eventOf x.1 x.2

end Adaad.ReplayGraph
