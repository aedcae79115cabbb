import Adaad.Dorkllm.Equiv.LineageGraph
import Adaad.Py.Reference
import Adaad.Run
import Mathlib.Data.Nat.Pairing

/-!
# Runs of the mutation lineage graph

A GENESIS node that `add_node` commits is the genesis node of the next engine on the ledger, but not
of this one (`World.not_always_lawful_lineage`); the ancestors of a node are listed in the order of a
walk, which need not be one of the graph; and there may be a way to GENESIS from an identifier of no
node.  In a run without these, and with texts that stay, every state is as it should be
(`World.lawful_lineage_of_steady`).
-/

namespace Adaad.MutationLineage

open Py Run DepthFirst MutationDag

variable {P : Platform}

/-! ### What runs should keep -/

/-- An engine, on a ledger, is as it should be. -/
structure Engine.Lawful (log : Bytes) (e : Engine P) : Prop where
  acyclic : ∀ n, ¬ Relation.TransGen e.dag.IsParent n n
  /-- A new engine has the same nodes, edges and genesis node. -/
  recreated : ∃ e', create P log = .ok e' ∧ e'.dag.nodes = e.dag.nodes ∧
    e'.dag.edges = e.dag.edges ∧ e'.genesisId = e.genesisId
  /-- Every proper ancestor is listed exactly once. -/
  nodup : ∀ n, (e.dag.ancestors n).Nodup
  mem_ancestors : ∀ n a, a ∈ e.dag.ancestors n ↔ e.dag.IsAncestor a n
  inOrder : ∀ n, e.dag.InOrder (e.dag.ancestors n)
  path : ∀ n, (∃ path, e.dag.GenesisPath n path) → e.dag.ShortestPath n (e.dag.pathToGenesis n)

/-- There is an engine, and it is as it should be. -/
def Lawful (w : World P) : Prop :=
  ∃ e, w.engine = some e ∧ e.Lawful w.log

/-- The texts that the call records are read as they are; no GENESIS node is added or purged; an edge
that is added leaves the ancestors of every node in order, and no way to GENESIS from an identifier of
no node. -/
def Request.Steady (fresh : Str) (e : Engine P) : Request P → Prop
  | .bootstrapGenesis _ version actor =>
    e.genesisId = none → readAscii version = version ∧ readAscii actor = actor ∧
      ∀ n ∉ Assoc.keys e.dag.nodes, Reach e.dag.parents n fresh → n = fresh
  | .addNode mutationId phase version gate actor metadata =>
    phase ≠ 0 → version ≠ [] → gate ≠ .genesis ∧ readAscii mutationId = mutationId ∧
      readAscii version = version ∧ readAscii actor = actor ∧
      (Value.dict metadata : P.Obj).Stays
  | .addEdge sourceNodeId targetNodeId _ _ actor metadata =>
    ¬ Reach e.dag.parents sourceNodeId targetNodeId →
      readAscii sourceNodeId = sourceNodeId ∧ readAscii targetNodeId = targetNodeId ∧
      readAscii actor = actor ∧ (Value.dict metadata : P.Obj).Stays ∧
      (∀ n, Ordered (e.dag.parentsWith sourceNodeId targetNodeId) n) ∧
      ∀ n ∉ Assoc.keys e.dag.nodes, ∀ g,
        Reach (e.dag.parentsWith sourceNodeId targetNodeId) n g → e.dag.isGenesis g = false
  | .markRolledBack nodeId human0Identity =>
    IsHuman0 human0Identity → nodeId ∈ Assoc.keys e.dag.nodes →
      readAscii human0Identity = human0Identity
  | .purgeGhost nodeId human0Identity =>
    IsHuman0 human0Identity → nodeId ∈ Assoc.keys e.dag.nodes → e.dag.edgesForNode nodeId = [] →
      e.dag.isGenesis nodeId = false ∧ readAscii human0Identity = human0Identity

def World.Steady (rt : Runtime) (w : World P) : Action P → Prop
  | .recreate => True
  | .call request => ∀ e, w.engine = some e → request.Steady (rt.uuid4 w.calls 0) e

/-! ### What steady calls keep -/

def Runtime.env (rt : Runtime) (n : Nat) : Env :=
  ⟨rt.uuid4 n, rt.isoNow n⟩

/-- The identifiers were drawn by earlier calls. -/
def Drawn (rt : Runtime) (n : Nat) (ids : List Str) : Prop :=
  ∀ id ∈ ids, ∃ k < n, id = rt.uuid4 k 0

/-- An engine and its ledger before the call of this number. -/
structure Kept (rt : Runtime) (n : Nat) (s : State P) : Prop where
  filed : Filed s.log s.engine.ledger
  rebuilt : s.engine.ledger.entries.foldlM rebuildEntry ({}, none) =
    .ok (s.engine.dag, s.engine.genesisId)
  sound : s.engine.dag.Sound
  nodes : ∀ m ∈ s.engine.dag.nodes, m.2.nodeId = m.1 ∧ m.2.Stays
  drawnNodes : Drawn rt n (Assoc.keys s.engine.dag.nodes)
  drawnEdges : Drawn rt n (Assoc.keys s.engine.dag.edges)
  genesis : s.engine.genesisId = none → ∀ g, s.engine.dag.isGenesis g = false
  ordered : ∀ v, Ordered s.engine.dag.parents v
  /-- There is no way to GENESIS from an identifier of no node. -/
  traced : ∀ v ∉ Assoc.keys s.engine.dag.nodes, ∀ g, Reach s.engine.dag.parents v g →
    s.engine.dag.isGenesis g = false

variable {rt : Runtime} {key : Bytes} {n : Nat} {s : State P}

theorem Runtime.ascii_env (rt : Runtime) (n : Nat) : (rt.env n).Ascii :=
  ⟨rt.uuid4_ascii n, rt.isoNow_ascii n⟩

theorem Drawn.mono {ids : List Str} (h : Drawn rt n ids) : Drawn rt (n + 1) ids := by
  intro id hid
  obtain ⟨k, hk, rfl⟩ := h id hid
  exact ⟨k, Nat.lt_succ_of_lt hk, rfl⟩

theorem Drawn.fresh {ids : List Str} (h : Drawn rt n ids) : rt.uuid4 n 0 ∉ ids := by
  intro hmem
  obtain ⟨k, hk, heq⟩ := h _ hmem
  exact absurd (rt.uuid4_injective heq).1 (Nat.ne_of_gt hk)

theorem Drawn.append {ids : List Str} (h : Drawn rt n ids) :
    Drawn rt (n + 1) (ids ++ [rt.uuid4 n 0]) :=
  List.forall_mem_append.mpr
    ⟨h.mono, List.forall_mem_singleton.mpr ⟨n, Nat.lt_succ_self n, rfl⟩⟩

theorem kept_new : Kept rt n (⟨[], {}⟩ : State P) where
  filed := filed_new
  rebuilt := rfl
  sound := sound_empty
  nodes := List.forall_mem_nil _
  drawnNodes := List.forall_mem_nil _
  drawnEdges := List.forall_mem_nil _
  genesis _ _ := rfl
  ordered _ := .inr trivial
  traced _ _ _ _ := rfl

theorem ordered_of_length_le_one {next : Str → List Str} (h : ∀ v, (next v).length ≤ 1) (v : Str) :
    Ordered next v := by
  refine .inl fun u _ => ?_
  cases hu : next u with
  | nil => trivial
  | cons a l =>
    have hlength := h u
    rw [hu, List.length_cons] at hlength
    obtain rfl : l = [] := List.eq_nil_of_length_eq_zero (by omega)
    exact ⟨.inr fun _ _ => Set.notMem_empty _, trivial⟩

namespace Kept

variable (h : Kept rt n s)
include h

theorem create_eq : create P s.log = .ok s.engine := by
  unfold create
  rw [h.filed.loadLedger_eq]
  dsimp only [bind, Except.bind]
  rw [h.rebuilt]
  rfl

theorem lawful : s.engine.Lawful s.log where
  acyclic v hv := by
    refine h.sound.acyclic v ?_
    rw [h.sound.edge_eq, Relation.transGen_swap]
    exact hv
  recreated := ⟨s.engine, h.create_eq, rfl, rfl, rfl⟩
  nodup v := (h.sound.exists_ancestors v).2.1
  mem_ancestors v := (h.sound.exists_ancestors v).2.2
  inOrder v := h.sound.inOrder_ancestors (h.ordered v)
  path v := by
    rintro ⟨path, hpath⟩
    by_cases hv : v ∈ Assoc.keys s.engine.dag.nodes
    · exact h.sound.shortest_pathToGenesis hv hpath
    · obtain ⟨g, hreach, hg⟩ := h.sound.exists_reach hpath
      rw [h.traced v hv g hreach] at hg
      cases hg

theorem unchanged : Kept rt (n + 1) s :=
  { h with
    drawnNodes := h.drawnNodes.mono
    drawnEdges := h.drawnEdges.mono }

end Kept

/-! ### Nodes -/

/-- The state after a node is committed, with this genesis node. -/
def State.withNode (s : State P) (key : Bytes) (env : Env) (node : LineageNode P)
    (genesisId : Option Str) : State P :=
  let entry := sealed key env s.engine.ledger (str "NODE") node.toDict
  { log := appendRow P s.log entry.toDict
    engine :=
      { ledger := ⟨s.engine.ledger.entries ++ [entry], entry.entryHash⟩
        dag := s.engine.dag.addNode node
        genesisId := genesisId } }

theorem ascii_node : ∀ c ∈ str "NODE", c < 128 := by
  decide

theorem ascii_edge : ∀ c ∈ str "EDGE", c < 128 := by
  decide

theorem Filed.commitNode_eq {env : Env} {node : LineageNode P} (h : Filed s.log s.engine.ledger)
    (henv : env.Ascii) (hnode : node.Stays) :
    commitNode key env s node = (.ok (), s.withNode key env node s.engine.genesisId) := by
  let s' : State P := ⟨s.log, { s.engine with dag := s.engine.dag.addNode node }⟩
  have hseal := @Filed.sealEntry_eq P key env s' (str "NODE") node.toDict h henv ascii_node
    hnode.toDict
  unfold commitNode
  dsimp only
  rw [show sealEntry key env _ (str "NODE") _ = _ from hseal]
  rfl

theorem rebuildEntry_node (g : MutationDag P × Option Str) (env : Env) (l : LineageLedger P)
    (node : LineageNode P) :
    rebuildEntry g (sealed key env l (str "NODE") node.toDict) =
      .ok (g.1.addNode node, if node.gate = .genesis then some node.nodeId else g.2) := by
  unfold rebuildEntry
  rw [if_pos (show (sealed key env l (str "NODE") node.toDict).entryType = str "NODE" from rfl)]
  show LineageNode.ofPayload node.toDict >>= _ = _
  rw [LineageNode.ofPayload_toDict]
  rfl

theorem isGenesis_addNode {d : MutationDag P} {node : LineageNode P}
    (h : node.nodeId ∉ Assoc.keys d.nodes) (g : Str) :
    (d.addNode node).isGenesis g =
      if g = node.nodeId then decide (node.gate = .genesis) else d.isGenesis g := by
  unfold MutationDag.isGenesis
  rw [nodes_addNode h, ← Assoc.set_of_notMem h, Assoc.lookup_set]
  split_ifs <;> rfl

theorem Kept.withNode {node : LineageNode P} (h : Kept rt n s) (hid : node.nodeId = rt.uuid4 n 0)
    (hnode : node.Stays)
    (hgenesis : node.gate = .genesis → ∀ v ∉ Assoc.keys s.engine.dag.nodes,
      Reach s.engine.dag.parents v node.nodeId → v = node.nodeId) :
    Kept rt (n + 1) (s.withNode key (rt.env n) node
      (if node.gate = .genesis then some node.nodeId else s.engine.genesisId)) := by
  have hfresh : node.nodeId ∉ Assoc.keys s.engine.dag.nodes := hid ▸ h.drawnNodes.fresh
  have hnodes := nodes_addNode hfresh
  have hkeys : Assoc.keys (s.engine.dag.addNode node).nodes =
      Assoc.keys s.engine.dag.nodes ++ [rt.uuid4 n 0] := by
    rw [hnodes, ← hid, Assoc.keys, List.map_append]
    rfl
  have hparents := parents_addNode s.engine.dag node
  refine ⟨?_, ?_, h.sound.addNode node, ?_, ?_, ?_, fun hnone g => ?_, ?_, fun v hv g hreach => ?_⟩
  · exact h.filed.append (h.filed.stays_sealed (rt.ascii_env n) ascii_node hnode.toDict)
  · show (s.engine.ledger.entries ++ [_]).foldlM rebuildEntry _ = _
    rw [List.foldlM_append, h.rebuilt]
    dsimp only [bind, Except.bind]
    rw [List.foldlM_cons, rebuildEntry_node]
    rfl
  · show ∀ m ∈ (s.engine.dag.addNode node).nodes, m.2.nodeId = m.1 ∧ m.2.Stays
    rw [hnodes]
    exact List.forall_mem_append.mpr ⟨h.nodes, List.forall_mem_singleton.mpr ⟨rfl, hnode⟩⟩
  · show Drawn rt (n + 1) (Assoc.keys (s.engine.dag.addNode node).nodes)
    rw [hkeys]
    exact h.drawnNodes.append
  · show Drawn rt (n + 1) (Assoc.keys (s.engine.dag.addNode node).edges)
    rw [edges_addNode]
    exact h.drawnEdges.mono
  · have hgate : node.gate ≠ .genesis := by
      intro hgate
      cases (if_pos hgate).symm.trans hnone
    have hold : s.engine.genesisId = none := (if_neg hgate).symm.trans hnone
    show (s.engine.dag.addNode node).isGenesis g = false
    rw [isGenesis_addNode hfresh, h.genesis hold g, decide_eq_false hgate]
    split_ifs <;> rfl
  · show ∀ v, Ordered (s.engine.dag.addNode node).parents v
    rw [hparents]
    exact h.ordered
  · have hv : v ∉ Assoc.keys s.engine.dag.nodes ∧ v ≠ node.nodeId := by
      have hnot : v ∉ Assoc.keys (s.engine.dag.addNode node).nodes := hv
      rw [hkeys, List.mem_append, List.mem_singleton, not_or, ← hid] at hnot
      exact hnot
    have hreach : Reach s.engine.dag.parents v g := hparents ▸ hreach
    show (s.engine.dag.addNode node).isGenesis g = false
    rw [isGenesis_addNode hfresh]
    by_cases hg : g = node.nodeId
    · rw [if_pos hg]
      refine decide_eq_false fun hgate => hv.2 (hgenesis hgate v hv.1 ?_)
      exact hg ▸ hreach
    · rw [if_neg hg]
      exact h.traced v hv.1 g hreach

theorem Kept.commitNode {node : LineageNode P} (h : Kept rt n s) (hid : node.nodeId = rt.uuid4 n 0)
    (hnode : node.Stays) (hgate : node.gate ≠ .genesis) :
    Kept rt (n + 1) (commitNode key (rt.env n) s node).2 := by
  have hkept := @Kept.withNode P rt key n s node h hid hnode fun hg => absurd hg hgate
  rw [if_neg hgate] at hkept
  rw [h.filed.commitNode_eq (rt.ascii_env n) hnode]
  exact hkept

/-! ### Edges -/

theorem rebuildEntry_edge {d d' : MutationDag P} {edge : LineageEdge P} (env : Env)
    (l : LineageLedger P) (genesisId : Option Str) (hedge : d.addEdge edge = .ok d') :
    rebuildEntry (d, genesisId) (sealed key env l (str "EDGE") edge.toDict) =
      .ok (d', genesisId) := by
  unfold rebuildEntry
  have htype : (sealed key env l (str "EDGE") edge.toDict).entryType = str "EDGE" := rfl
  rw [htype, if_neg (by decide), if_pos rfl]
  show LineageEdge.ofPayload edge.toDict >>= _ = _
  rw [LineageEdge.ofPayload_toDict]
  dsimp only [bind, Except.bind]
  rw [hedge]
  rfl

theorem Kept.commitEdge {edge : LineageEdge P} (h : Kept rt n s) (hid : edge.edgeId = rt.uuid4 n 0)
    (hedge : edge.Stays)
    (hadd : s.engine.dag.addEdge edge = .ok (s.engine.dag.withEdge edge))
    (hcycle : ¬ Reach s.engine.dag.parents edge.sourceNodeId edge.targetNodeId)
    (hordered : ∀ v, Ordered (s.engine.dag.parentsWith edge.sourceNodeId edge.targetNodeId) v)
    (htraced : ∀ v ∉ Assoc.keys s.engine.dag.nodes, ∀ g,
      Reach (s.engine.dag.parentsWith edge.sourceNodeId edge.targetNodeId) v g →
        s.engine.dag.isGenesis g = false) :
    Kept rt (n + 1)
      { log := appendRow P s.log
          (sealed key (rt.env n) s.engine.ledger (str "EDGE") edge.toDict).toDict
        engine :=
          { ledger := ⟨s.engine.ledger.entries ++
                [sealed key (rt.env n) s.engine.ledger (str "EDGE") edge.toDict],
              (sealed key (rt.env n) s.engine.ledger (str "EDGE") edge.toDict).entryHash⟩
            dag := s.engine.dag.withEdge edge
            genesisId := s.engine.genesisId } } := by
  have hfresh : edge.edgeId ∉ Assoc.keys s.engine.dag.edges := hid ▸ h.drawnEdges.fresh
  have hparents := parents_withEdge s.engine.dag edge
  refine ⟨?_, ?_, h.sound.withEdge hfresh hcycle, h.nodes, h.drawnNodes.mono, ?_, h.genesis, ?_, ?_⟩
  · exact h.filed.append (h.filed.stays_sealed (rt.ascii_env n) ascii_edge hedge.toDict)
  · show (s.engine.ledger.entries ++ [_]).foldlM rebuildEntry _ = _
    rw [List.foldlM_append, h.rebuilt]
    dsimp only [bind, Except.bind]
    rw [List.foldlM_cons, rebuildEntry_edge (rt.env n) s.engine.ledger s.engine.genesisId hadd]
    rfl
  · show Drawn rt (n + 1) (Assoc.keys (Assoc.set s.engine.dag.edges edge.edgeId edge))
    rw [Assoc.set_of_notMem hfresh, Assoc.keys, List.map_append, List.map_singleton, hid]
    exact h.drawnEdges.append
  · show ∀ v, Ordered (s.engine.dag.withEdge edge).parents v
    rw [hparents]
    exact hordered
  · show ∀ v ∉ Assoc.keys s.engine.dag.nodes, ∀ g, Reach (s.engine.dag.withEdge edge).parents v g →
      s.engine.dag.isGenesis g = false
    rw [hparents]
    exact htraced

/-! ### Calls -/

theorem isHuman0_of_ok {identity : Str} {u : Unit} (h : assertHuman0 identity = .ok u) :
    IsHuman0 identity := by
  unfold assertHuman0 at h
  by_cases hidentity : IsHuman0 identity
  · exact hidentity
  · rw [if_pos hidentity] at h
    cases h

theorem anchored_of_ok {phase : Int} {version : Str} {u : Unit}
    (h : assertAnchor phase version = .ok u) : phase ≠ 0 ∧ version ≠ [] := by
  unfold assertAnchor at h
  by_cases hanchor : phase = 0 ∨ version = []
  · rw [if_pos hanchor] at h
    cases h
  · exact not_or.mp hanchor

namespace Kept

variable (h : Kept rt n s)
include h

theorem bootstrapGenesis {phase : Int} {version actor : Str}
    (hsteady : (Request.bootstrapGenesis phase version actor : Request P).Steady (rt.uuid4 n 0)
      s.engine) :
    Kept rt (n + 1) (bootstrapGenesis key (rt.env n) s phase version actor).2 := by
  unfold MutationLineage.bootstrapGenesis
  cases hgenesis : s.engine.genesisId with
  | some genesisId => exact h.unchanged
  | none =>
    obtain ⟨hversion, hactor, htraced⟩ := hsteady hgenesis
    dsimp only
    have hascii : ∀ c ∈ str "GENESIS", c < 128 := by decide
    let node : LineageNode P := ⟨(rt.env n).uuid4 0, str "GENESIS", phase, version, .genesis,
      .active, (rt.env n).isoNow 0, actor, []⟩
    have hnode : node.Stays := ⟨readAscii_of_ascii (rt.uuid4_ascii n 0),
      readAscii_of_ascii hascii, hversion, readAscii_of_ascii (rt.isoNow_ascii n 0), hactor,
      ⟨trivial, ⟨List.nodup_nil, trivial⟩, rfl⟩⟩
    have hcommit : MutationLineage.commitNode key (rt.env n) s ⟨(rt.env n).uuid4 0, str "GENESIS",
        phase, version, .genesis, .active, (rt.env n).isoNow 0, actor, []⟩ =
        (.ok (), s.withNode key (rt.env n) node s.engine.genesisId) :=
      h.filed.commitNode_eq (rt.ascii_env n) hnode
    have hkept := @Kept.withNode P rt key n s node h rfl hnode fun _ v hv hreach =>
      htraced v hv hreach
    rw [if_pos rfl] at hkept
    rw [hcommit]
    exact hkept

theorem addNode {mutationId : Str} {phase : Int} {version : Str} {gate : GateType} {actor : Str}
    {metadata : Members P.Float}
    (hsteady : (Request.addNode mutationId phase version gate actor metadata).Steady (rt.uuid4 n 0)
      s.engine) :
    Kept rt (n + 1)
      (addNode key (rt.env n) s mutationId phase version gate actor metadata).2 := by
  unfold MutationLineage.addNode
  cases hanchor : assertAnchor phase version with
  | error e => exact h.unchanged
  | ok u =>
    obtain ⟨hphase, hversion⟩ := anchored_of_ok hanchor
    obtain ⟨hgate, hmutation, hversion, hactor, hmetadata⟩ := hsteady hphase hversion
    exact h.commitNode rfl ⟨readAscii_of_ascii (rt.uuid4_ascii n 0), hmutation, hversion,
      readAscii_of_ascii (rt.isoNow_ascii n 0), hactor, hmetadata⟩ hgate

theorem addEdge {sourceNodeId targetNodeId : Str} {gateType : GateType} {edgeStatus : EdgeStatus}
    {actor : Str} {metadata : Members P.Float}
    (hsteady : (Request.addEdge sourceNodeId targetNodeId gateType edgeStatus actor
      metadata).Steady (rt.uuid4 n 0) s.engine) :
    Kept rt (n + 1) (addEdge key (rt.env n) s sourceNodeId targetNodeId gateType edgeStatus actor
      metadata).2 := by
  unfold MutationLineage.addEdge
  dsimp only
  generalize hmade : (⟨(rt.env n).uuid4 0, sourceNodeId, targetNodeId, gateType, edgeStatus,
    (rt.env n).isoNow 0, actor, metadata⟩ : LineageEdge P) = edge
  rcases h.sound.addEdge_eq edge with ⟨hadd, hcycle⟩ | ⟨⟨e, hadd⟩, -⟩
  · have hcycle' : ¬ Reach s.engine.dag.parents sourceNodeId targetNodeId := by
      rw [← hmade] at hcycle
      exact hcycle
    obtain ⟨hsource, htarget, hactor, hmetadata, hordered, htraced⟩ := hsteady hcycle'
    have hedge : edge.Stays := by
      rw [← hmade]
      exact ⟨readAscii_of_ascii (rt.uuid4_ascii n 0), hsource, htarget,
        readAscii_of_ascii (rt.isoNow_ascii n 0), hactor, hmetadata⟩
    let s' : State P := ⟨s.log, { s.engine with dag := s.engine.dag.withEdge edge }⟩
    have hseal := @Filed.sealEntry_eq P key (rt.env n) s' (str "EDGE") edge.toDict h.filed
      (rt.ascii_env n) ascii_edge hedge.toDict
    rw [hadd]
    dsimp only
    rw [show sealEntry key (rt.env n) _ (str "EDGE") _ = _ from hseal]
    refine h.commitEdge ?_ hedge hadd hcycle ?_ ?_
    · rw [← hmade]
      rfl
    · rw [← hmade]
      exact hordered
    · rw [← hmade]
      exact htraced
  · rw [hadd]
    exact h.unchanged

theorem node_of_lookup {nodeId : Str} {node : LineageNode P}
    (hlookup : s.engine.dag.nodes.lookup nodeId = some node) :
    node.Stays ∧ readAscii nodeId = nodeId ∧ nodeId ∈ Assoc.keys s.engine.dag.nodes := by
  have hmem := Assoc.mem_of_lookup hlookup
  obtain ⟨hid, hstays⟩ := h.nodes _ hmem
  have hid : node.nodeId = nodeId := hid
  exact ⟨hstays, hid ▸ hstays.nodeId, List.mem_map_of_mem (f := Prod.fst) hmem⟩

omit h in
theorem stays_metadata {name nodeId : Str} (hname : ∀ c ∈ name, c < 127)
    (hid : readAscii nodeId = nodeId) :
    (Value.dict [(.str name, .str nodeId)] : P.Obj).Stays :=
  NamedItems.stays
    (NamedItems.of_names [name] rfl (List.forall_mem_singleton.mpr hname) (List.nodup_singleton _))
    (List.forall_mem_singleton.mpr (Value.stays_str hid))

theorem markRolledBack {nodeId human0Identity : Str}
    (hsteady : (Request.markRolledBack nodeId human0Identity : Request P).Steady (rt.uuid4 n 0)
      s.engine) :
    Kept rt (n + 1) (markRolledBack key (rt.env n) s nodeId human0Identity).2 := by
  unfold MutationLineage.markRolledBack
  cases hhuman : assertHuman0 human0Identity with
  | error e => exact h.unchanged
  | ok u =>
    cases hlookup : s.engine.dag.nodes.lookup nodeId with
    | none => exact h.unchanged
    | some original =>
      obtain ⟨hstays, hid, hmem⟩ := h.node_of_lookup hlookup
      have hidentity := hsteady (isHuman0_of_ok hhuman) hmem
      refine h.commitNode rfl ⟨readAscii_of_ascii (rt.uuid4_ascii n 0), hstays.mutationId,
        hstays.version, readAscii_of_ascii (rt.isoNow_ascii n 0), hidentity,
        stays_metadata (by decide) hid⟩ ?_
      exact GateType.noConfusion

theorem purgeGhost {nodeId human0Identity : Str}
    (hsteady : (Request.purgeGhost nodeId human0Identity : Request P).Steady (rt.uuid4 n 0)
      s.engine) :
    Kept rt (n + 1) (purgeGhost key (rt.env n) s nodeId human0Identity).2 := by
  unfold MutationLineage.purgeGhost
  cases hhuman : assertHuman0 human0Identity with
  | error e => exact h.unchanged
  | ok u =>
    cases hlookup : s.engine.dag.nodes.lookup nodeId with
    | none => exact h.unchanged
    | some node =>
      dsimp only
      by_cases hedges : s.engine.dag.edgesForNode nodeId = []
      · rw [if_neg (not_not_intro hedges)]
        obtain ⟨hstays, hid, hmem⟩ := h.node_of_lookup hlookup
        obtain ⟨hgenesis, hidentity⟩ := hsteady (isHuman0_of_ok hhuman) hmem hedges
        have hgate : node.gate ≠ .genesis := by
          unfold MutationDag.isGenesis at hgenesis
          rw [hlookup, Option.any_some] at hgenesis
          exact of_decide_eq_false hgenesis
        exact h.commitNode rfl ⟨readAscii_of_ascii (rt.uuid4_ascii n 0), hstays.mutationId,
          hstays.version, readAscii_of_ascii (rt.isoNow_ascii n 0), hidentity,
          stays_metadata (by decide) hid⟩ hgate
      · rw [if_pos hedges]
        exact h.unchanged

theorem call {request : Request P} (hsteady : request.Steady (rt.uuid4 n 0) s.engine) :
    Kept rt (n + 1) (request.call key (rt.env n) s).2 := by
  cases request with
  | bootstrapGenesis phase version actor => exact h.bootstrapGenesis hsteady
  | addNode mutationId phase version gate actor metadata => exact h.addNode hsteady
  | addEdge sourceNodeId targetNodeId gateType edgeStatus actor metadata => exact h.addEdge hsteady
  | markRolledBack nodeId human0Identity => exact h.markRolledBack hsteady
  | purgeGhost nodeId human0Identity => exact h.purgeGhost hsteady

end Kept

/-! ### Runs -/

namespace World

variable {w : World P}

/-- The engine of the world and its ledger are kept. -/
def Kept (rt : Runtime) (w : World P) : Prop :=
  ∃ e, w.engine = some e ∧ MutationLineage.Kept rt w.calls ⟨w.log, e⟩

theorem Kept.step (h : w.Kept rt) {a : Action P} (hsteady : w.Steady rt a) :
    (w.step rt key a).Kept rt := by
  obtain ⟨e, he, hkept⟩ := h
  cases a with
  | recreate =>
    refine ⟨e, ?_, hkept⟩
    show (create P w.log).toOption = some e
    rw [show create P w.log = .ok e from hkept.create_eq]
    rfl
  | call request =>
    unfold World.step
    dsimp only
    rw [he]
    exact ⟨_, rfl, hkept.call (hsteady e he)⟩

theorem Kept.lawful (h : w.Kept rt) : Lawful w := by
  obtain ⟨e, he, hkept⟩ := h
  exact ⟨e, he, hkept.lawful⟩

/-- In a steady run every state is as it should be. -/
theorem lawful_lineage_of_steady {as : List (Action P)}
    (h : Meets (World.step rt key) (World.Steady rt) {} as) :
    Always (World.step rt key) Lawful {} as := by
  have hkept := always_of_step (I := fun w : World P => w.Kept rt)
    (fun w a hw hsteady => hw.step hsteady) ⟨{}, rfl, kept_new⟩ h
  exact hkept.imp fun w hw => hw.lawful

/-! ### A GENESIS node that is added -/

theorem pair_of_natText {n m k l : Nat} (h : natText (Nat.pair n k) = natText (Nat.pair m l)) :
    n = m ∧ k = l :=
  Nat.pair_eq_pair.mp (Function.LeftInverse.injective natValue_natText h)

theorem ascii_of_natText (n k : Nat) : ∀ c ∈ natText (Nat.pair n k), c < 128 := by
  intro c hc
  have hdigit := isDigit_of_mem_natText hc
  simp only [isDigit, Bool.and_eq_true, decide_eq_true_eq] at hdigit
  omega

def someRuntime : Runtime where
  uuid4 n k := natText (Nat.pair n k)
  uuid4_injective := pair_of_natText
  uuid4_ascii := ascii_of_natText
  isoNow _ _ := []
  isoNow_ascii _ _ := List.forall_mem_nil _

def adds (gate : GateType) : Request P :=
  .addNode (str "mut-1") 1 (str "v1") gate (str "DreamAgent") []

theorem not_lawful_of_genesis (h : MutationLineage.Kept rt w.calls ⟨w.log, ({} : Engine P)⟩) :
    ¬ Lawful (w.call rt key {} (adds .genesis)) := by
  let node : LineageNode P := ⟨rt.uuid4 w.calls 0, str "mut-1", 1, str "v1", .genesis, .active,
    rt.isoNow w.calls 0, str "DreamAgent", []⟩
  have hmutation : readAscii (str "mut-1") = str "mut-1" := by decide
  have hversion : readAscii (str "v1") = str "v1" := by decide
  have hactor : readAscii (str "DreamAgent") = str "DreamAgent" := by decide
  have hnode : node.Stays := ⟨readAscii_of_ascii (rt.uuid4_ascii w.calls 0), hmutation, hversion,
    readAscii_of_ascii (rt.isoNow_ascii w.calls 0), hactor,
    ⟨trivial, ⟨List.nodup_nil, trivial⟩, rfl⟩⟩
  have hnext := @Kept.withNode P rt key w.calls _ node h rfl hnode fun _ v _ hreach => by
    rcases Relation.ReflTransGen.cases_head hreach with rfl | ⟨b, hb, -⟩
    · rfl
    · exact absurd hb List.not_mem_nil
  have hcall : w.call rt key {} (adds .genesis) =
      ⟨(State.withNode ⟨w.log, {}⟩ key (rt.env w.calls) node none).log,
        some (State.withNode ⟨w.log, {}⟩ key (rt.env w.calls) node none).engine, w.calls + 1⟩ := by
    have hcommit : commitNode key (rt.env w.calls) ⟨w.log, {}⟩ node =
        (.ok (), State.withNode ⟨w.log, {}⟩ key (rt.env w.calls) node none) :=
      h.filed.commitNode_eq (rt.ascii_env w.calls) hnode
    have hadd : addNode key (rt.env w.calls) ⟨w.log, {}⟩ (str "mut-1") 1 (str "v1") .genesis
        (str "DreamAgent") [] =
        returning (.node (some node)) (commitNode key (rt.env w.calls) ⟨w.log, {}⟩ node) := rfl
    have hrequest : (adds .genesis).call key ⟨rt.uuid4 w.calls, rt.isoNow w.calls⟩ ⟨w.log, {}⟩ =
        returning (.node (some node))
          (.ok (), State.withNode ⟨w.log, {}⟩ key (rt.env w.calls) node none) := hcommit ▸ hadd
    unfold World.call
    rw [hrequest]
    rfl
  rw [hcall]
  rintro ⟨e, he, hlawful⟩
  obtain rfl := Option.some.inj he
  obtain ⟨e', he', -, -, hgenesis⟩ := hlawful.recreated
  have hcreate := hnext.create_eq
  rw [if_pos rfl] at hcreate
  obtain rfl := Except.ok.inj (hcreate.symm.trans he')
  cases hgenesis

/-- Not every run is lawful: a GENESIS node is added. -/
theorem not_always_lawful_lineage :
    ¬ ∀ (rt : Runtime) (key : Bytes) (as : List (Action reference)),
      Always (World.step rt key) Lawful {} as := by
  intro hall
  have hlast := (hall someRuntime [] [.call (adds .genesis)]).last
  exact not_lawful_of_genesis kept_new hlast

/-! ### A steady run -/

def joins : Request P :=
  .addEdge (str "node-1") (str "node-2") .consensus .passed (str "DreamAgent") []

theorem steady_adds (gate : GateType) (hgate : gate ≠ .genesis) :
    w.Steady rt (.call (adds gate)) :=
  fun _ _ _ _ => ⟨hgate, by decide, by decide, by decide,
    ⟨trivial, ⟨List.nodup_nil, trivial⟩, rfl⟩⟩

theorem steady_joins : ({} : World P).Steady rt (.call joins) := by
  intro e he _
  obtain rfl := Option.some.inj he
  refine ⟨by decide, by decide, by decide, ⟨trivial, ⟨List.nodup_nil, trivial⟩, rfl⟩,
    ordered_of_length_le_one fun v => ?_, fun _ _ _ _ => rfl⟩
  show (if v = str "node-2" then [] ++ [str "node-1"] else []).length ≤ 1
  split_ifs
  · exact Nat.le_refl 1
  · exact Nat.zero_le 1

/-- An edge, a node, a rollback of the edge's source and a new engine. -/
theorem lawful_lineage_of_steady_edge :
    Always (World.step someRuntime []) Lawful ({} : World reference)
      [.call joins, .call (adds .sandbox), .call (.markRolledBack (str "node-1") governor),
        .recreate] :=
  lawful_lineage_of_steady ⟨steady_joins, steady_adds .sandbox (by decide),
    fun _ _ _ _ => by decide, trivial, trivial⟩

end World

end Adaad.MutationLineage
