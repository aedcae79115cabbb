import Adaad.Dorkllm.MutationLineage

/-!
# The graph of the mutation lineage

A graph keeps its edges three times: by their identifiers, by their sources and by their targets
(`MutationDag.Sound`).  An edge that would close a cycle is refused, whatever its ends are
(`MutationDag.wouldCycle_eq_true`), so the graph has no cycles (`MutationDag.Sound.addEdge`).

The loops over the graph make enough steps.  The ancestors of a node are listed once each, and a path
to a GENESIS node is a shortest one (`MutationDag.Sound.mem_ancestors`, `.tells_pathToGenesis`).
-/

namespace Adaad.MutationLineage

open Py DepthFirst BreadthFirst

variable {P : Platform}

/-! ### Cycles -/

theorem acyclic_of_edge {α : Type} {r r' : α → α → Prop} {s t : α}
    (hr : ∀ a, ¬ Relation.TransGen r a a) (hr' : ∀ a b, r' a b → r a b ∨ a = t ∧ b = s)
    (hst : ¬ Relation.ReflTransGen r s t) (a : α) : ¬ Relation.TransGen r' a a := by
  -- A way in the new graph uses the new edge once at most.
  have hway : ∀ {b}, Relation.ReflTransGen r' a b →
      Relation.ReflTransGen r a b ∨ Relation.ReflTransGen r a t ∧ Relation.ReflTransGen r s b := by
    intro b h
    induction h with
    | refl => exact .inl .refl
    | tail _ hedge ih =>
      rcases hr' _ _ hedge with hold | ⟨rfl, rfl⟩
      · exact ih.imp (fun h => h.tail hold) fun h => ⟨h.1, h.2.tail hold⟩
      · rcases ih with h | ⟨-, h⟩
        · exact .inr ⟨h, .refl⟩
        · exact absurd h hst
  intro h
  obtain ⟨b, hab, hba⟩ := Relation.TransGen.tail'_iff.mp h
  rcases hr' _ _ hba with hold | ⟨rfl, rfl⟩
  · rcases hway hab with h | ⟨hat, hsb⟩
    · exact hr a (Relation.TransGen.tail' h hold)
    · exact hst ((hsb.tail hold).trans hat)
  · rcases hway hab with h | ⟨-, h⟩
    · exact hst h
    · exact hst h

/-! ### Mappings to lists -/

/-- `d.get(n, [])` -/
def listAt (d : List (Str × List Str)) (n : Str) : List Str :=
  (d.lookup n).getD []

theorem listAt_of_notMem {d : List (Str × List Str)} {n : Str} (h : n ∉ Assoc.keys d) :
    listAt d n = [] := by
  unfold listAt
  cases hn : d.lookup n with
  | none => rfl
  | some l => exact absurd (Assoc.mem_keys_iff.mpr ⟨l, hn⟩) h

theorem cost_keys {d : List (Str × List Str)} (h : (Assoc.keys d).Nodup) :
    cost (listAt d) (Assoc.keys d) [] = edgeCount d := by
  unfold edgeCount
  rw [cost_nil, Assoc.keys, List.map_map]
  refine congrArg List.sum (List.map_congr_left fun m hm => ?_)
  show (listAt d m.1).length = m.2.length
  rw [listAt, (Assoc.lookup_eq_some_iff h).mpr hm, Option.getD_some]

theorem listAt_setDefault (d : List (Str × List Str)) (k n : Str) :
    listAt (setDefault d k) n = listAt d n := by
  unfold setDefault
  by_cases hk : k ∈ Assoc.keys d
  · rw [if_pos hk]
  · rw [if_neg hk, ← Assoc.set_of_notMem hk]
    unfold listAt
    rw [Assoc.lookup_set]
    by_cases hn : n = k
    · rw [if_pos hn, hn]
      exact (listAt_of_notMem hk).symm
    · rw [if_neg hn]

theorem nodup_setDefault {d : List (Str × List Str)} (h : (Assoc.keys d).Nodup) (k : Str) :
    (Assoc.keys (setDefault d k)).Nodup := by
  unfold setDefault
  by_cases hk : k ∈ Assoc.keys d
  · rw [if_pos hk]
    exact h
  · rw [if_neg hk, ← Assoc.set_of_notMem hk]
    exact Assoc.nodup_keys_set h k []

theorem listAt_push (d : List (Str × List Str)) (k x n : Str) :
    listAt (push d k x) n = if n = k then listAt d n ++ [x] else listAt d n := by
  unfold listAt push
  rw [Assoc.lookup_set]
  by_cases hn : n = k
  · rw [if_pos hn, if_pos hn, hn]
    rfl
  · rw [if_neg hn, if_neg hn]

theorem mem_listAt_push {d : List (Str × List Str)} {k x n y : Str} :
    y ∈ listAt (push d k x) n ↔ y ∈ listAt d n ∨ n = k ∧ y = x := by
  rw [listAt_push]
  by_cases hn : n = k
  · rw [if_pos hn, List.mem_append, List.mem_singleton, and_iff_right hn]
  · rw [if_neg hn, or_iff_left fun h => hn h.1]

/-! ### Sound graphs -/

namespace MutationDag

variable {d : MutationDag P} {src tgt n : Str}

/-- There is an edge from `a` to `b`. -/
def IsParent (d : MutationDag P) (a b : Str) : Prop :=
  ∃ m ∈ d.edges, m.2.sourceNodeId = a ∧ m.2.targetNodeId = b

/-- What holds of a graph, whatever is added to it. -/
structure Sound (d : MutationDag P) : Prop where
  nodup_adj : (Assoc.keys d.adj).Nodup
  nodup_rev : (Assoc.keys d.rev).Nodup
  children_iff : ∀ a b, b ∈ d.children a ↔ d.IsParent a b
  parents_iff : ∀ a b, a ∈ d.parents b ↔ d.IsParent a b
  acyclic : ∀ a, ¬ Relation.TransGen (Edge d.parents) a a

theorem sound_empty : ({} : MutationDag P).Sound where
  nodup_adj := List.nodup_nil
  nodup_rev := List.nodup_nil
  children_iff a b := by
    refine iff_of_false List.not_mem_nil ?_
    rintro ⟨m, hm, -⟩
    exact List.not_mem_nil hm
  parents_iff a b := by
    refine iff_of_false List.not_mem_nil ?_
    rintro ⟨m, hm, -⟩
    exact List.not_mem_nil hm
  acyclic a h := by
    obtain ⟨b, hb, -⟩ := Relation.TransGen.head'_iff.mp h
    exact List.not_mem_nil hb

/-! ### A node more -/

theorem parents_addNode (d : MutationDag P) (node : LineageNode P) :
    (d.addNode node).parents = d.parents := by
  funext n
  unfold addNode
  by_cases hmem : node.nodeId ∈ Assoc.keys d.nodes
  · rw [if_pos hmem]
  · rw [if_neg hmem]
    exact listAt_setDefault d.rev node.nodeId n

theorem edges_addNode (d : MutationDag P) (node : LineageNode P) :
    (d.addNode node).edges = d.edges := by
  unfold addNode
  split_ifs <;> rfl

theorem nodes_addNode {node : LineageNode P} (h : node.nodeId ∉ Assoc.keys d.nodes) :
    (d.addNode node).nodes = d.nodes ++ [(node.nodeId, node)] := by
  unfold addNode
  rw [if_neg h]

theorem Sound.addNode (h : d.Sound) (node : LineageNode P) : (d.addNode node).Sound := by
  have hparents := parents_addNode d node
  unfold MutationDag.addNode at hparents ⊢
  by_cases hmem : node.nodeId ∈ Assoc.keys d.nodes
  · rw [if_pos hmem]
    exact h
  · rw [if_neg hmem] at hparents ⊢
    refine ⟨nodup_setDefault h.nodup_adj _, nodup_setDefault h.nodup_rev _, fun a b => ?_,
      fun a b => ?_, ?_⟩
    · show b ∈ listAt (setDefault d.adj node.nodeId) a ↔ d.IsParent a b
      rw [listAt_setDefault]
      exact h.children_iff a b
    · rw [hparents]
      exact h.parents_iff a b
    · rw [hparents]
      exact h.acyclic

/-! ### An edge more -/

theorem Sound.reach_children (h : d.Sound) {a b : Str} :
    Reach d.children a b ↔ Reach d.parents b a := by
  have hswap : Edge d.children = Function.swap (Edge d.parents) := by
    funext a b
    exact propext ((h.children_iff a b).trans (h.parents_iff a b).symm)
  unfold Reach
  rw [hswap, Relation.reflTransGen_swap]

theorem Sound.wouldCycle_eq_true (h : d.Sound) (src tgt : Str) :
    d.wouldCycle src tgt = true ↔ Reach d.parents src tgt := by
  unfold wouldCycle
  by_cases heq : src = tgt
  · rw [if_pos heq, heq]
    exact iff_of_true rfl .refl
  rw [if_neg heq]
  have hfuel : [tgt].length + cost d.children (Assoc.keys d.adj) [] ≤ 1 + edgeCount d.adj := by
    rw [show d.children = listAt d.adj from rfl, cost_keys h.nodup_adj]
    exact Nat.le_refl _
  obtain ⟨found, hfound, hiff⟩ := @exists_reaches Str _ d.children [tgt] (1 + edgeCount d.adj)
    (Assoc.keys d.adj) src h.nodup_adj (fun a ha => listAt_of_notMem ha) hfuel
  rw [hfound, Option.getD_some, hiff, ← h.reach_children]
  constructor
  · rintro ⟨s, hs, hreach⟩
    exact List.mem_singleton.mp hs ▸ hreach
  · exact fun hreach => ⟨tgt, List.mem_singleton_self tgt, hreach⟩

def withEdge (d : MutationDag P) (edge : LineageEdge P) : MutationDag P :=
  { d with
    edges := Assoc.set d.edges edge.edgeId edge
    adj := push d.adj edge.sourceNodeId edge.targetNodeId
    rev := push d.rev edge.targetNodeId edge.sourceNodeId }

variable {edge : LineageEdge P}

/-- The parents of each node where there is an edge more. -/
def parentsWith (d : MutationDag P) (src tgt n : Str) : List Str :=
  if n = tgt then d.parents n ++ [src] else d.parents n

theorem parents_withEdge (d : MutationDag P) (edge : LineageEdge P) :
    (d.withEdge edge).parents = d.parentsWith edge.sourceNodeId edge.targetNodeId :=
  funext fun n => listAt_push d.rev edge.targetNodeId edge.sourceNodeId n

theorem Sound.addEdge_eq (h : d.Sound) (edge : LineageEdge P) :
    (d.addEdge edge = .ok (d.withEdge edge) ∧
        ¬ Reach d.parents edge.sourceNodeId edge.targetNodeId) ∨
      (∃ e, d.addEdge edge = .error e) ∧
        Reach d.parents edge.sourceNodeId edge.targetNodeId := by
  have hcycle := h.wouldCycle_eq_true edge.sourceNodeId edge.targetNodeId
  unfold MutationDag.addEdge
  dsimp only
  by_cases hreach : Reach d.parents edge.sourceNodeId edge.targetNodeId
  · rw [if_pos (hcycle.mpr hreach)]
    exact .inr ⟨⟨_, rfl⟩, hreach⟩
  · rw [if_neg fun h => hreach (hcycle.mp h)]
    exact .inl ⟨rfl, hreach⟩

theorem isParent_withEdge (hfresh : edge.edgeId ∉ Assoc.keys d.edges) {a b : Str} :
    (d.withEdge edge).IsParent a b ↔
      d.IsParent a b ∨ a = edge.sourceNodeId ∧ b = edge.targetNodeId := by
  have hedges : (d.withEdge edge).edges = d.edges ++ [(edge.edgeId, edge)] :=
    Assoc.set_of_notMem hfresh edge
  unfold IsParent
  rw [hedges]
  constructor
  · rintro ⟨m, hm, rfl, rfl⟩
    rcases List.mem_append.mp hm with hm | hm
    · exact .inl ⟨m, hm, rfl, rfl⟩
    · obtain rfl := List.mem_singleton.mp hm
      exact .inr ⟨rfl, rfl⟩
  · rintro (⟨m, hm, rfl, rfl⟩ | ⟨rfl, rfl⟩)
    · exact ⟨m, List.mem_append_left _ hm, rfl, rfl⟩
    · exact ⟨_, List.mem_append_right _ (List.mem_singleton_self _), rfl, rfl⟩

theorem Sound.withEdge (h : d.Sound) (hfresh : edge.edgeId ∉ Assoc.keys d.edges)
    (hcycle : ¬ Reach d.parents edge.sourceNodeId edge.targetNodeId) : (d.withEdge edge).Sound where
  nodup_adj := Assoc.nodup_keys_set h.nodup_adj _ _
  nodup_rev := Assoc.nodup_keys_set h.nodup_rev _ _
  children_iff a b := by
    rw [isParent_withEdge hfresh, ← h.children_iff]
    exact mem_listAt_push
  parents_iff a b := by
    rw [isParent_withEdge hfresh, ← h.parents_iff, and_comm]
    exact mem_listAt_push
  acyclic := acyclic_of_edge h.acyclic (fun _ _ hedge => mem_listAt_push.mp hedge) hcycle

/-! ### Ancestors -/

def IsAncestor (d : MutationDag P) (a n : Str) : Prop :=
  Relation.TransGen d.IsParent a n

theorem Sound.edge_eq (h : d.Sound) : Edge d.parents = Function.swap d.IsParent := by
  funext a b
  exact propext (h.parents_iff b a)

theorem Sound.isAncestor_iff (h : d.Sound) {a : Str} :
    d.IsAncestor a n ↔ Relation.TransGen (Edge d.parents) n a := by
  rw [h.edge_eq, Relation.transGen_swap]
  rfl

theorem Sound.exists_ancestors (h : d.Sound) (n : Str) :
    walk d.parents ((d.parents n).length + edgeCount d.rev) [] (d.parents n).reverse =
      some (d.ancestors n) ∧ (d.ancestors n).Nodup ∧
      ∀ a, a ∈ d.ancestors n ↔ d.IsAncestor a n := by
  have hfuel : (d.parents n).reverse.length + cost d.parents (Assoc.keys d.rev) [] ≤
      (d.parents n).length + edgeCount d.rev := by
    rw [show d.parents = listAt d.rev from rfl, cost_keys h.nodup_rev, List.length_reverse]
  obtain ⟨l, hl, hnodup, hmem⟩ := @exists_walk Str _ d.parents (d.parents n).reverse
    ((d.parents n).length + edgeCount d.rev) (Assoc.keys d.rev) h.nodup_rev
    (fun a ha => listAt_of_notMem ha) hfuel
  have heq : d.ancestors n = l := by
    unfold ancestors
    rw [hl, Option.getD_some]
  rw [heq]
  refine ⟨hl, hnodup, fun a => ?_⟩
  rw [hmem, h.isAncestor_iff, Relation.TransGen.head'_iff]
  simp only [List.mem_reverse]

/-- What the lists of parents must be like for the ancestors of a node to be listed in order. -/
def Ordered (next : Str → List Str) (n : Str) : Prop :=
  (∀ v, Reach next n v → Laid next ∅ (next v).reverse) ∨ Shallow next [] (next n).reverse

/-- Each parent comes after its children, or each comes before them. -/
def InOrder (d : MutationDag P) (l : List Str) : Prop :=
  (l.Pairwise fun a b => ¬ d.IsParent a b) ∨ l.Pairwise fun a b => ¬ d.IsParent b a

theorem Sound.inOrder_ancestors (h : d.Sound) (hordered : Ordered d.parents n) :
    d.InOrder (d.ancestors n) := by
  obtain ⟨hwalk, -, -⟩ := h.exists_ancestors n
  rcases hordered with hlaid | hshallow
  · have hstart : Laid d.parents {x | x ∈ ([] : List Str)} (d.parents n).reverse := by
      have hempty : {x | x ∈ ([] : List Str)} = (∅ : Set Str) :=
        Set.eq_empty_iff_forall_notMem.mpr fun _ => List.not_mem_nil
      rw [hempty]
      exact hlaid n .refl
    have hnext : ∀ a ∈ (d.parents n).reverse, ∀ b, Reach d.parents a b →
        Laid d.parents ∅ (d.parents b).reverse :=
      fun a ha b hb => hlaid b (.head (List.mem_reverse.mp ha) hb)
    refine .inl ((beforeNext_walk h.acyclic hstart hnext .nil hwalk).imp fun hnot hparent => ?_)
    exact hnot ((h.parents_iff _ _).mpr hparent)
  · refine .inr ((afterNext_walk hshallow (List.forall_mem_nil _) .nil hwalk).imp
      fun hnot hparent => ?_)
    exact hnot ((h.parents_iff _ _).mpr hparent)

/-! ### Paths to GENESIS -/

/-- A path along the parents, from the node to one whose gate is GENESIS. -/
structure GenesisPath (d : MutationDag P) (n : Str) (path : List Str) : Prop where
  head : path.head? = some n
  chain : path.IsChain fun a b => d.IsParent b a
  genesis : ∃ b ∈ path.getLast?, d.isGenesis b = true

theorem Sound.genesisPath_iff (h : d.Sound) {path : List Str} :
    d.GenesisPath n path ↔ PathTo d.parents d.isGenesis n path := by
  have hchain : path.IsChain (Edge d.parents) ↔ path.IsChain fun a b => d.IsParent b a := by
    rw [h.edge_eq]
  exact ⟨fun hp => ⟨hp.head, hchain.mpr hp.chain, hp.genesis⟩,
    fun hp => ⟨hp.head, hchain.mp hp.chain, hp.goal⟩⟩

theorem Sound.tells_pathToGenesis (h : d.Sound) (hn : n ∈ Assoc.keys d.nodes) :
    ∃ found, Tells d.parents d.isGenesis n found ∧ d.pathToGenesis n = found.getD [n] := by
  have hfuel : 1 + cost d.parents (Assoc.keys d.rev) [] ≤ 1 + edgeCount d.rev := by
    rw [show d.parents = listAt d.rev from rfl, cost_keys h.nodup_rev]
  obtain ⟨found, hfound, htells⟩ := @exists_shortest Str _ d.parents d.isGenesis
    (1 + edgeCount d.rev) (Assoc.keys d.rev) h.nodup_rev (fun a ha => listAt_of_notMem ha) hfuel n
  refine ⟨found, htells, ?_⟩
  unfold pathToGenesis
  rw [if_neg (not_not_intro hn), hfound]
  cases found <;> rfl

def ShortestPath (d : MutationDag P) (n : Str) (path : List Str) : Prop :=
  d.GenesisPath n path ∧ ∀ path', d.GenesisPath n path' → path.length ≤ path'.length

theorem Sound.shortest_pathToGenesis (h : d.Sound) (hn : n ∈ Assoc.keys d.nodes) {path : List Str}
    (hpath : d.GenesisPath n path) : d.ShortestPath n (d.pathToGenesis n) := by
  obtain ⟨found, htells, hfound⟩ := h.tells_pathToGenesis hn
  cases found with
  | none => exact absurd (h.genesisPath_iff.mp hpath) (htells path)
  | some path' =>
    rw [hfound, Option.getD_some]
    refine ⟨h.genesisPath_iff.mpr htells.1, fun path'' hpath'' => ?_⟩
    exact htells.2 path'' (h.genesisPath_iff.mp hpath'')

theorem exists_reach_of_pathTo {α : Type} {next : α → List α} {goal : α → Bool} {a : α} {l : List α}
    (h : PathTo next goal a (a :: l)) : ∃ b, Reach next a b ∧ goal b = true := by
  obtain ⟨b, hb, hgoal⟩ := h.goal
  refine ⟨b, ?_, hgoal⟩
  have hlast : (a :: l).getLast (List.cons_ne_nil a l) = b := by
    rw [List.getLast?_eq_some_getLast (List.cons_ne_nil a l)] at hb
    exact Option.some.inj hb
  rw [← hlast]
  exact List.relationReflTransGen_of_exists_isChain_cons l h.chain rfl

theorem Sound.exists_reach (h : d.Sound) {path : List Str} (hpath : d.GenesisPath n path) :
    ∃ g, Reach d.parents n g ∧ d.isGenesis g = true := by
  have hp := h.genesisPath_iff.mp hpath
  cases path with
  | nil => exact absurd hp.head (Option.some_ne_none n).symm
  | cons a l =>
    obtain rfl : a = n := Option.some.inj hp.head
    exact exists_reach_of_pathTo hp

end MutationDag

end Adaad.MutationLineage

/-!
## The ledger of the mutation lineage

An entry whose texts stay as they are is read as it was written (`LedgerEntry.Stays`), and so is a
ledger of such entries (`Filed.loadLedger_eq`).  Its payload has the node or the edge that was
committed (`LineageNode.ofPayload_toDict`, `LineageEdge.ofPayload_toDict`).
-/

namespace Adaad.MutationLineage

open Py Innovations

variable {P : Platform}

/-! ### Enums -/

theorem GateType.ofValue_value (g : GateType) : GateType.ofValue P g.value = .ok g := by
  cases g <;> rfl

theorem NodeStatus.ofValue_value (s : NodeStatus) : NodeStatus.ofValue P s.value = .ok s := by
  cases s <;> rfl

theorem EdgeStatus.ofValue_value (s : EdgeStatus) : EdgeStatus.ofValue P s.value = .ok s := by
  cases s <;> rfl

theorem GateType.ascii_value (g : GateType) : ∀ c ∈ g.value, c < 128 := by
  cases g <;> decide

theorem NodeStatus.ascii_value (s : NodeStatus) : ∀ c ∈ s.value, c < 128 := by
  cases s <;> decide

theorem EdgeStatus.ascii_value (s : EdgeStatus) : ∀ c ∈ s.value, c < 128 := by
  cases s <;> decide

/-! ### Nodes and edges -/

/-- A node that is read as it was written. -/
structure LineageNode.Stays (n : LineageNode P) : Prop where
  nodeId : readAscii n.nodeId = n.nodeId
  mutationId : readAscii n.mutationId = n.mutationId
  version : readAscii n.version = n.version
  timestamp : readAscii n.timestamp = n.timestamp
  actor : readAscii n.actor = n.actor
  metadata : (Value.dict n.metadata : P.Obj).Stays

structure LineageEdge.Stays (e : LineageEdge P) : Prop where
  edgeId : readAscii e.edgeId = e.edgeId
  sourceNodeId : readAscii e.sourceNodeId = e.sourceNodeId
  targetNodeId : readAscii e.targetNodeId = e.targetNodeId
  timestamp : readAscii e.timestamp = e.timestamp
  actor : readAscii e.actor = e.actor
  metadata : (Value.dict e.metadata : P.Obj).Stays

theorem LineageNode.Stays.toDict {n : LineageNode P} (h : n.Stays) :
    (Value.dict n.toDict : P.Obj).Stays := by
  refine NamedItems.stays (NamedItems.of_names
    [str "node_id", str "mutation_id", str "phase", str "version", str "gate", str "status",
      str "timestamp", str "actor", str "metadata"] rfl (by decide) (by decide)) ?_
  simp only [LineageNode.toDict, List.forall_mem_cons]
  exact ⟨Value.stays_str h.nodeId, Value.stays_str h.mutationId, Value.stays_int _,
    Value.stays_str h.version, Value.stays_str_of_ascii n.gate.ascii_value,
    Value.stays_str_of_ascii n.status.ascii_value, Value.stays_str h.timestamp,
    Value.stays_str h.actor, h.metadata, List.forall_mem_nil _⟩

theorem LineageEdge.Stays.toDict {e : LineageEdge P} (h : e.Stays) :
    (Value.dict e.toDict : P.Obj).Stays := by
  refine NamedItems.stays (NamedItems.of_names
    [str "edge_id", str "source_node_id", str "target_node_id", str "gate_type", str "edge_status",
      str "timestamp", str "actor", str "metadata"] rfl (by decide) (by decide)) ?_
  simp only [LineageEdge.toDict, List.forall_mem_cons]
  exact ⟨Value.stays_str h.edgeId, Value.stays_str h.sourceNodeId, Value.stays_str h.targetNodeId,
    Value.stays_str_of_ascii e.gateType.ascii_value,
    Value.stays_str_of_ascii e.edgeStatus.ascii_value, Value.stays_str h.timestamp,
    Value.stays_str h.actor, h.metadata, List.forall_mem_nil _⟩

theorem LineageNode.ofPayload_toDict (n : LineageNode P) :
    LineageNode.ofPayload n.toDict = .ok n := by
  have hgate : (textAt n.toDict (str "gate") >>= GateType.ofValue P) = .ok n.gate :=
    GateType.ofValue_value n.gate
  have hstatus : (textAt n.toDict (str "status") >>= NodeStatus.ofValue P) = .ok n.status :=
    NodeStatus.ofValue_value n.status
  unfold LineageNode.ofPayload
  rw [hgate, hstatus]
  rfl

theorem LineageEdge.ofPayload_toDict (e : LineageEdge P) :
    LineageEdge.ofPayload e.toDict = .ok e := by
  have hgate : (textAt e.toDict (str "gate_type") >>= GateType.ofValue P) = .ok e.gateType :=
    GateType.ofValue_value e.gateType
  have hstatus : (textAt e.toDict (str "edge_status") >>= EdgeStatus.ofValue P) =
      .ok e.edgeStatus :=
    EdgeStatus.ofValue_value e.edgeStatus
  unfold LineageEdge.ofPayload
  rw [hgate, hstatus]
  rfl

/-! ### Entries -/

/-- An entry that is read as it was written. -/
structure LedgerEntry.Stays (e : LedgerEntry P) : Prop where
  entryId : readAscii e.entryId = e.entryId
  entryType : readAscii e.entryType = e.entryType
  payload : (Value.dict e.payload : P.Obj).Stays
  prevHash : readAscii e.prevHash = e.prevHash
  entryHash : readAscii e.entryHash = e.entryHash
  timestamp : readAscii e.timestamp = e.timestamp

theorem LedgerEntry.named_toDict (e : LedgerEntry P) : NamedItems e.toDict :=
  .of_names [str "entry_id", str "entry_type", str "payload", str "ledger_index", str "prev_hash",
    str "entry_hash", str "timestamp"] rfl (by decide) (by decide)

theorem LedgerEntry.Stays.values {e : LedgerEntry P} (h : e.Stays) : ∀ m ∈ e.toDict, m.2.Stays := by
  simp only [LedgerEntry.toDict, List.forall_mem_cons]
  exact ⟨Value.stays_str h.entryId, Value.stays_str h.entryType, h.payload, Value.stays_int _,
    Value.stays_str h.prevHash, Value.stays_str h.entryHash, Value.stays_str h.timestamp,
    List.forall_mem_nil _⟩

theorem LedgerEntry.Stays.readBack {e : LedgerEntry P} (h : e.Stays) :
    readBack P e.toDict = e.toDict :=
  readBack_eq_self h.values

theorem LedgerEntry.ofDict_toDict (e : LedgerEntry P) : LedgerEntry.ofDict e.toDict = .ok e :=
  rfl

theorem LedgerEntry.Stays.exists_text {e : LedgerEntry P} (h : e.Stays) :
    ∃ text, dumpsSortedAscii P .spaced (.dict (pop e.toDict (str "entry_hash"))) = some text := by
  have hplain : (Value.dict (pop e.toDict (str "entry_hash")) : P.Obj).Plain := by
    rw [Value.Plain, plainMembers_iff]
    intro m hm
    have hmem : m ∈ e.toDict := (List.mem_filter.mp hm).1
    exact ⟨e.named_toDict.isString hmem, (h.values m hmem).plain⟩
  obtain ⟨w, hw⟩ := exists_sortKeys P hplain
  exact ⟨_, by rw [dumpsSortedAscii, dumpsSorted, hw]; rfl⟩

/-! ### Ledgers -/

/-- The file has these entries, each of which stays. -/
structure Filed (log : Bytes) (l : LineageLedger P) : Prop where
  rows : LogRows P (l.entries.map LedgerEntry.toDict) log
  stays : ∀ e ∈ l.entries, e.Stays
  prevHash : l.prevHash = (l.entries.getLast?.map LedgerEntry.entryHash).getD (str "GENESIS")

theorem filed_new : Filed [] ({} : LineageLedger P) :=
  ⟨LogRows.nil, List.forall_mem_nil _, rfl⟩

theorem Filed.append {log : Bytes} {l : LineageLedger P} (h : Filed log l) {e : LedgerEntry P}
    (he : e.Stays) : Filed (appendRow P log e.toDict) ⟨l.entries ++ [e], e.entryHash⟩ where
  rows := by
    rw [List.map_append, List.map_singleton]
    exact h.rows.append _
  stays := List.forall_mem_append.mpr ⟨h.stays, List.forall_mem_singleton.mpr he⟩
  prevHash := by
    rw [List.getLast?_concat]
    rfl

theorem loadLine_logLine {e : LedgerEntry P} (he : e.Stays) (l : LineageLedger P) :
    loadLine l (logLine P e.toDict) = .ok ⟨l.entries ++ [e], e.entryHash⟩ := by
  unfold loadLine
  rw [strip_logLine, if_neg (logLine_ne_nil _), loads_logLine e.named_toDict, he.readBack]
  dsimp only [itemsOf, bind, Except.bind]
  rw [LedgerEntry.ofDict_toDict]
  rfl

theorem foldlM_loadLine {es : List (LedgerEntry P)} (hes : ∀ e ∈ es, e.Stays) (l : LineageLedger P) :
    ((es.map LedgerEntry.toDict).map (logLine P)).foldlM loadLine l =
      .ok ⟨l.entries ++ es, (es.getLast?.map LedgerEntry.entryHash).getD l.prevHash⟩ := by
  induction es generalizing l with
  | nil =>
    rw [List.append_nil]
    rfl
  | cons e es ih =>
    obtain ⟨he, hes⟩ := List.forall_mem_cons.mp hes
    rw [List.map_cons, List.map_cons, List.foldlM_cons, loadLine_logLine he]
    refine (ih hes _).trans ?_
    rw [List.append_assoc, List.singleton_append]
    cases es with
    | nil => rfl
    | cons e' es =>
      rw [List.getLast?_cons_cons, List.getLast?_eq_some_getLast (List.cons_ne_nil e' es)]
      rfl

theorem Filed.loadLedger_eq {log : Bytes} {l : LineageLedger P} (h : Filed log l) :
    loadLedger P log = .ok l := by
  unfold loadLedger
  rw [h.rows.readLines_eq]
  dsimp only
  rw [foldlM_loadLine h.stays]
  show Except.ok _ = _
  rw [List.nil_append, ← h.prevHash]

/-! ### Sealing -/

def sealed (key : Bytes) (env : Env) (l : LineageLedger P) (entryType : Str)
    (payload : Members P.Float) : LedgerEntry P :=
  let entry := draftEntry env l entryType payload
  { entry with
    entryHash := hmacHash P key ((encode ((dumpsSortedAscii P .spaced
      (.dict (pop entry.toDict (str "entry_hash")))).getD [])).getD []) }

/-- What the runtime gives to a call is ASCII. -/
structure Env.Ascii (env : Env) : Prop where
  uuid4 : ∀ k, ∀ c ∈ env.uuid4 k, c < 128
  isoNow : ∀ k, ∀ c ∈ env.isoNow k, c < 128

variable {key : Bytes} {env : Env} {s : State P} {entryType : Str} {payload : Members P.Float}
  {log : Bytes} {l : LineageLedger P}

theorem Filed.readAscii_prevHash (h : Filed log l) : readAscii l.prevHash = l.prevHash := by
  have hgenesis : ∀ c ∈ str "GENESIS", c < 128 := by decide
  rw [h.prevHash]
  cases hlast : l.entries.getLast? with
  | none => exact readAscii_of_ascii hgenesis
  | some e => exact (h.stays e (List.mem_of_getLast? hlast)).entryHash

theorem Filed.stays_sealed (h : Filed log l) (henv : env.Ascii) (htype : ∀ c ∈ entryType, c < 128)
    (hpayload : (Value.dict payload : P.Obj).Stays) :
    (sealed key env l entryType payload).Stays where
  entryId := readAscii_of_ascii (henv.uuid4 1)
  entryType := readAscii_of_ascii htype
  payload := hpayload
  prevHash := h.readAscii_prevHash
  entryHash := readAscii_of_ascii (ascii_sha256 P _)
  timestamp := readAscii_of_ascii (henv.isoNow 1)

theorem Filed.sealEntry_eq (h : Filed s.log s.engine.ledger) (henv : env.Ascii)
    (htype : ∀ c ∈ entryType, c < 128) (hpayload : (Value.dict payload : P.Obj).Stays) :
    sealEntry key env s entryType payload =
      .ok
        { log := appendRow P s.log (sealed key env s.engine.ledger entryType payload).toDict
          engine :=
            { s.engine with
              ledger := ⟨s.engine.ledger.entries ++
                  [sealed key env s.engine.ledger entryType payload],
                (sealed key env s.engine.ledger entryType payload).entryHash⟩ } } := by
  have hstays := @Filed.stays_sealed P key env entryType payload s.log s.engine.ledger h henv htype
    hpayload
  obtain ⟨text, htext⟩ := hstays.exists_text
  have hdraft : dumpsSortedAscii P .spaced
      (.dict (pop (draftEntry env s.engine.ledger entryType payload).toDict (str "entry_hash"))) =
      some text := htext
  unfold sealEntry sealed
  dsimp only
  rw [hdraft]
  rfl

end Adaad.MutationLineage
