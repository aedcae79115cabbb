import Adaad.Evolution.ReplayGraph
import Adaad.Py.Reference

/-!
# The order of a replay
-/

namespace Adaad.ReplayGraph

open Py

variable {P : Platform} {nodes nodes' : List (ReplayGraphNode P)} {edges : List (Str × Str)}
  {mutationId : Str} {node : ReplayGraphNode P} {d d' : NodesById P}

/-- The nodes have different identifiers. -/
def Distinct (nodes : List (ReplayGraphNode P)) : Prop :=
  (nodes.map (·.mutationId)).Nodup

instance (nodes : List (ReplayGraphNode P)) : Decidable (Distinct nodes) :=
  inferInstanceAs (Decidable (List.Nodup _))

/-- The nodes, each after its parents. -/
structure InOrder (nodes : List (ReplayGraphNode P)) (edges : List (Str × Str))
    (ordered : List (ReplayGraphNode P)) : Prop where
  perm : ordered.Perm nodes
  parents : TopologicalSort.Ordered edges (ordered.map (·.mutationId))

/-! ### The order -/

theorem byId_eq_none : byId nodes mutationId = none ↔ mutationId ∉ nodes.map (·.mutationId) := by
  unfold byId
  simp only [List.find?_eq_none, List.mem_reverse, decide_eq_true_eq, List.mem_map, not_exists,
    not_and]

theorem isNone_byId : (byId nodes mutationId).isNone = false ↔
    mutationId ∈ nodes.map (·.mutationId) := by
  rw [Option.isNone_eq_false_iff, Option.isSome_iff_ne_none, ne_eq, byId_eq_none, not_not]

theorem mutationId_of_byId (h : byId nodes mutationId = some node) :
    node ∈ nodes ∧ node.mutationId = mutationId := by
  unfold byId at h
  exact ⟨List.mem_reverse.mp (List.mem_of_find?_eq_some h), by simpa using List.find?_some h⟩

theorem Distinct.byId (h : Distinct nodes) (hnode : node ∈ nodes) :
    byId nodes node.mutationId = some node := by
  cases hbyId : ReplayGraph.byId nodes node.mutationId with
  | none => exact absurd (List.mem_map_of_mem hnode) (byId_eq_none.mp hbyId)
  | some other =>
    obtain ⟨hother, hid⟩ := mutationId_of_byId hbyId
    rw [List.inj_on_of_nodup_map h hother hnode hid]

theorem Distinct.filterMap_byId (h : Distinct nodes) :
    (nodes.map (·.mutationId)).filterMap (ReplayGraph.byId nodes) = nodes := by
  rw [List.filterMap_map]
  calc nodes.filterMap _ = nodes.filterMap some :=
        List.filterMap_congr fun node hnode => h.byId hnode
    _ = nodes := List.filterMap_some

theorem map_filterMap_byId {ids : List Str} (h : ∀ id ∈ ids, id ∈ nodes.map (·.mutationId)) :
    (ids.filterMap (byId nodes)).map (·.mutationId) = ids := by
  induction ids with
  | nil => rfl
  | cons id ids ih =>
    obtain ⟨hid, hids⟩ := List.forall_mem_cons.mp h
    obtain ⟨node, hnode⟩ := Option.isSome_iff_exists.mp
      (Option.isNone_eq_false_iff.mp (isNone_byId.mpr hid))
    rw [List.filterMap_cons_some hnode, List.map_cons, ih hids, (mutationId_of_byId hnode).2]

theorem find?_unknown_eq_none :
    (edges.find? fun e => (byId nodes e.1).isNone || (byId nodes e.2).isNone) = none ↔
      ∀ e ∈ edges, e.1 ∈ nodes.map (·.mutationId) ∧ e.2 ∈ nodes.map (·.mutationId) := by
  rw [List.find?_eq_none]
  refine forall₂_congr fun e _ => ?_
  rw [Bool.not_eq_true, Bool.or_eq_false_iff, isNone_byId, isNone_byId]

theorem canonicalTopologicalOrder_eq_ok {ordered : List (ReplayGraphNode P)} :
    canonicalTopologicalOrder nodes edges = .ok ordered ↔
      (∀ e ∈ edges, e.1 ∈ nodes.map (·.mutationId) ∧ e.2 ∈ nodes.map (·.mutationId)) ∧
        ∃ ids, TopologicalSort.sort (nodes.map (·.mutationId)) edges = some ids ∧
          ids.filterMap (byId nodes) = ordered := by
  rw [← find?_unknown_eq_none]
  unfold canonicalTopologicalOrder
  split
  · next e he => simp [he]
  · next hknown =>
    rw [and_iff_right hknown]
    split
    · next hnone => simp [hnone]
    · next ids hids => simp [hids]

theorem inOrder_of_canonicalTopologicalOrder {ordered : List (ReplayGraphNode P)}
    (h : Distinct nodes) (hordered : canonicalTopologicalOrder nodes edges = .ok ordered) :
    InOrder nodes edges ordered ∧ ∀ ordered', InOrder nodes edges ordered' →
      ordered.map (·.mutationId) ≤ ordered'.map (·.mutationId) := by
  obtain ⟨hends, ids, hids, rfl⟩ := canonicalTopologicalOrder_eq_ok.mp hordered
  obtain ⟨hperm, hparents, hleast⟩ :=
    TopologicalSort.le_of_sort h (fun e he => (hends e he).2) hids
  have hmap := map_filterMap_byId fun id => hperm.mem_iff.mp
  refine ⟨⟨?_, by rwa [hmap]⟩, fun ordered' h' => ?_⟩
  · have hnodes := hperm.filterMap (byId nodes)
    rwa [h.filterMap_byId] at hnodes
  · rw [hmap]
    exact hleast _ (h'.perm.map _) h'.parents

/-- Nodes are put into an order exactly where the edges are between nodes and have no cycle.  The
order is then the least one. -/
theorem canonicalTopologicalOrder_spec (edges : List (Str × Str)) (h : Distinct nodes) :
    ((∃ ordered, canonicalTopologicalOrder nodes edges = .ok ordered) ↔
      (∀ e ∈ edges, e.1 ∈ nodes.map (·.mutationId) ∧ e.2 ∈ nodes.map (·.mutationId)) ∧
        TopologicalSort.Acyclic edges) ∧
    ∀ ordered, canonicalTopologicalOrder nodes edges = .ok ordered →
      InOrder nodes edges ordered ∧ ∀ ordered', InOrder nodes edges ordered' →
        ordered.map (·.mutationId) ≤ ordered'.map (·.mutationId) := by
  refine ⟨?_, fun ordered hordered => inOrder_of_canonicalTopologicalOrder h hordered⟩
  constructor
  · rintro ⟨ordered, hordered⟩
    obtain ⟨hends, ids, hids, -⟩ := canonicalTopologicalOrder_eq_ok.mp hordered
    exact ⟨hends, (TopologicalSort.exists_sort_iff h hends).mp ⟨ids, hids⟩⟩
  · rintro ⟨hends, hacyclic⟩
    obtain ⟨ids, hids⟩ := (TopologicalSort.exists_sort_iff h hends).mpr hacyclic
    exact ⟨_, canonicalTopologicalOrder_eq_ok.mpr ⟨hends, ids, hids, rfl⟩⟩

/-! ### Loading -/

/-- What has been loaded of these nodes: each is kept under its own identifier. -/
structure Loaded (nodes : List (ReplayGraphNode P)) (d : NodesById P) : Prop where
  nodup : (Assoc.keys d).Nodup
  own : ∀ {k node}, d.lookup k = some node → node ∈ nodes ∧ node.mutationId = k
  known : ∀ node ∈ nodes, node.mutationId ∈ Assoc.keys d

namespace Loaded

theorem nil : Loaded [] ([] : NodesById P) :=
  ⟨List.nodup_nil, fun h => (by cases h), List.forall_mem_nil _⟩

theorem putNode (h : Loaded nodes d) (node : ReplayGraphNode P) :
    Loaded (nodes ++ [node]) (putNode d node) := by
  unfold ReplayGraph.putNode
  refine ⟨Assoc.nodup_keys_set h.nodup _ _, fun {k node'} hk => ?_, fun node' hnode' => ?_⟩
  · rw [Assoc.lookup_set] at hk
    split_ifs at hk with heq
    · rw [← Option.some.inj hk]
      exact ⟨List.mem_append_right _ (List.mem_singleton_self node), heq.symm⟩
    · exact ⟨List.mem_append_left _ (h.own hk).1, (h.own hk).2⟩
  · rw [Assoc.mem_keys_set]
    rcases List.mem_append.mp hnode' with hmem | hmem
    · exact .inr (h.known node' hmem)
    · exact .inl (congrArg _ (List.mem_singleton.mp hmem))

theorem keep (h : Loaded nodes d) (hknown : node.mutationId ∈ Assoc.keys d) :
    Loaded (nodes ++ [node]) d := by
  refine ⟨h.nodup, fun hk => ⟨List.mem_append_left _ (h.own hk).1, (h.own hk).2⟩,
    List.forall_mem_append.mpr ⟨h.known, List.forall_mem_singleton.mpr hknown⟩⟩

theorem foldl (h : Loaded nodes d) (more : List (ReplayGraphNode P)) :
    Loaded (nodes ++ more) (more.foldl ReplayGraph.putNode d) := by
  induction more generalizing nodes d with
  | nil => rwa [List.append_nil]
  | cons node more ih =>
    rw [List.append_cons]
    exact ih (h.putNode node)

theorem foldlM (h : Loaded nodes d) {more : List (ReplayGraphNode P)}
    (hmerge : more.foldlM mergeNode d = .ok d') : Loaded (nodes ++ more) d' := by
  induction more generalizing nodes d with
  | nil => rwa [List.append_nil, ← Except.ok.inj hmerge]
  | cons node more ih =>
    rw [List.append_cons]
    obtain ⟨d₁, hd₁, hrest⟩ := bind_eq_ok.mp hmerge
    obtain ⟨b, hb, hput⟩ := bind_eq_ok.mp hd₁
    refine ih ?_ hrest
    rw [← Except.ok.inj hput]
    cases b with
    | true => exact h.putNode node
    | false =>
      -- The node that stays has the same identifier.
      refine h.keep (Assoc.mem_keys_iff.mpr ?_)
      cases hlookup : d.lookup node.mutationId with
      | none =>
        rw [hlookup] at hb
        cases hb
      | some existing => exact ⟨existing, rfl⟩

theorem mem_iff (h : Loaded nodes d) :
    node ∈ d.map Prod.snd ↔ d.lookup node.mutationId = some node := by
  rw [List.mem_map]
  constructor
  · rintro ⟨⟨k, node'⟩, hmem, rfl⟩
    have hlookup := (Assoc.lookup_eq_some_iff h.nodup).mpr hmem
    rwa [(h.own hlookup).2]
  · intro hlookup
    exact ⟨_, (Assoc.lookup_eq_some_iff h.nodup).mp hlookup, rfl⟩

theorem keys_perm (h : Loaded nodes d) :
    ((sortNodes d).map (·.mutationId)).Perm (Assoc.keys d) := by
  have hkeys : (d.map Prod.snd).map (·.mutationId) = Assoc.keys d := by
    unfold Assoc.keys
    rw [List.map_map]
    exact List.map_congr_left fun m hm => (h.own ((Assoc.lookup_eq_some_iff h.nodup).mpr hm)).2
  rw [← hkeys]
  exact (List.perm_insertionSort _ _).map _

theorem distinct (h : Loaded nodes d) : Distinct (sortNodes d) :=
  h.keys_perm.nodup_iff.mpr h.nodup

/-- The nodes are sorted by their identifiers, however they came. -/
theorem sortNodes_eq (h : Loaded nodes d) (h' : Loaded nodes' d')
    (heq : ∀ k, d.lookup k = d'.lookup k) : sortNodes d = sortNodes d' := by
  have hperm : (sortNodes d).Perm (sortNodes d') := by
    refine (List.perm_insertionSort _ _).trans (.trans ?_ (List.perm_insertionSort _ _).symm)
    exact (Assoc.perm_of_lookup_eq h.nodup h'.nodup heq).map _
  refine hperm.eq_of_pairwise (fun a b ha hb hab hba => ?_) (List.pairwise_insertionSort _ _)
    (List.pairwise_insertionSort _ _)
  -- Nodes of one rank have one identifier, under which there is one node.
  have hid : a.mutationId = b.mutationId :=
    congrArg Prod.fst (toLex.injective (le_antisymm hab hba))
  have ha := h.mem_iff.mp ((List.mem_insertionSort _).mp ha)
  have hb := h'.mem_iff.mp ((List.mem_insertionSort _).mp hb)
  rw [hid, heq, hb] at ha
  exact (Option.some.inj ha).symm

end Loaded

theorem sortEdges_eq {edges edges' : List (Str × Str)} (h : edges.Perm edges') :
    sortEdges edges = sortEdges edges' := by
  refine List.Perm.eq_of_pairwise (fun a b _ _ hab hba => toLex.injective (le_antisymm hab hba))
    (List.pairwise_insertionSort _ _) (List.pairwise_insertionSort _ _) ?_
  exact ((List.perm_insertionSort _ _).trans h.dedup).trans (List.perm_insertionSort _ _).symm

/-- What is found of the nodes while they are loaded. -/
abbrev Found (P : Platform) := Str → Option (ReplayGraphNode P)

def Found.put (found : Found P) (node : ReplayGraphNode P) : Found P :=
  Function.update found node.mutationId (some node)

def Found.merge (found : Found P) (node : ReplayGraphNode P) : Except Exc (Found P) := do
  return if ← prevails (found node.mutationId) node then found.put node else found

theorem lookup_putNode (d : NodesById P) (node : ReplayGraphNode P) :
    (fun k => (putNode d node).lookup k) = Found.put (fun k => d.lookup k) node := by
  funext k
  unfold putNode Found.put
  rw [Assoc.lookup_set, Function.update_apply]

theorem lookup_foldl_putNode (nodes : List (ReplayGraphNode P)) (d : NodesById P) :
    (fun k => (nodes.foldl putNode d).lookup k) = nodes.foldl Found.put fun k => d.lookup k := by
  induction nodes generalizing d with
  | nil => rfl
  | cons node nodes ih => rw [List.foldl_cons, List.foldl_cons, ih, lookup_putNode]

theorem lookup_foldlM_mergeNode (nodes : List (ReplayGraphNode P)) (d : NodesById P) :
    (nodes.foldlM mergeNode d).map (fun d k => d.lookup k) =
      nodes.foldlM Found.merge fun k => d.lookup k := by
  induction nodes generalizing d with
  | nil => rfl
  | cons node nodes ih =>
    rw [List.foldlM_cons, List.foldlM_cons]
    unfold mergeNode Found.merge
    cases prevails (d.lookup node.mutationId) node with
    | error e => rfl
    | ok b =>
      cases b with
      | false => exact ih d
      | true =>
        refine (ih (putNode d node)).trans ?_
        rw [lookup_putNode]
        rfl

theorem Distinct.foldl_perm (h : Distinct nodes) (hperm : nodes.Perm nodes') (found : Found P) :
    nodes.foldl Found.put found = nodes'.foldl Found.put found := by
  refine hperm.foldl_eq' (fun x hx y hy found => ?_) found
  by_cases hid : x.mutationId = y.mutationId
  · rw [List.inj_on_of_nodup_map h hx hy hid]
  · exact Function.update_comm hid _ _ found

theorem prevails_eq_error {existing : Option (ReplayGraphNode P)} {e : Exc}
    (h : prevails existing node = .error e) : e = .typeError := by
  -- So it does not matter which of two nodes raises first.
  have hlength : ∀ {node : ReplayGraphNode P} {e}, payloadLength node = .error e →
      e = .typeError := by
    intro node e he
    unfold payloadLength canonicalJson at he
    split at he
    · exact (Except.error.inj he).symm
    · cases he
  cases existing with
  | none => cases h
  | some existing =>
    unfold prevails at h
    dsimp only at h
    cases hnew : payloadLength node with
    | error e' =>
      rw [hnew] at h
      exact Except.error.inj h ▸ hlength hnew
    | ok new =>
      cases hold : payloadLength existing with
      | error e' =>
        rw [hnew, hold] at h
        exact Except.error.inj h ▸ hlength hold
      | ok old =>
        rw [hnew, hold] at h
        cases h

/-- Nodes with different identifiers are merged in any order. -/
theorem merge_comm (found : Found P) {x y : ReplayGraphNode P} (h : x.mutationId ≠ y.mutationId) :
    (found.merge x >>= fun found => found.merge y) =
      (found.merge y >>= fun found => found.merge x) := by
  -- What is found under the other identifier stays as it is.
  have hput : ∀ {x y : ReplayGraphNode P} (b : Bool), x.mutationId ≠ y.mutationId →
      (if b then found.put x else found) y.mutationId = found y.mutationId := fun b hne => by
    cases b with
    | false => rfl
    | true => exact Function.update_of_ne (Ne.symm hne) _ _
  unfold Found.merge
  cases hx : prevails (found x.mutationId) x with
  | error e =>
    cases hy : prevails (found y.mutationId) y with
    | error e' =>
      rw [prevails_eq_error hx, prevails_eq_error hy]
      rfl
    | ok b' =>
      show Except.error e = prevails _ x >>= _
      rw [hput b' (Ne.symm h), hx]
      rfl
  | ok b =>
    cases hy : prevails (found y.mutationId) y with
    | error e' =>
      show prevails _ y >>= _ = Except.error e'
      rw [hput b h, hy]
      rfl
    | ok b' =>
      show prevails _ y >>= _ = prevails _ x >>= _
      rw [hput b h, hy, hput b' (Ne.symm h), hx]
      cases b with
      | false => rfl
      | true =>
        cases b' with
        | false => rfl
        | true => exact congrArg Except.ok (Function.update_comm h _ _ found)

theorem Distinct.foldlM_perm (h : Distinct nodes) (hperm : nodes.Perm nodes') (found : Found P) :
    nodes.foldlM Found.merge found = nodes'.foldlM Found.merge found := by
  induction hperm generalizing found with
  | nil => rfl
  | cons node _ ih =>
    rw [List.foldlM_cons, List.foldlM_cons]
    exact bind_congr fun found => ih (List.nodup_cons.mp h).2 found
  | swap x y nodes =>
    have hne : y.mutationId ≠ x.mutationId := fun heq =>
      (List.nodup_cons.mp h).1 (List.mem_map.mpr ⟨x, List.mem_cons_self, heq.symm⟩)
    simp only [List.foldlM_cons, ← bind_assoc]
    rw [merge_comm found hne]
  | trans hperm _ ih ih' =>
    exact (ih h found).trans (ih' ((hperm.map _).nodup_iff.mp h) found)

/-! ### The events -/

/-- The same entries, nodes and edges, in any order. -/
structure SameEvidence (entries entries' : List P.Obj) (index index' : P.Obj) : Prop where
  entries : entries.Perm entries'
  nodes : (indexItems P index (str "nodes")).Perm (indexItems P index' (str "nodes"))
  edges : (indexItems P index (str "edges")).Perm (indexItems P index' (str "edges"))

theorem loadNormalizedEvidenceGraph_perm {entries entries' : List P.Obj} {index index' : P.Obj}
    (h : SameEvidence entries entries' index index') (hentries : Distinct (nodesOf P entries))
    (hnodes : Distinct (nodesOf P (indexItems P index (str "nodes")))) :
    loadNormalizedEvidenceGraph P entries index = loadNormalizedEvidenceGraph P entries' index' := by
  -- Both loops depend on what is found alone, and that is the same in any order.
  have hfold : (nodesOf P entries).foldl Found.put (fun _ => none) =
      (nodesOf P entries').foldl Found.put fun _ => none :=
    hentries.foldl_perm (h.entries.filterMap _) _
  have hledger := lookup_foldl_putNode (nodesOf P entries) []
  have hledger' := lookup_foldl_putNode (nodesOf P entries') []
  have hmerge := lookup_foldlM_mergeNode (nodesOf P (indexItems P index (str "nodes")))
    ((nodesOf P entries).foldl putNode [])
  have hmerge' := lookup_foldlM_mergeNode (nodesOf P (indexItems P index' (str "nodes")))
    ((nodesOf P entries').foldl putNode [])
  rw [hledger] at hmerge
  rw [hledger'] at hmerge'
  have hsame := hmerge.trans (hnodes.foldlM_perm (h.nodes.filterMap _) _)
  rw [show (nodesOf P entries).foldl Found.put (fun k => List.lookup k []) = _ from hfold] at hsame
  replace hsame := hsame.trans hmerge'.symm
  unfold loadNormalizedEvidenceGraph
  dsimp only
  cases hd : (nodesOf P (indexItems P index (str "nodes"))).foldlM mergeNode
    ((nodesOf P entries).foldl putNode []) with
  | error e =>
    cases hd' : (nodesOf P (indexItems P index' (str "nodes"))).foldlM mergeNode
      ((nodesOf P entries').foldl putNode []) with
    | error e' =>
      rw [hd, hd'] at hsame
      rw [Except.error.inj hsame]
      rfl
    | ok d' =>
      rw [hd, hd'] at hsame
      cases hsame
  | ok d =>
    cases hd' : (nodesOf P (indexItems P index' (str "nodes"))).foldlM mergeNode
      ((nodesOf P entries').foldl putNode []) with
    | error e' =>
      rw [hd, hd'] at hsame
      cases hsame
    | ok d' =>
      rw [hd, hd'] at hsame
      have hnodes := ((Loaded.nil.foldl _).foldlM hd).sortNodes_eq ((Loaded.nil.foldl _).foldlM hd')
        (congrFun (Except.ok.inj hsame))
      have hedges := sortEdges_eq ((h.edges.filterMap fun e =>
        e.members?.bind (indexEdge P)).append_left ((sortNodes d').filterMap parentEdge))
      show Except.ok _ = Except.ok _
      rw [hnodes, hedges]

/-- The events are the same for entries, nodes and edges in any order. -/
theorem replayTraversalEvents_perm {entries entries' : List P.Obj} {index index' : P.Obj}
    (h : SameEvidence entries entries' index index') (hentries : Distinct (nodesOf P entries))
    (hnodes : Distinct (nodesOf P (indexItems P index (str "nodes")))) (verifier : Verifier) :
    replayTraversalEvents P entries index verifier =
      replayTraversalEvents P entries' index' verifier := by
  unfold replayTraversalEvents
  rw [loadNormalizedEvidenceGraph_perm h hentries hnodes]

/-! ### What a replay has seen -/

/-- The nodes that a replay is given. -/
def evidence (P : Platform) (entries : List P.Obj) (index : P.Obj) : List (ReplayGraphNode P) :=
  nodesOf P entries ++ nodesOf P (indexItems P index (str "nodes"))

theorem loadNormalizedEvidenceGraph_eq_ok {entries : List P.Obj} {index : P.Obj}
    (h : loadNormalizedEvidenceGraph P entries index = .ok (nodes, edges)) :
    Distinct nodes ∧ (∀ node ∈ nodes, node ∈ evidence P entries index) ∧
      (∀ node ∈ evidence P entries index, node.mutationId ∈ nodes.map (·.mutationId)) ∧
        ∀ node ∈ nodes, ∀ e, parentEdge node = some e → e ∈ edges := by
  obtain ⟨d, hd, hloaded⟩ := bind_eq_ok.mp h
  obtain ⟨rfl, rfl⟩ := Prod.mk.inj (Except.ok.inj hloaded)
  have hall : Loaded (evidence P entries index) d := (Loaded.nil.foldl _).foldlM hd
  refine ⟨hall.distinct, fun node hnode => ?_, fun node hnode => ?_, fun node hnode e he => ?_⟩
  · have hmem := (List.mem_insertionSort _).mp hnode
    exact (hall.own (hall.mem_iff.mp hmem)).1
  · exact hall.keys_perm.mem_iff.mpr (hall.known node hnode)
  · unfold sortEdges
    rw [List.mem_insertionSort, List.mem_dedup]
    exact List.mem_append_left _ (List.mem_filterMap.mpr ⟨node, hnode, he⟩)

/-- The node has the hash of what it says, and a signature of it if there is a verifier. -/
structure Sealed (verifier : Verifier) (nodes : List (ReplayGraphNode P))
    (node : ReplayGraphNode P) : Prop where
  hash : canonicalEventHash node = .ok node.eventHash
  signature : ∀ verify, verifier = some verify → verify node.eventHash node.bundle = true
  parentHash : node.parentMutationId ≠ [] → node.parentHash ≠ [] → ∃ parent ∈ nodes,
    parent.mutationId = node.parentMutationId ∧ parent.eventHash = node.parentHash

theorem sealed_of_validateHashOf {verifier : Verifier}
    (h : validateHashOf verifier nodes node = .ok ()) : Sealed verifier nodes node := by
  obtain ⟨expectedHash, hexpected, h⟩ := bind_eq_ok.mp h
  dsimp only at h
  by_cases hhash : node.eventHash ≠ expectedHash
  · rw [if_pos hhash] at h
    cases h
  rw [if_neg hhash] at h
  obtain ⟨⟨⟩, hparent, hsignature⟩ := bind_eq_ok.mp h
  obtain rfl := not_not.mp hhash
  refine ⟨mapError_eq_ok.mp hexpected, ?_, fun hne hhash => ?_⟩
  · rintro verify rfl
    unfold checkSignature invalid at hsignature
    dsimp only at hsignature
    split_ifs at hsignature with hmissing hverify
    exact hverify
  · unfold checkParentHash invalid at hparent
    rw [if_pos ⟨hne, hhash⟩] at hparent
    cases hbyId : byId nodes node.parentMutationId with
    | none =>
      rw [hbyId] at hparent
      cases hparent
    | some parent =>
      rw [hbyId] at hparent
      dsimp only at hparent
      split_ifs at hparent with hsame
      obtain ⟨hmem, hid⟩ := mutationId_of_byId hbyId
      exact ⟨parent, hmem, hid, (not_not.mp hsame).symm⟩

theorem forM_eq_ok {ε α : Type} {f : α → Except ε Unit} {l : List α} (h : l.forM f = .ok ()) :
    ∀ a ∈ l, f a = .ok () := by
  induction l with
  | nil => exact List.forall_mem_nil _
  | cons a l ih =>
    obtain ⟨⟨⟩, ha, hl⟩ := bind_eq_ok.mp h
    exact List.forall_mem_cons.mpr ⟨ha, ih hl⟩

/-- What the events of a replay are. -/
structure Replayed (entries : List P.Obj) (index : P.Obj) (verifier : Verifier)
    (events : List ReplayTraversalEvent) : Prop where
  numbered : events.map (·.sequence) = List.range events.length
  distinct : (events.map (·.mutationId)).Nodup
  /-- No mutation of the ledger or the index is left out. -/
  complete : ∀ node ∈ evidence P entries index, node.mutationId ∈ events.map (·.mutationId)
  /-- Each event is that of a node that is there. -/
  sound : ∃ nodes, (∀ node ∈ nodes, node ∈ evidence P entries index) ∧
    ∀ e ∈ events, ∃ node ∈ nodes, e = eventOf node e.sequence ∧ Sealed verifier nodes node
  parents : ∀ before e after, events = before ++ e :: after → e.parentMutationId ≠ [] →
    e.parentMutationId ∈ before.map (·.mutationId)

/-- A replay that returns has an event for each mutation, after that of its parent. -/
theorem replayed_of_replayTraversalEvents {entries : List P.Obj} {index : P.Obj}
    {verifier : Verifier} {events : List ReplayTraversalEvent}
    (h : replayTraversalEvents P entries index verifier = .ok events) :
    Replayed entries index verifier events := by
  obtain ⟨⟨nodes, edges⟩, hload, h⟩ := bind_eq_ok.mp h
  obtain ⟨hdistinct, hsub, hknown, hedges⟩ :=
    loadNormalizedEvidenceGraph_eq_ok (mapError_eq_ok.mp hload)
  obtain ⟨⟨⟩, -, h⟩ := bind_eq_ok.mp h
  obtain ⟨⟨⟩, hvalid, h⟩ := bind_eq_ok.mp h
  obtain ⟨ordered, hordered, h⟩ := bind_eq_ok.mp h
  obtain rfl := Except.ok.inj h
  obtain ⟨hperm, hparents⟩ := (inOrder_of_canonicalTopologicalOrder hdistinct hordered).1
  have hids : (ordered.zipIdx.map fun x => eventOf x.1 x.2).map (·.mutationId) =
      ordered.map (·.mutationId) := by
    have hfst := congrArg (List.map (·.mutationId)) (List.zipIdx_map_fst 0 ordered)
    rw [List.map_map] at hfst ⊢
    exact hfst
  have hsealed : ∀ node ∈ nodes, Sealed verifier nodes node := fun node hnode =>
    sealed_of_validateHashOf (forM_eq_ok hvalid node hnode)
  have hsound : ∀ e ∈ ordered.zipIdx.map (fun x => eventOf x.1 x.2), ∃ node ∈ nodes,
      e = eventOf node e.sequence := by
    intro e he
    obtain ⟨⟨node, i⟩, hx, rfl⟩ := List.mem_map.mp he
    exact ⟨node, hperm.mem_iff.mp (List.fst_mem_of_mem_zipIdx hx), rfl⟩
  refine ⟨?_, ?_, fun node hnode => ?_, ⟨nodes, hsub, fun e he => ?_⟩, ?_⟩
  · rw [List.map_map, List.length_map, List.length_zipIdx, List.range_eq_range']
    exact List.zipIdx_map_snd 0 ordered
  · rw [hids]
    exact (hperm.map _).nodup_iff.mpr hdistinct
  · rw [hids]
    exact (hperm.map _).mem_iff.mpr (hknown node hnode)
  · obtain ⟨node, hnode, heq⟩ := hsound e he
    exact ⟨node, hnode, heq, hsealed node hnode⟩
  · intro before e after hsplit hne
    obtain ⟨node, hnode, heq⟩ := hsound e (hsplit ▸ by simp)
    rw [hsplit, List.map_append, List.map_cons] at hids
    refine hparents _ _ _ hids.symm _ (hedges node hnode _ ?_)
    have hparent : node.parentMutationId = e.parentMutationId := by rw [heq]; rfl
    unfold parentEdge
    rw [if_pos (hparent ▸ hne), hparent, heq]
    rfl

/-! ### Two entries -/

/-- An entry with the hash that it should have. -/
def hashed (entry : Members reference.Float) : reference.Obj :=
  let hash := (normalizeNode reference entry).bind fun node => (canonicalEventHash node).toOption
  .dict (entry ++ [(.str (str "event_hash"), .str (hash.getD []))])

/-- The mutation "b", and then its parent. -/
def exampleEntries : List reference.Obj :=
  [hashed [(.str (str "mutation_id"), .str (str "b")),
      (.str (str "parent_mutation_id"), .str (str "a"))],
    hashed [(.str (str "mutation_id"), .str (str "a"))]]

theorem canonicalTopologicalOrder_example : ∃ ordered,
    canonicalTopologicalOrder (nodesOf reference exampleEntries) [(str "a", str "b")] = .ok ordered ∧
      InOrder (nodesOf reference exampleEntries) [(str "a", str "b")] ordered := by
  obtain ⟨ordered, h⟩ := exists_of_isOk (x := canonicalTopologicalOrder
    (nodesOf reference exampleEntries) [(str "a", str "b")]) (by decide +kernel)
  exact ⟨ordered, h, ((canonicalTopologicalOrder_spec _ (by decide +kernel)).2 ordered h).1⟩

theorem replayTraversalEvents_reverse :
    replayTraversalEvents reference exampleEntries .none none =
      replayTraversalEvents reference exampleEntries.reverse .none none :=
  replayTraversalEvents_perm ⟨(List.reverse_perm _).symm, .refl _, .refl _⟩ (by decide +kernel)
    (by decide +kernel) none

theorem replayed_exampleEntries : ∃ events,
    replayTraversalEvents reference exampleEntries .none none = .ok events ∧
      Replayed exampleEntries .none none events := by
  obtain ⟨events, h⟩ := exists_of_isOk
    (x := replayTraversalEvents reference exampleEntries .none none) (by decide +kernel)
  exact ⟨events, h, replayed_of_replayTraversalEvents h⟩

end Adaad.ReplayGraph
