import Adaad.Evolution.Equiv.DagRows
import Adaad.Forest
import Adaad.Py.Reference
import Adaad.Run

/-!
# The shape of the lineage DAG

The parents and generations of the nodes (`places`) make a forest when each node comes right after a
parent that is there (`Placed`).  The two traversals then give the ancestors and the descendants of
a node (`structured_of_placed`).
-/

namespace Adaad.Evolution.LineageDag

open Py

variable {P : Platform}

/-- The parent and the generation of each node. -/
def places (nodes : List (Str × LineageNode P)) : List (Str × (Option Str × Int)) :=
  Assoc.mapValues (fun n => (n.parentId, n.generation)) nodes

/-- `self._nodes[node_id].parent_id`, if there is such a node. -/
def parentIn (nodes : List (Str × LineageNode P)) (nodeId : Str) : Option Str :=
  (nodes.lookup nodeId).bind (·.parentId)

/-- What is meant to hold of the nodes in memory, and of the traversals over them. -/
structure Structured (nodes : List (Str × LineageNode P)) : Prop where
  parent : ∀ m ∈ nodes, ∀ p, m.2.parentId = some p →
    ∃ q, nodes.lookup p = some q ∧ m.2.generation = q.generation + 1
  root : ∀ m ∈ nodes, m.2.parentId = none → m.2.generation = 0
  depth : ∀ m ∈ nodes, m.2.generation ≤ maxGenerationDepth
  approved : ∀ m ∈ nodes, m.2.promoted = true → m.2.humanApproved = true
  /-- The chain of a node has the generations from 0 to its own. -/
  chain : ∀ m ∈ nodes, ∀ fuel : Nat, m.2.generation < fuel → ∃ c,
    getLineageChain nodes fuel m.1 = some (.ok c) ∧
      c.map (·.generation) = (List.range (m.2.generation.toNat + 1)).map Int.ofNat ∧
      c.getLast? = some m.2
  /-- The subtree of a node has the node and its descendants, once each. -/
  subtree : ∀ m ∈ nodes, ∀ fuel, nodes.length ≤ fuel → ∃ r,
    collectSubtree nodes fuel m.1 = some r ∧ (r.map (·.nodeId)).Nodup ∧
      ∀ n, n ∈ r ↔ n ∈ nodes.map Prod.snd ∧ Forest.Descends (parentIn nodes) m.1 n.nodeId

/-- The nodes are a `dict` under their own ids, and none is promoted that is not approved. -/
structure Sane (nodes : List (Str × LineageNode P)) : Prop where
  keyed : ∀ m ∈ nodes, m.1 = m.2.nodeId
  nodup : (Assoc.keys nodes).Nodup
  approved : ∀ m ∈ nodes, m.2.promoted = true → m.2.humanApproved = true

/-- Each node is one generation below a parent that is there, or a root. -/
structure Placed (ps : List (Str × (Option Str × Int))) : Prop where
  parent : ∀ m ∈ ps, ∀ p, m.2.1 = some p → ∃ q ∈ ps, q.1 = p ∧ m.2.2 = q.2.2 + 1
  root : ∀ m ∈ ps, m.2.1 = none → m.2.2 = 0
  nonneg : ∀ m ∈ ps, 0 ≤ m.2.2
  depth : ∀ m ∈ ps, m.2.2 ≤ maxGenerationDepth

variable {nodes : List (Str × LineageNode P)}

/-! ### The forest -/

theorem Sane.lookup_eq (hs : Sane nodes) {m : Str × LineageNode P} (hm : m ∈ nodes) :
    nodes.lookup m.1 = some m.2 :=
  (Assoc.lookup_eq_some_iff hs.nodup).mpr hm

theorem Sane.parentIn_eq (hs : Sane nodes) {m : Str × LineageNode P} (hm : m ∈ nodes) :
    parentIn nodes m.1 = m.2.parentId := by
  unfold parentIn
  rw [hs.lookup_eq hm, Option.bind_some]

theorem mem_places {m : Str × LineageNode P} (hm : m ∈ nodes) :
    (m.1, (m.2.parentId, m.2.generation)) ∈ places nodes :=
  List.mem_map_of_mem hm

theorem Placed.exists_parent (hp : Placed (places nodes)) (hs : Sane nodes)
    {m : Str × LineageNode P} (hm : m ∈ nodes) {p : Str} (hparent : m.2.parentId = some p) :
    ∃ q, (p, q) ∈ nodes ∧ nodes.lookup p = some q ∧ m.2.generation = q.generation + 1 := by
  obtain ⟨x, hx, hxp, hgeneration⟩ := hp.parent _ (mem_places hm) p hparent
  obtain ⟨q, hq, rfl⟩ := List.mem_map.mp hx
  obtain rfl : q.1 = p := hxp
  exact ⟨q.2, hq, hs.lookup_eq hq, hgeneration⟩

def rankIn (nodes : List (Str × LineageNode P)) (nodeId : Str) : Nat :=
  ((nodes.lookup nodeId).map (·.generation.toNat)).getD 0

theorem Sane.rankIn_eq (hs : Sane nodes) {m : Str × LineageNode P} (hm : m ∈ nodes) :
    rankIn nodes m.1 = m.2.generation.toNat := by
  unfold rankIn
  rw [hs.lookup_eq hm, Option.map_some, Option.getD_some]

theorem Placed.ranked (hp : Placed (places nodes)) (hs : Sane nodes) :
    Forest.Ranked (Assoc.keys nodes) (parentIn nodes) (rankIn nodes) where
  nodup := hs.nodup
  parent_mem a ha p hparent := by
    obtain ⟨m, hm, rfl⟩ := List.mem_map.mp ha
    rw [hs.parentIn_eq hm] at hparent
    obtain ⟨q, hq, -, -⟩ := hp.exists_parent hs hm hparent
    exact List.mem_map_of_mem hq
  rank_parent a ha p hparent := by
    obtain ⟨m, hm, rfl⟩ := List.mem_map.mp ha
    rw [hs.parentIn_eq hm] at hparent
    obtain ⟨q, hq, -, hgeneration⟩ := hp.exists_parent hs hm hparent
    have hnonneg : 0 ≤ q.generation := hp.nonneg _ (mem_places hq)
    have hrank : rankIn nodes p = q.generation.toNat := hs.rankIn_eq hq
    rw [hs.rankIn_eq hm, hrank]
    omega
  rank_root a ha hparent := by
    obtain ⟨m, hm, rfl⟩ := List.mem_map.mp ha
    rw [hs.parentIn_eq hm] at hparent
    have hzero : m.2.generation = 0 := hp.root _ (mem_places hm) hparent
    rw [hs.rankIn_eq hm, hzero]
    rfl

/-! ### The ancestors -/

/-- The loop of `get_lineage_chain` adds the ancestors of the node it has come to.  What was visited
is farther from the root, so no cycle is found. -/
theorem climb_eq (hp : Placed (places nodes)) (hs : Sane nodes) {fuel : Nat}
    {m : Str × LineageNode P} (hm : m ∈ nodes) {l : List Str}
    (hl : Forest.ancestors (parentIn nodes) fuel m.1 = some l) (chain : List (LineageNode P))
    {visited : List Str} (hvisited : ∀ v ∈ visited, rankIn nodes m.1 ≤ rankIn nodes v) :
    ∃ ns, climb nodes fuel m.2 chain visited = some (.ok (chain ++ ns).reverse) ∧
      (m.2 :: ns).map (·.generation.toNat) = l.map (rankIn nodes) ∧
      ∀ n ∈ ns, n ∈ nodes.map Prod.snd := by
  induction fuel generalizing m l chain visited with
  | zero => cases hl
  | succ fuel ih =>
    rw [Forest.ancestors, hs.parentIn_eq hm] at hl
    rw [climb]
    cases hparent : m.2.parentId with
    | none =>
      rw [hparent] at hl
      obtain rfl := Option.some.inj hl
      refine ⟨[], by rw [List.append_nil], ?_, fun n hn => absurd hn List.not_mem_nil⟩
      rw [List.map_singleton, List.map_singleton, hs.rankIn_eq hm]
    | some p =>
      rw [hparent] at hl
      obtain ⟨l', hl', rfl⟩ := Option.map_eq_some_iff.mp hl
      obtain ⟨q, hq, hlookup, -⟩ := hp.exists_parent hs hm hparent
      have hrank := (hp.ranked hs).rank_parent m.1 (List.mem_map_of_mem hm) p
        (by rw [hs.parentIn_eq hm, hparent])
      have hnew : p ∉ visited := fun hv => by
        have := hvisited p hv
        omega
      have hvisited' : ∀ v ∈ p :: visited, rankIn nodes p ≤ rankIn nodes v := by
        intro v hv
        rcases List.mem_cons.mp hv with rfl | hv
        · exact Nat.le_refl _
        · have := hvisited v hv
          omega
      obtain ⟨ns, hclimb, hranks, hmem⟩ := ih (m := (p, q)) hq hl' (chain ++ [q]) hvisited'
      refine ⟨q :: ns, ?_, ?_, ?_⟩
      · dsimp only
        rw [if_neg hnew, hlookup]
        dsimp only
        rw [hclimb, List.append_assoc]
        rfl
      · rw [List.map_cons, hranks, List.map_cons, hs.rankIn_eq hm]
      · intro n hn
        rcases List.mem_cons.mp hn with rfl | hn
        · exact List.mem_map_of_mem hq
        · exact hmem n hn

theorem Placed.chain (hp : Placed (places nodes)) (hs : Sane nodes) {m : Str × LineageNode P}
    (hm : m ∈ nodes) {fuel : Nat} (hfuel : m.2.generation < fuel) :
    ∃ c, getLineageChain nodes fuel m.1 = some (.ok c) ∧
      c.map (·.generation) = (List.range (m.2.generation.toNat + 1)).map Int.ofNat ∧
      c.getLast? = some m.2 := by
  have hrank : rankIn nodes m.1 < fuel := by
    have hnonneg : 0 ≤ m.2.generation := hp.nonneg _ (mem_places hm)
    rw [hs.rankIn_eq hm]
    omega
  obtain ⟨l, hl, hranks, -⟩ :=
    (hp.ranked hs).exists_ancestors (List.mem_map_of_mem hm) hrank
  have hvisited : ∀ v ∈ [m.1], rankIn nodes m.1 ≤ rankIn nodes v := by
    intro v hv
    rw [List.mem_singleton.mp hv]
  obtain ⟨ns, hclimb, hns, hmem⟩ := climb_eq hp hs hm hl [m.2] hvisited
  refine ⟨(m.2 :: ns).reverse, ?_, ?_, ?_⟩
  · unfold getLineageChain
    rw [hs.lookup_eq hm]
    exact hclimb
  · have hgenerations : (m.2 :: ns).map (·.generation) =
        ((m.2 :: ns).map (·.generation.toNat)).map Int.ofNat := by
      rw [List.map_map]
      refine List.map_congr_left fun n hn => ?_
      have hn : n ∈ nodes.map Prod.snd := by
        rcases List.mem_cons.mp hn with rfl | hn
        · exact List.mem_map_of_mem hm
        · exact hmem n hn
      obtain ⟨m', hm', rfl⟩ := List.mem_map.mp hn
      exact (Int.toNat_of_nonneg (hp.nonneg _ (mem_places hm'))).symm
    rw [List.map_reverse, hgenerations, hns, hranks, hs.rankIn_eq hm, List.map_reverse,
      List.reverse_reverse]
  · rw [List.getLast?_reverse]
    rfl

/-! ### The descendants -/

theorem Sane.map_nodeId (hs : Sane nodes) {m : List (Str × LineageNode P)}
    (hm : ∀ x ∈ m, x ∈ nodes) : (m.map Prod.snd).map (·.nodeId) = m.map Prod.fst := by
  rw [List.map_map]
  exact List.map_congr_left fun x hx => (hs.keyed x (hm x hx)).symm

theorem getChildren_eq (hs : Sane nodes) (nodeId : Str) :
    (getChildren nodes nodeId).map (·.nodeId) =
      Forest.children (Assoc.keys nodes) (parentIn nodes) nodeId := by
  unfold getChildren Forest.children Assoc.keys
  rw [List.filter_map, List.filter_map, hs.map_nodeId fun x hx => List.mem_of_mem_filter hx]
  refine congrArg _ (List.filter_congr fun m hm => ?_)
  show decide (m.2.parentId = some nodeId) = decide (parentIn nodes m.1 = some nodeId)
  rw [hs.parentIn_eq hm]

theorem collect_eq_walk (hs : Sane nodes) {fuel : Nat} {stack : List Str}
    (hstack : ∀ a ∈ stack, a ∈ Assoc.keys nodes) {result : List (LineageNode P)}
    (hresult : ∀ n ∈ result, n ∈ nodes.map Prod.snd) {out : List Str}
    (hout : Forest.walk (Assoc.keys nodes) (parentIn nodes) fuel stack
      (result.map (·.nodeId)) = some out) :
    ∃ r, collect nodes fuel stack result = some r ∧ r.map (·.nodeId) = out ∧
      ∀ n ∈ r, n ∈ nodes.map Prod.snd := by
  induction fuel generalizing stack result with
  | zero =>
    cases stack with
    | nil => exact ⟨result, rfl, Option.some.inj hout, hresult⟩
    | cons a stack => cases hout
  | succ fuel ih =>
    cases stack with
    | nil => exact ⟨result, rfl, Option.some.inj hout, hresult⟩
    | cons a stack =>
      obtain ⟨ha, hrest⟩ := List.forall_mem_cons.mp hstack
      obtain ⟨m, hm, rfl⟩ := List.mem_map.mp ha
      have hchildren := getChildren_eq hs m.1
      have hresult' : (result ++ [m.2]).map (·.nodeId) = result.map (·.nodeId) ++ [m.1] := by
        rw [List.map_append, List.map_singleton, hs.keyed m hm]
      rw [Forest.walk, ← hchildren, ← hresult'] at hout
      have hstack' : ∀ b ∈ ((getChildren nodes m.1).map (·.nodeId)).reverse ++ stack,
          b ∈ Assoc.keys nodes := by
        intro b hb
        rcases List.mem_append.mp hb with hb | hb
        · rw [List.mem_reverse, hchildren] at hb
          exact (Forest.mem_children.mp hb).1
        · exact hrest b hb
      have hmem' : ∀ n ∈ result ++ [m.2], n ∈ nodes.map Prod.snd := by
        intro n hn
        rcases List.mem_append.mp hn with hn | hn
        · exact hresult n hn
        · rw [List.mem_singleton.mp hn]
          exact List.mem_map_of_mem hm
      obtain ⟨r, hr, hmap, hmem⟩ := ih hstack' hmem' hout
      refine ⟨r, ?_, hmap, hmem⟩
      rw [collect, hs.lookup_eq hm]
      exact hr

theorem Placed.subtree (hp : Placed (places nodes)) (hs : Sane nodes) {m : Str × LineageNode P}
    (hm : m ∈ nodes) {fuel : Nat} (hfuel : nodes.length ≤ fuel) :
    ∃ r, collectSubtree nodes fuel m.1 = some r ∧ (r.map (·.nodeId)).Nodup ∧
      ∀ n, n ∈ r ↔ n ∈ nodes.map Prod.snd ∧ Forest.Descends (parentIn nodes) m.1 n.nodeId := by
  have hmem : m.1 ∈ Assoc.keys nodes := List.mem_map_of_mem hm
  have hlength : (Assoc.keys nodes).length ≤ fuel := by rwa [Assoc.keys, List.length_map]
  obtain ⟨out, hout, hnodup, hdescends⟩ := (hp.ranked hs).exists_walk hmem hlength
  have hstack : ∀ a ∈ [m.1], a ∈ Assoc.keys nodes := by
    intro a ha
    rwa [List.mem_singleton.mp ha]
  have hresult : ∀ n ∈ ([] : List (LineageNode P)), n ∈ nodes.map Prod.snd := List.forall_mem_nil _
  obtain ⟨r, hr, rfl, hnodes⟩ := collect_eq_walk hs hstack hresult hout
  refine ⟨r, hr, hnodup, fun n => ⟨fun hn => ?_, ?_⟩⟩
  · exact ⟨hnodes n hn, ((hdescends n.nodeId).mp (List.mem_map_of_mem hn)).2⟩
  · rintro ⟨hn, hbelow⟩
    obtain ⟨x, hx, rfl⟩ := List.mem_map.mp hn
    have hkey : x.2.nodeId ∈ Assoc.keys nodes := hs.keyed x hx ▸ List.mem_map_of_mem hx
    obtain ⟨n, hn, hid⟩ := List.mem_map.mp ((hdescends _).mpr ⟨hkey, hbelow⟩)
    obtain ⟨y, hy, rfl⟩ := List.mem_map.mp (hnodes n hn)
    -- two nodes of one id are one node
    have hlookup := hs.lookup_eq hy
    rw [hs.keyed y hy, hid, ← hs.keyed x hx, hs.lookup_eq hx] at hlookup
    rwa [Option.some.inj hlookup]

theorem structured_of_placed (hp : Placed (places nodes)) (hs : Sane nodes) : Structured nodes where
  parent m hm p hparent := by
    obtain ⟨q, -, hlookup, hgeneration⟩ := hp.exists_parent hs hm hparent
    exact ⟨q, hlookup, hgeneration⟩
  root m hm := hp.root _ (mem_places hm)
  depth m hm := hp.depth _ (mem_places hm)
  approved := hs.approved
  chain _ hm _ hfuel := hp.chain hs hm hfuel
  subtree _ hm _ hfuel := hp.subtree hs hm hfuel

end Adaad.Evolution.LineageDag

/-!
## The structure of a DAG over runs

Insertion checks where a node is put, and a promotion leaves it there.  A DAG that is opened again
has one node for all those whose ids the file does not tell apart, the last one (`merged`); where
they are of one generation, it is as well placed as the one before (`structured_run`).
-/

namespace Adaad.Evolution.LineageDag

open Py

variable {P : Platform}

/-- The id of a node that is added is not read as that of a node of another generation. -/
def Distinct (w : DagStore P) : DagCall P → Prop
  | .addNode n _ _ fault =>
    validateNode w.dag.nodes n = .ok () → fault = false → sortKeys P (.dict n.metadata) ≠ none →
      ∀ m ∈ w.dag.nodes, readAscii m.1 = readAscii n.nodeId → m.2.generation = n.generation
  | _ => True

/-! ### Places that are read back -/

def rereadPlace (m : Str × (Option Str × Int)) : Str × (Option Str × Int) :=
  (readAscii m.1, (m.2.1.map readAscii, m.2.2))

/-- The places after the file is read: the last of those that read alike. -/
def merged (ps : List (Str × (Option Str × Int))) : List (Str × (Option Str × Int)) :=
  Assoc.ofItems (ps.map rereadPlace)

/-- Places that read alike are of one generation. -/
def Alike (ps : List (Str × (Option Str × Int))) : Prop :=
  ∀ m ∈ ps, ∀ m' ∈ ps, readAscii m.1 = readAscii m'.1 → m.2.2 = m'.2.2

variable {ps : List (Str × (Option Str × Int))}

theorem exists_of_mem_merged {m : Str × (Option Str × Int)} (hm : m ∈ merged ps) :
    ∃ x ∈ ps, rereadPlace x = m :=
  List.mem_map.mp (Assoc.mem_of_mem_ofItems hm)

theorem exists_mem_merged {x : Str × (Option Str × Int)} (hx : x ∈ ps) :
    ∃ m ∈ merged ps, m.1 = readAscii x.1 := by
  have hkey : readAscii x.1 ∈ Assoc.keys (merged ps) :=
    Assoc.mem_keys_ofItems.mpr (List.mem_map_of_mem (List.mem_map_of_mem hx))
  obtain ⟨m, hm, heq⟩ := List.mem_map.mp hkey
  exact ⟨m, hm, heq⟩

theorem Placed.merged (h : Placed ps) (ha : Alike ps) : Placed (merged ps) where
  parent m hm p hparent := by
    obtain ⟨x, hx, rfl⟩ := exists_of_mem_merged hm
    obtain ⟨p, hp, rfl⟩ := Option.map_eq_some_iff.mp hparent
    obtain ⟨q, hq, rfl, hgeneration⟩ := h.parent x hx p hp
    -- the node that is read under the name of the parent need not be the parent
    obtain ⟨m, hm, hkey⟩ := exists_mem_merged hq
    obtain ⟨y, hy, rfl⟩ := exists_of_mem_merged hm
    refine ⟨rereadPlace y, hm, hkey, ?_⟩
    rw [show (rereadPlace y).2.2 = q.2.2 from ha y hy q hq hkey]
    exact hgeneration
  root m hm hparent := by
    obtain ⟨x, hx, rfl⟩ := exists_of_mem_merged hm
    exact h.root x hx (Option.map_eq_none_iff.mp hparent)
  nonneg m hm := by
    obtain ⟨x, hx, rfl⟩ := exists_of_mem_merged hm
    exact h.nonneg x hx
  depth m hm := by
    obtain ⟨x, hx, rfl⟩ := exists_of_mem_merged hm
    exact h.depth x hx

theorem Alike.merged (h : Alike ps) : Alike (merged ps) := by
  intro m hm m' hm' hread
  obtain ⟨x, hx, rfl⟩ := exists_of_mem_merged hm
  obtain ⟨y, hy, rfl⟩ := exists_of_mem_merged hm'
  refine h x hx y hy ?_
  rwa [← readAscii_readAscii x.1, ← readAscii_readAscii y.1]

theorem merged_merged : merged (merged ps) = merged ps := by
  have hfixed : (merged ps).map rereadPlace = merged ps := by
    conv_rhs => rw [← List.map_id (merged ps)]
    refine List.map_congr_left fun m hm => ?_
    obtain ⟨x, -, rfl⟩ := exists_of_mem_merged hm
    refine Prod.ext (readAscii_readAscii x.1) (Prod.ext ?_ rfl)
    show (x.2.1.map readAscii).map readAscii = x.2.1.map readAscii
    cases x.2.1 with
    | none => rfl
    | some p => exact congrArg some (readAscii_readAscii p)
  calc merged (merged ps) = Assoc.ofItems ((merged ps).map rereadPlace) := rfl
    _ = Assoc.ofItems (merged ps) := by rw [hfixed]
    _ = merged ps := Assoc.ofItems_eq_self (Assoc.nodup_keys_ofItems _)

/-! ### Insertion -/

theorem validateNode_eq_ok {nodes : List (Str × LineageNode P)} {n : LineageNode P}
    (h : validateNode nodes n = .ok ()) :
    n.nodeId ∉ Assoc.keys nodes ∧ expectedGeneration nodes n.parentId = some n.generation ∧
      n.generation ≤ maxGenerationDepth ∧ (n.promoted = true → n.humanApproved = true) := by
  unfold validateNode at h
  by_cases hid : n.nodeId ∈ Assoc.keys nodes
  · rw [if_pos hid] at h
    cases h
  rw [if_neg hid] at h
  cases hexpected : expectedGeneration nodes n.parentId with
  | none =>
    rw [hexpected] at h
    cases h
  | some expected =>
    rw [hexpected] at h
    dsimp only at h
    by_cases hgeneration : n.generation = expected
    · rw [if_neg (not_not_intro hgeneration)] at h
      by_cases hdepth : n.generation > maxGenerationDepth
      · rw [if_pos hdepth] at h
        cases h
      · rw [if_neg hdepth] at h
        by_cases happroved : n.promoted = true ∧ ¬ n.humanApproved = true
        · rw [if_pos happroved] at h
          cases h
        · refine ⟨hid, by rw [hgeneration], Int.not_lt.mp hdepth, fun hpromoted => ?_⟩
          exact Decidable.not_not.mp fun hnot => happroved ⟨hpromoted, hnot⟩
    · rw [if_pos hgeneration] at h
      cases h

theorem places_set (nodes : List (Str × LineageNode P)) (nodeId : Str) (n : LineageNode P) :
    places (Assoc.set nodes nodeId n) =
      Assoc.set (places nodes) nodeId (n.parentId, n.generation) :=
  (Assoc.set_mapValues _ nodes nodeId n).symm

theorem keys_places (nodes : List (Str × LineageNode P)) :
    Assoc.keys (places nodes) = Assoc.keys nodes :=
  Assoc.keys_mapValues _ nodes

theorem places_add {d : Dag P} {n : LineageNode P} (h : n.nodeId ∉ Assoc.keys d.nodes) :
    places (d.add n).nodes = places d.nodes ++ [(n.nodeId, (n.parentId, n.generation))] := by
  show places (Assoc.set d.nodes n.nodeId n) = _
  rw [places_set, Assoc.set_of_notMem (by rwa [keys_places])]

theorem Sane.set {nodes : List (Str × LineageNode P)} (h : Sane nodes) {n : LineageNode P}
    (hn : n.promoted = true → n.humanApproved = true) : Sane (Assoc.set nodes n.nodeId n) where
  keyed m hm := by
    rcases Assoc.mem_of_mem_set hm with rfl | hm
    · rfl
    · exact h.keyed m hm
  nodup := Assoc.nodup_keys_set h.nodup _ _
  approved m hm := by
    rcases Assoc.mem_of_mem_set hm with rfl | hm
    · exact hn
    · exact h.approved m hm

theorem places_set_approved {nodes : List (Str × LineageNode P)} {nodeId : Str} {n : LineageNode P}
    (h : nodes.lookup nodeId = some n) : places (Assoc.set nodes nodeId n.approved) = places nodes := by
  rw [places_set]
  refine Assoc.set_eq_self ?_
  show (Assoc.mapValues _ nodes).lookup nodeId = _
  rw [Assoc.lookup_mapValues, h]
  rfl

theorem places_promote (d : Dag P) (nodeId : Str) :
    places (d.promote nodeId).nodes = places d.nodes := by
  unfold Dag.promote
  split_ifs with hnil
  · rfl
  · cases hlookup : d.nodes.lookup nodeId with
    | none => rfl
    | some n => exact places_set_approved hlookup

theorem Sane.promote {d : Dag P} (h : Sane d.nodes) (nodeId : Str) :
    Sane (d.promote nodeId).nodes := by
  unfold Dag.promote
  split_ifs with hnil
  · exact h
  · cases hlookup : d.nodes.lookup nodeId with
    | none => exact h
    | some n =>
      obtain rfl : nodeId = n.nodeId := h.keyed _ (Assoc.mem_of_lookup hlookup)
      exact Sane.set (n := n.approved) h fun _ => rfl

/-! ### The rows of the file -/

theorem replay_concat {rows : List (DagRow P)} {row : DagRow P} {d d' : Dag P}
    (h : (rows ++ [row]).foldlM replayRow d = .ok d') :
    ∃ d₁, rows.foldlM replayRow d = .ok d₁ ∧ replayRow d₁ row = .ok d' := by
  rw [List.foldlM_append] at h
  obtain ⟨d₁, hd₁, hrow⟩ := bind_eq_ok.mp h
  refine ⟨d₁, hd₁, ?_⟩
  rwa [List.foldlM_cons, show (fun d => [].foldlM replayRow d) = (pure : Dag P → Except DagError _)
    from rfl, bind_pure] at hrow

/-- The rows are of nodes that are approved if they are promoted. -/
def Flagged (rows : List (DagRow P)) : Prop :=
  ∀ row ∈ rows, row.node.promoted = true → row.node.humanApproved = true

theorem sane_replay {rows : List (DagRow P)} (hrows : Flagged rows) {d : Dag P}
    (h : rows.foldlM replayRow (Dag.empty P) = .ok d) : Sane d.nodes := by
  induction rows using List.reverseRecOn generalizing d with
  | nil =>
    obtain rfl := Except.ok.inj h
    exact ⟨List.forall_mem_nil _, List.nodup_nil, List.forall_mem_nil _⟩
  | append_singleton rows row ih =>
    obtain ⟨d₁, hd₁, hrow⟩ := replay_concat h
    have hsane := ih (fun r hr => hrows r (List.mem_append_left _ hr)) hd₁
    have hflags := hrows row (List.mem_append_right _ (List.mem_singleton_self _))
    cases row with
    | addition n digest =>
      obtain ⟨m, hm, rfl⟩ := map_eq_ok.mp hrow
      obtain ⟨x, -, rfl⟩ := map_eq_ok.mp hm
      exact Sane.set hsane hflags
    | promotion n operatorId now digest =>
      obtain rfl := Except.ok.inj hrow
      exact hsane.promote _

/-! ### The invariant -/

/-- The nodes are well placed, and the file has them in the places that are read back. -/
structure Ordered (nodes : List (Str × LineageNode P)) (file : Bytes) : Prop where
  sane : Sane nodes
  placed : Placed (places nodes)
  alike : Alike (places nodes)
  rows : ∃ rows, Written rows file ∧ Flagged rows ∧
    ∀ d, rows.foldlM replayRow (Dag.empty P) = .ok d → places d.nodes = merged (places nodes)

variable {nodes : List (Str × LineageNode P)} {file file' : Bytes}

theorem ordered_fresh : Ordered ([] : List (Str × LineageNode P)) [] where
  sane := ⟨List.forall_mem_nil _, List.nodup_nil, List.forall_mem_nil _⟩
  placed := ⟨List.forall_mem_nil _, List.forall_mem_nil _, List.forall_mem_nil _,
    List.forall_mem_nil _⟩
  alike := List.forall_mem_nil _
  rows := ⟨[], written_nil, List.forall_mem_nil _, fun d hd => by
    obtain rfl := Except.ok.inj hd
    rfl⟩

theorem Placed.concat (h : Placed ps) {nodeId : Str} {parentId : Option Str} {generation : Int}
    (hparent : ∀ p, parentId = some p → ∃ q ∈ ps, q.1 = p ∧ generation = q.2.2 + 1)
    (hroot : parentId = none → generation = 0) (hdepth : generation ≤ maxGenerationDepth) :
    Placed (ps ++ [(nodeId, (parentId, generation))]) where
  parent m hm p hp := by
    rcases List.mem_append.mp hm with hm | hm
    · obtain ⟨q, hq, hkey⟩ := h.parent m hm p hp
      exact ⟨q, List.mem_append_left _ hq, hkey⟩
    · obtain rfl := List.mem_singleton.mp hm
      obtain ⟨q, hq, hkey⟩ := hparent p hp
      exact ⟨q, List.mem_append_left _ hq, hkey⟩
  root m hm hp := by
    rcases List.mem_append.mp hm with hm | hm
    · exact h.root m hm hp
    · obtain rfl := List.mem_singleton.mp hm
      exact hroot hp
  nonneg m hm := by
    rcases List.mem_append.mp hm with hm | hm
    · exact h.nonneg m hm
    · obtain rfl := List.mem_singleton.mp hm
      show 0 ≤ generation
      cases hp : parentId with
      | none => rw [hroot hp]
      | some p =>
        obtain ⟨q, hq, -, hgeneration⟩ := hparent p hp
        have := h.nonneg q hq
        omega
  depth m hm := by
    rcases List.mem_append.mp hm with hm | hm
    · exact h.depth m hm
    · obtain rfl := List.mem_singleton.mp hm
      exact hdepth

theorem Alike.concat (h : Alike ps) {nodeId : Str} {place : Option Str × Int}
    (hnew : ∀ m ∈ ps, readAscii m.1 = readAscii nodeId → m.2.2 = place.2) :
    Alike (ps ++ [(nodeId, place)]) := by
  intro m hm m' hm' hread
  rcases List.mem_append.mp hm with hm | hm
  · rcases List.mem_append.mp hm' with hm' | hm'
    · exact h m hm m' hm' hread
    · obtain rfl := List.mem_singleton.mp hm'
      exact hnew m hm hread
  · obtain rfl := List.mem_singleton.mp hm
    rcases List.mem_append.mp hm' with hm' | hm'
    · exact (hnew m' hm' hread.symm).symm
    · rw [List.mem_singleton.mp hm']

theorem merged_concat (m : Str × (Option Str × Int)) :
    merged (ps ++ [m]) = Assoc.set (merged ps) (readAscii m.1) (rereadPlace m).2 := by
  unfold merged
  rw [List.map_append, List.map_singleton, Assoc.ofItems_concat]
  rfl

theorem Ordered.add {d : Dag P} (h : Ordered d.nodes file) {n : LineageNode P} {digest : Str}
    {fault : Bool} (hvalid : validateNode d.nodes n = .ok ())
    (hdistinct : ∀ m ∈ d.nodes, readAscii m.1 = readAscii n.nodeId → m.2.generation = n.generation)
    (happend : appendRow file (additionRecord n digest) fault = .ok file') :
    Ordered (d.add n).nodes file' := by
  obtain ⟨hid, hexpected, hdepth, hflags⟩ := validateNode_eq_ok hvalid
  obtain ⟨rows, hwritten, hflagged, hplaces⟩ := h.rows
  have hadd := places_add hid
  have hwritten' : Written (rows ++ [.addition n digest]) file' := hwritten.append happend
  refine ⟨h.sane.set hflags, ?_, ?_, _, hwritten', ?_, ?_⟩
  · rw [hadd]
    refine h.placed.concat (fun p hp => ?_) (fun hp => ?_) hdepth
    · rw [hp] at hexpected
      obtain ⟨q, hq, hgeneration⟩ := Option.map_eq_some_iff.mp hexpected
      exact ⟨_, mem_places (Assoc.mem_of_lookup hq), rfl, hgeneration.symm⟩
    · rw [hp] at hexpected
      exact (Option.some.inj hexpected).symm
  · rw [hadd]
    refine h.alike.concat fun m hm => ?_
    obtain ⟨x, hx, rfl⟩ := List.mem_map.mp hm
    exact hdistinct x hx
  · intro row hrow
    rcases List.mem_append.mp hrow with hrow | hrow
    · exact hflagged row hrow
    · rw [List.mem_singleton.mp hrow]
      exact hflags
  · intro d' hd'
    obtain ⟨d₁, hd₁, hrow⟩ := replay_concat hd'
    obtain ⟨m, hm, rfl⟩ := map_eq_ok.mp hrow
    obtain ⟨x, -, rfl⟩ := map_eq_ok.mp hm
    rw [hadd, merged_concat, ← hplaces d₁ hd₁]
    exact places_set _ _ _

theorem Ordered.promote (h : Ordered nodes file) {nodeId operatorId now digest : Str}
    {n : LineageNode P} (hlookup : nodes.lookup nodeId = some n) {fault : Bool}
    (happend : appendRow file (promotionRecord n.approved operatorId now digest) fault = .ok file') :
    Ordered (Assoc.set nodes nodeId n.approved) file' := by
  obtain ⟨rows, hwritten, hflagged, hplaces⟩ := h.rows
  obtain rfl : nodeId = n.nodeId := h.sane.keyed _ (Assoc.mem_of_lookup hlookup)
  have hsame := places_set_approved hlookup
  have hwritten' : Written (rows ++ [.promotion n.approved operatorId now digest]) file' :=
    hwritten.append happend
  refine ⟨Sane.set (n := n.approved) h.sane fun _ => rfl, by rw [hsame]; exact h.placed,
    by rw [hsame]; exact h.alike, _, hwritten', ?_, ?_⟩
  · intro row hrow
    rcases List.mem_append.mp hrow with hrow | hrow
    · exact hflagged row hrow
    · rw [List.mem_singleton.mp hrow]
      exact fun _ => rfl
  · intro d' hd'
    obtain ⟨d₁, hd₁, hrow⟩ := replay_concat hd'
    obtain rfl := Except.ok.inj hrow
    rw [places_promote, hsame, hplaces d₁ hd₁]

theorem Ordered.reopen (h : Ordered nodes file) {d : Dag P} (hload : load P file = .ok d) :
    Ordered d.nodes file := by
  obtain ⟨rows, hwritten, hflagged, hplaces⟩ := h.rows
  rw [load_of_written hwritten] at hload
  have hsame := hplaces d hload
  refine ⟨sane_replay hflagged hload, by rw [hsame]; exact h.placed.merged h.alike,
    by rw [hsame]; exact h.alike.merged, rows, hwritten, hflagged, fun d' hd' => ?_⟩
  rw [hplaces d' hd', hsame, merged_merged]

/-! ### Runs -/

theorem of_appendRow {row : DagRow P} {fault : Bool}
    (h : appendRow file row.record fault = .ok file') :
    fault = false ∧ sortKeys P (.dict row.node.metadata) ≠ none := by
  obtain ⟨hfault, happend⟩ := appendRow_eq_ok h
  refine ⟨hfault, fun hnone => ?_⟩
  obtain ⟨t, -, hdumps, -, -⟩ := appendSorted_eq_ok happend
  obtain ⟨s, hs, -⟩ := Option.map_eq_some_iff.mp hdumps
  have hmem : (Key.str (str "metadata"), Value.dict row.node.metadata) ∈ row.record :=
    mem_record_of_mem_payload (by simp [LineageNode.toPayload])
  obtain ⟨t', ht'⟩ := exists_dumpsSorted_of_mem P hs hmem
  rw [dumpsSorted, hnone] at ht'
  cases ht'

theorem validateNode_stamped (nodes : List (Str × LineageNode P)) (n : LineageNode P) (now : Str) :
    validateNode nodes (n.stamped now) = validateNode nodes n := by
  unfold LineageNode.stamped
  split_ifs <;> rfl

theorem Ordered.addNode {w : DagStore P} (h : Ordered w.dag.nodes w.file) {n : LineageNode P}
    {wf : (Value.dict n.metadata).WF} {now : Str} {fault : Bool}
    (hc : Distinct w (.addNode n wf now fault)) :
    Ordered (w.step (.addNode n wf now fault)).dag.nodes (w.step (.addNode n wf now fault)).file := by
  unfold DagStore.step DagStore.call LineageDag.addNode
  dsimp only
  cases hvalid : validateNode w.dag.nodes n with
  | error e => exact h
  | ok u =>
    dsimp only
    cases happend : appendRow w.file (additionRecord (n.stamped now)
        (nextDigest P w.dag.chainDigest (n.stamped now))) fault with
    | error e => exact h
    | ok file =>
      obtain ⟨hfault, hsort⟩ := @of_appendRow _ _ _ (.addition (n.stamped now) _) _ happend
      have hid : (n.stamped now).nodeId = n.nodeId ∧
          (n.stamped now).generation = n.generation ∧ (n.stamped now).metadata = n.metadata := by
        unfold LineageNode.stamped
        split_ifs <;> exact ⟨rfl, rfl, rfl⟩
      have hdistinct := hc hvalid hfault (by rw [← hid.2.2]; exact hsort)
      rw [← hid.1, ← hid.2.1] at hdistinct
      exact h.add (by rw [validateNode_stamped]; exact hvalid) hdistinct happend

theorem Ordered.step {w : DagStore P} (h : Ordered w.dag.nodes w.file) {c : DagCall P}
    (hc : Distinct w c) : Ordered (w.step c).dag.nodes (w.step c).file := by
  cases c with
  | addNode n wf now fault => exact h.addNode hc
  | promoteNode nodeId operatorId now fault =>
    unfold DagStore.step DagStore.call LineageDag.promoteNode
    dsimp only
    cases hlookup : w.dag.nodes.lookup nodeId with
    | none => exact h
    | some n =>
      dsimp only
      cases happend : appendRow w.file
          (promotionRecord n.approved operatorId now w.dag.chainDigest) fault with
      | error e => exact h
      | ok file => exact h.promote hlookup happend
  | reopen =>
    unfold DagStore.step DagStore.call
    dsimp only
    cases hload : load P w.file with
    | error e => exact h
    | ok d => exact h.reopen hload

theorem ordered_run {cs : List (DagCall P)}
    (h : Run.Meets DagStore.step Distinct (DagStore.fresh P) cs) :
    Run.Always DagStore.step (fun w => Ordered w.dag.nodes w.file) (DagStore.fresh P) cs :=
  Run.always_of_step (fun _ _ hw hc => hw.step hc) ordered_fresh h

def plainNode (nodeId : Str) (parentId : Option Str) (generation : Int) :
    LineageNode reference where
  nodeId
  parentId
  generation
  agentOrigin := str "architect"
  epochId := str "epoch-000"
  fitnessScore := .float half
  mutationType := str "structural"
  humanApproved := false
  promoted := false
  createdAt := str "t0"
  metadata := []

/-- Two surrogates, and the character that JSON reads them as. -/
def surrogatePair : Str := [0xD83D, 0xDE00]
def joinedPair : Str := [0x1F600]

end Adaad.Evolution.LineageDag
