import Adaad.Evolution.Equiv.DagRows
import Adaad.Py.Reference
import Adaad.Run

/-!
# A DAG and its file

As long as every node comes back from its row as it is (`LineageNode.Lasting`) and no row fails to
be written, the chain of the file is intact, a DAG opened on it is the one in memory, and a call
that raises changes nothing (`persistent_run`).  Of the metadata, the order of the keys is what the
file does not keep.
-/

namespace Adaad.Evolution.LineageDag

open Py

variable {P : Platform}

/-! ### What is meant to hold -/

/-- The same node, but for the order of keys in the metadata, which `==` on a `dict` does not
see. -/
def LineageNode.Agrees (n m : LineageNode P) : Prop :=
  { n with metadata := [] } = { m with metadata := [] } ∧
    ∃ w, sortKeys P (.dict n.metadata) = some w ∧ sortKeys P (.dict m.metadata) = some w

/-- The chain is intact, and a DAG opened on the file has the nodes and the digest in memory. -/
structure Persistent (w : DagStore P) : Prop where
  intact : integrityCheck P w.file = .ok true
  reopens : ∃ dag, load P w.file = .ok dag ∧ dag.chainDigest = w.dag.chainDigest ∧
    List.Forall₂ (fun m m' => m.1 = m'.1 ∧ m.2.Agrees m'.2) w.dag.nodes dag.nodes

def Unchanged (w : DagStore P) (c : DagCall P) : Prop :=
  (w.call c).2 ≠ none → w.step c = w

/-- What the row of a node says is the node. -/
structure LineageNode.Lasting (n : LineageNode P) : Prop where
  /-- The score is a `float` already. -/
  score : ∃ x, n.fitnessScore = .float x
  /-- The metadata is what JSON has. -/
  plain : (Value.dict n.metadata).Plain
  /-- No string has surrogates that are joined when it is read. -/
  texts : (Value.dict n.toPayload).mapStr readAscii = .dict n.toPayload

/-- A node that is added lasts and its row is written; a promoted node has an id. -/
def Durable (w : DagStore P) : DagCall P → Prop
  | .addNode n _ now fault =>
    validateNode w.dag.nodes n = .ok () → fault = false ∧ (n.stamped now).Lasting
  | .promoteNode nodeId _ _ fault =>
    nodeId = [] → fault = false →
      ∀ n, w.dag.nodes.lookup nodeId = some n → n.humanApproved = true ∧ n.promoted = true
  | .reopen => True

/-! ### A node that lasts -/

/-- The node with the keys of its metadata in order. -/
def LineageNode.sorted (n : LineageNode P) : LineageNode P :=
  { n with metadata := rereadMetadata n.metadata }

def Dag.sorted (d : Dag P) : Dag P :=
  { d with nodes := Assoc.mapValues LineageNode.sorted d.nodes }

/-- A node that lasts, with metadata that is a `dict`. -/
structure LineageNode.Kept (n : LineageNode P) : Prop extends n.Lasting where
  wf : (Value.dict n.metadata).WF

namespace LineageNode.Kept

variable {n : LineageNode P} (h : n.Kept)

include h

theorem reads {m : Key P.Float × P.Obj} (hm : m ∈ n.toPayload) : m.2.mapStr readAscii = m.2 :=
  (mapStr_dict_eq_self_iff.mp h.texts m hm).2

theorem reads_str {k s : Str} (hm : (.str k, .str s) ∈ n.toPayload) : readAscii s = s :=
  Value.str.inj (h.reads hm)

theorem exists_sorted : ∃ kvs, sortKeys P (.dict n.metadata) = some (.dict kvs) ∧
    rereadMetadata n.metadata = kvs := by
  obtain ⟨w, hw⟩ := exists_sortKeys P h.plain
  obtain ⟨ns, -, -, rfl⟩ := (sortKeys_dict_eq_some P).mp hw
  have hmetadata : (Value.dict n.metadata).mapStr readAscii = .dict n.metadata :=
    h.reads (m := (.str (str "metadata"), .dict n.metadata)) (by simp [toPayload])
  refine ⟨_, hw, ?_⟩
  unfold rereadMetadata
  rw [reread_eq_sortKeys P hw h.plain h.wf hmetadata]

theorem sortKeys_sorted :
    sortKeys P (.dict n.metadata) = some (.dict n.sorted.metadata) := by
  obtain ⟨kvs, hkvs, heq⟩ := h.exists_sorted
  rw [hkvs, ← heq]
  rfl

theorem agrees_sorted : n.Agrees n.sorted :=
  ⟨rfl, _, h.sortKeys_sorted, sortKeys_sortKeys P h.sortKeys_sorted h.plain⟩

theorem reread_eq : n.reread = .ok n.sorted := by
  obtain ⟨x, hx⟩ := h.score
  have hparent : n.parentId.map readAscii = n.parentId := by
    cases hp : n.parentId with
    | none => rfl
    | some p =>
      have hread := h.reads_str (k := str "parent_id") (s := p)
        (by simp [toPayload, parentValue, hp])
      rw [Option.map_some, hread]
  unfold reread sorted
  rw [hx, hparent, h.reads_str (k := str "node_id") (s := n.nodeId) (by simp [toPayload]),
    h.reads_str (k := str "agent_origin") (s := n.agentOrigin) (by simp [toPayload]),
    h.reads_str (k := str "epoch_id") (s := n.epochId) (by simp [toPayload]),
    h.reads_str (k := str "mutation_type") (s := n.mutationType) (by simp [toPayload]),
    h.reads_str (k := str "created_at") (s := n.createdAt) (by simp [toPayload])]
  rfl

theorem sorted_kept : n.sorted.Kept := by
  have hsort := h.sortKeys_sorted
  refine ⟨⟨h.score, (plain_sortKeys_iff P hsort).mpr h.plain, ?_⟩, wf_sortKeys P hsort h.wf⟩
  have hsplit : n.sorted.toPayload = n.toPayload.take 10 ++
      [(.str (str "metadata"), .dict n.sorted.metadata)] := rfl
  rw [hsplit, mapStr_dict_eq_self_iff]
  have htexts := mapStr_dict_eq_self_iff.mp h.texts
  intro m hm
  rcases List.mem_append.mp hm with hm | hm
  · exact htexts m (List.mem_of_mem_take hm)
  · obtain rfl := List.mem_singleton.mp hm
    obtain ⟨hkey, hvalue⟩ := htexts (.str (str "metadata"), .dict n.metadata)
      (by simp [toPayload])
    exact ⟨hkey, mapStr_eq_self_of_sortKeys P hsort hvalue⟩

theorem sorted_sorted : n.sorted.sorted = n.sorted := by
  have hsort := h.sorted_kept.sortKeys_sorted
  rw [sortKeys_sortKeys P h.sortKeys_sorted h.plain] at hsort
  have heq : n.sorted.metadata = n.sorted.sorted.metadata :=
    Value.dict.inj (Option.some.inj hsort)
  calc n.sorted.sorted = { n.sorted with metadata := n.sorted.sorted.metadata } := rfl
    _ = n.sorted := by rw [← heq]

theorem approved_kept : n.approved.Kept := by
  refine ⟨⟨h.score, h.plain, ?_⟩, h.wf⟩
  have hsplit : n.approved.toPayload = n.toPayload.take 7 ++
      ([(.str (str "human_approved"), .bool true), (.str (str "promoted"), .bool true)] ++
        n.toPayload.drop 9) := rfl
  rw [hsplit, mapStr_dict_eq_self_iff]
  have htexts := mapStr_dict_eq_self_iff.mp h.texts
  intro m hm
  rcases List.mem_append.mp hm with hm | hm
  · exact htexts m (List.mem_of_mem_take hm)
  rcases List.mem_append.mp hm with hm | hm
  · have happroved := htexts (.str (str "human_approved"), .bool n.humanApproved)
      (by simp [toPayload])
    have hpromoted := htexts (.str (str "promoted"), .bool n.promoted) (by simp [toPayload])
    rcases List.mem_cons.mp hm with rfl | hm
    · exact ⟨happroved.1, rfl⟩
    · obtain rfl := List.mem_singleton.mp hm
      exact ⟨hpromoted.1, rfl⟩
  · exact htexts m (List.mem_of_mem_drop hm)

end LineageNode.Kept

/-! ### Rows that are written -/

theorem plain_of_mem_record {row : DagRow P} (h : (Value.dict row.node.metadata).Plain) :
    ∀ m ∈ row.record, m.2.Plain := by
  have hpayload : ∀ m ∈ row.node.toPayload, m.2.Plain := by
    have hparent : row.node.parentValue.Plain := by
      unfold LineageNode.parentValue
      cases row.node.parentId <;> trivial
    have hscore : (Score.value P row.node.fitnessScore).Plain := by
      cases row.node.fitnessScore <;> trivial
    simp only [LineageNode.toPayload, List.forall_mem_cons, List.not_mem_nil, false_imp_iff,
      implies_true, and_true]
    exact ⟨trivial, hparent, trivial, trivial, trivial, hscore, trivial, trivial, trivial, trivial,
      h⟩
  intro m hm
  cases row with
  | addition n digest =>
    rcases List.mem_append.mp hm with hm | hm
    · exact hpayload m hm
    · obtain rfl := List.mem_singleton.mp hm
      trivial
  | promotion n operatorId now digest =>
    rcases List.mem_append.mp hm with hm | hm
    · exact hpayload m hm
    · simp only [List.mem_cons, List.not_mem_nil, or_false] at hm
      rcases hm with rfl | rfl | rfl | rfl <;> trivial

theorem exists_appendRow {row : DagRow P} (h : row.node.Kept) (file : Bytes) :
    ∃ file', appendRow file row.record false = .ok file' := by
  have hplain : (Value.dict row.record).Plain := by
    rw [Value.Plain, plainMembers_iff]
    intro m hm
    exact ⟨(namedItems_record row).isString hm, plain_of_mem_record h.plain m hm⟩
  obtain ⟨w, hw⟩ := exists_sortKeys P hplain
  obtain ⟨file', hfile'⟩ := exists_appendSorted hw file
  refine ⟨file', ?_⟩
  unfold appendRow
  rw [if_neg Bool.false_ne_true, hfile']
  rfl

/-! ### The invariant -/

/-- The nodes in memory last, and replaying the file gives them with their keys in order. -/
structure Mirrored (w : DagStore P) : Prop where
  kept : ∀ m ∈ w.dag.nodes, m.1 = m.2.nodeId ∧ m.2.Kept
  rows : ∃ rows, Written rows w.file ∧ Chained genesisDigest rows w.dag.chainDigest ∧
    rows.foldlM replayRow (Dag.empty P) = .ok w.dag.sorted

variable {w : DagStore P}

theorem mirrored_fresh : Mirrored (DagStore.fresh P) where
  kept := List.forall_mem_nil _
  rows := ⟨[], written_nil, .nil _, rfl⟩

theorem Mirrored.persistent (h : Mirrored w) : Persistent w := by
  obtain ⟨rows, hwritten, hchained, hreplay⟩ := h.rows
  refine ⟨integrityCheck_of_written hwritten hchained, w.dag.sorted, ?_, rfl, ?_⟩
  · rw [load_of_written hwritten, hreplay]
  · show List.Forall₂ _ w.dag.nodes (w.dag.nodes.map _)
    rw [List.forall₂_map_right_iff]
    exact List.forall₂_same.mpr fun m hm => ⟨rfl, (h.kept m hm).2.agrees_sorted⟩

theorem kept_set {nodes : List (Str × LineageNode P)} (h : ∀ m ∈ nodes, m.1 = m.2.nodeId ∧ m.2.Kept)
    {n : LineageNode P} (hn : n.Kept) :
    ∀ m ∈ Assoc.set nodes n.nodeId n, m.1 = m.2.nodeId ∧ m.2.Kept := by
  intro m hm
  rcases Assoc.mem_of_mem_set hm with rfl | hm
  · exact ⟨rfl, hn⟩
  · exact h m hm

theorem Mirrored.add (h : Mirrored w) {n : LineageNode P} (hn : n.Kept) {fault : Bool}
    {file : Bytes} (happend : appendRow w.file
      (additionRecord n (nextDigest P w.dag.chainDigest n)) fault = .ok file) :
    Mirrored ⟨w.dag.add n, file⟩ := by
  obtain ⟨rows, hwritten, hchained, hreplay⟩ := h.rows
  refine ⟨kept_set h.kept hn, rows ++ [.addition n (nextDigest P w.dag.chainDigest n)], ?_, ?_, ?_⟩
  · exact hwritten.append happend
  · -- the metadata is not part of the chain
    exact hchained.append (Chained.addition (m := n.sorted) hn.reread_eq (.nil _))
  · rw [List.foldlM_append, hreplay]
    show Except.bind (n.reread.map w.dag.sorted.add) pure = _
    rw [hn.reread_eq]
    have hset := Assoc.set_mapValues LineageNode.sorted w.dag.nodes n.nodeId n
    exact congrArg (fun nodes => Except.ok (Dag.mk nodes (nextDigest P w.dag.chainDigest n))) hset

theorem approved_eq_self {n : LineageNode P} (happroved : n.humanApproved = true)
    (hpromoted : n.promoted = true) : n.approved = n := by
  cases n
  dsimp only at happroved hpromoted
  subst happroved hpromoted
  rfl

theorem Mirrored.promote (h : Mirrored w) {nodeId operatorId now : Str} {n : LineageNode P}
    (hlookup : w.dag.nodes.lookup nodeId = some n)
    (hid : nodeId = [] → n.humanApproved = true ∧ n.promoted = true) {fault : Bool} {file : Bytes}
    (happend : appendRow w.file (promotionRecord n.approved operatorId now w.dag.chainDigest)
      fault = .ok file) :
    Mirrored ⟨{ w.dag with nodes := Assoc.set w.dag.nodes nodeId n.approved }, file⟩ := by
  obtain ⟨rows, hwritten, hchained, hreplay⟩ := h.rows
  obtain ⟨hkey, hn⟩ : nodeId = n.nodeId ∧ n.Kept := h.kept _ (Assoc.mem_of_lookup hlookup)
  subst hkey
  refine ⟨kept_set h.kept hn.approved_kept,
    rows ++ [.promotion n.approved operatorId now w.dag.chainDigest], ?_, ?_, ?_⟩
  · exact hwritten.append happend
  · exact hchained.append (.promotion _ _ _ _ (.nil _))
  · rw [List.foldlM_append, hreplay]
    have hread : readAscii n.nodeId = n.nodeId :=
      hn.reads_str (k := str "node_id") (s := n.nodeId) (by simp [LineageNode.toPayload])
    show Except.ok (w.dag.sorted.promote (readAscii n.nodeId)) = _
    rw [hread]
    refine congrArg Except.ok ?_
    unfold Dag.promote
    by_cases hnil : n.nodeId = []
    · -- the file does not say that the node is promoted, but it was before
      obtain ⟨happroved, hpromoted⟩ := hid hnil
      rw [if_pos hnil, approved_eq_self happroved hpromoted, Assoc.set_eq_self hlookup]
    · have hlookup' : w.dag.sorted.nodes.lookup n.nodeId = some n.sorted := by
        show (Assoc.mapValues _ _).lookup _ = _
        rw [Assoc.lookup_mapValues, hlookup, Option.map_some]
      rw [if_neg hnil, hlookup']
      have hset := Assoc.set_mapValues LineageNode.sorted w.dag.nodes n.nodeId n.approved
      exact congrArg (fun nodes => Dag.mk nodes w.dag.chainDigest) hset

theorem Mirrored.reopen (h : Mirrored w) : Mirrored ⟨w.dag.sorted, w.file⟩ := by
  obtain ⟨rows, hwritten, hchained, hreplay⟩ := h.rows
  refine ⟨?_, rows, hwritten, hchained, ?_⟩
  · show ∀ m ∈ w.dag.nodes.map _, _
    rw [List.forall_mem_map]
    exact fun m hm => ⟨(h.kept m hm).1, (h.kept m hm).2.sorted_kept⟩
  · rw [hreplay]
    have hnodes : Assoc.mapValues LineageNode.sorted w.dag.sorted.nodes = w.dag.sorted.nodes := by
      show (w.dag.nodes.map _).map _ = w.dag.nodes.map _
      rw [List.map_map]
      exact List.map_congr_left fun m hm => Prod.ext rfl (h.kept m hm).2.sorted_sorted
    exact congrArg (fun nodes => Except.ok (Dag.mk nodes w.dag.chainDigest)) hnodes.symm

/-! ### Steps -/

theorem stamped_metadata (n : LineageNode P) (now : Str) :
    (n.stamped now).metadata = n.metadata := by
  unfold LineageNode.stamped
  split_ifs <;> rfl

theorem Mirrored.addNode (h : Mirrored w) {n : LineageNode P} (hwf : (Value.dict n.metadata).WF)
    {now : Str} {fault : Bool} (hc : Durable w (.addNode n hwf now fault)) :
    Mirrored (w.step (.addNode n hwf now fault)) ∧ Unchanged w (.addNode n hwf now fault) := by
  unfold Unchanged DagStore.step DagStore.call LineageDag.addNode
  dsimp only
  cases hvalid : validateNode w.dag.nodes n with
  | error e => exact ⟨h, fun _ => rfl⟩
  | ok u =>
    obtain ⟨rfl, hlasting⟩ := hc hvalid
    have hkept : (n.stamped now).Kept := ⟨hlasting, by rwa [stamped_metadata]⟩
    obtain ⟨file, happend⟩ := @exists_appendRow P
      (.addition (n.stamped now) (nextDigest P w.dag.chainDigest (n.stamped now))) hkept w.file
    have happend' : appendRow w.file (additionRecord (n.stamped now)
        (nextDigest P w.dag.chainDigest (n.stamped now))) false = .ok file := happend
    dsimp only
    rw [happend']
    exact ⟨h.add hkept happend', fun hraises => absurd rfl hraises⟩

theorem Mirrored.promoteNode (h : Mirrored w) {nodeId operatorId now : Str} {fault : Bool}
    (hc : Durable w (.promoteNode nodeId operatorId now fault)) :
    Mirrored (w.step (.promoteNode nodeId operatorId now fault)) ∧
      Unchanged w (.promoteNode nodeId operatorId now fault) := by
  unfold Unchanged DagStore.step DagStore.call LineageDag.promoteNode
  dsimp only
  cases hlookup : w.dag.nodes.lookup nodeId with
  | none => exact ⟨h, fun _ => rfl⟩
  | some n =>
    dsimp only
    cases happend : appendRow w.file
        (promotionRecord n.approved operatorId now w.dag.chainDigest) fault with
    | error e => exact ⟨h, fun _ => rfl⟩
    | ok file =>
      have hfault : fault = false := by
        cases fault with
        | false => rfl
        | true => cases happend
      exact ⟨h.promote hlookup (fun hid => hc hid hfault n hlookup) happend,
        fun hraises => absurd rfl hraises⟩

theorem Mirrored.step (h : Mirrored w) {c : DagCall P} (hc : Durable w c) :
    Mirrored (w.step c) ∧ Unchanged w c := by
  cases c with
  | addNode n wf now fault => exact h.addNode wf hc
  | promoteNode nodeId operatorId now fault => exact h.promoteNode hc
  | reopen =>
    obtain ⟨rows, hwritten, -, hreplay⟩ := h.rows
    unfold Unchanged DagStore.step DagStore.call
    dsimp only
    rw [load_of_written hwritten, hreplay]
    exact ⟨h.reopen, fun hraises => absurd rfl hraises⟩

/-! ### Runs -/

/-- A root with a score of `0.5`. -/
def exampleRoot (metadata : Members reference.Float) : LineageNode reference where
  nodeId := str "seed"
  parentId := none
  generation := 0
  agentOrigin := str "architect"
  epochId := str "epoch-000"
  fitnessScore := .float half
  mutationType := str "structural"
  humanApproved := false
  promoted := false
  createdAt := str "t0"
  metadata

/-- `{1: "a", "b": "c"}`, whose keys do not compare. -/
def mixedMetadata : Members reference.Float :=
  [(.int 1, .str (str "a")), (.str (str "b"), .str (str "c"))]

theorem wf_mixedMetadata : (Value.dict mixedMetadata).WF :=
  ⟨by simp [mixedMetadata], trivial, trivial, trivial⟩

end Adaad.Evolution.LineageDag
