import Adaad.Evolution.LineageDag
import Adaad.Py.Json.Equiv.AsciiRows

/-!
# The rows of the lineage DAG

The file of a DAG is a list of rows (`Written`), and reading it is replaying them: `load` folds
`replayRow` over the rows (`load_of_written`), and `integrity_check` finds the chain of the
additions (`integrityCheck_of_written`).  What a node is once it was written and read is
`LineageNode.reread`.
-/

namespace Adaad.Evolution.LineageDag

open Py

variable {P : Platform}

variable (P) in
/-- A row of the file. -/
inductive DagRow where
  | addition (n : LineageNode P) (digest : Str)
  | promotion (n : LineageNode P) (operatorId now digest : Str)

def DagRow.record : DagRow P → Members P.Float
  | .addition n digest => additionRecord n digest
  | .promotion n operatorId now digest => promotionRecord n operatorId now digest

def DagRow.node : DagRow P → LineageNode P
  | .addition n _ => n
  | .promotion n _ _ _ => n

/-! ### A node that was written and read -/

/-- The score as a `float`. -/
def Score.reread : Score P → Except DagError P.Float
  | .float x => .ok x
  | .int i => floatOfInt i
  | .bool b => floatOfInt (if b then 1 else 0)

def rereadMetadata (metadata : Members P.Float) : Members P.Float :=
  match Py.reread P (.dict metadata) with
  | some (.dict kvs) => kvs
  | _ => []

def LineageNode.reread (n : LineageNode P) : Except DagError (LineageNode P) :=
  (Score.reread n.fitnessScore).map fun x =>
    { n with
      nodeId := readAscii n.nodeId
      parentId := n.parentId.map readAscii
      agentOrigin := readAscii n.agentOrigin
      epochId := readAscii n.epochId
      fitnessScore := .float x
      mutationType := readAscii n.mutationType
      createdAt := readAscii n.createdAt
      metadata := rereadMetadata n.metadata }

/-! ### Records -/

def payloadNames : List Str :=
  [str "node_id", str "parent_id", str "generation", str "agent_origin", str "epoch_id",
    str "fitness_score", str "mutation_type", str "human_approved", str "promoted",
    str "created_at", str "metadata"]

def DagRow.extraNames : DagRow P → List Str
  | .addition _ _ => [str "chain_digest"]
  | .promotion _ _ _ _ =>
    [str "event_type", str "operator_id", str "promoted_at", str "chain_digest"]

theorem map_fst_record (row : DagRow P) :
    row.record.map Prod.fst = (payloadNames ++ row.extraNames).map Key.str := by
  cases row <;> rfl

theorem namedItems_record (row : DagRow P) : NamedItems row.record := by
  refine .of_names (payloadNames ++ row.extraNames) (map_fst_record row) ?_ ?_
  · cases row <;> (simp only [DagRow.extraNames]; decide)
  · cases row <;> (simp only [DagRow.extraNames]; decide)

/-- A row is read as `e`. -/
def Reads (row : DagRow P) (e : Members P.Float) : Prop :=
  ∀ k, get e k = (get row.record k).bind (Py.reread P)

variable {row : DagRow P} {e : Members P.Float}

theorem Reads.get_of_mem (h : Reads row e) {k : Str} {v : P.Obj} (hm : (.str k, v) ∈ row.record) :
    get e k = Py.reread P v := by
  rw [h, get_eq_some_of_mem (namedItems_record row).nodup hm, Option.bind_some]

theorem Reads.get_of_notMem (h : Reads row e) {k : Str}
    (hk : k ∉ payloadNames ++ row.extraNames) : get e k = none := by
  have hnone : get row.record k = none := by
    refine get_eq_none_of_notMem fun hm => hk ?_
    rw [map_fst_record] at hm
    obtain ⟨k', hk', heq⟩ := List.mem_map.mp hm
    rwa [← Key.str.inj heq]
  rw [h, hnone, Option.bind_none]

theorem mem_record_of_mem_payload {m : Key P.Float × P.Obj} (h : m ∈ row.node.toPayload) :
    m ∈ row.record := by
  cases row with
  | addition n digest => exact List.mem_append_left _ h
  | promotion n operatorId now digest => exact List.mem_append_left _ h

theorem Reads.get_payload (h : Reads row e) {k : Str} {v : P.Obj}
    (hm : (.str k, v) ∈ row.node.toPayload) : get e k = Py.reread P v :=
  h.get_of_mem (mem_record_of_mem_payload hm)

theorem fitnessOf_eq {s : Score P} (h : get e (str "fitness_score") = some s.value) :
    fitnessOf e = s.reread.map some := by
  unfold fitnessOf
  rw [h]
  cases s <;> rfl

theorem metadataOf_eq {kvs : Members P.Float}
    (h : get e (str "metadata") = Py.reread P (.dict kvs)) :
    metadataOf e = .ok (rereadMetadata kvs) := by
  unfold metadataOf rereadMetadata
  rw [h]
  cases hread : Py.reread P (.dict kvs) with
  | none => rfl
  | some v =>
    obtain ⟨w, hw, rfl⟩ := Option.map_eq_some_iff.mp hread
    obtain ⟨ns, -, -, rfl⟩ := (sortKeys_dict_eq_some P).mp hw
    rfl

theorem recordToNode_of_reads (h : Reads row e) :
    recordToNode e = row.node.reread.map some := by
  have hget : ∀ (k : Str) (v : P.Obj), (.str k, v) ∈ row.node.toPayload →
      get e k = Py.reread P v := fun k v hm => h.get_payload hm
  generalize row.node = n at hget
  have hid : get e (str "node_id") = some (.str (readAscii n.nodeId)) :=
    hget (str "node_id") (.str n.nodeId) (by simp [LineageNode.toPayload])
  have hgeneration : get e (str "generation") = some (.int n.generation) :=
    hget (str "generation") (.int n.generation) (by simp [LineageNode.toPayload])
  have hparent : parentOf e = .ok (n.parentId.map readAscii) := by
    unfold parentOf
    rw [hget (str "parent_id") n.parentValue (by simp [LineageNode.toPayload])]
    unfold LineageNode.parentValue
    cases n.parentId <;> rfl
  have htext : ∀ k s d : Str, (.str k, .str s) ∈ n.toPayload →
      textOr e k d = .ok (readAscii s) := by
    intro k s d hm
    unfold textOr
    rw [hget k (.str s) hm]
    rfl
  have hflag : ∀ (k : Str) (b : Bool), (.str k, .bool b) ∈ n.toPayload → flagOf e k = b := by
    intro k b hm
    unfold flagOf
    rw [hget k (.bool b) hm]
    rfl
  have hfitness : fitnessOf e = n.fitnessScore.reread.map some := by
    refine fitnessOf_eq ?_
    rw [hget (str "fitness_score") n.fitnessScore.value (by simp [LineageNode.toPayload])]
    cases n.fitnessScore <;> rfl
  have hmetadata : metadataOf e = .ok (rereadMetadata n.metadata) :=
    metadataOf_eq (hget (str "metadata") (.dict n.metadata) (by simp [LineageNode.toPayload]))
  have horigin := htext (str "agent_origin") n.agentOrigin (str "unknown")
    (by simp [LineageNode.toPayload])
  have hepoch := htext (str "epoch_id") n.epochId [] (by simp [LineageNode.toPayload])
  have htype := htext (str "mutation_type") n.mutationType (str "unknown")
    (by simp [LineageNode.toPayload])
  have hcreated := htext (str "created_at") n.createdAt [] (by simp [LineageNode.toPayload])
  have happroved := hflag (str "human_approved") n.humanApproved
    (by simp [LineageNode.toPayload])
  have hpromoted := hflag (str "promoted") n.promoted (by simp [LineageNode.toPayload])
  unfold recordToNode
  rw [hid, hgeneration]
  dsimp only
  rw [hparent, horigin, hepoch, hfitness, htype, hcreated, hmetadata, happroved, hpromoted]
  unfold LineageNode.reread
  cases n.fitnessScore.reread <;> rfl

/-! ### Replay -/

def Dag.add (d : Dag P) (n : LineageNode P) : Dag P where
  nodes := Assoc.set d.nodes n.nodeId n
  chainDigest := nextDigest P d.chainDigest n

/-- A promotion as `_load` takes it up. -/
def Dag.promote (d : Dag P) (nodeId : Str) : Dag P :=
  if nodeId = [] then d
  else
    match d.nodes.lookup nodeId with
    | none => d
    | some n => { d with nodes := Assoc.set d.nodes nodeId n.approved }

/-- What a row does to the DAG that is loaded. -/
def replayRow (d : Dag P) : DagRow P → Except DagError (Dag P)
  | .addition n _ => n.reread.map d.add
  | .promotion n _ _ _ => .ok (d.promote (readAscii n.nodeId))

theorem isPromotion_of_addition {n : LineageNode P} {digest : Str}
    (h : Reads (.addition n digest) e) : isPromotion e = false := by
  unfold isPromotion
  rw [h.get_of_notMem (by simp only [DagRow.extraNames]; decide)]

theorem isPromotion_of_promotion {n : LineageNode P} {operatorId now digest : Str}
    (h : Reads (.promotion n operatorId now digest) e) : isPromotion e = true := by
  have hget : get e (str "event_type") = some (.str (readAscii (str "promotion"))) :=
    h.get_of_mem (v := .str (str "promotion")) (List.mem_append_right _ (by simp))
  unfold isPromotion
  rw [hget]
  exact (by decide : decide (readAscii (str "promotion") = str "promotion") = true)

theorem loadRow_of_reads (h : Reads row e) (d : Dag P) :
    loadRow d (.dict e) = replayRow d row := by
  unfold loadRow
  dsimp only
  cases row with
  | addition n digest =>
    rw [isPromotion_of_addition h, if_neg Bool.false_ne_true, recordToNode_of_reads h]
    show Except.bind (Except.map some n.reread) _ = Except.map d.add n.reread
    cases n.reread <;> rfl
  | promotion n operatorId now digest =>
    have hid : get e (str "node_id") = some (.str (readAscii n.nodeId)) :=
      h.get_payload (v := .str n.nodeId) (by simp [LineageNode.toPayload, DagRow.node])
    rw [if_pos (isPromotion_of_promotion h), hid]
    unfold replayRow Dag.promote
    dsimp only
    by_cases hnil : readAscii n.nodeId = []
    · rw [if_pos hnil, if_pos hnil]
    · rw [if_neg hnil, if_neg hnil]
      cases d.nodes.lookup (readAscii n.nodeId) <;> rfl

theorem foldlM_loadRow_of_reads {rows : List (DagRow P)} {es : List (Members P.Float)}
    (h : List.Forall₂ Reads rows es) (d : Dag P) :
    (es.map Value.dict).foldlM loadRow d = rows.foldlM replayRow d := by
  induction h generalizing d with
  | nil => rfl
  | cons hrow _ ih =>
    rw [List.map_cons, List.foldlM_cons, List.foldlM_cons, loadRow_of_reads hrow]
    exact bind_congr ih

/-! ### The chain of the additions -/

/-- The rows of the additions hold the digests that start from the first one and lead to the
last. -/
inductive Chained : Str → List (DagRow P) → Str → Prop
  | nil (d : Str) : Chained d [] d
  | addition {d d' : Str} {n m : LineageNode P} {rows : List (DagRow P)} (hn : n.reread = .ok m)
      (h : Chained (nextDigest P d m) rows d') :
      Chained d (.addition n (nextDigest P d m) :: rows) d'
  | promotion {d d' : Str} (n : LineageNode P) (operatorId now digest : Str)
      {rows : List (DagRow P)} (h : Chained d rows d') :
      Chained d (.promotion n operatorId now digest :: rows) d'

theorem Chained.append {d d' d'' : Str} {rows rows' : List (DagRow P)} (h : Chained d rows d')
    (h' : Chained d' rows' d'') : Chained d (rows ++ rows') d'' := by
  induction h with
  | nil d => exact h'
  | addition hn _ ih => exact .addition hn (ih h')
  | promotion n operatorId now digest _ ih => exact .promotion n operatorId now digest (ih h')

theorem readAscii_nextDigest (prev : Str) (n : LineageNode P) :
    readAscii (nextDigest P prev n) = nextDigest P prev n :=
  readAscii_of_ascii (ascii_sha256 P _)

theorem checkRows_of_chained {d d' : Str} {rows : List (DagRow P)} {es : List (Members P.Float)}
    (h : Chained d rows d') (hes : List.Forall₂ Reads rows es) :
    checkRows d (es.map Value.dict) = .ok true := by
  induction h generalizing es with
  | nil d =>
    rw [List.forall₂_nil_left_iff.mp hes]
    rfl
  | @addition d d' n m rows hn _ ih =>
    obtain ⟨e, es, hrow, hrest, rfl⟩ := List.forall₂_cons_left_iff.mp hes
    have hdigest : get e (str "chain_digest") = some (.str (nextDigest P d m)) := by
      rw [hrow.get_of_mem (v := .str (nextDigest P d m)) (List.mem_append_right _ (by simp))]
      exact congrArg (some ∘ Value.str) (readAscii_nextDigest d m)
    have hcheck : checkRow d (.dict e) = .ok (some (nextDigest P d m)) := by
      unfold checkRow
      dsimp only
      rw [isPromotion_of_addition hrow, if_neg Bool.false_ne_true, recordToNode_of_reads hrow]
      show Except.bind (Except.map some n.reread) _ = _
      rw [hn]
      dsimp only [Except.map, Except.bind]
      rw [hdigest]
      exact congrArg Except.ok (if_pos rfl)
    rw [List.map_cons, checkRows, hcheck]
    exact ih hrest
  | @promotion d d' n operatorId now digest rows _ ih =>
    obtain ⟨e, es, hrow, hrest, rfl⟩ := List.forall₂_cons_left_iff.mp hes
    have hcheck : checkRow d (.dict e) = .ok (some d) := by
      unfold checkRow
      dsimp only
      rw [if_pos (isPromotion_of_promotion hrow)]
    rw [List.map_cons, checkRows, hcheck]
    exact ih hrest

/-! ### Files -/

def Written (rows : List (DagRow P)) (file : Bytes) : Prop :=
  WrittenRows P (rows.map DagRow.record) file

theorem written_nil : Written ([] : List (DagRow P)) [] :=
  writtenRows_nil

theorem appendRow_eq_ok {file file' : Bytes} {record : Members P.Float} {fault : Bool}
    (h : appendRow file record fault = .ok file') :
    fault = false ∧ appendSorted P file (.dict record) = .ok file' := by
  unfold appendRow at h
  cases fault with
  | true => cases h
  | false =>
    rw [if_neg Bool.false_ne_true] at h
    exact ⟨rfl, mapError_eq_ok.mp h⟩

theorem Written.append {rows : List (DagRow P)} {file file' : Bytes} {fault : Bool}
    (h : Written rows file) (happend : appendRow file row.record fault = .ok file') :
    Written (rows ++ [row]) file' := by
  unfold Written at h ⊢
  rw [List.map_append, List.map_singleton]
  exact WrittenRows.append h (appendRow_eq_ok happend).2

theorem readRaw_of_written {rows : List (DagRow P)} {file : Bytes} (h : Written rows file) :
    ∃ es : List (Members P.Float), List.Forall₂ Reads rows es ∧
      readRaw P file = .ok (es.map Value.dict) := by
  have hnamed : ∀ row ∈ rows.map DagRow.record, NamedItems row :=
    List.forall_mem_map.mpr fun row _ => namedItems_record row
  obtain ⟨es, hes, hread⟩ := looseRows_of_written hnamed h
  rw [List.forall₂_map_left_iff] at hes
  refine ⟨es, hes, ?_⟩
  unfold readRaw
  rw [hread]
  rfl

theorem load_of_written {rows : List (DagRow P)} {file : Bytes} (h : Written rows file) :
    load P file = rows.foldlM replayRow (Dag.empty P) := by
  obtain ⟨es, hes, hread⟩ := readRaw_of_written h
  rw [← foldlM_loadRow_of_reads hes]
  unfold load
  rw [hread]
  rfl

theorem integrityCheck_of_written {rows : List (DagRow P)} {file : Bytes} {d : Str}
    (h : Written rows file) (hchained : Chained genesisDigest rows d) :
    integrityCheck P file = .ok true := by
  obtain ⟨es, hes, hread⟩ := readRaw_of_written h
  unfold integrityCheck
  rw [hread]
  exact checkRows_of_chained hchained hes

end Adaad.Evolution.LineageDag
