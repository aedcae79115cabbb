import Adaad.LongestPath
import Adaad.Py.Value

/-!
# The multi-generation lineage graph

`runtime/evolution/multi_gen_lineage.py`: a graph of epochs, built from the end events of a lineage
ledger.  The generation of an epoch is found by relaxation from the epochs without parents.
-/

namespace Adaad.Evolution.MultiGenLineage

open Py LongestPath

variable {P : Platform}

/-! ### Data -/

variable (P) in
/-- An entry of the ledger, as far as it is read.  The phase is an integer or absent. -/
structure LedgerEntry where
  type : Option P.Obj
  hash : Option P.Obj
  payload : Members P.Float
  phase : Option Int
  phase_eq : get payload (str "phase") = phase.map .int

variable (P) in
structure GenerationNode where
  epochId : Str
  phase : Int
  version : Str
  outcome : Str
  ledgerHash : P.Obj
  generation : Nat
  /-- A `frozenset`. -/
  parentIds : List Str
  seedId : P.Obj
  recordedAt : P.Obj

structure GenerationEdge where
  parentId : Str
  childId : Str
  relationship : Str

variable (P) in
structure MultiGenLineageGraph where
  nodes : List (Str × GenerationNode P) := []
  edges : List GenerationEdge := []
  /-- A `set` of epochs for each epoch, as `_parents` has it too. -/
  children : List (Str × List Str) := []
  parents : List (Str × List Str) := []

variable (P) in
/-- What `seen_epochs` has of an epoch. -/
structure EpochRecord where
  phase : Int
  version : Str
  outcome : Str
  ledgerHash : P.Obj
  parentIds : List Str
  seedId : P.Obj
  recordedAt : P.Obj

/-! ### Registration -/

/-- `s.add(x)`, of a set as the list of its elements. -/
def addTo (s : List Str) (x : Str) : List Str :=
  if x ∈ s then s else s ++ [x]

/-- `d.setdefault(key, set())`, which is returned with the `dict` after it. -/
def setDefault (d : List (Str × List Str)) (key : Str) : List (Str × List Str) :=
  if key ∈ Assoc.keys d then d else d ++ [(key, [])]

/-- `d[key].add(x)` -/
def addAt (d : List (Str × List Str)) (key x : Str) : List (Str × List Str) :=
  Assoc.set d key (addTo ((d.lookup key).getD []) x)

/-- The body of the loop of `register_node`; the order of the parents is not determined. -/
def registerParent (node : GenerationNode P) (g : MultiGenLineageGraph P) (pid : Str) :
    MultiGenLineageGraph P :=
  { g with
    parents := addAt g.parents node.epochId pid
    children := addAt (setDefault g.children pid) pid node.epochId
    edges := g.edges ++ [{
      parentId := pid
      childId := node.epochId
      relationship := if truthy P node.seedId then str "seeded_by" else str "evolved_from" }] }

/-- `register_node` -/
def registerNode (g : MultiGenLineageGraph P) (node : GenerationNode P) : MultiGenLineageGraph P :=
  if node.epochId ∈ Assoc.keys g.nodes then g
  else
    node.parentIds.foldl (registerParent node) { g with
      nodes := Assoc.set g.nodes node.epochId node
      children := setDefault g.children node.epochId
      parents := setDefault g.parents node.epochId }

/-! ### The ledger -/

/-- `etype in ("EpochEndEvent", "EpochComplete", "SeedCELOutcomeEvent")` -/
def LedgerEntry.isEpochEnd (entry : LedgerEntry P) : Bool :=
  match entry.type with
  | some (.str etype) =>
    etype ∈ [str "EpochEndEvent", str "EpochComplete", str "SeedCELOutcomeEvent"]
  | _ => false

/-- `str(payload.get("epoch_id") or "")` -/
def LedgerEntry.epochId (entry : LedgerEntry P) : Str :=
  strOr P (get entry.payload (str "epoch_id"))

/-- `str(pid)`, of a `parent_epoch_id` that is true. -/
def LedgerEntry.parentId (entry : LedgerEntry P) : Option Str :=
  match get entry.payload (str "parent_epoch_id") with
  | some pid => if truthy P pid then some (toStr P pid) else none
  | none => none

/-- `str(v or w or …)`, where the last value is a text. -/
def textOr (v : Option P.Obj) (default : Str) : Str :=
  match v with
  | some x => if truthy P x then toStr P x else default
  | none => default

/-- The record that `setdefault` is called with. -/
def LedgerEntry.record (phase : Int) (version : Str) (entry : LedgerEntry P) : EpochRecord P where
  phase :=
    match entry.phase with
    | some i => if i ≠ 0 then i else phase
    | none => phase
  version := textOr (get entry.payload (str "version")) version
  outcome := textOr (orElse P (get entry.payload (str "outcome_status"))
    (get entry.payload (str "outcome"))) (str "success")
  ledgerHash := entry.hash.getD (.str [])
  parentIds := []
  seedId := (get entry.payload (str "seed_id")).getD .none
  recordedAt := (get entry.payload (str "recorded_at")).getD (.str [])

/-- A record with the parent that the entry names. -/
def EpochRecord.withParent (record : EpochRecord P) : Option Str → EpochRecord P
  | none => record
  | some pid => { record with parentIds := addTo record.parentIds pid }

variable (P) in
/-- `seen_epochs` -/
abbrev SeenEpochs := List (Str × EpochRecord P)

def scanEntry (phase : Int) (version : Str) (seen : SeenEpochs P) (entry : LedgerEntry P) :
    SeenEpochs P :=
  let eid := entry.epochId
  if eid = [] then seen
  else if entry.isEpochEnd then
    let record := (seen.lookup eid).getD (entry.record phase version)
    Assoc.set seen eid (record.withParent entry.parentId)
  else seen

def scan (phase : Int) (version : Str) (entries : List (LedgerEntry P)) : SeenEpochs P :=
  entries.foldl (scanEntry phase version) []

/-- `[e for e, r in seen_epochs.items() if eid in r["parent_ids"]]` -/
def childrenOf (seen : SeenEpochs P) (eid : Str) : List Str :=
  Assoc.keys (seen.filter fun m => eid ∈ m.2.parentIds)

/-- `[eid for eid, r in seen_epochs.items() if not r["parent_ids"]]` -/
def rootsOf (seen : SeenEpochs P) : List Str :=
  Assoc.keys (seen.filter fun m => m.2.parentIds = [])

/-- `gen_map` after the loop, which makes at most so many rounds. -/
def generations (fuel : Nat) (seen : SeenEpochs P) : Option (List (Str × Nat)) :=
  relax (childrenOf seen) fuel (start (rootsOf seen)) (rootsOf seen)

def nodeOf (genMap : List (Str × Nat)) (m : Str × EpochRecord P) : GenerationNode P where
  epochId := m.1
  phase := m.2.phase
  version := m.2.version
  outcome := m.2.outcome
  ledgerHash := m.2.ledgerHash
  generation := (genMap.lookup m.1).getD 0
  parentIds := m.2.parentIds
  seedId := m.2.seedId
  recordedAt := m.2.recordedAt

/-- `from_ledger`, of the entries that are read, or of none where reading raises; `none` where the
loop has not ended after so many rounds. -/
def fromLedger (fuel : Nat) (entries : Option (List (LedgerEntry P))) (phase : Int) (version : Str) :
    Option (MultiGenLineageGraph P) :=
  match entries with
  | none => some {}
  | some entries =>
    let seen := scan phase version entries
    (generations fuel seen).map fun genMap => (seen.map (nodeOf genMap)).foldl registerNode {}

end Adaad.Evolution.MultiGenLineage
