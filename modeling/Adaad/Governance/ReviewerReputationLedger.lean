import Adaad.Governance.Foundation
import Adaad.Innovations.Ledger

/-!
# The reviewer reputation ledger

`runtime/governance/reviewer_reputation_ledger.py`: a chain of the decisions of reviewers.  Whether a
decision was right is recorded as an entry of its own, under a mutation identifier that is derived
from that of the decision.
-/

namespace Adaad.Governance

open Py Innovations

variable (P : Platform)

/-! ### Entries -/

/-- `VALID_DECISIONS` -/
def validDecisions : List Str :=
  [str "approve", str "reject", str "timeout", str "override"]

/-- `GENESIS_PREV_HASH` -/
def genesisPrevHash : Str :=
  str "sha256:" ++ List.replicate 64 48

/-- The reviewer, the mutation and the epoch of a decision. -/
abbrev DecisionKey := Str × Str × Str

/-- `ReputationLedgerEntry` -/
structure ReputationLedgerEntry where
  sequenceNumber : Int
  reviewerId : Str
  epochId : Str
  mutationId : Str
  decision : Str
  rationaleLength : Int
  outcomeValidated : Option Bool
  scoringAlgorithmVersion : Str
  prevEntryHash : Str
  entryHash : Str
  deriving DecidableEq, Repr

/-- What stops a call of the ledger. -/
inductive ReputationError where
  /-- `InvalidDecisionError` -/
  | invalidDecision (decision : Str)
  /-- `DuplicateReviewError` -/
  | duplicateReview (key : DecisionKey)
  /-- `LedgerIntegrityError` -/
  | chainBreak (sequenceNumber : Int)
  | entryHashMismatch (sequenceNumber : Int)
  /-- A line of the file is no entry. -/
  | line (e : LoadError)
  | raised (e : Exc)
  deriving DecidableEq, Repr

namespace ReputationLedgerEntry

/-- The key of the entry in the index of decisions. -/
def key (e : ReputationLedgerEntry) : DecisionKey :=
  (e.reviewerId, e.mutationId, e.epochId)

/-- `True`, `False` or `None` -/
def outcomeObj : Option Bool → P.Obj
  | none => .none
  | some b => .bool b

/-- `_canonical_payload` -/
def canonicalPayload (e : ReputationLedgerEntry) : Members P.Float :=
  [(.str (str "sequence_number"), .int e.sequenceNumber),
   (.str (str "reviewer_id"), .str e.reviewerId),
   (.str (str "epoch_id"), .str e.epochId),
   (.str (str "mutation_id"), .str e.mutationId),
   (.str (str "decision"), .str e.decision),
   (.str (str "rationale_length"), .int e.rationaleLength),
   (.str (str "outcome_validated"), outcomeObj P e.outcomeValidated),
   (.str (str "scoring_algorithm_version"), .str e.scoringAlgorithmVersion),
   (.str (str "prev_entry_hash"), .str e.prevEntryHash),
   (.str (str "ledger_format_version"), .str (str "1.0")),
   (.str (str "event_type"), .str (str "reviewer_reputation_ledger_entry"))]

/-- `_compute_entry_hash`, which hashes the canonical payload. -/
def computeEntryHash (e : ReputationLedgerEntry) : Except Exc Str :=
  canonicalDigest P (.dict (e.canonicalPayload P))

/-- `verify_hash` -/
def verifyHash (e : ReputationLedgerEntry) : Except Exc Bool := do
  return e.entryHash = (← e.computeEntryHash P)

/-- `to_dict` -/
def toDict (e : ReputationLedgerEntry) : Members P.Float :=
  e.canonicalPayload P ++ [(.str (str "entry_hash"), .str e.entryHash)]

variable {P}

def outcomeOf : P.Obj → Except LoadError (Option Bool)
  | .none => .ok none
  | .bool b => .ok (some b)
  | _ => .error .foreign

/-- `from_dict`, of fields that have the types of the class. -/
def fromDict (data : Members P.Float) : Except LoadError ReputationLedgerEntry := do
  return {
    sequenceNumber := ← intAt data (str "sequence_number")
    reviewerId := ← textAt data (str "reviewer_id")
    epochId := ← textAt data (str "epoch_id")
    mutationId := ← textAt data (str "mutation_id")
    decision := ← textAt data (str "decision")
    rationaleLength := ← intAt data (str "rationale_length")
    outcomeValidated := ← outcomeOf ((get data (str "outcome_validated")).getD .none)
    scoringAlgorithmVersion := ← textAt data (str "scoring_algorithm_version")
    prevEntryHash := ← textAt data (str "prev_entry_hash")
    entryHash := ← textAt data (str "entry_hash") }

end ReputationLedgerEntry

/-! ### The ledger -/

/-- `ReviewerReputationLedger` -/
structure ReviewerReputationLedger where
  entries : List ReputationLedgerEntry
  decisionKeys : List DecisionKey
  scoringAlgorithmVersion : Str
  deriving DecidableEq, Repr

/-- The arguments of `append`. -/
structure Review where
  reviewerId : Str
  epochId : Str
  mutationId : Str
  decision : Str
  rationaleLength : Int
  outcomeValidated : Option Bool
  scoringAlgorithmVersion : Option Str

/-- The arguments of `record_outcome`. -/
structure Outcome where
  reviewerId : Str
  mutationId : Str
  epochId : Str
  outcomeValidated : Bool
  scoringAlgorithmVersion : Option Str

def Review.key (a : Review) : DecisionKey :=
  (a.reviewerId, a.mutationId, a.epochId)

def Outcome.key (o : Outcome) : DecisionKey :=
  (o.reviewerId, o.mutationId, o.epochId)

/-- `f"{mutation_id}:outcome"` -/
def outcomeMutation (mutationId : Str) : Str :=
  mutationId ++ str ":outcome"

namespace ReviewerReputationLedger

/-- `__init__` -/
def new (scoringAlgorithmVersion : Str) : ReviewerReputationLedger :=
  ⟨[], [], scoringAlgorithmVersion⟩

/-- `scoring_algorithm_version or self._scoring_algorithm_version` -/
def versionFor (l : ReviewerReputationLedger) : Option Str → Str
  | some v => if v = [] then l.scoringAlgorithmVersion else v
  | none => l.scoringAlgorithmVersion

/-- The entry of a review, with the hash still to be computed. -/
def unhashed (l : ReviewerReputationLedger) (a : Review) : ReputationLedgerEntry where
  sequenceNumber := l.entries.length
  reviewerId := a.reviewerId
  epochId := a.epochId
  mutationId := a.mutationId
  decision := a.decision
  rationaleLength := a.rationaleLength
  outcomeValidated := a.outcomeValidated
  scoringAlgorithmVersion := l.versionFor a.scoringAlgorithmVersion
  prevEntryHash := (l.entries.getLast?.map ReputationLedgerEntry.entryHash).getD genesisPrevHash
  entryHash := []

/-- `append` -/
def append (l : ReviewerReputationLedger) (a : Review) :
    Except ReputationError (ReputationLedgerEntry × ReviewerReputationLedger) :=
  if a.decision ∉ validDecisions then .error (.invalidDecision a.decision)
  else if a.key ∈ l.decisionKeys then .error (.duplicateReview a.key)
  else do
    let entryHash ← ((l.unhashed a).computeEntryHash P).mapError .raised
    let entry := { l.unhashed a with entryHash := entryHash }
    return (entry,
      { l with
        entries := l.entries ++ [entry]
        decisionKeys := l.decisionKeys ++ [a.key] })

/-- The decision of the last entry with this key; without one it is taken to be an approval. -/
def originalDecision (l : ReviewerReputationLedger) (key : DecisionKey) : Str :=
  ((l.entries.filter fun e => e.key = key).getLast?.map ReputationLedgerEntry.decision).getD
    (str "approve")

/-- What `record_outcome` appends. -/
def outcomeReview (l : ReviewerReputationLedger) (o : Outcome) : Review where
  reviewerId := o.reviewerId
  epochId := o.epochId
  mutationId := outcomeMutation o.mutationId
  decision := l.originalDecision o.key
  rationaleLength := 0
  outcomeValidated := some o.outcomeValidated
  scoringAlgorithmVersion := o.scoringAlgorithmVersion

/-- `record_outcome` -/
def recordOutcome (l : ReviewerReputationLedger) (o : Outcome) :
    Except ReputationError (ReputationLedgerEntry × ReviewerReputationLedger) :=
  l.append P (l.outcomeReview o)

/-- One entry of `verify_chain_integrity`, after this hash. -/
def verifyEntry (prevHash : Str) (e : ReputationLedgerEntry) : Except ReputationError Str :=
  if e.prevEntryHash ≠ prevHash then .error (.chainBreak e.sequenceNumber)
  else do
    if ← (e.verifyHash P).mapError .raised then
      return e.entryHash
    else
      throw (.entryHashMismatch e.sequenceNumber)

/-- `verify_chain_integrity`, which returns `True` where it raises nothing. -/
def verifyChainIntegrity (l : ReviewerReputationLedger) : Except ReputationError Unit := do
  let _ ← l.entries.foldlM (verifyEntry P) genesisPrevHash

/-- `ledger_digest` -/
def ledgerDigest (l : ReviewerReputationLedger) : Except Exc Str :=
  match l.entries.getLast? with
  | none => canonicalDigest P (.dict
      [(.str (str "entries"), .list []), (.str (str "ledger_format_version"), .str (str "1.0"))])
  | some tail => canonicalDigest P (.dict
      [(.str (str "tail_entry_hash"), .str tail.entryHash),
       (.str (str "entry_count"), .int l.entries.length),
       (.str (str "ledger_format_version"), .str (str "1.0"))])

/-! ### The file -/

/-- `flush`: the content of the file. -/
def flush (l : ReviewerReputationLedger) : Except Exc Bytes := do
  let lines ← l.entries.mapM fun e =>
    match dumpsSortedAscii P .compact (.dict (e.toDict P)) with
    | none => .error .typeError
    | some line => .ok line
  writeText ([lf].intercalate lines ++ if lines = [] then [] else [lf])

/-- `json.loads` of a line, and `from_dict`. -/
def entryOfLine (v : P.Obj) : Except ReputationError ReputationLedgerEntry :=
  ((itemsOf v).bind ReputationLedgerEntry.fromDict).mapError .line

/-- The ledger with one more entry that is read. -/
def addEntry (l : ReviewerReputationLedger) (e : ReputationLedgerEntry) : ReviewerReputationLedger :=
  { l with
    entries := l.entries ++ [e]
    decisionKeys := l.decisionKeys ++ [e.key] }

/-- `load` -/
def load (verifyIntegrity : Bool) (scoringAlgorithmVersion : Str) (file : Option Bytes) :
    Except ReputationError ReviewerReputationLedger :=
  match file with
  | none => .ok (new scoringAlgorithmVersion)
  | some file => do
    let rows ← (readRows P strip file).mapError .raised
    let entries ← rows.mapM (entryOfLine P)
    let l := entries.foldl addEntry (new scoringAlgorithmVersion)
    if verifyIntegrity then l.verifyChainIntegrity P
    return l

/-! ### Runs -/

end ReviewerReputationLedger

/-- What may happen to a ledger: a call, or a round trip through its file. -/
inductive ReputationAction where
  | append (a : Review)
  | recordOutcome (o : Outcome)
  | reload (verifyIntegrity : Bool) (scoringAlgorithmVersion : Str)

end Adaad.Governance
