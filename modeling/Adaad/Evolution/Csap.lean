import Adaad.Py.Assoc
import Adaad.Py.Json.Loads
import Mathlib.Data.List.Dedup

/-!
# The constitutional self-amendment protocol

`runtime/evolution/csap_protocol.py`: a proposal goes through two gates of six checks each, and what
comes of it is appended to a ledger whose records name the hash of the record before.
-/

namespace Adaad.Evolution.Csap

open Py

/-! ### Constants -/

def csapVersion : Str := str "87.1"

def amendmentIneligible : Str := str "AMENDMENT_INELIGIBLE"
def ratificationDenied : Str := str "RATIFICATION_DENIED"
def amendmentConflict : Str := str "AMENDMENT_CONFLICT"
def amendmentReplayBroken : Str := str "AMENDMENT_REPLAY_BROKEN"
def invariantParserReject : Str := str "INVARIANT_PARSER_REJECT"

/-- `_MIN_STATEMENT_TOKENS` -/
def minStatementTokens : Nat := 6

def zeroHash : Str := str "sha256:" ++ List.replicate 64 48

/-! ### Data -/

inductive InvariantClass where
  | hard
  | classBEligible
  deriving DecidableEq, Repr

/-- The statuses that `evaluate` gives. -/
inductive AmendmentStatus where
  | ratified
  | rejected
  | malformed
  deriving DecidableEq, Repr

def AmendmentStatus.value : AmendmentStatus → Str
  | .ratified => str "ratified"
  | .rejected => str "rejected"
  | .malformed => str "malformed"

inductive GateOutcome where
  | pass
  | fail
  deriving DecidableEq, Repr

def GateOutcome.value : GateOutcome → Str
  | .pass => str "PASS"
  | .fail => str "FAIL"

structure AmendmentProposal where
  proposalId : Str
  targetRuleId : Str
  intent : Str
  proposedText : Str
  rationale : Str
  evidenceRefs : List Str
  author : Str
  epochId : Str
  human0Cosignature : Option Str

structure GateReport where
  gateId : Str
  outcome : GateOutcome
  failureCode : Option Str
  checksPassed : List Str
  checksFailed : List Str
  evidenceDigest : Str
  proposalId : Str

variable (P : Platform)

/-- A number as a score. -/
abbrev Score := Int ⊕ P.Float

variable {P}

def Score.value : Score P → P.Obj
  | .inl i => .int i
  | .inr x => .float x

variable (P) in
structure RatificationRecord where
  recordId : Str
  proposalId : Str
  targetRuleId : Str
  status : AmendmentStatus
  gate0Report : GateReport
  gate1Report : Option GateReport
  ratificationHash : Str
  predecessorHash : P.Obj
  timestampUtc : Str

/-- The two files. -/
structure Files where
  queue : Bytes
  ledger : Bytes

/-- What the text of a statement is looked through with. -/
structure Alphabet where
  /-- `\w` -/
  isWord : Nat → Bool
  /-- The same letter but for its case, as `re.IGNORECASE` has it. -/
  sameLetter : Nat → Nat → Bool

variable (P) in
/-- The arguments of `evaluate`, and the clock: `none` where `now_utc` returns something that is not
a text. -/
structure Evaluation where
  proposal : AmendmentProposal
  /-- The classes of the rules in the matrix. -/
  matrix : List (Str × InvariantClass)
  governanceDebtScore : Score P
  fitnessRegressionDelta : Score P
  epochSimulationCount : Int
  acseEvidenceAvailable : Bool
  now : Option Str

/-! ### The parser of invariants -/

/-- `_MODAL_PATTERN` -/
def modalVerbs : List Str :=
  [str "MUST NOT", str "MUST", str "SHALL NOT", str "SHALL", str "SHOULD NOT", str "SHOULD"]

section parser

variable (a : Alphabet)

/-- `\b` between two characters, or at an end of the text. -/
def boundary (before after : Option Nat) : Bool :=
  before.any a.isWord != after.any a.isWord

/-- The word is at the start of the rest, with a boundary on either side. -/
def startsWithVerb (before : Option Nat) (rest verb : Str) : Bool :=
  let found := rest.take verb.length
  found.length = verb.length && (found.zip verb).all (fun m => a.sameLetter m.1 m.2) &&
    boundary a before found.head? && boundary a found.getLast? (rest.drop verb.length).head?

/-- `_MODAL_PATTERN.search` after a character. -/
def hasModal : Option Nat → Str → Bool
  | _, [] => false
  | before, c :: cs => modalVerbs.any (startsWithVerb a before (c :: cs)) || hasModal (some c) cs

/-- `InvariantParser.parse` -/
def parse (text : Str) : Bool × Str :=
  let stripped := strip text
  if stripped = [] then (false, str "INVARIANT_PARSER_REJECT: empty statement")
  else if stripped.any fun c => c = 91 ∨ c = 93 ∨ c = 60 ∨ c = 62 then
    (false, str "INVARIANT_PARSER_REJECT: placeholder tokens present")
  else
    let tokens := (stripped.splitOnP isSpace).filter (· ≠ [])
    if tokens.length < minStatementTokens then
      (false, str "INVARIANT_PARSER_REJECT: too few tokens (" ++ natText tokens.length ++ str " < " ++
        natText minStatementTokens ++ str ")")
    else if hasModal a none stripped then (true, str "OK")
    else (false, str "INVARIANT_PARSER_REJECT: no modal verb (MUST/SHALL) found")

end parser

/-! ### The files -/

variable (P) in
/-- `"sha256:" + hashlib.sha256(json.dumps(payload, sort_keys=True).encode()).hexdigest()`, of a
payload that JSON has. -/
def payloadDigest (payload : Members P.Float) : Str :=
  str "sha256:" ++ P.sha256 ((encode ((dumpsSortedAscii P .spaced (.dict payload)).getD [])).getD [])

/-- `f.write(json.dumps(payload) + "\n")` at the end of a file. -/
def appendJson (file : Bytes) (payload : Members P.Float) : Bytes :=
  file ++ (encode (dumpsAscii P .spaced (.dict payload) ++ [lf])).getD []

/-- `to_dict` of a proposal. -/
def AmendmentProposal.toDict (p : AmendmentProposal) : Members P.Float :=
  [(.str (str "proposal_id"), .str p.proposalId), (.str (str "target_rule_id"), .str p.targetRuleId),
    (.str (str "intent"), .str p.intent), (.str (str "proposed_text"), .str p.proposedText),
    (.str (str "rationale"), .str p.rationale),
    (.str (str "evidence_refs"), .list (p.evidenceRefs.map .str)),
    (.str (str "author"), .str p.author), (.str (str "epoch_id"), .str p.epochId),
    (.str (str "human_0_cosignature"), match p.human0Cosignature with
      | none => .none
      | some s => .str s)]

/-- `to_dict` of a report. -/
def GateReport.toDict (r : GateReport) : Members P.Float :=
  [(.str (str "gate_id"), .str r.gateId), (.str (str "outcome"), .str r.outcome.value),
    (.str (str "failure_code"), match r.failureCode with
      | none => .none
      | some c => .str c),
    (.str (str "checks_passed"), .list (r.checksPassed.map .str)),
    (.str (str "checks_failed"), .list (r.checksFailed.map .str)),
    (.str (str "evidence_digest"), .str r.evidenceDigest),
    (.str (str "proposal_id"), .str r.proposalId)]

/-- `to_dict` of a record. -/
def RatificationRecord.toDict (r : RatificationRecord P) : Members P.Float :=
  [(.str (str "record_id"), .str r.recordId), (.str (str "proposal_id"), .str r.proposalId),
    (.str (str "target_rule_id"), .str r.targetRuleId), (.str (str "status"), .str r.status.value),
    (.str (str "gate_0_report"), .dict r.gate0Report.toDict),
    (.str (str "gate_1_report"), match r.gate1Report with
      | none => .none
      | some g => .dict g.toDict),
    (.str (str "ratification_hash"), .str r.ratificationHash),
    (.str (str "predecessor_hash"), r.predecessorHash),
    (.str (str "timestamp_utc"), .str r.timestampUtc), (.str (str "schema_version"), .str csapVersion)]

variable (P) in
/-- `tail_hash` -/
def tailHash (ledger : Bytes) : Except Exc P.Obj :=
  match readText ledger with
  | .error e => .error e
  | .ok text =>
    match (filledLines text).getLast? with
    | none => .ok (.str zeroHash)
    | some line =>
      match loads P (strip line) with
      | none => .error .jsonDecodeError
      | some (.dict last) =>
        match get last (str "ratification_hash") with
        | none => .ok (.str zeroHash)
        | some rh => .ok (if truthy P rh then rh else .str zeroHash)
      | some _ => .error .attributeError

/-- `record.get("predecessor_hash")` -/
def predecessorOf (record : Members P.Float) : P.Obj :=
  (get record (str "predecessor_hash")).getD .none

/-- `record.get("ratification_hash", prev_hash)` -/
def hashAfter (prevHash : P.Obj) (record : Members P.Float) : P.Obj :=
  (get record (str "ratification_hash")).getD prevHash

/-- The loop of `verify_chain`, from the hash before. -/
def verifyLines : P.Obj → List Str → Except Exc Bool
  | _, [] => .ok true
  | prevHash, line :: lines =>
    match loads P (strip line) with
    | none => .ok false
    | some (.dict record) =>
      if sameValue P (predecessorOf record) prevHash then
        verifyLines (hashAfter prevHash record) lines
      else .ok false
    | some _ => .error .attributeError

variable (P) in
/-- Whether `verify_chain` finds the chain intact. -/
def verifyChain (ledger : Bytes) : Except Exc Bool :=
  match readText ledger with
  | .error e => .error e
  | .ok text => verifyLines (P := P) (.str zeroHash) (filledLines text)

/-! ### The gates -/

/-- A check: its name, whether it passes, and the failure code that it gives. -/
abbrev Check := Str × Bool × Str

/-- The report of a gate with these checks; the first that fails gives the code. -/
def gateReport (gateId : Str) (checks : List Check) (evidenceDigest proposalId : Str) :
    GateReport where
  gateId := gateId
  outcome := if checks.all fun c => c.2.1 then .pass else .fail
  failureCode := (checks.find? fun c => !c.2.1).map fun c => c.2.2
  checksPassed := (checks.filter fun c => c.2.1).map Prod.fst
  checksFailed := (checks.filter fun c => !c.2.1).map Prod.fst
  evidenceDigest := evidenceDigest
  proposalId := proposalId

variable (P) in
/-- `0.4` -/
def debtBound : Score P := .inr (P.floatOf (.lit ⟨false, str "0", str "4", none⟩))

variable (P) in
/-- `0.05` -/
def regressionBound : Score P := .inr (P.floatOf (.lit ⟨false, str "0", str "05", none⟩))

def sameScore : Score P → Score P → Bool
  | .inl i, .inl j => i = j
  | .inr x, .inr y => P.floatText x = P.floatText y
  | _, _ => false

/-- `fitness_regression_delta >= 0.05`, which no `int` equals. -/
def atLeastRegressionBound (s : Score P) : Bool :=
  P.numLt (regressionBound P) s || sameScore s (regressionBound P)

/-- A target of the class `Hard` and no co-signature. -/
def lacksCosignature (e : Evaluation P) : Bool :=
  e.matrix.lookup e.proposal.targetRuleId = some .hard &&
    (e.proposal.human0Cosignature.getD [] = [])

/-- `_gate_0_evidence_digest` -/
def gate0EvidenceDigest (proposalId : Str) (checks : List Check) : Str :=
  payloadDigest P [(.str (str "proposal_id"), .str proposalId),
    (.str (str "checks"), .dict (((checks.filter fun c => c.2.1) ++ checks.filter fun c => !c.2.1).map
      fun c => (.str c.1, .bool c.2.1)))]

/-- The checks of the first gate, where the chain of the ledger is intact or not. -/
def gate0Checks (a : Alphabet) (e : Evaluation P) (chainOk : Bool) : List Check :=
  [(str "CHECK-1-TARGET-EXISTS", (e.matrix.lookup e.proposal.targetRuleId).isSome,
      amendmentIneligible),
    (str "CHECK-2-EVIDENCE-REFS", 3 ≤ e.proposal.evidenceRefs.dedup.length, amendmentIneligible),
    (str "CHECK-3-PARSEABLE", (parse a e.proposal.proposedText).1, invariantParserReject),
    (str "CHECK-4-DEBT-SCORE", P.numLt e.governanceDebtScore (debtBound P), amendmentIneligible),
    (str "CHECK-5-HISTORY-DIGEST", chainOk, amendmentReplayBroken),
    (str "CHECK-6-HARD-CLASS-COSIGN", !lacksCosignature e, amendmentConflict)]

/-- `evaluate_csap_gate_0` -/
def evaluateGate0 (a : Alphabet) (e : Evaluation P) (ledger : Bytes) : Except Exc GateReport := do
  let _ ← tailHash P ledger
  let chainOk ← verifyChain P ledger
  let checks := gate0Checks a e chainOk
  return gateReport (str "CSAP-GATE-0") checks
    (gate0EvidenceDigest (P := P) e.proposal.proposalId checks) e.proposal.proposalId

def gate1Checks (e : Evaluation P) : List Check :=
  let checks :=
    [(str "CHECK-1-QUEUE-SUBMITTED", true, []), (str "CHECK-2-INVARIANT-COMPAT", true, []),
      -- passes with and without the evidence
      (str "CHECK-3-ACSE-EVIDENCE", true, []),
      (str "CHECK-4-FITNESS-REGRESSION",
        decide (10 ≤ e.epochSimulationCount) && !atLeastRegressionBound e.fitnessRegressionDelta,
        ratificationDenied),
      (str "CHECK-5-HARD-CLASS-COSIGN-RECHECK", !lacksCosignature e, amendmentConflict)]
  checks ++ [(str "CHECK-6-ALL-VALIDATORS-PASS", checks.all fun c => c.2.1, [])]

/-- `evaluate_csap_gate_1` -/
def evaluateGate1 (e : Evaluation P) : GateReport :=
  gateReport (str "CSAP-GATE-1") (gate1Checks e)
    (payloadDigest P [(.str (str "proposal_id"), .str e.proposal.proposalId),
      (.str (str "fitness_regression_delta"), e.fitnessRegressionDelta.value),
      (.str (str "epoch_simulation_count"), .int e.epochSimulationCount),
      (.str (str "acse_evidence_available"), .bool e.acseEvidenceAvailable)])
    e.proposal.proposalId

/-! ### The protocol -/

/-- `_ratification_hash` -/
def ratificationHash (P : Platform) (proposalId : Str) (gate0 : GateReport)
    (gate1 : Option GateReport) : Str :=
  payloadDigest P [(.str (str "proposal_id"), .str proposalId),
    (.str (str "gate_0_digest"), .str gate0.evidenceDigest),
    (.str (str "gate_1_digest"), match gate1 with
      | none => .none
      | some g => .str g.evidenceDigest)]

/-- `_record_id` -/
def recordIdOf (P : Platform) (proposalId : Str) (status : AmendmentStatus) : Except Exc Str :=
  match encode (proposalId ++ 124 :: status.value) with
  | none => .error .unicodeEncodeError
  | some b => .ok (str "csap-" ++ (P.sha256 b).take 16)

/-- The status, and the report of the second gate if it comes to it. -/
def statusOf (e : Evaluation P) (gate0 : GateReport) : AmendmentStatus × Option GateReport :=
  match gate0.outcome with
  | .fail =>
    (if gate0.failureCode = some invariantParserReject then .malformed else .rejected, none)
  | .pass =>
    let gate1 := evaluateGate1 e
    match gate1.outcome with
    | .fail => (.rejected, some gate1)
    | .pass => (.ratified, some gate1)

def writableTime (now : Option Str) : Except Exc Str :=
  match now with
  | none => .error .typeError
  | some t => .ok t

def recordOf (a : Alphabet) (e : Evaluation P) (ledger : Bytes) :
    Except Exc (RatificationRecord P) := do
  let gate0 ← evaluateGate0 a e ledger
  let outcome := statusOf e gate0
  let recordId ← recordIdOf P e.proposal.proposalId outcome.1
  let predecessorHash ← tailHash P ledger
  let timestampUtc ← writableTime e.now
  return {
    recordId := recordId
    proposalId := e.proposal.proposalId
    targetRuleId := e.proposal.targetRuleId
    status := outcome.1
    gate0Report := gate0
    gate1Report := outcome.2
    ratificationHash := ratificationHash P e.proposal.proposalId gate0 outcome.2
    predecessorHash := predecessorHash
    timestampUtc := timestampUtc }

/-- `evaluate`: what it returns or raises, and the files it leaves. -/
def evaluate (a : Alphabet) (w : Files) (e : Evaluation P) :
    Except Exc (AmendmentStatus × RatificationRecord P) × Files :=
  let w := { w with queue := appendJson (P := P) w.queue e.proposal.toDict }
  match recordOf a e w.ledger with
  | .error x => (.error x, w)
  | .ok r => (.ok (r.status, r), { w with ledger := appendJson w.ledger r.toDict })

def Files.step (P : Platform) (a : Alphabet) (w : Files) (e : Evaluation P) : Files :=
  (evaluate a w e).2

def Files.fresh : Files where
  queue := []
  ledger := []

end Adaad.Evolution.Csap
