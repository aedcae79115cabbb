import Adaad.Innovations.Ledger

/-!
# The phase transition gate

`runtime/governance/phase_transition_gate.py`: five phases of autonomy, one more at a time and only
where five criteria hold.  The phase is kept in a state file; every attempt and every demotion is a
line of an audit log.

The external audit writer is left out: what it raises is swallowed.
-/

namespace Adaad.Governance

open Py Innovations

variable (P : Platform)

/-- `MAX_PHASE` -/
def maxPhase : Int := 4

/-! ### Criteria -/

/-- What is done with the rates. -/
structure Rounding where
  /-- `round(x, 4)` -/
  round4 : Number P → Number P
  /-- `f"{x:.4f}"` -/
  fixed4 : Number P → Str

/-- `GateCriteria` -/
structure GateCriteria where
  targetPhase : Int
  minApprovedMutations : Int
  minMutationPassRate : P.Float
  minLineageCompleteness : P.Float
  auditChainIntact : Bool
  minConsecutiveCleanEpochs : Int

/-- The `float` of a literal. -/
def decimal (int frac : Str) : P.Float :=
  P.floatOf (.lit ⟨false, int, frac, none⟩)

/-- `PHASE_GATE_CRITERIA` -/
def phaseGateCriteria : Int → Option (GateCriteria P)
  | 1 => some ⟨1, 1, decimal P (str "0") (str "5"), decimal P (str "0") (str "5"), true, 1⟩
  | 2 => some ⟨2, 5, decimal P (str "0") (str "65"), decimal P (str "0") (str "7"), true, 3⟩
  | 3 => some ⟨3, 15, decimal P (str "0") (str "87"), decimal P (str "0") (str "95"), true, 5⟩
  | 4 => some ⟨4, 30, decimal P (str "0") (str "87"), decimal P (str "1") (str "0"), true, 10⟩
  | _ => none

/-- `TransitionEvidence` -/
structure TransitionEvidence where
  approvedMutationCount : Int
  mutationPassRate : Number P
  lineageCompleteness : Number P
  auditChainIntact : Bool
  consecutiveCleanEpochs : Int
  additionalContext : Option (Members P.Float)

/-- `CriterionResult` -/
structure CriterionResult where
  name : Str
  passed : Bool
  actual : P.Obj
  required : P.Obj
  detail : Str

/-- `GateResult` -/
structure GateResult where
  targetPhase : Int
  gatePassed : Bool
  criteriaResults : List (CriterionResult P)
  evaluatedAt : Str
  operatorId : Str
  gateDigest : Str

variable {P}

/-- `asdict` -/
def CriterionResult.asDict (c : CriterionResult P) : P.Obj :=
  .dict
    [(.str (str "name"), .str c.name),
     (.str (str "passed"), .bool c.passed),
     (.str (str "actual"), c.actual),
     (.str (str "required"), c.required),
     (.str (str "detail"), .str c.detail)]

/-- `asdict` -/
def TransitionEvidence.asDict (e : TransitionEvidence P) : Members P.Float :=
  [(.str (str "approved_mutation_count"), .int e.approvedMutationCount),
   (.str (str "mutation_pass_rate"), e.mutationPassRate.toObj),
   (.str (str "lineage_completeness"), e.lineageCompleteness.toObj),
   (.str (str "audit_chain_intact"), .bool e.auditChainIntact),
   (.str (str "consecutive_clean_epochs"), .int e.consecutiveCleanEpochs),
   (.str (str "additional_context"), (e.additionalContext.map Value.dict).getD .none)]

/-- `_evaluate_criteria`, where the gate has counted so many clean epochs. -/
def evaluateCriteria (R : Rounding P) (cleanEpochs : Int) (criteria : GateCriteria P)
    (evidence : TransitionEvidence P) : List (CriterionResult P) :=
  let actualClean := max evidence.consecutiveCleanEpochs cleanEpochs
  [{ name := str "min_approved_mutations"
     passed := evidence.approvedMutationCount ≥ criteria.minApprovedMutations
     actual := .int evidence.approvedMutationCount
     required := .int criteria.minApprovedMutations
     detail := str "approved=" ++ intText evidence.approvedMutationCount ++ str " required=" ++
       intText criteria.minApprovedMutations },
   { name := str "min_mutation_pass_rate"
     passed := (R.round4 evidence.mutationPassRate).ge (.inr criteria.minMutationPassRate)
     actual := (R.round4 evidence.mutationPassRate).toObj
     required := .float criteria.minMutationPassRate
     detail := str "pass_rate=" ++ R.fixed4 evidence.mutationPassRate ++ str " required=" ++
       floatStr P criteria.minMutationPassRate },
   { name := str "min_lineage_completeness"
     passed := (R.round4 evidence.lineageCompleteness).ge (.inr criteria.minLineageCompleteness)
     actual := (R.round4 evidence.lineageCompleteness).toObj
     required := .float criteria.minLineageCompleteness
     detail := str "completeness=" ++ R.fixed4 evidence.lineageCompleteness ++ str " required=" ++
       floatStr P criteria.minLineageCompleteness },
   { name := str "audit_chain_intact"
     passed := evidence.auditChainIntact = criteria.auditChainIntact
     actual := .bool evidence.auditChainIntact
     required := .bool criteria.auditChainIntact
     detail := str "intact=" ++ toStr P (.bool evidence.auditChainIntact) },
   { name := str "min_consecutive_clean_epochs"
     passed := actualClean ≥ criteria.minConsecutiveCleanEpochs
     actual := .int actualClean
     required := .int criteria.minConsecutiveCleanEpochs
     detail := str "clean_epochs=" ++ intText actualClean ++ str " required=" ++
       intText criteria.minConsecutiveCleanEpochs }]

/-! ### The gate -/

variable (P) in
/-- `PhaseState` -/
structure PhaseState where
  currentPhase : Int
  transitionHistory : List P.Obj
  consecutiveCleanEpochs : Int

/-- `PhaseState()` -/
def PhaseState.initial : PhaseState P :=
  ⟨0, [], 0⟩

variable (P) in
/-- `PhaseTransitionGate`, with its files. -/
structure PhaseTransitionGate where
  state : PhaseState P
  stateFile : Option Bytes
  auditFile : Bytes

/-- `_validate_target_phase`, with the criteria of the phase. -/
def validateTargetPhase (currentPhase targetPhase : Int) : Except Exc (GateCriteria P) :=
  if targetPhase < 1 ∨ targetPhase > maxPhase then
    .error (.valueError (str "invalid_target_phase:" ++ intText targetPhase))
  else if targetPhase ≠ currentPhase + 1 then
    .error (.valueError (str "phase_skip_not_allowed: current=" ++ intText currentPhase ++
      str " target=" ++ intText targetPhase ++ str " (must advance by exactly 1)"))
  else
    match phaseGateCriteria P targetPhase with
    | none => .error (.valueError (str "no_criteria_defined_for_phase:" ++ intText targetPhase))
    | some criteria => .ok criteria

variable (P) in
/-- `_compute_gate_digest` -/
def computeGateDigest (currentPhase targetPhase : Int) (gatePassed : Bool) (operatorId evaluatedAt : Str) :
    Str :=
  let canonical := dumpsSortedAscii P .compact (.dict
    [(.str (str "current_phase"), .int currentPhase),
     (.str (str "target_phase"), .int targetPhase),
     (.str (str "gate_passed"), .bool gatePassed),
     (.str (str "operator_id"), .str operatorId),
     (.str (str "evaluated_at"), .str evaluatedAt)])
  P.sha256 ((encode (canonical.getD [])).getD [])

/-- `evaluate_gate` -/
def evaluateGate (R : Rounding P) (state : PhaseState P) (targetPhase : Int)
    (evidence : TransitionEvidence P) (operatorId evaluatedAt : Str) : Except Exc (GateResult P) := do
  let criteria ← validateTargetPhase state.currentPhase targetPhase
  let results := evaluateCriteria R state.consecutiveCleanEpochs criteria evidence
  let gatePassed := results.all CriterionResult.passed
  return {
    targetPhase := targetPhase
    gatePassed := gatePassed
    criteriaResults := results
    evaluatedAt := evaluatedAt
    operatorId := operatorId
    gateDigest := computeGateDigest P state.currentPhase targetPhase gatePassed operatorId evaluatedAt }

/-- `_save_state`: the content of the state file. -/
def saveState (state : PhaseState P) : Except Exc Bytes :=
  match dumpsSortedAscii P .spaced (.dict
    [(.str (str "current_phase"), .int state.currentPhase),
     (.str (str "consecutive_clean_epochs"), .int state.consecutiveCleanEpochs),
     (.str (str "transition_history"), .list state.transitionHistory)]) with
  | none => .error .typeError
  | some text => writeText text

/-- `_load_state`, of a file whose fields have the types of the class. -/
def loadState (file : Option Bytes) : Except LoadError (PhaseState P) :=
  match file with
  | none => .ok .initial
  | some file => do
    let text ← (readText file).mapError .raised
    match loads P text with
    | none => return .initial
    | some (.dict raw) =>
      let currentPhase ← intOf ((get raw (str "current_phase")).getD (.int 0))
      let cleanEpochs ← intOf ((get raw (str "consecutive_clean_epochs")).getD (.int 0))
      match (get raw (str "transition_history")).getD (.list []) with
      | .list history => return ⟨currentPhase, history, cleanEpochs⟩
      | _ => throw .foreign
    | some _ => throw (.raised .attributeError)

/-- `_write_audit`: the content of the audit log. -/
def writeAudit (auditFile : Bytes) (eventType : Str) (payload : Members P.Float) (now : Str) :
    Except Exc Bytes :=
  appendSorted P auditFile (.dict
    [(.str (str "event_type"), .str eventType),
     (.str (str "timestamp"), .str now),
     (.str (str "payload"), .dict payload)])

/-- The arguments of `attempt_transition`, with the times at which the gate is evaluated and the log
written. -/
structure Attempt (P : Platform) where
  targetPhase : Int
  evidence : TransitionEvidence P
  operatorId : Str
  notes : Str
  evaluatedAt : Str
  now : Str

/-- The arguments of `demote_phase`, with the times of the record and of the log. -/
structure Demotion where
  toPhase : Int
  operatorId : Str
  reason : Str
  timestamp : Str
  now : Str

/-- `asdict` of the record of an attempt. -/
def transitionRecord (fromPhase : Int) (result : GateResult P) (notes : Str) : Members P.Float :=
  [(.str (str "from_phase"), .int fromPhase),
   (.str (str "to_phase"), .int result.targetPhase),
   (.str (str "gate_passed"), .bool result.gatePassed),
   (.str (str "operator_id"), .str result.operatorId),
   (.str (str "timestamp"), .str result.evaluatedAt),
   (.str (str "gate_digest"), .str result.gateDigest),
   (.str (str "notes"), .str notes)]

/-- The payload of an attempt in the audit log. -/
def attemptPayload (fromPhase : Int) (result : GateResult P) (a : Attempt P) : Members P.Float :=
  transitionRecord fromPhase result a.notes ++
    [(.str (str "criteria_results"), .list (result.criteriaResults.map CriterionResult.asDict)),
     (.str (str "evidence"), .dict a.evidence.asDict)]

/-- The payload of a demotion in the audit log. -/
def demotionPayload (fromPhase : Int) (d : Demotion) : Members P.Float :=
  [(.str (str "from_phase"), .int fromPhase),
   (.str (str "to_phase"), .int d.toPhase),
   (.str (str "operator_id"), .str d.operatorId),
   (.str (str "reason"), .str d.reason),
   (.str (str "timestamp"), .str d.timestamp)]

namespace PhaseTransitionGate

def new : PhaseTransitionGate P :=
  ⟨.initial, none, []⟩

/-- `attempt_transition`: what it returns or raises, and the gate that it leaves. -/
def attemptTransition (R : Rounding P) (g : PhaseTransitionGate P) (a : Attempt P) :
    Except Exc (GateResult P) × PhaseTransitionGate P :=
  match evaluateGate R g.state a.targetPhase a.evidence a.operatorId a.evaluatedAt with
  | .error e => (.error e, g)
  | .ok result =>
    match writeAudit g.auditFile (str "phase_transition_attempt")
      (attemptPayload g.state.currentPhase result a) a.now with
    | .error e => (.error e, g)
    | .ok auditFile =>
      if result.gatePassed then
        let state : PhaseState P :=
          { g.state with
            currentPhase := a.targetPhase
            transitionHistory := g.state.transitionHistory ++
              [.dict (transitionRecord g.state.currentPhase result a.notes)] }
        match saveState state with
        | .error e => (.error e, { g with state := state, auditFile := auditFile })
        | .ok stateFile => (.ok result, ⟨state, some stateFile, auditFile⟩)
      else (.ok result, { g with auditFile := auditFile })

/-- `record_epoch_outcome` -/
def recordEpochOutcome (g : PhaseTransitionGate P) (clean : Bool) :
    Except Exc Unit × PhaseTransitionGate P :=
  let state :=
    { g.state with consecutiveCleanEpochs := if clean then g.state.consecutiveCleanEpochs + 1 else 0 }
  match saveState state with
  | .error e => (.error e, { g with state := state })
  | .ok stateFile => (.ok (), { g with state := state, stateFile := some stateFile })

/-- `demote_phase` -/
def demotePhase (g : PhaseTransitionGate P) (d : Demotion) : Except Exc Unit × PhaseTransitionGate P :=
  if d.toPhase > g.state.currentPhase then
    (.error (.valueError (str "demote_target_exceeds_current:" ++ intText d.toPhase ++ str " > " ++
      intText g.state.currentPhase)), g)
  else if d.toPhase < 0 then
    (.error (.valueError (str "invalid_demote_target:" ++ intText d.toPhase)), g)
  else
    let state := { g.state with currentPhase := d.toPhase, consecutiveCleanEpochs := 0 }
    match saveState state with
    | .error e => (.error e, { g with state := state })
    | .ok stateFile =>
      let g' : PhaseTransitionGate P := { g with state := state, stateFile := some stateFile }
      match writeAudit (P := P) g.auditFile (str "phase_demotion") (demotionPayload g.state.currentPhase d)
        d.now with
      | .error e => (.error e, g')
      | .ok auditFile => (.ok (), { g' with auditFile := auditFile })

/-- A gate is made on the files; where that raises, the old one stays. -/
def restart (g : PhaseTransitionGate P) : PhaseTransitionGate P :=
  match loadState g.stateFile with
  | .error _ => g
  | .ok state => { g with state := state }

end PhaseTransitionGate

/-! ### Runs -/

/-- A call, or a restart. -/
inductive PhaseAction (P : Platform) where
  | attemptTransition (a : Attempt P)
  | recordEpochOutcome (clean : Bool)
  | demotePhase (d : Demotion)
  | restart

namespace PhaseTransitionGate

/-- What an action leaves, and whether it succeeds: it raises nothing, and an attempt passes. -/
def call (R : Rounding P) (g : PhaseTransitionGate P) : PhaseAction P → Bool × PhaseTransitionGate P
  | .attemptTransition a =>
    match g.attemptTransition R a with
    | (.ok result, g) => (result.gatePassed, g)
    | (.error _, g) => (false, g)
  | .recordEpochOutcome clean =>
    match g.recordEpochOutcome clean with
    | (.ok _, g) => (true, g)
    | (.error _, g) => (false, g)
  | .demotePhase d =>
    match g.demotePhase d with
    | (.ok _, g) => (true, g)
    | (.error _, g) => (false, g)
  | .restart => (true, g.restart)

def step (R : Rounding P) (g : PhaseTransitionGate P) (a : PhaseAction P) : PhaseTransitionGate P :=
  (g.call R a).2

end PhaseTransitionGate

end Adaad.Governance
