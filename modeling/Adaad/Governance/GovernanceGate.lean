import Adaad.Lineage.Ledger

/-!
# The governance gate

`GovernanceGate.approve_mutation` on given axis results, in its serial form and in that of
`runtime/governance/parallel_gate.py`, and the founders law that both ask.

The ledger writer does not fail here, and the probes of the parallel form return the results that
they are made of.
-/

namespace Adaad.GovernanceGate

open Py Lineage

/-! ### Data -/

structure GateAxisResult where
  axis : Str
  ruleId : Str
  ok : Bool
  reason : Str
  deriving DecidableEq, Repr

/-- A rule of the founders law, by what its enforcement reads. -/
structure LawRule where
  enabled : Bool
  severity : Str

/-- `LAW_RULES` -/
abbrev LawPolicy := List (Str × LawRule)

/-- A check of the law context. -/
structure Check where
  ruleId : Str
  ok : Bool
  reason : Str

/-- A failed rule: a mapping of strings. -/
abbrev FailedRule := List (Str × Str)

structure LawDecision where
  passed : Bool
  decision : Str
  reasonCodes : List Str
  failedRules : List FailedRule

inductive GateMode where
  | serial
  | parallel
  deriving DecidableEq, Repr

structure GateDecision where
  approved : Bool
  decision : Str
  mutationId : Str
  trustMode : Str
  reasonCodes : List Str
  failedRules : List FailedRule
  axisResults : List GateAxisResult
  humanOverride : Bool
  decisionId : Str
  gateMode : GateMode

/-- What is to be approved. -/
structure GateRequest where
  mutationId : Str
  trustMode : Str
  axisResults : List GateAxisResult
  humanOverride : Bool

def ruleIdKey : Str := str "rule_id"
def axisKey : Str := str "axis"

/-- `rule.get(key, "")` -/
def FailedRule.text (rule : FailedRule) (key : Str) : Str :=
  (rule.lookup key).getD []

/-! ### The founders law -/

/-- `_rule` -/
def ruleOf (policy : LawPolicy) (ruleId : Str) : LawRule :=
  (policy.lookup ruleId).getD { enabled := true, severity := str "blocking" }

def isEnforced (policy : LawPolicy) (ruleId : Str) : Bool :=
  ruleId ≠ [] && (ruleOf policy ruleId).enabled && (ruleOf policy ruleId).severity = str "blocking"

/-- `enforce_law` -/
def enforceLaw (policy : LawPolicy) (checks : List Check) : LawDecision :=
  let failed := checks.filter fun c => isEnforced policy c.ruleId && !c.ok
  { passed := failed.isEmpty
    decision := if failed.isEmpty then str "pass" else str "fail"
    reasonCodes :=
      if failed.isEmpty then [str "LAW_PASS"] else str "LAW_RULE_FAILED" :: failed.map Check.ruleId
    failedRules := failed.map fun c =>
      [(ruleIdKey, c.ruleId), (str "reason", if c.reason = [] then str "failed" else c.reason)] }

/-! ### Axes -/

/-- The order of `(axis, rule_id)`. -/
def keyLe (a b : Str × Str) : Bool :=
  if a.1 = b.1 then strLe a.2 b.2 else strLe a.1 b.1

def GateAxisResult.key (r : GateAxisResult) : Str × Str := (r.axis, r.ruleId)

/-- `sorted(axis_results, key=lambda item: (item.axis, item.rule_id))` -/
def sortedAxes (axes : List GateAxisResult) : List GateAxisResult :=
  axes.insertionSort fun a b => keyLe a.key b.key = true

def GateAxisResult.check (r : GateAxisResult) : Check where
  ruleId := r.ruleId
  ok := r.ok
  reason := r.reason

section payloads

variable {F : Type}

/-- `asdict` -/
def GateAxisResult.toDict (r : GateAxisResult) : Value F :=
  .dict [(.str axisKey, .str r.axis), (.str ruleIdKey, .str r.ruleId), (.str (str "ok"), .bool r.ok),
    (.str (str "reason"), .str r.reason)]

def FailedRule.toDict (rule : FailedRule) : Value F :=
  .dict (rule.map fun m => (.str m.1, .str m.2))

end payloads

variable (P : Platform) (policy : LawPolicy) (q : GateRequest)

/-! ### The serial gate -/

def serialDecision : GateDecision :=
  let ordered := sortedAxes q.axisResults
  let law := enforceLaw policy (ordered.map GateAxisResult.check)
  let overridden := q.humanOverride && !law.passed
  { approved := law.passed || overridden
    decision := if overridden then str "override_pass" else law.decision
    mutationId := q.mutationId
    trustMode := q.trustMode
    reasonCodes := if overridden then law.reasonCodes ++ [str "human_override"] else law.reasonCodes
    failedRules := law.failedRules
    axisResults := ordered
    humanOverride := q.humanOverride
    decisionId := []
    gateMode := .serial }

/-- `identity_payload` -/
def identityPayload (d : GateDecision) : Members P.Float :=
  [(.str (str "approved"), .bool d.approved), (.str (str "decision"), .str d.decision),
    (.str (str "mutation_id"), .str d.mutationId), (.str (str "trust_mode"), .str d.trustMode),
    (.str (str "reason_codes"), .list (d.reasonCodes.map .str)),
    (.str (str "failed_rules"), .list (d.failedRules.map FailedRule.toDict)),
    (.str (str "human_override"), .bool d.humanOverride),
    (.str (str "axis_results"), .list (d.axisResults.map GateAxisResult.toDict))]

/-- `approve_mutation` -/
def approveSerial : Except Exc GateDecision :=
  let decision := serialDecision policy q
  (prefixedDigest P .compact (.dict (identityPayload P decision))).map fun id =>
    { decision with decisionId := id }

/-! ### The parallel gate -/

/-- `DeterministicAxisEvaluator.evaluate` of a probe that returns the result. -/
def GateAxisResult.evaluated (r : GateAxisResult) : GateAxisResult :=
  { r with reason := if r.reason = [] then str "ok" else r.reason }

/-- The body of the loop over the rules that failed the law, with the ids of the failed rules. -/
def addFailedRule (s : List Str × List FailedRule) (rule : FailedRule) :
    List Str × List FailedRule :=
  let ruleId := rule.text ruleIdKey
  if ruleId ∈ s.1 then s
  else if rule ∈ s.2 then s
  else (ruleId :: s.1, s.2 ++ [rule])

def addReasonCode (codes : List Str) (code : Str) : List Str :=
  if code ∈ codes then codes else codes ++ [code]

def FailedRule.key (rule : FailedRule) : Str × Str := (rule.text axisKey, rule.text ruleIdKey)

/-- `sorted(failed_rules, key=lambda r: (r.get("axis", ""), r.get("rule_id", "")))` -/
def sortedRules (rules : List FailedRule) : List FailedRule :=
  rules.insertionSort fun a b => keyLe a.key b.key = true

def parallelDecision : GateDecision :=
  let axisResults := sortedAxes (q.axisResults.map GateAxisResult.evaluated)
  let failed := axisResults.filter fun r => !r.ok
  let ownRules : List FailedRule := failed.map fun r => [(axisKey, r.axis), (ruleIdKey, r.ruleId)]
  let law := enforceLaw policy (axisResults.map GateAxisResult.check)
  let reasonCodes := if law.passed then failed.map GateAxisResult.reason
    else law.reasonCodes.foldl addReasonCode (failed.map GateAxisResult.reason)
  let failedRules := if law.passed then ownRules
    else (law.failedRules.foldl addFailedRule (ownRules.map (·.text ruleIdKey), ownRules)).2
  let passed := failed.isEmpty && law.passed
  let overridden := q.humanOverride && !passed
  { approved := passed || overridden
    decision := if overridden then str "override_pass"
      else if passed then str "approve" else str "reject"
    mutationId := q.mutationId
    trustMode := q.trustMode
    reasonCodes := (if overridden then addReasonCode reasonCodes (str "human_override")
      else reasonCodes).insertionSort fun s t => strLe s t = true
    failedRules := sortedRules failedRules
    axisResults := axisResults
    humanOverride := q.humanOverride
    decisionId := []
    gateMode := .parallel }

/-- `decision_payload` -/
def decisionPayload (d : GateDecision) : Members P.Float :=
  [(.str (str "mutation_id"), .str d.mutationId), (.str (str "trust_mode"), .str d.trustMode),
    (.str (str "approved"), .bool d.approved),
    (.str (str "reason_codes"), .list (d.reasonCodes.map .str)),
    (.str (str "failed_rules"), .list (d.failedRules.map FailedRule.toDict)),
    (.str (str "axis_results"), .list (d.axisResults.map GateAxisResult.toDict)),
    (.str (str "human_override"), .bool d.humanOverride),
    (.str (str "gate_version"), .str (str "v1.0.0"))]

/-- `approve_mutation_parallel` -/
def approveParallel : Except Exc GateDecision :=
  let decision := parallelDecision policy q
  (prefixedDigest P .compact (.dict (decisionPayload P decision))).map fun id =>
    { decision with decisionId := id }

/-- `approve_mutation`, in one of its forms; what the parallel one raises is noted, and the serial
one is taken. -/
def approveMutation : GateMode → Except Exc GateDecision
  | .serial => approveSerial P policy q
  | .parallel =>
    match approveParallel P policy q with
    | .ok d => .ok d
    | .error _ => approveSerial P policy q

end Adaad.GovernanceGate
