import Adaad.Lineage.Checkpoints
import Adaad.Method
import Adaad.Py.Assoc

/-!
# The evolution governor

`runtime/evolution/governor.py`: a governor accepts or rejects mutation bundles, and closes when it is
told to, or when the lineage is violated.

The lineage ledger is the list of its entries here; every access to it may fail, which is a parameter of
each call (`faults`).  What the governor asks other components, and the arithmetic of the budget, are
parameters too (`Components`).  The turns that strict replays wait for, and the metrics, are left out.
-/

namespace Adaad.Evolution.Governor

open Py Lineage Tenancy

variable (P : Platform)

/-! ### Requests and decisions -/

inductive RecoveryTier where
  | soft
  | audit
  | constitutionalReset
  deriving DecidableEq, Repr

def RecoveryTier.value : RecoveryTier → Str
  | .soft => str "soft"
  | .audit => str "audit"
  | .constitutionalReset => str "constitutional_reset"

structure MutationTarget where
  agentId : Str
  path : Str
  targetType : Str
  ops : List (Members P.Float)
  hashPreimage : Str

structure MutationRequest where
  agentId : Str
  generationTs : Str
  intent : Str
  ops : List (Members P.Float)
  signature : Str
  nonce : Str
  targets : List (MutationTarget P)
  bundleId : Str
  randomSeed : Int
  capabilityScopes : List Str
  authorityLevel : Str

structure GovernanceDecision where
  accepted : Bool
  reason : Str
  certificate : Option (Members P.Float)
  replayStatus : Str
  mutationCost : P.Float
  fitnessGain : P.Float
  roi : P.Float

/-- What `MutationBudgetManager.evaluate` is asked. -/
structure BudgetRequest where
  cycleId : Str
  epochId : Str
  runtimeCost : Nat
  entropyDelta : Nat
  complexityDelta : Nat
  fitnessGain : P.Float

structure MutationBudgetDecision where
  mutationCost : P.Float
  fitnessGain : P.Float
  roi : P.Float
  accepted : Bool
  reason : Str
  threshold : P.Float
  explorationRate : P.Float

/-- What the metrics change: the manager, its parameters before and after if they are not the same, and
the entropy budget. -/
structure Feedback (Manager : Type) where
  manager : Manager
  parameters : Option (Members P.Float × Members P.Float)
  entropyBudget : Int

/-- What the governor asks of others. -/
structure Components where
  /-- The rest of the world at the time of a call. -/
  World : Type
  /-- The states of a `MutationBudgetManager`. -/
  Manager : Type
  /-- `now_iso()` -/
  now : World → Str
  /-- `cryovant.signature_valid` -/
  signatureValid : World → Str → Bool
  /-- `VALIDATOR_REGISTRY["lineage_continuity"]`: whether it is ok, and the reason. -/
  lineageContinuity : World → MutationRequest P → Except Exc (Bool × Str)
  /-- `clamp_score(float(impact_scorer.score(request).total))` -/
  impact : MutationRequest P → P.Float
  /-- `x < y` -/
  less : P.Float → P.Float → Bool
  /-- `max(0.0, 1.0 - impact_total)` -/
  gain : P.Float → P.Float
  /-- `MutationBudgetManager.evaluate` -/
  evaluate : Manager → BudgetRequest P → MutationBudgetDecision P × Manager
  /-- What the metrics of an epoch make of a manager and an entropy budget. -/
  feedback : World → Str → Manager → Int → Feedback P Manager

variable {P}

/-- `0.0` -/
def zero : P.Float := decimal P "0"

/-- A `GovernanceDecision` that rejects. -/
def rejection (reason : String) (replayStatus : String) : GovernanceDecision P where
  accepted := false
  reason := str reason
  certificate := none
  replayStatus := str replayStatus
  mutationCost := zero
  fitnessGain := zero
  roi := zero

/-! ### The governor -/

/-- An `EntropyLedger`. -/
structure Envelope where
  budget : Int
  consumed : Int
  overflow : Bool
  deriving DecidableEq, Repr

/-- What a governor is made with. -/
structure Config (C : Components P) where
  maxImpact : P.Float
  replayMode : Str
  /-- The provider is deterministic. -/
  deterministic : Bool
  entropyBudget : Int
  manager : C.Manager

/-- A governor and its ledger. -/
structure EvolutionGovernor (C : Components P) where
  maxImpact : P.Float
  replayMode : Str
  deterministic : Bool
  failClosed : Bool
  failClosedReason : Str
  recoveryTier : RecoveryTier
  entropyBudget : Int
  manager : C.Manager
  entries : List (Members P.Float)
  epochDigestIndex : List (Str × Str)
  envelope : Option Envelope
  /-- Whether each of the next accesses to the ledger fails. -/
  faults : List Bool

/-- `EvolutionGovernor(ledger=ledger, …)` -/
def newGovernor {C : Components P} (c : Config C) (entries : List (Members P.Float)) :
    EvolutionGovernor C where
  maxImpact := c.maxImpact
  replayMode := c.replayMode
  deterministic := c.deterministic
  failClosed := false
  failClosedReason := []
  recoveryTier := .soft
  entropyBudget := max 0 c.entropyBudget
  manager := c.manager
  entries := entries
  epochDigestIndex := []
  envelope := none
  faults := []

/-- What stops a call. -/
inductive GovernorFault where
  | entropyBudgetExceeded
  /-- The ledger cannot be read or written. -/
  | ledger
  | raised (e : Exc)
  deriving DecidableEq, Repr

variable (C : Components P)

/-- A call of a governor. -/
abbrev GovernorMethod := Method GovernorFault (EvolutionGovernor C)

variable {C}

def raising {α : Type} (x : Except Exc α) : GovernorMethod C α :=
  .ofExcept (x.mapError .raised)

/-- `charge_entropy`, of a source with this cost. -/
def chargeEntropy (cost : Int) : GovernorMethod C Unit :=
  .mk fun g =>
    match g.envelope with
    | none => (.ok (), g)
    | some e =>
      if e.budget < e.consumed + cost then
        (.error .entropyBudgetExceeded, { g with envelope := some { e with overflow := true } })
      else (.ok (), { g with envelope := some { e with consumed := e.consumed + cost } })

/-! ### The ledger -/

def access : GovernorMethod C Unit :=
  .mk fun g => (if g.faults.headD false then .error .ledger else .ok (), { g with faults := g.faults.tail })

def entryOf (eventType : Str) (payload : Members P.Float) : Members P.Float :=
  [(.str typeKey, .str eventType), (.str payloadKey, .dict payload)]

/-- `append_event` -/
def appendEvent (eventType : Str) (payload : Members P.Float) : GovernorMethod C Unit := do
  access
  .change fun g => { g with entries := g.entries ++ [entryOf eventType payload] }

/-- `read_epoch`; the ledger file is read by `read_file_deterministic`. -/
def readEpoch (epochId : Str) : GovernorMethod C (List (Members P.Float)) := do
  access
  chargeEntropy 3
  let g ← .state
  raising (g.entries.filterM (isInEpoch P epochId))

def updateEpochDigest (epochId digest : Str) : GovernorMethod C Unit :=
  .change fun g => { g with epochDigestIndex := Assoc.set g.epochDigestIndex epochId digest }

/-- `get_epoch_digest` -/
def getEpochDigest (epochId : Str) : GovernorMethod C (Option Str) := do
  let g ← .state
  match g.epochDigestIndex.lookup epochId with
  | some digest => return some digest
  | none =>
    let entries ← readEpoch epochId
    match entries.foldl (noteEpochDigest P) none with
    | some (c :: digest) =>
      updateEpochDigest epochId (c :: digest)
      return some (c :: digest)
    | digest => return digest

/-- `append_bundle_with_digest` -/
def appendBundleWithDigest (epochId : Str) (bundleEvent : Members P.Float) :
    GovernorMethod C Unit := do
  let previous ← getEpochDigest epochId
  let bundleDigest ← raising (computeBundleDigest P bundleEvent)
  let epochDigest ← raising (chainDigest P (digestOr previous) bundleDigest)
  appendEvent mutationBundleEvent (bundlePayload P epochId bundleDigest epochDigest bundleEvent)
  updateEpochDigest epochId epochDigest

def epochStartEvent : Str := str "EpochStartEvent"
def epochEndEvent : Str := str "EpochEndEvent"
def governanceDecisionEvent : Str := str "GovernanceDecisionEvent"
def mutationEvidenceEvent : Str := str "MutationEvidenceEvent"
def governorConfigEvent : Str := str "GovernorConfigEvent"

/-- `_epoch_started` -/
def epochStarted (epochId : Str) : GovernorMethod C Bool := do
  let epochEvents ← readEpoch epochId
  let hasStart := epochEvents.any fun e => isText (get e typeKey) epochStartEvent
  let hasEnd := epochEvents.any fun e => isText (get e typeKey) epochEndEvent
  return hasStart && !hasEnd

/-! ### Records of decisions -/

/-- `text or default` -/
def textOr (text : Str) (default : String) : Str :=
  if text = [] then str default else text

/-- `needle in text` -/
def occursIn (needle : String) (text : Str) : Bool :=
  text.tails.any fun rest => (str needle).isPrefixOf rest

/-- `_deterministic_bundle_id` -/
def deterministicBundleId (request : MutationRequest P) (epochId : Str) : Except Exc Str := do
  let digest ← sha256Text P ((str "|").intercalate
    [epochId, request.agentId, request.intent, request.nonce, request.generationTs])
  return str "bundle-" ++ digest.take 24

/-- `_is_evidence_scoped_request` -/
def isEvidenceScopedRequest (request : MutationRequest P) : Bool :=
  let intent := P.lower (strip request.intent)
  let scopes := (request.capabilityScopes.filter fun s => strip s ≠ []).map fun s => P.lower (strip s)
  occursIn "mutation" intent || occursIn "governance" intent ||
    scopes.any fun s => s = str "mutation" ∨ s = str "governance"

/-- `str((decision.certificate or {}).get("bundle_id") or "")` -/
def certifiedBundleId (decision : GovernanceDecision P) : Str :=
  strOr P (get (decision.certificate.getD []) bundleIdKey)

/-- The payload of `_emit_mutation_evidence_event`. -/
def evidencePayload (request : MutationRequest P) (epochId mutationId : Str)
    (decision : GovernanceDecision P) (accepted : Bool) : Members P.Float :=
  let evidenceScoped := isEvidenceScopedRequest request
  let evidenceBundleId := strip (certifiedBundleId decision)
  let present : Bool := evidenceBundleId ≠ []
  let valid := accepted && present
  [(.str epochIdKey, .str epochId),
    (.str (str "mutation_id"), .str mutationId),
    (.str (str "evidence_id"), .str (str "evidence-" ++ mutationId)),
    (.str (str "evidence_scope_required"), .bool evidenceScoped),
    (.str (str "evidence_bundle_id"), .str evidenceBundleId),
    (.str (str "evidence_bundle_present"), .bool present),
    (.str (str "evidence_bundle_valid"), .bool valid),
    (.str (str "evidence_status"), .str (if valid then str "valid"
      else if evidenceScoped && !present then str "missing" else str "pending")),
    (.str (str "decision_reason"), .str decision.reason),
    (.str (str "accepted"), .bool accepted),
    (.str (str "mutation_cost"), .float decision.mutationCost),
    (.str (str "fitness_gain"), .float decision.fitnessGain),
    (.str (str "roi"), .float decision.roi)]

/-- `_emit_mutation_evidence_event` -/
def emitMutationEvidenceEvent (request : MutationRequest P) (epochId : Str)
    (decision : GovernanceDecision P) (accepted : Bool) : GovernorMethod C Unit := do
  let mutationId ← raising
    (if certifiedBundleId decision ≠ [] then .ok (certifiedBundleId decision)
      else if request.bundleId ≠ [] then .ok request.bundleId
      else deterministicBundleId request epochId)
  appendEvent mutationEvidenceEvent
    (evidencePayload request epochId (strip mutationId) decision accepted)

/-- The payload of `_record_decision`, without the certificate. -/
def decisionPayload (request : MutationRequest P) (epochId : Str) (decision : GovernanceDecision P)
    (impactScore : P.Float) (envelope : Option Envelope) : Members P.Float :=
  [(.str epochIdKey, .str epochId),
    (.str (str "agent_id"), .str request.agentId),
    (.str (str "intent"), .str request.intent),
    (.str (str "accepted"), .bool decision.accepted),
    (.str (str "reason"), .str decision.reason),
    (.str (str "mutation_cost"), .float decision.mutationCost),
    (.str (str "fitness_gain"), .float decision.fitnessGain),
    (.str (str "roi"), .float decision.roi),
    (.str (str "impact_score"), .float impactScore),
    (.str (str "replay_status"), .str decision.replayStatus)] ++
  match envelope with
  | none => []
  | some e =>
    [(.str (str "entropy_consumed"), .int e.consumed),
      (.str (str "entropy_budget"), .int e.budget),
      (.str (str "entropy_overflow"), .bool e.overflow)]

/-- `_record_decision` -/
def recordDecision (request : MutationRequest P) (epochId : Str) (decision : GovernanceDecision P)
    (impactScore : P.Float) : GovernorMethod C Unit := do
  let g ← .state
  let payload := decisionPayload request epochId decision impactScore g.envelope
  match decision.certificate with
  | some (m :: certificate) =>
    appendBundleWithDigest epochId (payload ++
      [(.str certificateKey, .dict (m :: certificate)),
        (.str bundleIdKey, (get (m :: certificate) bundleIdKey).getD .none),
        (.str (str "impact"), .float impactScore),
        (.str (str "strategy_set"), (get (m :: certificate) (str "strategy_set")).getD (.list []))])
    emitMutationEvidenceEvent request epochId decision true
  | _ =>
    appendEvent governanceDecisionEvent payload
    emitMutationEvidenceEvent request epochId decision false

def recorded (request : MutationRequest P) (epochId : Str) (decision : GovernanceDecision P)
    (impactScore : P.Float) : GovernorMethod C (GovernanceDecision P) := do
  recordDecision request epochId decision impactScore
  return decision

/-! ### Certificates -/

/-- `hashlib.sha256(json.dumps(value, sort_keys=True, ensure_ascii=False).encode("utf-8"))` -/
def sortedDigest (v : P.Obj) : Except Exc Str :=
  match dumpsSorted P .spaced v with
  | none => .error .typeError
  | some t => sha256Text P t

/-- `require_replay_safe_provider` -/
def requireReplaySafeProvider (g : EvolutionGovernor C) : Except Exc Unit :=
  if P.lower (strip (textOr g.replayMode "off")) = str "strict" ∧ g.deterministic = false then
    .error (.runtimeError (str "strict_replay_requires_deterministic_provider"))
  else if g.recoveryTier = .audit ∧ g.deterministic = false then
    .error (.runtimeError (str "audit_tier_requires_deterministic_provider"))
  else .ok ()

/-- `_replay_seed` -/
def replaySeed (request : MutationRequest P) (epochId bundleId : Str) : Except Exc Str := do
  let digest ← sha256Text P ((str "|").intercalate
    [epochId, bundleId, request.agentId, request.intent, request.nonce])
  let seed := digest.take 16
  return if seed ≠ List.replicate 16 48 then seed else List.replicate 15 48 ++ [49]

/-- `strategy_snapshot` -/
def strategySnapshot (intent hash : Str) : P.Obj :=
  .dict [(.str intent, .dict
    [(.str (str "version"), .str (str "current")),
      (.str (str "hash"), .str hash),
      (.str (str "skill_weights"), .dict [])])]

/-- `_issue_certificate` -/
def issueCertificate (request : MutationRequest P) (epochId : Str) (impactScore : P.Float)
    (bundleId : Str) : GovernorMethod C (Members P.Float) := do
  let g ← .state
  raising (requireReplaySafeProvider g)
  let seed ← raising (replaySeed request epochId bundleId)
  let intent := textOr request.intent "default"
  let intentHash ← raising (sha256Text P intent)
  let snapshotHash ← raising (sortedDigest (P := P) (strategySnapshot intent intentHash))
  let epochDigest ← getEpochDigest epochId
  let checkpoint ← raising (match epochDigest with
    | some (c :: digest) => .ok (c :: digest)
    | _ => CheckpointChain.checkpointDigest P
        [(.str epochIdKey, .str epochId), (.str (str "empty"), .bool true)])
  return [(.str epochIdKey, .str epochId),
    (.str bundleIdKey, .str bundleId),
    (.str (str "bundle_id_source"),
      .str (if strip request.bundleId ≠ [] then str "request" else str "governor")),
    (.str (str "strategy_set"), .list [.str intent]),
    (.str (str "strategy_version_set"), .list [.str (intent ++ str ":current")]),
    (.str (str "strategy_snapshot"), strategySnapshot intent intentHash),
    (.str (str "strategy_snapshot_hash"), .str snapshotHash),
    (.str (str "strategy_hash"), .str snapshotHash),
    (.str (str "impact_score"), .float impactScore),
    (.str (str "checkpoint_digest"), .str checkpoint),
    (.str (str "authority_signatures"), .list [.str request.signature]),
    (.str (str "certificate_activated"), .bool false),
    (.str (str "replay_seed"), .str seed)]

/-! ### Validation -/

/-- `enter_fail_closed` -/
def enterFailClosed (reason epochId : Str) (tier : RecoveryTier) : GovernorMethod C Unit := do
  .change fun g => { g with failClosed := true, failClosedReason := reason, recoveryTier := tier }
  appendEvent governanceDecisionEvent
    [(.str epochIdKey, .str epochId),
      (.str (str "fail_closed"), .bool true),
      (.str (str "reason"), .str reason),
      (.str (str "tier"), .str tier.value),
      (.str (str "decision"), .str (str "fail_closed")),
      (.str (str "evidence"), .dict
        [(.str (str "reason"), .str reason), (.str (str "tier"), .str tier.value)])]

/-- A `GovernorConfigEvent`. -/
def appendConfigEvent (now epochId : Str) (configKey : String) (oldValue newValue : P.Obj) :
    GovernorMethod C Unit :=
  appendEvent governorConfigEvent
    [(.str epochIdKey, .str epochId),
      (.str (str "config_key"), .str (str configKey)),
      (.str (str "old_value"), oldValue),
      (.str (str "new_value"), newValue),
      (.str (str "reason"), .str (str "metrics_feedback_loop")),
      (.str (str "ts"), .str now)]

/-- The event for a change of the parameters of the manager. -/
def appendParametersEvent (now epochId : Str) :
    Option (Members P.Float × Members P.Float) → GovernorMethod C Unit
  | some (before, after) =>
    appendConfigEvent now epochId "mutation_budget_params" (.dict before) (.dict after)
  | none => pure ()

/-- `_apply_metrics_feedback_loop` -/
def applyMetricsFeedbackLoop (world : C.World) (epochId : Str) : GovernorMethod C Unit := do
  let g ← .state
  let feedback := C.feedback world epochId g.manager g.entropyBudget
  .change fun g => { g with manager := feedback.manager, entropyBudget := feedback.entropyBudget }
  appendParametersEvent (C.now world) epochId feedback.parameters
  if feedback.entropyBudget ≠ g.entropyBudget then
    appendConfigEvent (C.now world) epochId "entropy_budget" (.int g.entropyBudget)
      (.int feedback.entropyBudget)
  else return ()

/-- `_evaluate_mutation_budget` -/
def evaluateMutationBudget (request : MutationRequest P) (epochId bundleId : Str)
    (impactTotal : P.Float) : GovernorMethod C (MutationBudgetDecision P) := do
  let g ← .state
  let (budgetDecision, manager) := C.evaluate g.manager
    { cycleId := bundleId
      epochId := epochId
      runtimeCost := request.ops.length + (request.targets.map fun t => t.ops.length).sum
      entropyDelta := if request.randomSeed ≠ 0 then 1 else 0
      complexityDelta := request.targets.length - 1
      fitnessGain := C.gain impactTotal }
  .change fun g => { g with manager := manager }
  return budgetDecision

/-- `authority_threshold` -/
def authorityThreshold (level : Str) : P.Float :=
  if level = str "low-impact" then decimal P "20"
  else if level = str "governor-review" then decimal P "50"
  else if level = str "high-impact" then P.floatOf (.lit ⟨false, str "1", str "0", none⟩)
  else zero

/-- The end of `_validate_bundle_internal`, where the budget has accepted. -/
def certify (request : MutationRequest P) (epochId bundleId : Str) (impactTotal : P.Float)
    (budgetDecision : MutationBudgetDecision P) : GovernorMethod C (GovernanceDecision P) := do
  let certificate ← issueCertificate request epochId impactTotal bundleId
  recorded request epochId
    { accepted := true
      reason := str "accepted"
      certificate := some (certificate ++
        [(.str (str "mutation_cost"), .float budgetDecision.mutationCost),
          (.str (str "fitness_gain"), .float budgetDecision.fitnessGain),
          (.str (str "roi"), .float budgetDecision.roi),
          (.str (str "budget_threshold"), .float budgetDecision.threshold),
          (.str (str "exploration_rate"), .float budgetDecision.explorationRate)])
      replayStatus := str "ok"
      mutationCost := budgetDecision.mutationCost
      fitnessGain := budgetDecision.fitnessGain
      roi := budgetDecision.roi } impactTotal

/-- `_validate_bundle_internal`, from the budget on. -/
def validateBudget (world : C.World) (request : MutationRequest P) (epochId : Str)
    (impactTotal : P.Float) : GovernorMethod C (GovernanceDecision P) := do
  let bundleId ← raising (if strip request.bundleId ≠ [] then .ok (strip request.bundleId)
    else deterministicBundleId request epochId)
  applyMetricsFeedbackLoop world epochId
  let budgetDecision ← evaluateMutationBudget request epochId bundleId impactTotal
  if budgetDecision.accepted = false then
    recorded request epochId
      { accepted := false
        reason := budgetDecision.reason
        certificate := none
        replayStatus := str "failed"
        mutationCost := budgetDecision.mutationCost
        fitnessGain := budgetDecision.fitnessGain
        roi := budgetDecision.roi } impactTotal
  else certify request epochId bundleId impactTotal budgetDecision

/-- `_validate_bundle_internal`, from the impact on. -/
def validateImpact (world : C.World) (request : MutationRequest P) (epochId : Str) :
    GovernorMethod C (GovernanceDecision P) := do
  chargeEntropy 1
  let g ← .state
  let impactTotal := C.impact request
  if C.less g.maxImpact impactTotal then
    recorded request epochId (rejection "impact_threshold_exceeded" "unknown") impactTotal
  else if C.less (authorityThreshold request.authorityLevel) impactTotal then
    recorded request epochId (rejection "authority_level_exceeded" "unknown") impactTotal
  else validateBudget world request epochId impactTotal

/-- `_validate_bundle_internal`, from the signature on. -/
def validateLineage (world : C.World) (request : MutationRequest P) (epochId : Str) :
    GovernorMethod C (GovernanceDecision P) := do
  chargeEntropy 1
  if C.signatureValid world request.signature = false then
    recorded request epochId (rejection "invalid_signature" "unknown") zero
  else if request.nonce = [] ∨ request.generationTs = [] then
    recorded request epochId (rejection "lineage_continuity_failed" "unknown") zero
  else
    let (ok, reason) ← raising (C.lineageContinuity world request)
    if ok = false ∧ reason = str "lineage_violation_detected" then
      enterFailClosed (str "lineage_continuity_failed") epochId .soft
      recorded request epochId (rejection "lineage_continuity_failed" "failed") zero
    else validateImpact world request epochId

/-- `_validate_bundle_internal` -/
def validateBundleInternal (world : C.World) (request : MutationRequest P) (epochId : Str) :
    GovernorMethod C (GovernanceDecision P) := do
  chargeEntropy 1
  let g ← .state
  if g.failClosed = true then
    recorded request epochId (rejection "governor_fail_closed" "failed") zero
  else if request.targets = [] ∧ request.ops = [] then
    return rejection "empty_bundle" "unknown"
  else if epochId = [] then
    recorded request epochId (rejection "missing_epoch" "unknown") zero
  else
    let started ← epochStarted epochId
    if started = false then
      recorded request epochId (rejection "epoch_not_started" "unknown") zero
    else validateLineage world request epochId

/-- What `validate_bundle` adds to a certificate. -/
def withEntropy (envelope : Option Envelope) (decision : GovernanceDecision P) :
    GovernanceDecision P :=
  match decision.certificate, envelope with
  | some (m :: certificate), some e =>
    { decision with certificate := some (m :: certificate ++
        [(.str (str "entropy_consumed"), .int e.consumed),
          (.str (str "entropy_budget"), .int e.budget),
          (.str (str "entropy_overflow"), .bool e.overflow)]) }
  | _, _ => decision

/-- `validate_bundle` -/
def validateBundle (world : C.World) (request : MutationRequest P) (epochId : Str) :
    GovernorMethod C (GovernanceDecision P) :=
  .mk fun g =>
    match (validateBundleInternal world request epochId).run
        { g with envelope := some ⟨max 0 g.entropyBudget, 0, false⟩ } with
    | (.ok decision, g') => (.ok (withEntropy g'.envelope decision), { g' with envelope := none })
    | (.error .entropyBudgetExceeded, g') =>
      (recorded request epochId (rejection "entropy_budget_exceeded" "failed") zero).run
        { g' with envelope := none }
    | (.error e, g') => (.error e, { g' with envelope := none })

/-! ### The other calls -/

/-- `apply_recovery_event` -/
def applyRecoveryEvent (epochId recoverySignature : Str) (tier : RecoveryTier) :
    GovernorMethod C Bool :=
  if (str "human-recovery-").isPrefixOf recoverySignature = false then return false
  else do
    let reset : Bool := tier = .constitutionalReset
    .change fun g =>
      { g with
        failClosed := if reset then false else g.failClosed
        failClosedReason := if reset then [] else g.failClosedReason
        recoveryTier := tier }
    appendEvent governanceDecisionEvent
      [(.str epochIdKey, .str epochId),
        (.str (str "recovery_signature"), .str recoverySignature),
        (.str (str "requested_tier"), .str tier.value),
        (.str (str "fail_closed"), .bool !reset),
        (.str (str "decision"), .str (str "recovery_requested")),
        (.str (str "evidence"), .dict [(.str (str "signature"), .str recoverySignature)])]
    return reset

/-- `mark_epoch_start` and `mark_epoch_end` -/
def markEpoch (eventType ts epochId : Str) (metadata : Members P.Float) : GovernorMethod C Unit :=
  appendEvent eventType
    [(.str epochIdKey, .str epochId),
      (.str (str "ts"), .str ts),
      (.str (str "metadata"), .dict metadata)]

/-- A call of a governor, or its creation anew on the same ledger. -/
inductive GovernorCall (C : Components P) where
  | enterFailClosed (reason epochId : Str) (tier : RecoveryTier)
  | applyRecoveryEvent (epochId recoverySignature : Str) (tier : RecoveryTier)
  | markEpochStart (epochId : Str) (metadata : Members P.Float)
  | markEpochEnd (epochId : Str) (metadata : Members P.Float)
  | validateBundle (request : MutationRequest P) (epochId : Str)
  | create (c : Config C)

/-- What a call returns. -/
inductive Answer (P : Platform) where
  | none
  | recovered (reset : Bool)
  | decision (d : GovernanceDecision P)
  | raised (e : GovernorFault)

/-- What the method returns, and what it leaves. -/
def answered {α : Type} (f : α → Answer P) (m : GovernorMethod C α) (g : EvolutionGovernor C) :
    Answer P × EvolutionGovernor C :=
  match m.run g with
  | (.ok a, g') => (f a, g')
  | (.error e, g') => (.raised e, g')

/-- A call, with the world it is made in and which of its accesses to the ledger fail. -/
structure GovernorAction (C : Components P) where
  call : GovernorCall C
  world : C.World
  faults : List Bool

def EvolutionGovernor.answer (g : EvolutionGovernor C) (a : GovernorAction C) :
    Answer P × EvolutionGovernor C :=
  let g := { g with faults := a.faults }
  match a.call with
  | .enterFailClosed reason epochId tier =>
    answered (fun _ => .none) (enterFailClosed reason epochId tier) g
  | .applyRecoveryEvent epochId recoverySignature tier =>
    answered .recovered (applyRecoveryEvent epochId recoverySignature tier) g
  | .markEpochStart epochId metadata =>
    answered (fun _ => .none) (markEpoch epochStartEvent (C.now a.world) epochId metadata) g
  | .markEpochEnd epochId metadata =>
    answered (fun _ => .none) (markEpoch epochEndEvent (C.now a.world) epochId metadata) g
  | .validateBundle request epochId =>
    answered .decision (validateBundle a.world request epochId) g
  | .create c => (.none, newGovernor c g.entries)

end Adaad.Evolution.Governor
