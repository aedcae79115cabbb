import Adaad.Py.Assoc
import Adaad.Py.Json.Dumps
import Adaad.Run

/-!
# The mutation execution engine

`dorkllm/mutation_execution_engine.py`: mutations that pass five gates are applied, those that were
applied are rolled back, and each of this is written to a ledger that is chained by HMAC.

Identifiers and times are given with each call.  A patch descriptor is meant to be a `dict`; other
values get as far into `apply` as they do in the code.
-/

namespace Adaad.MutationExecution

open Py

variable {P : Platform} {N : Type}

/-! ### Constants -/

variable (P N) in
/-- What the engine uses of the type `N` of its numbers, and its bounds among them. -/
structure Numbers where
  /-- `x < y` -/
  lt : N → N → Bool
  /-- `x <= y` -/
  le : N → N → Bool
  isNan : N → Bool
  /-- `x` as `json.dumps` is given it. -/
  json : N → P.Obj
  /-- `f"{x:.3f}"` -/
  fixed3 : N → Str
  /-- `f"{MAX_SCOPE_TARGETS}"`: the order of a set differs from process to process. -/
  scopeTargetsText : Str
  riskCeiling : N
  maxBlastRadius : N
  highImpactThreshold : N
  criticalImpactThreshold : N
  mediumImpactThreshold : N
  lowImpactThreshold : N
  le_eq_false_of_nan : ∀ x y, isNan x = true ∨ isNan y = true → le x y = false
  lt_iff : ∀ x y, lt x y = true ↔ isNan x = false ∧ isNan y = false ∧ le y x = false
  isNan_riskCeiling : isNan riskCeiling = false
  isNan_maxBlastRadius : isNan maxBlastRadius = false

def hmacSecret : Bytes := (encode (str "MEX-ADAAD-CHAIN-v1")).getD []

def maxScopeTargets : List Str :=
  [str "dorkllm", str "app", str "runtime", str "tests", str "governance"]

/-- The errors of the engine, with their messages. -/
inductive MEXError where
  | clearanceViolation (message : Str)
  | human0Flag (message : Str)
  | blastReject (message : Str)
  | atomicViolation (message : Str)
  | persistViolation (message : Str)
  | scopeViolation (message : Str)
  | typeError
  | keyError (mutationId : Str)
  deriving DecidableEq

/-! ### Records -/

inductive ExecutionStatus where
  | queued
  | executing
  | applied
  | rolledBack
  | blocked
  deriving DecidableEq

def ExecutionStatus.value : ExecutionStatus → Str
  | queued => str "QUEUED"
  | executing => str "EXECUTING"
  | applied => str "APPLIED"
  | rolledBack => str "ROLLED_BACK"
  | blocked => str "BLOCKED"

inductive ImpactTier where
  | negligible
  | low
  | medium
  | high
  | critical
  deriving DecidableEq

def ImpactTier.value : ImpactTier → Str
  | negligible => str "NEGLIGIBLE"
  | low => str "LOW"
  | medium => str "MEDIUM"
  | high => str "HIGH"
  | critical => str "CRITICAL"

variable (N) in
structure MRPClearanceToken where
  mutationId : Str
  compositeRisk : N
  tokenId : Str

structure MSESelectionToken where
  mutationId : Str
  tokenId : Str

/-- A value given as `patch_descriptor`. -/
inductive PatchDescriptor where
  /-- A `dict` with these keys. -/
  | dict (patchKeys : List Str)
  /-- An iterable that is no `dict`, over these values. -/
  | iterable (items : List Str)
  /-- A value that cannot be iterated over. -/
  | other

variable (N) in
structure MutationPayload where
  mutationId : Str
  targetModule : Str
  targetScope : Str
  patchDescriptor : PatchDescriptor
  blastRadius : N
  impactScore : N
  human0Ratified : Bool
  ratificationRef : Option Str

variable (N) in
/-- `rollback_descriptor`; the inverse patch maps its keys to `None`. -/
structure RollbackDescriptor where
  inversePatch : List Str
  targetModule : Str
  blastRadius : N

variable (N) in
structure RollbackRecord where
  mutationId : Str
  rollbackId : Str
  rollbackDescriptor : RollbackDescriptor N
  createdAt : N

variable (N) in
structure ExecutionRecord where
  recordId : Str
  mutationId : Str
  status : ExecutionStatus
  impactTier : ImpactTier
  blastRadius : N
  mrpTokenId : Str
  mseTokenId : Str
  rollback : RollbackRecord N
  timestamp : N
  hmacDigest : Str
  prevDigest : Str
  transitionLog : List Str

variable (N) in
structure Engine where
  ledger : List (ExecutionRecord N)
  applied : List (Str × ExecutionRecord N)
  isSealed : Bool

variable (N) in
/-- The identifiers and times of a call. -/
structure Stamp where
  rollbackId : Str
  createdAt : N
  recordId : Str
  timestamp : N

variable (N) in
def newEngine : Engine N := ⟨[], [], false⟩

/-! ### The ledger -/

variable (num : Numbers P N)

/-- `_prev_digest` -/
def Engine.prevDigest (e : Engine N) : Str :=
  match e.ledger.getLast? with
  | none => str "GENESIS"
  | some r => r.hmacDigest

/-- `_compute_hmac` -/
def computeHmac (record : ExecutionRecord N) : Str :=
  let payload : P.Obj := .dict
    [(.str (str "record_id"), .str record.recordId),
      (.str (str "mutation_id"), .str record.mutationId),
      (.str (str "status"), .str record.status.value),
      (.str (str "blast_radius"), num.json record.blastRadius),
      (.str (str "impact_tier"), .str record.impactTier.value),
      (.str (str "timestamp"), num.json record.timestamp),
      (.str (str "prev_digest"), .str record.prevDigest)]
  let text := (dumpsSortedAscii P .spaced payload).getD []
  hmacSha256 P hmacSecret ((encode text).getD [])

/-- `_classify_impact` -/
def classifyImpact (impactScore : N) : ImpactTier :=
  if num.le num.criticalImpactThreshold impactScore then .critical
  else if num.le num.highImpactThreshold impactScore then .high
  else if num.le num.mediumImpactThreshold impactScore then .medium
  else if num.le num.lowImpactThreshold impactScore then .low
  else .negligible

/-- `_append` -/
def Engine.append (e : Engine N) (record : ExecutionRecord N) : Except MEXError (Engine N) :=
  if e.isSealed then
    .error (.persistViolation
      (str "MEX-PERSIST-0: ledger is sealed; no further writes permitted."))
  else .ok { e with ledger := e.ledger ++ [record] }

def ExecutionRecord.signed (record : ExecutionRecord N) : ExecutionRecord N :=
  { record with hmacDigest := computeHmac num record }

/-- `_build_record` -/
def buildRecord (e : Engine N) (payload : MutationPayload N) (mrpToken : MRPClearanceToken N)
    (mseToken : MSESelectionToken) (status : ExecutionStatus) (rollback : RollbackRecord N)
    (transitions : List Str) (stamp : Stamp N) : ExecutionRecord N :=
  let record : ExecutionRecord N :=
    { recordId := stamp.recordId
      mutationId := payload.mutationId
      status := status
      impactTier := classifyImpact num payload.impactScore
      blastRadius := payload.blastRadius
      mrpTokenId := mrpToken.tokenId
      mseTokenId := mseToken.tokenId
      rollback := rollback
      timestamp := stamp.timestamp
      hmacDigest := []
      prevDigest := e.prevDigest
      transitionLog := transitions }
  record.signed num

/-! ### `apply` -/

/-- The gates that `apply` starts with. -/
def checkGates (payload : MutationPayload N) (mrpToken : MRPClearanceToken N) :
    Except MEXError Unit :=
  let tier := classifyImpact num payload.impactScore
  if mrpToken.mutationId ≠ payload.mutationId then
    .error (.clearanceViolation (str "MEX-EXEC-0: token mutation_id mismatch (" ++
      P.repr (.str mrpToken.mutationId) ++ str " != " ++ P.repr (.str payload.mutationId) ++
      str ")"))
  else if num.le num.riskCeiling mrpToken.compositeRisk then
    .error (.clearanceViolation (str "MEX-EXEC-0: composite_risk " ++
      num.fixed3 mrpToken.compositeRisk ++ str " >= RISK_CEILING 0.85 — clearance denied"))
  else if payload.targetScope ∉ maxScopeTargets then
    .error (.scopeViolation (str "MEX-SCOPE-0: target_scope " ++
      P.repr (.str payload.targetScope) ++ str " not in constitutional scope " ++
      num.scopeTargetsText))
  else if num.lt num.maxBlastRadius payload.blastRadius then
    .error (.blastReject (str "MEX-BLAST-0: blast_radius " ++ num.fixed3 payload.blastRadius ++
      str " > MAX_BLAST_RADIUS 0.7"))
  else if (tier = .high ∨ tier = .critical) ∧ payload.human0Ratified = false then
    .error (.human0Flag (str "MEX-HUMAN0-0: " ++ tier.value ++ str " impact mutation " ++
      P.repr (.str payload.mutationId) ++ str " requires HUMAN-0 ratification " ++
      str "(set human0_ratified=True with a valid ratification_ref)"))
  else .ok ()

/-- `RollbackRecord(…)` in `apply`, from the keys of the inverse patch. -/
def rollbackOf (payload : MutationPayload N) (stamp : Stamp N) (inversePatch : List Str) :
    RollbackRecord N where
  mutationId := payload.mutationId
  rollbackId := stamp.rollbackId
  rollbackDescriptor := ⟨inversePatch, payload.targetModule, payload.blastRadius⟩
  createdAt := stamp.createdAt

def appliedLog : List Str := [str "QUEUED", str "EXECUTING", str "APPLIED"]
def interruptedLog : List Str := [str "QUEUED", str "EXECUTING", str "ROLLED_BACK"]
def rolledBackLog : List Str := [str "APPLIED", str "ROLLED_BACK"]

/-- `apply` -/
def apply (e : Engine N) (payload : MutationPayload N) (mrpToken : MRPClearanceToken N)
    (mseToken : MSESelectionToken) (stamp : Stamp N) :
    Engine N × Except MEXError (ExecutionRecord N) :=
  match checkGates num payload mrpToken with
  | .error error => (e, .error error)
  | .ok () =>
    match payload.patchDescriptor with
    | .other => (e, .error .typeError)
    | .iterable items =>
      -- It has no `keys`: the `AttributeError` counts as a partial execution.
      let record := buildRecord num e payload mrpToken mseToken .rolledBack
        (rollbackOf payload stamp items.eraseDups) interruptedLog stamp
      match e.append record with
      | .error error => (e, .error error)
      | .ok e => (e, .error (.atomicViolation (str "MEX-ATOMIC-0: partial execution on " ++
          P.repr (.str payload.mutationId) ++ str "; auto-rollback committed → record " ++
          record.recordId)))
    | .dict patchKeys =>
      let record := buildRecord num e payload mrpToken mseToken .applied
        (rollbackOf payload stamp patchKeys) appliedLog stamp
      match e.append record with
      | .error error => (e, .error error)
      | .ok e => ({ e with applied := Assoc.set e.applied payload.mutationId record }, .ok record)

/-! ### `rollback` -/

/-- The record that `rollback` appends. -/
def rollbackRecord (e : Engine N) (orig : ExecutionRecord N) (mutationId : Str)
    (stamp : Stamp N) : ExecutionRecord N :=
  let record : ExecutionRecord N :=
    { recordId := stamp.recordId
      mutationId := mutationId
      status := .rolledBack
      impactTier := orig.impactTier
      blastRadius := orig.blastRadius
      mrpTokenId := orig.mrpTokenId
      mseTokenId := orig.mseTokenId
      rollback :=
        { mutationId := mutationId
          rollbackId := stamp.rollbackId
          rollbackDescriptor := orig.rollback.rollbackDescriptor
          createdAt := stamp.createdAt }
      timestamp := stamp.timestamp
      hmacDigest := []
      prevDigest := e.prevDigest
      transitionLog := rolledBackLog }
  record.signed num

/-- `rollback` -/
def rollback (e : Engine N) (mutationId : Str) (stamp : Stamp N) :
    Engine N × Except MEXError (ExecutionRecord N) :=
  match e.applied.lookup mutationId with
  | none => (e, .error (.keyError mutationId))
  | some orig =>
    let record := rollbackRecord num e orig mutationId stamp
    match e.append record with
    | .error error => (e, .error error)
    | .ok e => ({ e with applied := Assoc.erase e.applied mutationId }, .ok record)

/-- The loop of `verify_chain`, from the digest of the record before if there is one. -/
def verifyFrom : Option Str → List (ExecutionRecord N) → Bool
  | _, [] => true
  | before, record :: rest =>
    record.hmacDigest = computeHmac num record && before.all (record.prevDigest = ·) &&
      verifyFrom (some record.hmacDigest) rest

/-- `verify_chain` does not raise. -/
def verifyChain (e : Engine N) : Bool :=
  verifyFrom num none e.ledger

/-- What `verify_chain` raises. -/
inductive VerifyError where
  | typeError
  | chainViolation (message : Str)
  deriving DecidableEq

/-- `hmac.compare_digest` on texts. -/
def compareDigest (a b : Str) : Except VerifyError Bool :=
  if (a ++ b).all (· < 128) then .ok (a = b) else .error .typeError

/-- The loop of `verify_chain` with what it raises, from a record on and the digest of the one
before it. -/
def verifyRecords : Nat → Option Str → List (ExecutionRecord N) → Except VerifyError Bool
  | _, _, [] => .ok true
  | i, before, record :: rest =>
    match compareDigest record.hmacDigest (computeHmac num record) with
    | .error error => .error error
    | .ok false => .error (.chainViolation (str "MEX-CHAIN-0: HMAC mismatch at record " ++
        natText i ++ str " (id=" ++ P.repr (.str record.recordId) ++ str ")"))
    | .ok true =>
      if before.all (record.prevDigest = ·) then
        verifyRecords (i + 1) (some record.hmacDigest) rest
      else .error (.chainViolation (str "MEX-CHAIN-0: prev_digest mismatch at record " ++
        natText i))

/-! ### Runs -/

variable (N) in
inductive Call where
  | apply (payload : MutationPayload N) (mrpToken : MRPClearanceToken N)
    (mseToken : MSESelectionToken) (stamp : Stamp N)
  | rollback (mutationId : Str) (stamp : Stamp N)
  | sealLedger

/-- The engine after a call, and what the call returned or raised. -/
def perform (e : Engine N) : Call N → Engine N × Except MEXError (Option (ExecutionRecord N))
  | .apply payload mrpToken mseToken stamp =>
    (apply num e payload mrpToken mseToken stamp).map id (·.map some)
  | .rollback mutationId stamp => (rollback num e mutationId stamp).map id (·.map some)
  | .sealLedger => ({ e with isSealed := true }, .ok none)

def step (e : Engine N) (call : Call N) : Engine N :=
  (perform num e call).1

end Adaad.MutationExecution
