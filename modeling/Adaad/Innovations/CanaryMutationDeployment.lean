import Adaad.Innovations.Ledger
import Adaad.Py.Assoc

/-!
# Canary deployments

`runtime/innovations30/canary_mutation_deployment.py`: a canary is opened for a mutation, gets samples
and the score of a mirror test, and is closed: promoted or rolled back.  Each step is an event in a
ledger whose entries are chained by their hashes, and a new engine goes through the events again.
-/

namespace Adaad.Innovations.Canary

open Py

variable {P : Platform}

/-! ### Data -/

/-- `GENESIS_PREV_HASH` -/
def genesisPrevHash : Str := List.replicate 64 48

inductive CanaryStatus where
  | open
  | mirrorChecked
  | promoted
  | rolledBack
  deriving DecidableEq, Repr

def CanaryStatus.value : CanaryStatus → Str
  | .open => str "open"
  | .mirrorChecked => str "mirror_checked"
  | .promoted => str "promoted"
  | .rolledBack => str "rolled_back"

inductive CanaryEventType where
  | opened
  | sampleRecorded
  | mirrorResult
  | promoted
  | rolledBack
  | human0Override
  deriving DecidableEq, Repr

def CanaryEventType.value : CanaryEventType → Str
  | opened => str "opened"
  | sampleRecorded => str "sample_recorded"
  | mirrorResult => str "mirror_result"
  | promoted => str "promoted"
  | rolledBack => str "rolled_back"
  | human0Override => str "human0_override"

variable (P) in
/-- `CanaryEvent` -/
structure CanaryEvent where
  canaryId : Str
  eventType : Str
  payload : Members P.Float
  timestamp : Str
  seq : Int
  prevHash : Str
  entryHash : Str

variable (P) in
/-- `CanaryDeployment` -/
structure CanaryDeployment where
  canaryId : Str
  mutationId : Str
  tier : Int
  canarySlice : Number P
  mirrorThreshold : Number P
  status : CanaryStatus
  mirrorScore : Option (Number P)
  sampleCount : Int
  errorCount : Int
  openedAt : Str
  closedAt : Str
  human0Override : Bool

/-- `mirror_passed` -/
def CanaryDeployment.mirrorPassed (dep : CanaryDeployment P) : Bool :=
  dep.mirrorScore.any fun score => score.ge dep.mirrorThreshold

def CanaryDeployment.opened (canaryId mutationId : Str) (tier : Int)
    (canarySlice mirrorThreshold : Number P) (openedAt : Str) : CanaryDeployment P where
  canaryId := canaryId
  mutationId := mutationId
  tier := tier
  canarySlice := canarySlice
  mirrorThreshold := mirrorThreshold
  status := .open
  mirrorScore := none
  sampleCount := 0
  errorCount := 0
  openedAt := openedAt
  closedAt := []
  human0Override := false

/-- What a call raises; a `KeyError` and a `CMDRollbackViolation` come with what their texts name. -/
inductive CanaryError where
  | unknown (canaryId : Str)
  /-- `CMDMirrorViolation` -/
  | mirror (message : Str)
  /-- `CMDRollbackViolation` -/
  | rollback (canaryId : Str) (status : CanaryStatus)
  /-- `CMDAuthorizationViolation` -/
  | authorization (message : Str)
  /-- `CMDChainViolation` -/
  | chain (message : Str)
  | raised (e : Exc)

/-- `to_dict` of an event. -/
def CanaryEvent.toDict (evt : CanaryEvent P) : Members P.Float :=
  [(.str (str "canary_id"), .str evt.canaryId), (.str (str "event_type"), .str evt.eventType),
    (.str (str "payload"), .dict evt.payload), (.str (str "timestamp"), .str evt.timestamp),
    (.str (str "seq"), .int evt.seq), (.str (str "prev_hash"), .str evt.prevHash),
    (.str (str "entry_hash"), .str evt.entryHash)]

/-- `_compute_event_hash` -/
def computeEventHash (evt : CanaryEvent P) : Str :=
  str "sha256:" ++ jsonDigest P
    [(.str (str "seq"), .int evt.seq), (.str (str "canary_id"), .str evt.canaryId),
      (.str (str "event_type"), .str evt.eventType), (.str (str "payload"), .dict evt.payload),
      (.str (str "timestamp"), .str evt.timestamp), (.str (str "prev_hash"), .str evt.prevHash)]

/-- `__post_init__`: an event without a hash gets one. -/
def CanaryEvent.postInit (evt : CanaryEvent P) : CanaryEvent P :=
  if evt.entryHash = [] then { evt with entryHash := computeEventHash evt } else evt

variable (P) in
/-- `_make_canary_id` -/
def makeCanaryId (mutationId timestamp : Str) : Except CanaryError Str :=
  match encode (mutationId ++ 58 :: timestamp) with
  | none => .error (.raised .unicodeEncodeError)
  | some raw => .ok (str "canary-" ++ (P.sha256 raw).take 12)

/-! ### The engine -/

variable (P) in
abbrev Deployments := List (Str × CanaryDeployment P)

variable (P) in
/-- `CanaryDeploymentEngine`, with its ledger. -/
structure Engine where
  ledger : Bytes
  defaultSlice : Number P
  defaultThreshold : Number P
  events : List (CanaryEvent P)
  deployments : Deployments P

/-- An engine whose ledger does not exist yet. -/
def Engine.new (canarySlice mirrorThreshold : Number P) : Engine P :=
  ⟨[], canarySlice, mirrorThreshold, [], []⟩

namespace Engine

variable (e : Engine P)

def event (canaryId : Str) (eventType : CanaryEventType) (payload : Members P.Float)
    (timestamp : Str) : CanaryEvent P :=
  CanaryEvent.postInit
    { canaryId := canaryId
      eventType := eventType.value
      payload := payload
      timestamp := timestamp
      seq := e.events.length
      prevHash := e.events.getLast?.elim genesisPrevHash CanaryEvent.entryHash
      entryHash := [] }

/-- `_emit`, after the deployments have changed. -/
def emit (deployments : Deployments P) (canaryId : Str) (eventType : CanaryEventType)
    (payload : Members P.Float) (timestamp : Str) : Engine P :=
  let evt := e.event canaryId eventType payload timestamp
  { e with
    ledger := appendRow P e.ledger evt.toDict
    events := e.events ++ [evt]
    deployments := deployments }

/-- `_get` -/
def get (canaryId : Str) : Except CanaryError (CanaryDeployment P) :=
  match e.deployments.lookup canaryId with
  | none => .error (.unknown canaryId)
  | some dep => .ok dep

end Engine

/-- `timestamp or _now_iso()` -/
def timestampOr (timestamp : Str) (now : Timestamp) : Str :=
  if timestamp = [] then now.text else timestamp

variable (P) in
/-- The arguments of `open_canary`, and the clock. -/
structure OpenCall where
  mutationId : Str
  tier : Int
  canarySlice : Option (Number P)
  mirrorThreshold : Option (Number P)
  timestamp : Str
  now : Timestamp

/-- The payload of an `opened` event. -/
def openedPayload (dep : CanaryDeployment P) : Members P.Float :=
  [(.str (str "mutation_id"), .str dep.mutationId), (.str (str "tier"), .int dep.tier),
    (.str (str "canary_slice"), dep.canarySlice.toObj),
    (.str (str "mirror_threshold"), dep.mirrorThreshold.toObj)]

/-- `open_canary` -/
def Engine.openCanary (e : Engine P) (call : OpenCall P) :
    Except CanaryError (CanaryDeployment P) × Engine P :=
  let ts := timestampOr call.timestamp call.now
  match makeCanaryId P call.mutationId ts with
  | .error x => (.error x, e)
  | .ok canaryId =>
    let deployment := CanaryDeployment.opened canaryId call.mutationId call.tier
      (call.canarySlice.getD e.defaultSlice) (call.mirrorThreshold.getD e.defaultThreshold) ts
    (.ok deployment, e.emit (Assoc.set e.deployments canaryId deployment) canaryId .opened
      (openedPayload deployment) ts)

/-- What `record_sample` makes of a deployment. -/
def CanaryDeployment.sampled (dep : CanaryDeployment P) (success : Bool) : CanaryDeployment P :=
  { dep with
    sampleCount := dep.sampleCount + 1
    errorCount := if success then dep.errorCount else dep.errorCount + 1 }

def samplePayload (dep : CanaryDeployment P) (success : Bool) : Members P.Float :=
  [(.str (str "success"), .bool success), (.str (str "sample_count"), .int dep.sampleCount),
    (.str (str "error_count"), .int dep.errorCount)]

/-- `record_sample` -/
def Engine.recordSample (e : Engine P) (canaryId : Str) (success : Bool) (timestamp : Str)
    (now : Timestamp) : Except CanaryError Unit × Engine P :=
  match e.get canaryId with
  | .error x => (.error x, e)
  | .ok dep =>
    let dep := dep.sampled success
    (.ok (), e.emit (Assoc.set e.deployments canaryId dep) canaryId .sampleRecorded
      (samplePayload dep success) (timestampOr timestamp now))

/-- What `record_mirror_result` makes of a deployment. -/
def CanaryDeployment.mirrored (dep : CanaryDeployment P) (mirrorScore : Number P) :
    CanaryDeployment P :=
  { dep with mirrorScore := some mirrorScore, status := .mirrorChecked }

def mirrorPayload (dep : CanaryDeployment P) (mirrorScore : Number P) : Members P.Float :=
  [(.str (str "mirror_score"), mirrorScore.toObj),
    (.str (str "threshold"), dep.mirrorThreshold.toObj),
    (.str (str "passed"), .bool dep.mirrorPassed)]

/-- `record_mirror_result` -/
def Engine.recordMirrorResult (e : Engine P) (canaryId : Str) (mirrorScore : Number P)
    (timestamp : Str) (now : Timestamp) : Except CanaryError Unit × Engine P :=
  match e.get canaryId with
  | .error x => (.error x, e)
  | .ok dep =>
    let dep := dep.mirrored mirrorScore
    (.ok (), e.emit (Assoc.set e.deployments canaryId dep) canaryId .mirrorResult
      (mirrorPayload dep mirrorScore) (timestampOr timestamp now))

def promotedPayload (mirrorScore : Number P) : Members P.Float :=
  [(.str (str "mirror_score"), mirrorScore.toObj), (.str (str "auto_promoted"), .bool true)]

def rolledBackPayload (dep : CanaryDeployment P) (mirrorScore : Number P) : Members P.Float :=
  [(.str (str "mirror_score"), mirrorScore.toObj),
    (.str (str "threshold"), dep.mirrorThreshold.toObj),
    (.str (str "reason"), .str (str "mirror_score_below_threshold")),
    (.str (str "auto_rollback"), .bool true)]

def CanaryDeployment.closed (dep : CanaryDeployment P) (status : CanaryStatus) (closedAt : Str) :
    CanaryDeployment P :=
  { dep with status := status, closedAt := closedAt }

/-- `close_canary` -/
def Engine.closeCanary (e : Engine P) (canaryId timestamp : Str) (now : Timestamp) :
    Except CanaryError (CanaryDeployment P) × Engine P :=
  match e.get canaryId with
  | .error x => (.error x, e)
  | .ok dep =>
    let ts := timestampOr timestamp now
    match dep.mirrorScore with
    | none =>
      (.error (.mirror (str "CMD-MIRROR-0: canary '" ++ canaryId ++
        str "' cannot be closed without a Mirror Test result. Call record_mirror_result() first.")), e)
    | some mirrorScore =>
      if dep.mirrorPassed then
        let dep := dep.closed .promoted ts
        (.ok dep, e.emit (Assoc.set e.deployments canaryId dep) canaryId .promoted
          (promotedPayload mirrorScore) ts)
      else
        let dep := dep.closed .rolledBack ts
        (.ok dep, e.emit (Assoc.set e.deployments canaryId dep) canaryId .rolledBack
          (rolledBackPayload dep mirrorScore) ts)

/-- A deployment that is promoted all the same. -/
def CanaryDeployment.overridden (dep : CanaryDeployment P) : CanaryDeployment P :=
  { dep with status := .promoted, human0Override := true }

def overridePayload (dep : CanaryDeployment P) (rationale : Str) : Members P.Float :=
  [(.str (str "previous_status"), .str CanaryStatus.rolledBack.value),
    (.str (str "new_status"), .str CanaryStatus.promoted.value),
    (.str (str "mirror_score"), dep.mirrorScore.elim .none Number.toObj),
    (.str (str "rationale"), .str rationale)]

/-- `promote_failed_canary` -/
def Engine.promoteFailedCanary (e : Engine P) (canaryId : Str) (humanAuth : Bool)
    (rationale timestamp : Str) (now : Timestamp) :
    Except CanaryError (CanaryDeployment P) × Engine P :=
  if humanAuth = false then
    (.error (.authorization (str "CMD-HUMAN0-0: promoting failed canary '" ++ canaryId ++ str
      "' to full rollout requires human_auth=True — this is a HUMAN-0 gated operation.")), e)
  else
    match e.get canaryId with
    | .error x => (.error x, e)
    | .ok dep =>
      if dep.status ≠ .rolledBack then (.error (.rollback canaryId dep.status), e)
      else
        let dep := dep.overridden
        (.ok dep, e.emit (Assoc.set e.deployments canaryId dep) canaryId .human0Override
          (overridePayload dep rationale) (timestampOr timestamp now))

/-! ### The ledger -/

/-- The loop of `verify_chain`, from the hash before. -/
def verifyFrom : Str → List (CanaryEvent P) → Except CanaryError Bool
  | _, [] => .ok true
  | prev, evt :: rest =>
    if evt.prevHash ≠ prev then
      .error (.chain (str "CMD-CHAIN-0: chain broken at seq=" ++ intText evt.seq ++
        str ". Expected prev=" ++ P.repr (.str prev) ++ str ", got " ++ P.repr (.str evt.prevHash)))
    else
      let expected := computeEventHash { evt with entryHash := [] }
      if evt.entryHash ≠ expected then
        .error (.chain (str "CMD-CHAIN-0: hash mismatch at seq=" ++ intText evt.seq ++ str "."))
      else verifyFrom evt.entryHash rest

/-- `verify_chain` -/
def Engine.verifyChain (e : Engine P) : Except CanaryError Bool :=
  verifyFrom genesisPrevHash e.events

def eventOf (d : Members P.Float) : Except LoadError (CanaryEvent P) := do
  let canaryId ← textAt d (str "canary_id")
  let eventType ← textAt d (str "event_type")
  let payload ← fieldAt d (str "payload") >>= itemsOf
  let timestamp ← textAt d (str "timestamp")
  let seq ← intAt d (str "seq")
  let prevHash ← textAt d (str "prev_hash")
  let entryHash ← textAt d (str "entry_hash")
  return CanaryEvent.postInit { canaryId, eventType, payload, timestamp, seq, prevHash, entryHash }

/-- The deployment of an `opened` event. -/
def openedOf (evt : CanaryEvent P) : Except LoadError (CanaryDeployment P) := do
  let mutationId ← textAt evt.payload (str "mutation_id")
  let tier ← intAt evt.payload (str "tier")
  let canarySlice ← numberAt evt.payload (str "canary_slice")
  let mirrorThreshold ← numberAt evt.payload (str "mirror_threshold")
  return CanaryDeployment.opened evt.canaryId mutationId tier canarySlice mirrorThreshold evt.timestamp

def redo (dep : CanaryDeployment P) (evt : CanaryEvent P) :
    Except LoadError (CanaryDeployment P) :=
  if evt.eventType = CanaryEventType.sampleRecorded.value then do
    let sampleCount ← intAt evt.payload (str "sample_count")
    let errorCount ← intAt evt.payload (str "error_count")
    return { dep with sampleCount, errorCount }
  else if evt.eventType = CanaryEventType.mirrorResult.value then do
    let mirrorScore ← numberAt evt.payload (str "mirror_score")
    return { dep with mirrorScore := some mirrorScore, status := .mirrorChecked }
  else if evt.eventType = CanaryEventType.promoted.value then
    .ok { dep with status := .promoted, closedAt := evt.timestamp }
  else if evt.eventType = CanaryEventType.rolledBack.value then
    .ok { dep with status := .rolledBack, closedAt := evt.timestamp }
  else if evt.eventType = CanaryEventType.human0Override.value then
    .ok { dep with status := .promoted, human0Override := true }
  else .ok dep

def replay (deployments : Deployments P) (evt : CanaryEvent P) :
    Except LoadError (Deployments P) :=
  if evt.eventType = CanaryEventType.opened.value then
    (openedOf evt).map fun dep => Assoc.set deployments evt.canaryId dep
  else
    match deployments.lookup evt.canaryId with
    | none => .ok deployments
    | some dep => (redo dep evt).map fun dep => Assoc.set deployments evt.canaryId dep

def loadLine (s : List (CanaryEvent P) × Deployments P) (line : Str) :
    Except LoadError (List (CanaryEvent P) × Deployments P) :=
  match loads P line with
  | none => .error (.raised .jsonDecodeError)
  | some (.dict d) => do
    let evt ← eventOf d
    let deployments ← replay s.2 evt
    return (s.1 ++ [evt], deployments)
  | some _ => .error (.raised .typeError)

variable (P) in
/-- `_load`; a ledger that does not exist is empty. -/
def load (ledger : Bytes) : Except LoadError (List (CanaryEvent P) × Deployments P) :=
  match readText ledger with
  | .error x => .error (.raised x)
  | .ok text => (filledLines text).foldlM loadLine ([], [])

def Engine.recreate (e : Engine P) : Except LoadError (Engine P) :=
  (load P e.ledger).map fun s => { e with events := s.1, deployments := s.2 }

/-! ### Runs -/

variable (P) in
/-- A call, with the clock. -/
inductive Call where
  | openCanary (call : OpenCall P)
  | recordSample (canaryId : Str) (success : Bool) (timestamp : Str) (now : Timestamp)
  | recordMirrorResult (canaryId : Str) (mirrorScore : Number P) (timestamp : Str)
      (now : Timestamp)
  | closeCanary (canaryId timestamp : Str) (now : Timestamp)
  | promoteFailedCanary (canaryId : Str) (humanAuth : Bool) (rationale timestamp : Str)
      (now : Timestamp)

def Engine.call (e : Engine P) : Call P → Engine P
  | .openCanary call => (e.openCanary call).2
  | .recordSample canaryId success timestamp now =>
    (e.recordSample canaryId success timestamp now).2
  | .recordMirrorResult canaryId mirrorScore timestamp now =>
    (e.recordMirrorResult canaryId mirrorScore timestamp now).2
  | .closeCanary canaryId timestamp now => (e.closeCanary canaryId timestamp now).2
  | .promoteFailedCanary canaryId humanAuth rationale timestamp now =>
    (e.promoteFailedCanary canaryId humanAuth rationale timestamp now).2

variable (P) in
/-- What may happen to an engine. -/
inductive Action where
  | call (call : Call P)
  /-- The engine is created again from its ledger. -/
  | recreate

/-- The engine after an action; where no new one can be created, the old one is left. -/
def Engine.step (e : Engine P) : Action P → Engine P
  | .call call => e.call call
  | .recreate =>
    match e.recreate with
    | .ok e' => e'
    | .error _ => e

end Adaad.Innovations.Canary
