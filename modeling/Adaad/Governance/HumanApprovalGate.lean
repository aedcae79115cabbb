import Adaad.Method
import Adaad.Py.Assoc
import Adaad.Py.Json.Loads
import Adaad.Run

/-!
# The human approval gate

`runtime/governance/human_approval_gate.py`: requests for approval go to a queue file, decisions and
revocations to an audit file, and an index file has the state that both logs lead to.  An instance
also keeps the index in memory (`_index_cache`), and uses that one where it has it.

Times are microseconds.  An index file that this class does not write, with values of other types
under its keys, counts as one that does not match the logs.
-/

namespace Adaad.HumanApproval

open Py

/-- What the gate sees of the process it runs in. -/
structure Env where
  /-- `_STRICT_HUMAN0` -/
  strictHuman0 : Bool
  /-- `str.upper` -/
  upper : Str → Str
  /-- `datetime.fromisoformat(text.replace("Z", "+00:00"))`; `none` where it raises, or the time has
  no offset, so that it cannot be subtracted from an aware one. -/
  instant : Str → Option Int

/-- `HUMAN0_GPG_FINGERPRINT` -/
def human0GpgFingerprint : Str := str "4C95E2F99A775335B1CF3DAF247B015A1CCD95F6"

/-- `APPROVAL_EXPIRY_S` -/
def approvalExpiryS : Int := 86400 * 7

/-! ### `ApprovalStatus` -/

def pendingStatus : Str := str "pending"
def approvedStatus : Str := str "approved"
def rejectedStatus : Str := str "rejected"
def revokedStatus : Str := str "revoked"
def expiredStatus : Str := str "expired"

/-- `ApprovalReason.BATCH_RELEASE`, as `str` gives it. -/
def batchReleaseReason : Str := str "ApprovalReason.BATCH_RELEASE"

inductive GateError where
  | identityViolation (message : Str)
  | keyError (key : Str)
  | raised (e : Exc)
  deriving DecidableEq, Repr

variable (P : Platform)

/-- A `dict` that `json.dumps(…, sort_keys=True)` accepts. -/
structure JsonDict where
  items : Members P.Float
  sorts : (sortKeys P (.dict items)).isSome = true

variable {P}

/-- The `dict`, unless its keys cannot be sorted. -/
def JsonDict.of? (items : Members P.Float) : Option (JsonDict P) :=
  if h : (sortKeys P (.dict items)).isSome = true then some ⟨items, h⟩ else none

variable (P) in
/-- The index: `requests`, `mutation_status` and the other parts of the state. -/
structure Index where
  requests : List (Str × JsonDict P)
  mutationStatus : List (Str × Str)
  /-- A set. -/
  decidedApprovalIds : List Str
  queueOrder : List Str
  queueDigest : Str
  auditDigest : Str

variable (P) in
/-- An instance of the gate, and its files. -/
structure Gate where
  queue : Bytes
  audit : Bytes
  /-- `none` where the file does not exist. -/
  index : Option Bytes
  /-- `_index_cache` -/
  cache : Option (Index P)

variable (P) in
abbrev GateMethod := Method GateError (Gate P)

/-! ### The state of the logs -/

/-- A text or `none`. -/
def textAt (d : Members P.Float) (key : Str) : Option Str :=
  match get d key with
  | some (.str s) => some s
  | _ => none

variable (P) in
/-- `_digest_jsonl` -/
def digestJsonl (file : Bytes) : Except Exc Str := do
  let rows ← looseRows P file
  return P.sha256 ((encode (rows.filterMap (dumpsSortedAscii P .compact)).flatten).getD [])

/-- A row of the queue in `_replay_state`. -/
def applyQueueRow (s : Index P) : P.Obj → Except Exc (Index P)
  | .dict entry =>
    match textAt entry (str "approval_id") with
    | none => .ok s
    | some approvalId =>
      match JsonDict.of? entry with
      -- what was read from JSON can be sorted
      | none => .ok s
      | some request =>
        .ok { s with
          requests := Assoc.set s.requests approvalId request
          queueOrder := s.queueOrder ++ [approvalId] }
  | _ => .error .attributeError

/-- `state["mutation_status"][mutation_id] = status`, if both are texts. -/
def setStatus (s : Index P) (mutationId status : Option Str) : Index P :=
  match mutationId, status with
  | some m, some t => { s with mutationStatus := Assoc.set s.mutationStatus m t }
  | _, _ => s

/-- `_apply_audit_to_state` -/
def applyAuditToState (s : Index P) (eventType payload : P.Obj) : Except Exc (Index P) :=
  match eventType with
  | .str e =>
    if e = str "approval_decision" then
      match payload with
      | .dict p =>
        let s :=
          match textAt p (str "approval_id") with
          | none => s
          | some a => { s with decidedApprovalIds := s.decidedApprovalIds.insert a }
        .ok (setStatus s (textAt p (str "mutation_id")) (textAt p (str "status")))
      | _ => .error .attributeError
    else if e = str "approval_revoked" then
      match payload with
      | .dict p => .ok (setStatus s (textAt p (str "mutation_id")) (some revokedStatus))
      | _ => .error .attributeError
    else .ok s
  | _ => .ok s

/-- A row of the audit log in `_replay_state`. -/
def applyAuditRow (s : Index P) : P.Obj → Except Exc (Index P)
  | .dict entry =>
    applyAuditToState s ((get entry (str "event_type")).getD (.str []))
      ((get entry (str "payload")).getD (.dict []))
  | _ => .error .attributeError

variable (P) in
def Index.empty : Index P where
  requests := []
  mutationStatus := []
  decidedApprovalIds := []
  queueOrder := []
  queueDigest := []
  auditDigest := []

/-- `_replay_state` -/
def replayState (g : Gate P) : Except Exc (Index P) := do
  let s ← (← looseRows P g.queue).foldlM applyQueueRow (Index.empty P)
  let s ← (← looseRows P g.audit).foldlM applyAuditRow s
  let queueDigest ← digestJsonl P g.queue
  let auditDigest ← digestJsonl P g.audit
  return { s with queueDigest, auditDigest }

/-! ### The index file -/

/-- `sorted(texts)` -/
def sortTexts (texts : List Str) : List Str :=
  texts.insertionSort fun s t => strLe s t = true

/-- `serializable` -/
def Index.serializable (s : Index P) : Members P.Float :=
  [(.str (str "version"), .int 1),
    (.str (str "requests"), .dict (s.requests.map fun m => (.str m.1, .dict m.2.items))),
    (.str (str "mutation_status"), .dict (s.mutationStatus.map fun m => (.str m.1, .str m.2))),
    (.str (str "decided_approval_ids"), .list ((sortTexts s.decidedApprovalIds).map .str)),
    (.str (str "queue_order"), .list (s.queueOrder.map .str)),
    (.str (str "queue_digest"), .str s.queueDigest),
    (.str (str "audit_digest"), .str s.auditDigest)]

/-- `_write_index` -/
def writeIndex (s : Index P) : GateMethod P Unit :=
  match appendSorted P [] (.dict s.serializable) with
  | .error e => .ofExcept (.error (.raised e))
  | .ok b => .change fun g =>
    { g with
      index := some b
      cache := some s }

def textOf : P.Obj → Option Str
  | .str s => some s
  | _ => none

def keyText : Key P.Float → Option Str
  | .str s => some s
  | _ => none

/-- `state["requests"]` -/
def requestsOf (v : P.Obj) : Option (List (Str × JsonDict P)) := do
  let kvs ← v.members?
  kvs.mapM fun m => do
    let id ← keyText m.1
    let items ← m.2.members?
    let request ← JsonDict.of? items
    return (id, request)

/-- `state["mutation_status"]` -/
def statusesOf (v : P.Obj) : Option (List (Str × Str)) := do
  let kvs ← v.members?
  kvs.mapM fun m => do
    let id ← keyText m.1
    let status ← textOf m.2
    return (id, status)

def textsOf : P.Obj → Option (List Str)
  | .list xs => xs.mapM textOf
  | _ => none

/-- The state of an index file with all of its keys. -/
def Index.ofJson (d : Members P.Float) : Option (Index P) := do
  let _ ← get d (str "version")
  let requests ← (get d (str "requests")).bind requestsOf
  let mutationStatus ← (get d (str "mutation_status")).bind statusesOf
  let decidedApprovalIds ← (get d (str "decided_approval_ids")).bind textsOf
  let queueOrder ← (get d (str "queue_order")).bind textsOf
  let queueDigest ← textAt d (str "queue_digest")
  let auditDigest ← textAt d (str "audit_digest")
  return { requests, mutationStatus, decidedApprovalIds, queueOrder, queueDigest, auditDigest }

/-- `json.loads(self._index_path.read_text(encoding="utf-8"))`, of the shape that is wanted. -/
def indexOf (file : Bytes) : Option (Index P) := do
  let text ← (readText file).toOption
  let v ← loads P text
  Index.ofJson (← v.members?)

/-- The state in the index file, if it is there and consistent with the logs. -/
def savedIndex (g : Gate P) : Option (Index P) := do
  let s ← (← g.index |>.map indexOf)
  let queueDigest ← (digestJsonl P g.queue).toOption
  let auditDigest ← (digestJsonl P g.audit).toOption
  if s.queueDigest = queueDigest ∧ s.auditDigest = auditDigest then some s else none

/-- `_load_index_or_rebuild` -/
def loadIndexOrRebuild : GateMethod P (Index P) := do
  let g ← .state
  match g.cache with
  | some s => return s
  | none =>
    match savedIndex g with
    | some s => do
      .change fun g => { g with cache := some s }
      return s
    | none => do
      let s ← .ofExcept ((replayState g).mapError .raised)
      writeIndex s
      return s

/-! ### Writing to the logs -/

/-- `_append_queue_with_state`; the id in the payload is a text. -/
def appendQueueWithState (approvalId : Str) (payload : Members P.Float) (s : Index P) :
    GateMethod P (Index P) := do
  let g ← .state
  match JsonDict.of? payload with
  | none => .ofExcept (.error (.raised .typeError))
  | some request => do
    let queue ← .ofExcept ((appendSorted P g.queue (.dict payload)).mapError .raised)
    .change fun g => { g with queue }
    let queueDigest ← .ofExcept ((digestJsonl P queue).mapError .raised)
    let s :=
      { s with
        requests := Assoc.set s.requests approvalId request
        queueOrder := s.queueOrder ++ [approvalId]
        queueDigest }
    writeIndex s
    return s

/-- `entry` -/
def auditEntry (eventType now : Str) (payload : Members P.Float) : Members P.Float :=
  [(.str (str "event_type"), .str eventType), (.str (str "timestamp"), .str now),
    (.str (str "payload"), .dict payload)]

/-- `_write_audit_with_state` -/
def writeAuditWithState (eventType now : Str) (payload : Members P.Float) (s : Index P) :
    GateMethod P (Index P) := do
  let g ← .state
  let audit ← .ofExcept
    ((appendSorted P g.audit (.dict (auditEntry eventType now payload))).mapError .raised)
  .change fun g => { g with audit }
  let s ← .ofExcept ((applyAuditToState s (.str eventType) (.dict payload)).mapError .raised)
  let auditDigest ← .ofExcept ((digestJsonl P audit).mapError .raised)
  let s := { s with auditDigest }
  writeIndex s
  return s

/-- `_write_audit` -/
def writeAudit (eventType now : Str) (payload : Members P.Float) : GateMethod P Unit := do
  let s ← loadIndexOrRebuild
  let _ ← writeAuditWithState eventType now payload s

/-! ### Requests and decisions -/

/-- The clock readings of a request. -/
structure RequestClock where
  idAt : Str
  requestedAt : Str
  auditAt : Str

/-- The clock readings of a decision; `auditAt` is also that of a violation. -/
structure DecisionClock where
  decidedAt : Str
  auditAt : Str

variable (P) in
/-- `_generate_approval_id` -/
def generateApprovalId (mutationId epochId now : Str) : Except Exc Str :=
  match encode (mutationId ++ 58 :: (epochId ++ 58 :: now)) with
  | none => .error .unicodeEncodeError
  | some b => .ok (str "appr-" ++ (P.sha256 b).take 16)

/-- `request.to_payload()` -/
def requestPayload (approvalId mutationId epochId reason requestedAt : Str)
    (metadata : Members P.Float) : Members P.Float :=
  [(.str (str "approval_id"), .str approvalId), (.str (str "mutation_id"), .str mutationId),
    (.str (str "epoch_id"), .str epochId), (.str (str "reason"), .str reason),
    (.str (str "requested_at"), .str requestedAt), (.str (str "metadata"), .dict metadata)]

/-- `_request_approval_with_state`; a `metadata` of `None` is the empty `dict`. -/
def requestApprovalWithState (s : Index P) (mutationId epochId reason : Str)
    (metadata : Members P.Float) (clock : RequestClock) : GateMethod P (Str × Index P) := do
  let approvalId ← .ofExcept ((generateApprovalId P mutationId epochId clock.idAt).mapError .raised)
  let payload :=
    requestPayload approvalId mutationId epochId reason clock.requestedAt metadata
  let s ← appendQueueWithState approvalId payload s
  let s ← writeAuditWithState (str "approval_requested") clock.auditAt
    (payload ++ [(.str (str "status"), .str pendingStatus)]) s
  return (approvalId, s)

/-- `operator_id.strip().upper().replace(" ", "").replace(":", "")` -/
def canonicalOperator (env : Env) (operatorId : Str) : Str :=
  (env.upper (strip operatorId)).filter fun c => c ≠ 32 ∧ c ≠ 58

/-- `_find_request` looks through the queue. -/
def findInQueue (approvalId : Str) : List P.Obj → Except Exc (Option (Members P.Float))
  | [] => .ok none
  | .dict entry :: rows =>
    if textAt entry (str "approval_id") = some approvalId then .ok (some entry)
    else findInQueue approvalId rows
  | _ :: _ => .error .attributeError

/-- `_find_request`, and what the caller makes of it with its own state. -/
def findRequest (s : Index P) (approvalId : Str) : GateMethod P (Option (Members P.Float)) := do
  let t ← loadIndexOrRebuild
  match t.requests.lookup approvalId with
  | some request => return some ((s.requests.lookup approvalId).getD request).items
  | none => do
    let g ← .state
    let rows ← .ofExcept ((looseRows P g.queue).mapError .raised)
    let found ← .ofExcept ((findInQueue approvalId rows).mapError .raised)
    match s.requests.lookup approvalId with
    | some request => return some request.items
    | none => return found

/-- `request[key]` -/
def item (request : Members P.Float) (key : Str) : GateMethod P P.Obj :=
  match get request key with
  | none => .ofExcept (.error (.keyError key))
  | some v => pure v

/-- `ApprovalDecision.compute_digest` -/
def computeDigest (approvalId : Str) (mutationId : P.Obj) (status operatorId decidedAt : Str) :
    Except Exc Str :=
  match dumpsSortedAscii P .compact (.dict
    [(.str (str "approval_id"), .str approvalId), (.str (str "mutation_id"), mutationId),
      (.str (str "status"), .str status), (.str (str "operator_id"), .str operatorId),
      (.str (str "decided_at"), .str decidedAt)]) with
  | none => .error .typeError
  | some t => .ok (P.sha256 ((encode t).getD []))

/-- `decision.to_payload()` -/
def decisionPayload (approvalId : Str) (mutationId epochId : P.Obj)
    (status operatorId decidedAt notes digest : Str) : Members P.Float :=
  [(.str (str "approval_id"), .str approvalId), (.str (str "mutation_id"), mutationId),
    (.str (str "epoch_id"), epochId), (.str (str "status"), .str status),
    (.str (str "operator_id"), .str operatorId), (.str (str "decided_at"), .str decidedAt),
    (.str (str "notes"), .str notes), (.str (str "decision_digest"), .str digest)]

/-- `violation_payload` -/
def violationPayload (approvalId operatorId : Str) : Members P.Float :=
  [(.str (str "operator_id_received"), .str operatorId),
    (.str (str "expected_fingerprint"), .str human0GpgFingerprint),
    (.str (str "approval_id"), .str approvalId),
    (.str (str "invariant"), .str (str "HAPG-IDENTITY-0"))]

/-- `_record_decision_with_state` -/
def recordDecisionWithState (env : Env) (s : Index P) (approvalId : Str) (approved : Bool)
    (operatorId notes : Str) (clock : DecisionClock) :
    GateMethod P (Members P.Float × Index P) := do
  if env.strictHuman0 ∧ canonicalOperator env operatorId ≠ human0GpgFingerprint then do
    let _ ← writeAuditWithState (str "identity_violation") clock.auditAt
      (violationPayload approvalId operatorId) s
    .ofExcept (.error (.identityViolation (str "HAPG-IDENTITY-0: operator_id '" ++ operatorId ++
      str "' does not match HUMAN0_GPG_FINGERPRINT. Decision rejected and ledger-appended.")))
  else
    match ← findRequest s approvalId with
    | none =>
      .ofExcept (.error (.raised (.valueError (str "approval_id_not_found:" ++ approvalId))))
    | some request => do
      let status := if approved then approvedStatus else rejectedStatus
      let mutationId ← item request (str "mutation_id")
      let epochId ← item request (str "epoch_id")
      let digest ← .ofExcept
        ((computeDigest approvalId mutationId status operatorId clock.decidedAt).mapError .raised)
      let payload :=
        decisionPayload approvalId mutationId epochId status operatorId clock.decidedAt notes digest
      let s ← writeAuditWithState (str "approval_decision") clock.auditAt payload s
      return (payload, s)

/-! ### The calls -/

/-- `request_approval` -/
def requestApproval (mutationId epochId reason : Str) (metadata : Members P.Float)
    (clock : RequestClock) : GateMethod P Str := do
  let s ← loadIndexOrRebuild
  let r ← requestApprovalWithState s mutationId epochId reason metadata clock
  return r.1

/-- `record_decision` -/
def recordDecision (env : Env) (approvalId : Str) (approved : Bool) (operatorId notes : Str)
    (clock : DecisionClock) : GateMethod P (Members P.Float) := do
  let s ← loadIndexOrRebuild
  let r ← recordDecisionWithState env s approvalId approved operatorId notes clock
  return r.1

/-- The loop of `batch_approve`, over the ids with the clock readings for each. -/
def batchFrom (env : Env) (epochId operatorId notes : Str) (metadata : Members P.Float) :
    List (Str × RequestClock × DecisionClock) → Index P → GateMethod P (List (Members P.Float))
  | [], _ => pure []
  | (mutationId, requestClock, decisionClock) :: later, s => do
    let (approvalId, s) ←
      requestApprovalWithState s mutationId epochId batchReleaseReason metadata requestClock
    let (decision, s) ←
      recordDecisionWithState env s approvalId true operatorId notes decisionClock
    let decisions ← batchFrom env epochId operatorId notes metadata later s
    return decision :: decisions

/-- `batch_approve` -/
def batchApprove (env : Env) (mutationIds : List (Str × RequestClock × DecisionClock))
    (epochId operatorId notes : Str) : GateMethod P (List (Members P.Float)) := do
  let s ← loadIndexOrRebuild
  batchFrom env epochId operatorId notes
    [(.str (str "batch_size"), .int mutationIds.length)] mutationIds s

/-- `revoke_approval` -/
def revokeApproval (mutationId operatorId reason revokedAt auditAt : Str) : GateMethod P Unit :=
  writeAudit (str "approval_revoked") auditAt
    [(.str (str "mutation_id"), .str mutationId), (.str (str "operator_id"), .str operatorId),
      (.str (str "reason"), .str reason), (.str (str "revoked_at"), .str revokedAt),
      (.str (str "status"), .str revokedStatus)]

/-- The payload of a row that is an approval of the mutation. -/
def approvalPayload (mutationId : Str) : P.Obj → Except Exc (Option (Members P.Float))
  | .dict entry =>
    if textAt entry (str "event_type") = some (str "approval_decision") then
      match (get entry (str "payload")).getD (.dict []) with
      | .dict p =>
        if textAt p (str "mutation_id") = some mutationId ∧
            textAt p (str "status") = some approvedStatus then
          .ok (some p)
        else .ok none
      | _ => .error .attributeError
    else .ok none
  | _ => .error .attributeError

/-- `age_s`, in microseconds; `none` where an exception is raised on the way to it. -/
def age (env : Env) (payload : Members P.Float) (now : Int) : Option Int := do
  let decidedAt ← textAt payload (str "decided_at")
  let t ← env.instant decidedAt
  return now - t

/-- `age_s > APPROVAL_EXPIRY_S` -/
def isExpired (a : Int) : Bool :=
  a > approvalExpiryS * 1000000

/-- `expiry_payload` -/
def expiryPayload (mutationId : Str) (a : Int) : Members P.Float :=
  [(.str (str "mutation_id"), .str mutationId), (.str (str "status"), .str expiredStatus),
    (.str (str "age_seconds"), .int (a / 1000000)),
    (.str (str "expiry_threshold_s"), .int approvalExpiryS)]

/-- The loop of `is_approved`; `nows i` is the time that is read for row `i`.  An exception while
the expiry is written is passed over like any other. -/
def scanApprovals (env : Env) (mutationId : Str) (nows : Nat → Int) (auditAt : Str) :
    Nat → List P.Obj → GateMethod P Bool
  | _, [] => pure true
  | i, row :: rows => do
    match ← .ofExcept ((approvalPayload mutationId row).mapError .raised) with
    | none => scanApprovals env mutationId nows auditAt (i + 1) rows
    | some p =>
      match age env p (nows i) with
      | none => scanApprovals env mutationId nows auditAt (i + 1) rows
      | some a =>
        if isExpired a then do
          let g ← .state
          match Method.run
            (writeAudit (str "approval_expired") auditAt (expiryPayload mutationId a)) g with
          | (.ok _, g') => do
            .change fun _ => { g' with cache := none }
            return false
          | (.error _, g') => do
            .change fun _ => g'
            scanApprovals env mutationId nows auditAt (i + 1) rows
        else scanApprovals env mutationId nows auditAt (i + 1) rows

/-- `is_approved` -/
def isApproved (env : Env) (mutationId : Str) (nows : Nat → Int) (auditAt : Str) :
    GateMethod P Bool := do
  let s ← loadIndexOrRebuild
  if s.mutationStatus.lookup mutationId ≠ some approvedStatus then return false
  else do
    let g ← .state
    let rows ← .ofExcept ((looseRows P g.audit).mapError .raised)
    scanApprovals env mutationId nows auditAt 0 rows

def Index.pending (s : Index P) : List (JsonDict P) :=
  s.queueOrder.filterMap fun approvalId =>
    if approvalId ∈ s.decidedApprovalIds then none else s.requests.lookup approvalId

/-- `pending_queue` -/
def pendingQueue : GateMethod P (List (JsonDict P)) := do
  let s ← loadIndexOrRebuild
  return s.pending

/-- `_ensure_paths`, where the files are there or made empty. -/
def ensurePaths : GateMethod P Unit := do
  let g ← .state
  match g.index with
  | some _ => pure ()
  | none => do
    let s ← .ofExcept ((replayState g).mapError .raised)
    writeIndex s

end Adaad.HumanApproval

/-!
## Instances of the gate

Several instances of the gate can be open on the same files.  Each has an index of its own in
memory, and their calls come in any order, one after the other.
-/

namespace Adaad.HumanApproval

open Py

variable (P : Platform)

/-- A call of a method, with what it reads from the clock. -/
inductive GateCall where
  | requestApproval (mutationId epochId reason : Str) (metadata : Members P.Float)
      (clock : RequestClock)
  | recordDecision (approvalId : Str) (approved : Bool) (operatorId notes : Str)
      (clock : DecisionClock)
  | batchApprove (mutationIds : List (Str × RequestClock × DecisionClock))
      (epochId operatorId notes : Str)
  | revokeApproval (mutationId operatorId reason revokedAt auditAt : Str)
  | isApproved (mutationId : Str) (nows : Nat → Int) (auditAt : Str)
  | pendingQueue

/-- The files, and the index that each instance has in memory. -/
structure Gates where
  queue : Bytes
  audit : Bytes
  index : Option Bytes
  caches : Nat → Option (Index P)

variable {P}

def GateCall.apply (env : Env) (g : Gate P) : GateCall P → Gate P
  | .requestApproval mutationId epochId reason metadata clock =>
    (Method.run (HumanApproval.requestApproval mutationId epochId reason metadata clock) g).2
  | .recordDecision approvalId approved operatorId notes clock =>
    (Method.run (HumanApproval.recordDecision env approvalId approved operatorId notes clock) g).2
  | .batchApprove mutationIds epochId operatorId notes =>
    (Method.run (HumanApproval.batchApprove env mutationIds epochId operatorId notes) g).2
  | .revokeApproval mutationId operatorId reason revokedAt auditAt =>
    (Method.run (HumanApproval.revokeApproval mutationId operatorId reason revokedAt auditAt) g).2
  | .isApproved mutationId nows auditAt =>
    (Method.run (HumanApproval.isApproved env mutationId nows auditAt) g).2
  | .pendingQueue => (Method.run HumanApproval.pendingQueue g).2

namespace Gates

variable (P) in
/-- Nothing has been written, and no instance is open. -/
def fresh : Gates P where
  queue := []
  audit := []
  index := none
  caches _ := none

def gate (w : Gates P) (i : Nat) : Gate P where
  queue := w.queue
  audit := w.audit
  index := w.index
  cache := w.caches i

/-- The files and the index that an instance leaves. -/
def put (w : Gates P) (i : Nat) (g : Gate P) : Gates P where
  queue := g.queue
  audit := g.audit
  index := g.index
  caches := Function.update w.caches i g.cache

end Gates

variable (P) in
/-- What an instance does: it is opened anew, or one of its methods is called. -/
inductive GateStep where
  | opened (i : Nat)
  | called (i : Nat) (c : GateCall P)

def Gates.step (env : Env) (w : Gates P) : GateStep P → Gates P
  | .opened i => w.put i (Method.run ensurePaths { w.gate i with cache := none }).2
  | .called i c => w.put i (c.apply env (w.gate i))

end Adaad.HumanApproval
