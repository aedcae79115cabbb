import Adaad.Py.Assoc
import Adaad.Py.Json.Loads
import Adaad.Run

/-!
# The offline ledger sync queue

`runtime/integrations/offline_ledger_sync.py`: operations that wait for a remote ledger, and what
the remote has said of them.  Each change is made in memory and logged as an event; a queue is
opened by replaying the events of its log.

The `dict` of an operation is a record here, and so is that of a conflict; `toDict` is what is
written of them.  The device id of a `Config` has been stripped and is not empty.
-/

namespace Adaad.OfflineSync

open Py

variable (P : Platform)

/-! ### Operations -/

inductive OpState where
  | pending
  | acked
  | conflict
  deriving DecidableEq, Repr

def OpState.text : OpState → Str
  | pending => str "pending"
  | acked => str "acked"
  | conflict => str "conflict"

/-- `op["conflict"]` -/
structure Conflict where
  reason : P.Obj
  remoteSnapshot : P.Obj
  detectedTs : Str

structure Operation where
  opId : Str
  opSeq : Nat
  operationType : Str
  ledgerKey : Str
  payload : P.Obj
  baseVersion : Option Int
  enqueuedTs : Str
  nextRetryTs : Str
  attemptCount : Nat
  state : OpState
  opDigest : Str
  lastAttemptTs : Option Str := none
  ackTs : Option Str := none
  /-- `none` where the key is missing. -/
  remoteVersion : Option P.Obj := none
  conflict : Option (Conflict P) := none

/-- The events of a log. -/
inductive Event where
  | enqueue (ts : Str) (operation : Operation P)
  | attempt (ts opId : Str) (attemptCount : Nat) (nextRetryTs : Str)
  /-- An event of `keep_remote` has no `remote_version`. -/
  | ackApplied (ts opId : Str) (remoteVersion : Option P.Obj) (remoteStatus : Str)
  | ackConflict (ts opId : Str) (conflict : Conflict P)
  | resolveConflict (ts opId resolution : Str)

/-- `QueueLimits` -/
structure QueueLimits where
  maxPendingOperations : Int := 1000
  ackRetentionEntries : Int := 2000
  minRetryBackoffSeconds : Int := 2
  maxRetryBackoffSeconds : Int := 300

structure Config where
  deviceId : Str
  limits : QueueLimits := {}

/-- A queue and the file of its log; a file that is not there is empty. -/
structure Queue where
  log : Bytes := []
  events : List (Event P) := []
  ops : List (Str × Operation P) := []
  /-- A `set`. -/
  ackedIds : List Str := []
  conflicts : List (Str × Conflict P) := []
  nextSeq : Nat := 1

inductive Fault where
  | raised (e : Exc)
  /-- `OfflineLedgerSyncError` -/
  | sync (message : Str)
  | ackIntegrity (message : Str)
  /-- A log that no queue has written. -/
  | foreignLog
  deriving DecidableEq, Repr

variable {P}

/-! ### What is written -/

def schemaVersion : Str := str "offline_ledger_sync_queue.v1"

/-- `None` or an `int`. -/
def versionValue : Option Int → P.Obj
  | none => .none
  | some i => .int i

def Conflict.toDict (c : Conflict P) : Members P.Float :=
  [(.str (str "state"), .str (str "conflict")), (.str (str "reason"), c.reason),
    (.str (str "remote_snapshot"), c.remoteSnapshot), (.str (str "detected_ts"), .str c.detectedTs),
    (.str (str "resolution_required"), .bool true)]

/-- The `dict` of an operation that is enqueued. -/
def Operation.toDict (op : Operation P) : Members P.Float :=
  [(.str (str "schema_version"), .str schemaVersion), (.str (str "op_id"), .str op.opId),
    (.str (str "op_seq"), .int op.opSeq), (.str (str "operation_type"), .str op.operationType),
    (.str (str "ledger_key"), .str op.ledgerKey), (.str (str "payload"), op.payload),
    (.str (str "base_version"), versionValue op.baseVersion),
    (.str (str "enqueued_ts"), .str op.enqueuedTs),
    (.str (str "next_retry_ts"), .str op.nextRetryTs),
    (.str (str "attempt_count"), .int op.attemptCount),
    (.str (str "state"), .str op.state.text), (.str (str "op_digest"), .str op.opDigest)]

def Event.toDict : Event P → Members P.Float
  | .enqueue ts operation =>
    [(.str (str "event"), .str (str "enqueue")), (.str (str "ts"), .str ts),
      (.str (str "operation"), .dict operation.toDict)]
  | .attempt ts opId attemptCount nextRetryTs =>
    [(.str (str "event"), .str (str "attempt")), (.str (str "ts"), .str ts),
      (.str (str "op_id"), .str opId), (.str (str "attempt_count"), .int attemptCount),
      (.str (str "next_retry_ts"), .str nextRetryTs)]
  | .ackApplied ts opId (some remoteVersion) remoteStatus =>
    [(.str (str "event"), .str (str "ack_applied")), (.str (str "ts"), .str ts),
      (.str (str "op_id"), .str opId), (.str (str "remote_version"), remoteVersion),
      (.str (str "remote_status"), .str remoteStatus)]
  | .ackApplied ts opId none remoteStatus =>
    [(.str (str "event"), .str (str "ack_applied")), (.str (str "ts"), .str ts),
      (.str (str "op_id"), .str opId), (.str (str "remote_status"), .str remoteStatus)]
  | .ackConflict ts opId conflict =>
    [(.str (str "event"), .str (str "ack_conflict")), (.str (str "ts"), .str ts),
      (.str (str "op_id"), .str opId), (.str (str "conflict"), .dict conflict.toDict)]
  | .resolveConflict ts opId resolution =>
    [(.str (str "event"), .str (str "resolve_conflict")), (.str (str "ts"), .str ts),
      (.str (str "op_id"), .str opId), (.str (str "resolution"), .str resolution)]

/-- `_append_event` -/
def appendEvent (q : Queue P) (e : Event P) : Except Exc (Queue P) :=
  match dumpsSorted P .spaced (.dict e.toDict) with
  | none => .error .typeError
  | some t =>
    match encode (t ++ [lf]) with
    | none => .error .unicodeEncodeError
    | some b => .ok { q with log := q.log ++ b, events := q.events ++ [e] }

/-! ### What is read -/

def textOf (d : Members P.Float) (key : Str) : Option Str :=
  match get d key with
  | some (.str s) => some s
  | _ => none

def natOf (d : Members P.Float) (key : Str) : Option Nat :=
  match get d key with
  | some (.int (.ofNat n)) => some n
  | _ => none

def dictOf (d : Members P.Float) (key : Str) : Option (Members P.Float) :=
  (get d key).bind Value.members?

def versionOf (d : Members P.Float) (key : Str) : Option (Option Int) :=
  match get d key with
  | some .none => some none
  | some (.int i) => some (some i)
  | _ => none

def OpState.ofText (t : Str) : Option OpState :=
  [pending, acked, conflict].find? (·.text = t)

def Conflict.ofDict (d : Members P.Float) : Option (Conflict P) := do
  let reason ← get d (str "reason")
  let remoteSnapshot ← get d (str "remote_snapshot")
  let detectedTs ← textOf d (str "detected_ts")
  return { reason, remoteSnapshot, detectedTs }

def Operation.ofDict (d : Members P.Float) : Option (Operation P) := do
  let opId ← textOf d (str "op_id")
  let opSeq ← natOf d (str "op_seq")
  let operationType ← textOf d (str "operation_type")
  let ledgerKey ← textOf d (str "ledger_key")
  let payload ← get d (str "payload")
  let baseVersion ← versionOf d (str "base_version")
  let enqueuedTs ← textOf d (str "enqueued_ts")
  let nextRetryTs ← textOf d (str "next_retry_ts")
  let attemptCount ← natOf d (str "attempt_count")
  let state ← (textOf d (str "state")).bind OpState.ofText
  let opDigest ← textOf d (str "op_digest")
  return {
    opId, opSeq, operationType, ledgerKey, payload, baseVersion, enqueuedTs, nextRetryTs,
    attemptCount, state, opDigest }

def Event.ofDict (d : Members P.Float) : Option (Event P) := do
  let kind ← textOf d (str "event")
  let ts ← textOf d (str "ts")
  if kind = str "enqueue" then
    let operation ← (OfflineSync.dictOf d (str "operation")).bind Operation.ofDict
    return .enqueue ts operation
  else
    let opId ← textOf d (str "op_id")
    if kind = str "attempt" then
      let attemptCount ← natOf d (str "attempt_count")
      let nextRetryTs ← textOf d (str "next_retry_ts")
      return .attempt ts opId attemptCount nextRetryTs
    else if kind = str "ack_applied" then
      let remoteStatus ← textOf d (str "remote_status")
      return .ackApplied ts opId (get d (str "remote_version")) remoteStatus
    else if kind = str "ack_conflict" then
      let conflict ← (OfflineSync.dictOf d (str "conflict")).bind Conflict.ofDict
      return .ackConflict ts opId conflict
    else if kind = str "resolve_conflict" then
      let resolution ← textOf d (str "resolution")
      return .resolveConflict ts opId resolution
    else none

/-- `_load_events`, and what `_rebuild_state` takes from each event. -/
def loadEvents (log : Bytes) : Except Fault (List (Event P)) :=
  match readRows P id log with
  | .error e => .error (.raised e)
  | .ok rows =>
    match rows.mapM fun row => row.members?.bind Event.ofDict with
    | none => .error .foreignLog
    | some events => .ok events

/-! ### Replay -/

/-- `d.pop(key, None)` -/
def pop {V : Type} (d : List (Str × V)) (key : Str) : List (Str × V) :=
  d.filter fun m => m.1 ≠ key

/-- What `_rebuild_state` keeps; `maxSeq` is its `next_seq` before the last line. -/
structure Rebuilt (P : Platform) where
  ops : List (Str × Operation P) := []
  ackedIds : List Str := []
  conflicts : List (Str × Conflict P) := []
  maxSeq : Nat := 0

/-- The body of the loop of `_rebuild_state`. -/
def rebuildEvent (s : Rebuilt P) : Event P → Rebuilt P
  | .enqueue _ op =>
    { s with ops := Assoc.set s.ops op.opId op, maxSeq := max s.maxSeq op.opSeq }
  | .attempt ts opId _ nextRetryTs =>
    match s.ops.lookup opId with
    | none => s
    | some op =>
      { s with
        ops := Assoc.set s.ops opId
          { op with
            attemptCount := op.attemptCount + 1, lastAttemptTs := some ts, nextRetryTs } }
  | .ackApplied ts opId remoteVersion _ =>
    match s.ops.lookup opId with
    | none => { s with ackedIds := s.ackedIds.insert opId }
    | some op =>
      { s with
        ops := Assoc.set s.ops opId
          { op with
            state := .acked, ackTs := some ts,
            -- `event.get("remote_version")`
            remoteVersion := some (remoteVersion.getD .none) }
        ackedIds := s.ackedIds.insert opId }
  | .ackConflict _ opId conflict =>
    match s.ops.lookup opId with
    | none => s
    | some op =>
      { s with
        ops := Assoc.set s.ops opId { op with state := .conflict, conflict := some conflict }
        conflicts := Assoc.set s.conflicts opId conflict }
  | .resolveConflict ts opId _ =>
    match s.ops.lookup opId with
    | none => s
    | some op =>
      { s with
        ops := Assoc.set s.ops opId
          { op with state := .pending, nextRetryTs := ts, conflict := none }
        conflicts := pop s.conflicts opId }

/-- The loop of `_rebuild_state`. -/
def rebuild (events : List (Event P)) : Rebuilt P :=
  events.foldl rebuildEvent {}

/-- `OfflineLedgerSyncQueue(log_path, …)` -/
def openLog (log : Bytes) : Except Fault (Queue P) :=
  match loadEvents log with
  | .error e => .error e
  | .ok events =>
    let s := rebuild events
    .ok {
      log, events, ops := s.ops, ackedIds := s.ackedIds, conflicts := s.conflicts,
      nextSeq := s.maxSeq + 1 }

/-! ### Enqueuing -/

variable (cfg : Config) (q : Queue P)

/-- `_op_digest` -/
def opDigest (payload : Members P.Float) : Except Exc Str :=
  match dumpsSorted P .compact (.dict payload) with
  | none => .error .typeError
  | some t =>
    match encode t with
    | none => .error .unicodeEncodeError
    | some b => .ok (P.sha256 b)

def pendingCount : Nat :=
  q.ops.countP fun m => m.2.state = .pending

/-- The operation that `enqueue_operation` makes. -/
def newOperation (operationType ledgerKey : Str) (payload : Members P.Float) (nowTs : Str)
    (baseVersion : Option Int) : Except Fault (Operation P) := do
  if cfg.limits.maxPendingOperations ≤ pendingCount q then
    throw (.sync (str "offline queue is full"))
  let seed ← (opDigest [(.str (str "device_id"), .str cfg.deviceId),
    (.str (str "ledger_key"), .str ledgerKey), (.str (str "operation_type"), .str operationType),
    (.str (str "op_seq"), .int q.nextSeq), (.str (str "payload"), .dict payload),
    (.str (str "base_version"), versionValue baseVersion)]).mapError .raised
  let digest ← (opDigest [(.str (str "operation_type"), .str operationType),
    (.str (str "ledger_key"), .str ledgerKey), (.str (str "payload"), .dict payload),
    (.str (str "base_version"), versionValue baseVersion)]).mapError .raised
  return {
    opId := seed.take 24, opSeq := q.nextSeq, operationType, ledgerKey, payload := .dict payload,
    baseVersion, enqueuedTs := nowTs, nextRetryTs := nowTs, attemptCount := 0, state := .pending,
    opDigest := digest }

/-- `enqueue_operation` -/
def enqueueOperation (operationType ledgerKey : Str) (payload : Members P.Float) (nowTs : Str)
    (baseVersion : Option Int) : Except Fault (Operation P) × Queue P :=
  match newOperation cfg q operationType ledgerKey payload nowTs baseVersion with
  | .error e => (.error e, q)
  | .ok op =>
    match appendEvent q (.enqueue nowTs op) with
    | .error e => (.error (.raised e), q)
    | .ok logged =>
      (.ok op, { logged with ops := Assoc.set q.ops op.opId op, nextSeq := q.nextSeq + 1 })

/-- `pending_replay` -/
def pendingReplay (nowTs : Str) : List (Operation P) :=
  ((q.ops.map Prod.snd).insertionSort fun a b =>
      a.opSeq < b.opSeq ∨ a.opSeq = b.opSeq ∧ strLe a.opId b.opId = true).filter fun op =>
    op.state = .pending ∧ strLe op.nextRetryTs nowTs = true

/-! ### Delivery -/

/-- The memory is changed first, and then the event is logged. -/
def change (q : Queue P) (op : Operation P) (e : Event P) (after : Queue P → Queue P) :
    Except Fault (Operation P) × Queue P :=
  match appendEvent q e with
  | .error x => (.error (.raised x), q)
  | .ok logged => (.ok op, after logged)

def Operation.attempted (op : Operation P) (nowTs : Str) : Operation P :=
  let attempts := op.attemptCount + 1
  let backoff := min cfg.limits.maxRetryBackoffSeconds
    (cfg.limits.minRetryBackoffSeconds * 2 ^ (attempts - 1))
  { op with
    attemptCount := attempts, lastAttemptTs := some nowTs,
    nextRetryTs := nowTs ++ (str "+" ++ (intText backoff ++ str "s")) }

def attemptEvent (op : Operation P) (opId nowTs : Str) : Event P :=
  .attempt nowTs opId (op.attempted cfg nowTs).attemptCount (op.attempted cfg nowTs).nextRetryTs

/-- `mark_delivery_attempt` -/
def markDeliveryAttempt (opId nowTs : Str) : Except Fault (Operation P) × Queue P :=
  match q.ops.lookup opId with
  | none => (.error (.sync (str "unknown op_id: " ++ opId)), q)
  | some op =>
    if op.state ≠ .pending then (.ok op, q)
    else
      change { q with ops := Assoc.set q.ops opId (op.attempted cfg nowTs) }
        (op.attempted cfg nowTs) (attemptEvent cfg op opId nowTs) id

/-! ### Acknowledgements -/

/-- `lst[-n:]` -/
def lastSlice {α : Type} (n : Int) (xs : List α) : List α :=
  if 0 < n then xs.drop (xs.length - n.toNat) else xs.drop (-n).toNat

def Event.ackedId : Event P → Option Str
  | .ackApplied _ opId _ _ => some opId
  | _ => none

/-- `_trim_acked_index` -/
def trimAckedIndex (q : Queue P) : Queue P :=
  if q.ackedIds.length ≤ cfg.limits.ackRetentionEntries then q
  else
    let ackedInOrder := q.events.filterMap Event.ackedId
    if ackedInOrder.length ≤ cfg.limits.ackRetentionEntries then q
    else
      let keep := lastSlice cfg.limits.ackRetentionEntries ackedInOrder
      { q with ackedIds := q.ackedIds.filter fun opId => opId ∈ keep }

inductive AckStatus where
  | applied
  | duplicate
  | conflict
  deriving DecidableEq, Repr

def AckStatus.text : AckStatus → Str
  | applied => str "applied"
  | duplicate => str "duplicate"
  | conflict => str "conflict"

/-- `status not in {…}`; a status that cannot be hashed is a `TypeError`. -/
def AckStatus.ofValue (v : Option P.Obj) : Except Fault AckStatus :=
  match v with
  | some (.str s) =>
    match [applied, duplicate, conflict].find? (·.text = s) with
    | some status => .ok status
    | none => .error (.ackIntegrity (str "ack status is invalid"))
  | some v =>
    if hashable P v then .error (.ackIntegrity (str "ack status is invalid"))
    else .error (.raised .typeError)
  | none => .error (.ackIntegrity (str "ack status is invalid"))

def isText : P.Obj → Str → Bool
  | .str s, t => s = t
  | _, _ => false

/-- The checks of `apply_remote_ack`. -/
def checkAck (ack : Members P.Float) : Except Fault (Str × Operation P × AckStatus) :=
  let opId := strip (toStr P ((get ack (str "op_id")).getD (.str [])))
  if opId = [] then .error (.ackIntegrity (str "ack missing op_id"))
  else
    match q.ops.lookup opId with
    | none => .error (.ackIntegrity (str "ack references unknown op_id: " ++ opId))
    | some op =>
      let remoteDigest := (get ack (str "op_digest")).getD .none
      if truthy P remoteDigest && !isText remoteDigest op.opDigest then
        .error (.ackIntegrity (str "ack digest mismatch"))
      else
        match AckStatus.ofValue (get ack (str "status")) with
        | .error e => .error e
        | .ok status => .ok (opId, op, status)

def Operation.applied (op : Operation P) (ack : Members P.Float) (nowTs : Str) : Operation P :=
  { op with
    state := .acked, ackTs := some nowTs,
    remoteVersion := some ((get ack (str "remote_version")).getD .none) }

def appliedEvent (ack : Members P.Float) (opId : Str) (status : AckStatus) (nowTs : Str) :
    Event P :=
  .ackApplied nowTs opId (some ((get ack (str "remote_version")).getD .none)) status.text

def conflictOf (ack : Members P.Float) (nowTs : Str) : Conflict P where
  reason := (get ack (str "reason")).getD (.str (str "remote_conflict"))
  remoteSnapshot := (get ack (str "remote_snapshot")).getD .none
  detectedTs := nowTs

def Operation.conflicting (op : Operation P) (c : Conflict P) : Operation P :=
  { op with state := .conflict, conflict := some c }

/-- `apply_remote_ack` -/
def applyRemoteAck (ack : Members P.Float) (nowTs : Str) : Except Fault (Operation P) × Queue P :=
  match checkAck q ack with
  | .error e => (.error e, q)
  | .ok (opId, op, .conflict) =>
    let c := conflictOf ack nowTs
    change
      { q with
        ops := Assoc.set q.ops opId (op.conflicting c)
        conflicts := Assoc.set q.conflicts opId c }
      (op.conflicting c) (.ackConflict nowTs opId c) id
  | .ok (opId, op, status) =>
    if opId ∈ q.ackedIds then (.ok op, q)
    else
      change
        { q with
          ops := Assoc.set q.ops opId (op.applied ack nowTs)
          ackedIds := q.ackedIds.insert opId }
        (op.applied ack nowTs) (appliedEvent ack opId status nowTs) (trimAckedIndex cfg)

/-! ### Conflicts -/

def inConflict (opId : Str) : Except Fault (Operation P) :=
  match q.ops.lookup opId with
  | none => .error (.sync (str "operation is not in conflict state"))
  | some op =>
    if op.state ≠ .conflict then .error (.sync (str "operation is not in conflict state"))
    else .ok op

/-- `resolve_conflict_keep_remote` -/
def resolveConflictKeepRemote (opId nowTs : Str) : Except Fault (Operation P) × Queue P :=
  match inConflict q opId with
  | .error e => (.error e, q)
  | .ok op =>
    let kept := { op with state := .acked, ackTs := some nowTs, conflict := none }
    change
      { q with
        ops := Assoc.set q.ops opId kept, conflicts := pop q.conflicts opId
        ackedIds := q.ackedIds.insert opId }
      kept (.ackApplied nowTs opId none (str "keep_remote")) (trimAckedIndex cfg)

/-- `resolve_conflict_retry_local` -/
def resolveConflictRetryLocal (opId nowTs : Str) : Except Fault (Operation P) × Queue P :=
  match inConflict q opId with
  | .error e => (.error e, q)
  | .ok op =>
    let retried := { op with state := .pending, nextRetryTs := nowTs, conflict := none }
    change
      { q with ops := Assoc.set q.ops opId retried, conflicts := pop q.conflicts opId }
      retried (.resolveConflict nowTs opId (str "retry_local")) id

/-- A row of `user_visible_conflicts`. -/
structure VisibleConflict (P : Platform) where
  opId : Str
  ledgerKey : Str
  conflict : Conflict P

/-- `user_visible_conflicts`; `none` is a `KeyError`. -/
def userVisibleConflicts : Option (List (VisibleConflict P)) :=
  (q.conflicts.mapM fun m => (q.ops.lookup m.1).map fun op =>
      ({ opId := m.1, ledgerKey := op.ledgerKey, conflict := m.2 } : VisibleConflict P)).map
    fun rows => rows.insertionSort fun a b => strLe a.opId b.opId = true

/-! ### Calls -/

/-- A call of a queue, with its arguments. -/
inductive Call (P : Platform) where
  | enqueueOperation (operationType ledgerKey : Str) (payload : Dict P.Float) (nowTs : Str)
    (baseVersion : Option Int)
  | markDeliveryAttempt (opId nowTs : Str)
  | applyRemoteAck (ack : Dict P.Float) (nowTs : Str)
  | resolveConflictKeepRemote (opId nowTs : Str)
  | resolveConflictRetryLocal (opId nowTs : Str)

/-- What a call returns or raises, and the queue after it. -/
def Call.run : Call P → Except Fault (Operation P) × Queue P
  | .enqueueOperation operationType ledgerKey payload nowTs baseVersion =>
    OfflineSync.enqueueOperation cfg q operationType ledgerKey payload.items nowTs baseVersion
  | .markDeliveryAttempt opId nowTs => OfflineSync.markDeliveryAttempt cfg q opId nowTs
  | .applyRemoteAck ack nowTs => OfflineSync.applyRemoteAck cfg q ack.items nowTs
  | .resolveConflictKeepRemote opId nowTs => OfflineSync.resolveConflictKeepRemote cfg q opId nowTs
  | .resolveConflictRetryLocal opId nowTs => OfflineSync.resolveConflictRetryLocal q opId nowTs

def step (call : Call P) : Queue P :=
  (call.run cfg q).2

end Adaad.OfflineSync
