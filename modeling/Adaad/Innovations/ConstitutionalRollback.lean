import Adaad.Innovations.Ledger
import Adaad.Py.Assoc

/-!
# Constitutional rollback

`runtime/innovations30/constitutional_rollback.py`: snapshots of the rules, each with the digest of the
one before, go to a ledger.  A rollback goes to the ledger too, and cuts the snapshots in memory; the
ledger is what a new engine starts from.
-/

namespace Adaad.Innovations.ConstitutionalRollback

open Py

variable {P : Platform}

/-! ### Constants -/

/-- `GENESIS_HASH` -/
def genesisHash : Str := str "GENESIS-CRTV-0"

/-- `GOVERNOR` -/
def governor : Str := str "DUSTIN L REID"

/-! ### Data -/

/-- `Dict[str, str]` -/
structure Rules where
  items : List (Str × Str)
  nodup : (Assoc.keys items).Nodup
  deriving DecidableEq

/-- `ConstitutionalDiff` -/
structure ConstitutionalDiff where
  added : List Str
  removed : List Str
  modified : List Str
  deriving DecidableEq

/-- `ConstitutionalSnapshot` -/
structure ConstitutionalSnapshot where
  snapshotId : Str
  epochId : Str
  rules : Rules
  amendmentReason : Str
  author : Str
  timestamp : Str
  prevHash : Str
  diff : ConstitutionalDiff
  snapshotDigest : Str
  deriving DecidableEq

/-- `RollbackEvent` -/
structure RollbackEvent where
  eventId : Str
  targetSnapshotId : Str
  rolledBackFrom : Str
  epochId : Str
  reason : Str
  author : Str
  timestamp : Str
  restoredRules : Rules
  eventDigest : Str

/-- What a call raises. -/
inductive RollbackError where
  /-- `ConstitutionalRollbackError` -/
  | violated (message : Str)
  | load (e : LoadError)
  deriving DecidableEq

def Rules.toObj (rules : Rules) : P.Obj :=
  .dict (rules.items.map fun m => (.str m.1, .str m.2))

def textList (ss : List Str) : P.Obj :=
  .list (ss.map .str)

/-- `to_dict` of a diff. -/
def ConstitutionalDiff.toObj (diff : ConstitutionalDiff) : P.Obj :=
  .dict [(.str (str "added"), textList diff.added), (.str (str "removed"), textList diff.removed),
    (.str (str "modified"), textList diff.modified)]

/-- The fields that the digest of a snapshot is over. -/
def ConstitutionalSnapshot.payload (s : ConstitutionalSnapshot) : Members P.Float :=
  [(.str (str "snapshot_id"), .str s.snapshotId), (.str (str "epoch_id"), .str s.epochId),
    (.str (str "rules"), s.rules.toObj), (.str (str "amendment_reason"), .str s.amendmentReason),
    (.str (str "author"), .str s.author), (.str (str "timestamp"), .str s.timestamp),
    (.str (str "prev_hash"), .str s.prevHash), (.str (str "diff"), s.diff.toObj)]

variable (P) in
/-- `__post_init__`: a snapshot without a digest gets one. -/
def ConstitutionalSnapshot.postInit (s : ConstitutionalSnapshot) : ConstitutionalSnapshot :=
  if s.snapshotDigest = [] then { s with snapshotDigest := jsonDigest P s.payload } else s

def ConstitutionalSnapshot.record (s : ConstitutionalSnapshot) : Members P.Float :=
  (.str (str "action"), .str (str "snapshot")) ::
    (s.payload ++ [(.str (str "snapshot_digest"), .str s.snapshotDigest)])

/-- The fields that the digest of a rollback is over. -/
def RollbackEvent.payload (evt : RollbackEvent) : Members P.Float :=
  [(.str (str "event_id"), .str evt.eventId),
    (.str (str "target_snapshot_id"), .str evt.targetSnapshotId),
    (.str (str "rolled_back_from"), .str evt.rolledBackFrom),
    (.str (str "epoch_id"), .str evt.epochId), (.str (str "reason"), .str evt.reason),
    (.str (str "author"), .str evt.author), (.str (str "timestamp"), .str evt.timestamp),
    (.str (str "restored_rules"), evt.restoredRules.toObj)]

variable (P) in
/-- `__post_init__` -/
def RollbackEvent.postInit (evt : RollbackEvent) : RollbackEvent :=
  if evt.eventDigest = [] then { evt with eventDigest := jsonDigest P evt.payload } else evt

def RollbackEvent.record (evt : RollbackEvent) : Members P.Float :=
  (.str (str "action"), .str (str "rollback")) ::
    (evt.payload ++ [(.str (str "event_digest"), .str evt.eventDigest)])

/-! ### The ledger -/

def ruleOf : Key P.Float × P.Obj → Except LoadError (Str × Str)
  | (.str k, .str v) => .ok (k, v)
  | _ => .error .foreign

def rulesOf : P.Obj → Except LoadError Rules
  | .dict ms => do
    let items ← ms.mapM ruleOf
    if h : (Assoc.keys items).Nodup then .ok ⟨items, h⟩ else .error .foreign
  | _ => .error .foreign

/-- `diff_data.get(key, [])` -/
def namesAt (diffData : Members P.Float) (key : Str) : Except LoadError (List Str) :=
  match get diffData key with
  | none => .ok []
  | some v => textsOf v

def diffOf (record : Members P.Float) : Except LoadError ConstitutionalDiff :=
  match get record (str "diff") with
  | none => .ok ⟨[], [], []⟩
  | some (.dict diffData) => do
    let added ← namesAt diffData (str "added")
    let removed ← namesAt diffData (str "removed")
    let modified ← namesAt diffData (str "modified")
    return ⟨added, removed, modified⟩
  | some _ => .error (.raised .attributeError)

/-- `record.get("snapshot_digest", "")` -/
def digestAt (record : Members P.Float) : Except LoadError Str :=
  match get record (str "snapshot_digest") with
  | none => .ok []
  | some v => textOf v

def snapshotOf (record : Members P.Float) : Except LoadError ConstitutionalSnapshot := do
  let diff ← diffOf record
  let snapshotId ← textAt record (str "snapshot_id")
  let epochId ← textAt record (str "epoch_id")
  let rules ← fieldAt record (str "rules") >>= rulesOf
  let amendmentReason ← textAt record (str "amendment_reason")
  let author ← textAt record (str "author")
  let timestamp ← textAt record (str "timestamp")
  let prevHash ← textAt record (str "prev_hash")
  let snapshotDigest ← digestAt record
  return ConstitutionalSnapshot.postInit P
    { snapshotId, epochId, rules, amendmentReason, author, timestamp, prevHash, diff, snapshotDigest }

/-- The action of a record is `snapshot`. -/
def isSnapshot (record : Members P.Float) : Bool :=
  match get record (str "action") with
  | some (.str action) => action = str "snapshot"
  | _ => false

variable (P) in
/-- One line of the ledger; only snapshots count. -/
def loadLine (snapshots : List ConstitutionalSnapshot) (line : Str) :
    Except LoadError (List ConstitutionalSnapshot) :=
  if strip line = [] then .ok snapshots
  else
    match loads P (strip line) with
    | none => .error (.raised .jsonDecodeError)
    | some (.dict record) =>
      if isSnapshot record then (snapshotOf record).map fun s => snapshots ++ [s]
      else .ok snapshots
    | some _ => .error (.raised .attributeError)

variable (P) in
/-- `_load_ledger`; a ledger that does not exist is empty. -/
def loadLedger (ledger : Bytes) : Except LoadError (List ConstitutionalSnapshot) := do
  let snapshots ← (readLines P ledger).1.foldlM (loadLine P) []
  if (readLines P ledger).2 then .ok snapshots else .error (.raised .unicodeDecodeError)

/-! ### The engine -/

/-- `ConstitutionalRollbackEngine`, with its ledger. -/
structure Engine where
  ledger : Bytes
  snapshots : List ConstitutionalSnapshot

/-- An engine whose ledger does not exist yet. -/
def Engine.new : Engine := ⟨[], []⟩

/-- The arguments of `snapshot`, and the clock. -/
structure SnapshotCall where
  epochId : Str
  rules : Rules
  amendmentReason : Str
  author : Str
  now : Timestamp

/-- The arguments of `rollback`, and the clock. -/
structure RollbackCall where
  targetSnapshotId : Str
  currentEpochId : Str
  reason : Str
  ratificationToken : Str
  now : Timestamp

/-- The message of `crtv_guard`. -/
def violation (invariant detail : Str) : RollbackError :=
  .violated ([91] ++ invariant ++ str "] CRTV invariant violated: " ++ detail)

/-- `sorted(names)` -/
def sortNames (names : List Str) : List Str :=
  names.insertionSort fun a b => strLe a b = true

/-- `_compute_diff` -/
def computeDiff (a b : Rules) : ConstitutionalDiff where
  added := sortNames ((Assoc.keys b.items).filter fun k => k ∉ Assoc.keys a.items)
  removed := sortNames ((Assoc.keys a.items).filter fun k => k ∉ Assoc.keys b.items)
  modified := sortNames ((Assoc.keys a.items).filter fun k =>
    k ∈ Assoc.keys b.items ∧ a.items.lookup k ≠ b.items.lookup k)

/-- `{}` -/
def Rules.empty : Rules := ⟨[], List.nodup_nil⟩

variable (P) in
def SnapshotCall.make (call : SnapshotCall) (snapshots : List ConstitutionalSnapshot) :
    ConstitutionalSnapshot :=
  let prev := snapshots.getLast?
  ConstitutionalSnapshot.postInit P
    { snapshotId := str "SNAP-" ++ call.epochId ++ 45 :: paddedText 4 snapshots.length
      epochId := call.epochId
      rules := call.rules
      amendmentReason := call.amendmentReason
      author := call.author
      timestamp := call.now.text
      prevHash := prev.elim genesisHash ConstitutionalSnapshot.snapshotDigest
      diff := computeDiff (prev.elim .empty ConstitutionalSnapshot.rules) call.rules
      snapshotDigest := [] }

/-- `head` -/
def Engine.head (e : Engine) : Option ConstitutionalSnapshot :=
  e.snapshots.getLast?

/-- `list_snapshots` -/
def Engine.listSnapshots (e : Engine) : List Str :=
  e.snapshots.map ConstitutionalSnapshot.snapshotId

/-- `_find_snapshot` -/
def Engine.findSnapshot (e : Engine) (snapId : Str) : Option ConstitutionalSnapshot :=
  e.snapshots.find? fun s => s.snapshotId = snapId

variable (P) in
/-- `snapshot` -/
def Engine.snapshot (e : Engine) (call : SnapshotCall) :
    Except RollbackError ConstitutionalSnapshot × Engine :=
  if call.epochId = [] then
    (.error (violation (str "CRTV-GATE-0") (str "epoch_id must be non-empty")), e)
  else
    let snap := call.make P e.snapshots
    (.ok snap, ⟨appendRow P e.ledger snap.record, e.snapshots ++ [snap]⟩)

variable (P) in
def RollbackCall.make (call : RollbackCall) (e : Engine) (target : ConstitutionalSnapshot) :
    RollbackEvent :=
  RollbackEvent.postInit P
    { eventId := str "ROLLBACK-" ++ call.currentEpochId ++ 45 :: paddedText 4 e.snapshots.length
      targetSnapshotId := call.targetSnapshotId
      rolledBackFrom := e.head.elim (str "NONE") ConstitutionalSnapshot.snapshotId
      epochId := call.currentEpochId
      reason := call.reason
      author := governor
      timestamp := call.now.text
      restoredRules := target.rules
      eventDigest := [] }

variable (P) in
/-- `rollback` -/
def Engine.rollback (e : Engine) (call : RollbackCall) :
    Except RollbackError RollbackEvent × Engine :=
  if ¬ governor <:+: call.ratificationToken then
    (.error (violation (str "CRTV-GATE-0")
      (str "Rollback requires HUMAN-0 ratification containing governor string")), e)
  else if call.targetSnapshotId = [] then
    (.error (violation (str "CRTV-GATE-0") (str "target_snapshot_id required")), e)
  else
    match e.findSnapshot call.targetSnapshotId with
    | none =>
      (.error (violation (str "CRTV-GATE-0") (str "Snapshot " ++
        P.repr (.str call.targetSnapshotId) ++ str " not found in ledger")), e)
    | some target =>
      let evt := call.make P e target
      let targetIdx := e.snapshots.findIdx fun s => s.snapshotId = call.targetSnapshotId
      (.ok evt, ⟨appendRow P e.ledger evt.record, e.snapshots.take (targetIdx + 1)⟩)

variable (P) in
/-- The loop of `verify_chain`, from the digest before. -/
def verifyFrom : Str → List ConstitutionalSnapshot → Except RollbackError Bool
  | _, [] => .ok true
  | expectedPrev, snap :: rest =>
    if snap.prevHash = expectedPrev then verifyFrom snap.snapshotDigest rest
    else
      .error (violation (str "CRTV-CHAIN-0") (str "Chain broken at snapshot " ++ snap.snapshotId ++
        str ": expected prev_hash=" ++ P.repr (.str expectedPrev) ++ str ", got " ++
          P.repr (.str snap.prevHash)))

variable (P) in
/-- `verify_chain` -/
def Engine.verifyChain (e : Engine) : Except RollbackError Bool :=
  verifyFrom P genesisHash e.snapshots

variable (P) in
def Engine.recreate (e : Engine) : Except LoadError Engine :=
  (loadLedger P e.ledger).map fun snapshots => ⟨e.ledger, snapshots⟩

/-! ### Runs -/

/-- What may happen to an engine. -/
inductive Action where
  | snapshot (call : SnapshotCall)
  | rollback (call : RollbackCall)
  /-- The engine is created again from its ledger. -/
  | recreate

variable (P) in
/-- The engine after an action; where no new one can be created, the old one is left. -/
def Engine.step (e : Engine) : Action → Engine
  | .snapshot call => (e.snapshot P call).2
  | .rollback call => (e.rollback P call).2
  | .recreate =>
    match e.recreate P with
    | .ok e' => e'
    | .error _ => e

end Adaad.Innovations.ConstitutionalRollback
