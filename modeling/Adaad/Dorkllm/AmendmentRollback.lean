import Adaad.Dorkllm.AmendmentExecutor

/-!
# The constitutional amendment rollback

`dorkllm/constitutional_amendment_rollback.py`: executed amendments are taken back when the
stability index is critical, the most recent one at a time, or when a token says which one.  Each
attempt is recorded in a ledger that is chained by HMAC; after that the constitution is written, to a
temporary file that is then renamed.

The process may stop between any two file writes.  A file is the data that it is written from.
-/

namespace Adaad.AmendmentRollback

open Py

variable (P : Platform)

/-! ### Constants -/

def governor : Str := str "DUSTIN L REID"
def innovCode : Str := str "INNOV-85"
def moduleCode : Str := str "CAR"

/-- `_HMAC_KEY` -/
def hmacKey : Bytes := (encode (str "adaad-car-chain-key-v1")).getD []

/-- `CRITICAL_SCSI_THRESHOLD` -/
def criticalScsiThreshold : P.Float := P.floatOf (.lit ⟨false, str "0", str "5", none⟩)

/-- `HUMAN0_TRIGGER_TOKEN_PREFIX` -/
def human0TriggerTokenPrefix : Str := str "CAR-ROLLBACK-"

/-- `_INVERSE_ACTIONS` -/
def inverseActions : List (Str × Str) :=
  [(str "REINFORCE", str "UNREINFORCE"), (str "ADD", str "REMOVE"), (str "RETIRE", str "UNRETIRE"),
    (str "REVIEW", str "RESTORE"), (str "STABLE", str "RESTORE")]

/-- `_VALID_CAE_STATUSES_FOR_ROLLBACK` -/
def validCaeStatusesForRollback : List Str := [str "EXECUTED"]

/-! ### Data -/

/-- What is read of a record of the execution ledger; `get` gives what is empty for what is
missing. -/
structure Candidate where
  executionId : Str
  invariantId : Str
  action : Str
  status : Option Str
  timestamp : Str
  snapshotBefore : List (Str × Members P.Float)

/-- The constitution, as far as it is read and written. -/
structure Constitution where
  invariants : List (Str × Members P.Float)
  lastRollbackBy : Option Str := none
  lastRollbackTimestamp : Option Str := none

/-- The snapshot of the stability index. -/
structure ScsiSnapshot where
  scsi : Int ⊕ P.Float
  scsiStatus : Str

inductive RollbackStatus where
  | rolledBack
  | rejected
  | skipped
  deriving DecidableEq, Repr

def RollbackStatus.value : RollbackStatus → Str
  | rolledBack => str "ROLLED_BACK"
  | rejected => str "REJECTED"
  | skipped => str "SKIPPED"

/-- `RollbackRecord`; its `governor` and its `innov` are constants. -/
structure RollbackRecord where
  rollbackId : Str
  executionId : Str
  invariantId : Str
  originalAction : Str
  rollbackAction : Str
  trigger : Str
  triggerDetail : Str
  status : RollbackStatus
  rejectionReason : Str
  timestamp : Str
  prevDigest : Str
  digest : Str
  deriving DecidableEq, Repr

structure RollbackResult where
  trigger : Str
  triggerDetail : Str
  candidatesFound : Nat
  rolledBack : Nat
  rejected : Nat
  skipped : Nat
  rollbackIds : List Str := []
  errors : List Str := []
  timestamp : Str
  deriving DecidableEq, Repr

/-- A line of the log of rejected rollbacks. -/
structure RejectedRollback where
  reason : Str
  executionId : Str
  human0Token : Str
  timestamp : Str
  deriving DecidableEq, Repr

/-- The file of the rollback state; its `module` and its `innov` are constants. -/
structure RollbackState where
  totalRolledBack : Nat
  rolledBackIds : List Str
  lastUpdated : Str
  deriving DecidableEq, Repr

/-- The files. -/
structure Store where
  ledger : List RollbackRecord := []
  rejectedLog : List RejectedRollback := []
  constitution : Option (Constitution P) := none
  /-- The temporary file of the constitution. -/
  temporary : Option (Constitution P) := none
  state : Option RollbackState := none
  /-- The temporary file of the state. -/
  stateTemporary : Option RollbackState := none

variable {P}

/-- A write to a file. -/
inductive Write (P : Platform) where
  | record (r : RollbackRecord)
  | rejected (r : RejectedRollback)
  | temporary (c : Constitution P)
  /-- The temporary file replaces the constitution. -/
  | replace
  | stateTemporary (s : RollbackState)
  /-- The temporary file replaces the state. -/
  | stateReplace

def Store.write (s : Store P) : Write P → Store P
  | .record r => { s with ledger := s.ledger ++ [r] }
  | .rejected r => { s with rejectedLog := s.rejectedLog ++ [r] }
  | .temporary c => { s with temporary := some c }
  | .replace => { s with constitution := s.temporary, temporary := none }
  | .stateTemporary t => { s with stateTemporary := some t }
  | .stateReplace => { s with state := s.stateTemporary, stateTemporary := none }

/-- What the process gets from its runtime for one candidate. -/
structure Draws where
  rollbackId : Str
  rollbackId_ascii : ∀ c ∈ rollbackId, c < 128
  /-- `timestamp` of the record. -/
  recordAt : Str
  recordAt_ascii : ∀ c ∈ recordAt, c < 128
  /-- `last_rollback_timestamp` of the constitution. -/
  rollbackAt : Str

/-- What the process gets from its runtime during a call. -/
structure Env where
  /-- For the candidates, by their place. -/
  draws : Nat → Draws
  /-- `timestamp` of the result. -/
  resultAt : Str
  /-- `timestamp` in the log of rejected rollbacks. -/
  rejectedAt : Str
  /-- `last_updated` of the state. -/
  stateAt : Str

/-- `f"{scsi:.4f}"` -/
structure FormatScsi (P : Platform) where
  text : Int ⊕ P.Float → Str
  ascii : ∀ x, ∀ c ∈ text x, c < 128

/-! ### Records as JSON -/

def item (k v : Str) : Key P.Float × P.Obj := (.str k, .str v)

def RollbackRecord.toDict (r : RollbackRecord) : Members P.Float :=
  [item (str "rollback_id") r.rollbackId, item (str "execution_id") r.executionId,
    item (str "invariant_id") r.invariantId, item (str "original_action") r.originalAction,
    item (str "rollback_action") r.rollbackAction, item (str "trigger") r.trigger,
    item (str "trigger_detail") r.triggerDetail, item (str "status") r.status.value,
    item (str "rejection_reason") r.rejectionReason, item (str "governor") governor,
    item (str "innov") innovCode, item (str "timestamp") r.timestamp,
    item (str "prev_digest") r.prevDigest, item (str "digest") r.digest]

def RejectedRollback.toDict (r : RejectedRollback) : Members P.Float :=
  [item (str "reason") r.reason, item (str "execution_id") r.executionId,
    item (str "human0_token") r.human0Token, item (str "timestamp") r.timestamp]

def textOf (ms : Members P.Float) (k : Str) : Option Str :=
  match get ms k with
  | some (.str s) => some s
  | _ => none

/-- The entries of a `dict` whose keys are texts and whose values are of type `dict`. -/
def entriesOf (ms : Members P.Float) : List (Str × Members P.Float) :=
  ms.filterMap fun m =>
    match m with
    | (.str k, .dict e) => some (k, e)
    | _ => none

/-- What is read of a record, as it is in the ledger. -/
def Candidate.ofDict (ms : Members P.Float) : Candidate P where
  executionId := (textOf ms (str "execution_id")).getD []
  invariantId := (textOf ms (str "invariant_id")).getD []
  action := (textOf ms (str "action")).getD []
  status := textOf ms (str "status")
  timestamp := (textOf ms (str "timestamp")).getD []
  snapshotBefore := (((get ms (str "snapshot_before")).bind Value.members?).map entriesOf).getD []

/-- What is read of the constitution, as it is in its file. -/
def Constitution.ofDict (ms : Members P.Float) : Constitution P where
  invariants := (((get ms (str "invariants")).bind Value.members?).map entriesOf).getD []
  lastRollbackBy := textOf ms (str "last_rollback_by")
  lastRollbackTimestamp := textOf ms (str "last_rollback_timestamp")

/-! ### The ledger -/

/-- `_hmac_hex` with the key of the chain. -/
def hmacHex (P : Platform) (data : Str) : Except Exc Str :=
  match encode data with
  | none => .error .unicodeEncodeError
  | some raw => .ok (hmacSha256 P hmacKey raw)

/-- `_hmac_hex(_HMAC_KEY, "CAR-GENESIS-180")` -/
def genesisDigest (P : Platform) : Str :=
  hmacSha256 P hmacKey ((encode (str "CAR-GENESIS-180")).getD [])

/-- `_get_tail_digest` -/
def getTailDigest (P : Platform) (ledger : List RollbackRecord) : Str :=
  (ledger.getLast?.map RollbackRecord.digest).getD (genesisDigest P)

/-- The arguments of `_build_record`. -/
structure Attempt where
  executionId : Str
  invariantId : Str
  originalAction : Str
  rollbackAction : Str
  trigger : Str
  triggerDetail : Str
  status : RollbackStatus
  rejectionReason : Str := []

/-- The text that the digest of a record is made of. -/
def sealedPayload (a : Attempt) (d : Draws) (prev : Str) : Str :=
  d.rollbackId ++ 124 :: (a.executionId ++ 124 :: (a.invariantId ++ 124 :: (a.rollbackAction ++
    124 :: (a.status.value ++ 124 :: (d.recordAt ++ 124 :: prev)))))

def sealedRecord (a : Attempt) (d : Draws) (prev digest : Str) : RollbackRecord where
  rollbackId := d.rollbackId
  executionId := a.executionId
  invariantId := a.invariantId
  originalAction := a.originalAction
  rollbackAction := a.rollbackAction
  trigger := a.trigger
  triggerDetail := a.triggerDetail
  status := a.status
  rejectionReason := a.rejectionReason
  timestamp := d.recordAt
  prevDigest := prev
  digest := digest

/-- `_build_record` -/
def buildRecord (P : Platform) (ledger : List RollbackRecord) (a : Attempt) (d : Draws) :
    Except Exc RollbackRecord :=
  let prev := getTailDigest P ledger
  (hmacHex P (sealedPayload a d prev)).map (sealedRecord a d prev)

/-- Whether the line can be written: it is JSON that is not escaped to ASCII. -/
def writeLine (P : Platform) (ms : Members P.Float) : Except Exc Unit :=
  match encode (dumps P .spaced (.dict ms) ++ [10]) with
  | none => .error .unicodeEncodeError
  | some _ => .ok ()

/-- `_build_record` and `_append_ledger`: the record that is appended. -/
def recordAttempt (P : Platform) (ledger : List RollbackRecord) (a : Attempt) (d : Draws) :
    Except Exc RollbackRecord :=
  match buildRecord P ledger a d with
  | .error e => .error e
  | .ok r => (writeLine P r.toDict).map fun _ => r

/-- `_get_rolled_back_execution_ids` -/
def getRolledBackExecutionIds (ledger : List RollbackRecord) : List Str :=
  (ledger.filter fun r => r.status = .rolledBack).map RollbackRecord.executionId

/-! ### Candidates -/

/-- `_get_rollback_candidates`: the newest ones first. -/
def getRollbackCandidates (caeLedger : List (Candidate P)) (targetExecutionId : Option Str) :
    List (Candidate P) :=
  let records := caeLedger.filter fun r =>
    (r.status.any fun s => decide (s ∈ validCaeStatusesForRollback)) &&
      decide (targetExecutionId.getD [] = [] ∨ targetExecutionId = some r.executionId)
  records.insertionSort fun a b => strLe b.timestamp a.timestamp = true

/-! ### The inverse of an action -/

def unretired (e : Members P.Float) : Members P.Float :=
  set (set e (str "status") (.str (str "active"))) (str "retired") (.bool false)

/-- The entries after the inverse of an action. -/
def inverted (invariants : List (Str × Members P.Float)) (invariantId originalAction : Str)
    (snapshotBefore : List (Str × Members P.Float)) : List (Str × Members P.Float) :=
  if originalAction = str "ADD" then Assoc.erase invariants invariantId
  else if originalAction = str "RETIRE" then
    match invariants.lookup invariantId, snapshotBefore.lookup invariantId with
    | some e, _ => Assoc.set invariants invariantId (unretired e)
    | none, some e => Assoc.set invariants invariantId (unretired e)
    | none, none => invariants
  else if originalAction = str "REINFORCE" then
    match (snapshotBefore.lookup invariantId).bind fun e => get e (str "weight"),
        invariants.lookup invariantId with
    | some .none, _ => invariants
    | some prevWeight, some e => Assoc.set invariants invariantId (set e (str "weight") prevWeight)
    | _, _ => invariants
  else if originalAction = str "REVIEW" ∨ originalAction = str "STABLE" then
    match snapshotBefore.lookup invariantId with
    | some e => Assoc.set invariants invariantId e
    | none => invariants
  else invariants

/-- `_apply_inverse_action`; it raises no `ValueError`. -/
def applyInverseAction (c : Constitution P) (candidate : Candidate P) (now : Str) :
    Constitution P where
  invariants := inverted c.invariants candidate.invariantId candidate.action candidate.snapshotBefore
  lastRollbackBy := some moduleCode
  lastRollbackTimestamp := some now

/-! ### A rollback -/

/-- What a call has done so far. -/
structure Batch (P : Platform) where
  constitution : Constitution P
  alreadyRolledBack : List Str
  writes : List (Write P) := []
  rolledBack : Nat := 0
  rejected : Nat := 0
  skipped : Nat := 0
  rollbackIds : List Str := []

/-- The body of the loop, for files that were `s` before the call.  What was written stays written
where it raises. -/
def rollbackCandidate (s : Store P) (trigger triggerDetail : Str) (d : Draws)
    (candidate : Candidate P) (b : Batch P) : Except Exc Unit × Batch P :=
  let ledger := (Writes.after Store.write s b.writes).ledger
  let attempt (rollbackAction : Str) (status : RollbackStatus) (reason : Str) : Attempt :=
    { executionId := candidate.executionId
      invariantId := candidate.invariantId
      originalAction := candidate.action
      rollbackAction := rollbackAction
      trigger := trigger
      triggerDetail := triggerDetail
      status := status
      rejectionReason := reason }
  if candidate.executionId ∈ b.alreadyRolledBack then
    match recordAttempt P ledger
        (attempt (str "SKIPPED") .skipped (str "CAR-DOUBLE-0: already rolled back")) d with
    | .error e => (.error e, b)
    | .ok r => (.ok (), { b with writes := b.writes ++ [.record r], skipped := b.skipped + 1 })
  else if candidate.status.all fun s => decide (s ∉ validCaeStatusesForRollback) then
    match recordAttempt P ledger
        (attempt (str "REJECTED") .rejected (str "CAR-SCOPE-0: status=" ++
          candidate.status.getD (str "None") ++ str " not EXECUTED")) d with
    | .error e => (.error e, b)
    | .ok r => (.ok (), { b with writes := b.writes ++ [.record r], rejected := b.rejected + 1 })
  else
    let rollbackAction := (inverseActions.lookup candidate.action).getD (str "RESTORE")
    let b := { b with constitution := applyInverseAction b.constitution candidate d.rollbackAt }
    match recordAttempt P ledger (attempt rollbackAction .rolledBack []) d with
    | .error e => (.error e, b)
    | .ok r =>
      (.ok (), { b with
        writes := b.writes ++ [.record r]
        alreadyRolledBack := candidate.executionId :: b.alreadyRolledBack
        rolledBack := b.rolledBack + 1
        rollbackIds := b.rollbackIds ++ [r.rollbackId] })

/-- The loop over the candidates that are left. -/
def rollbackCandidates (s : Store P) (trigger triggerDetail : Str) :
    (Nat → Draws) → List (Candidate P) → Batch P → Except Exc Unit × Batch P
  | _, [], b => (.ok (), b)
  | draws, candidate :: candidates, b =>
    match rollbackCandidate s trigger triggerDetail (draws 0) candidate b with
    | (.error e, b) => (.error e, b)
    | (.ok (), b) =>
      rollbackCandidates s trigger triggerDetail (fun n => draws (n + 1)) candidates b

/-- `_load_constitution` -/
def loadConstitution (s : Store P) : Constitution P :=
  s.constitution.getD { invariants := [] }

/-- The file that `_update_rollback_state` writes. -/
def newState (rolledBackIds : List Str) (e : Env) : RollbackState where
  totalRolledBack := rolledBackIds.dedup.length
  rolledBackIds := rolledBackIds.dedup.insertionSort fun a b => strLe a b = true
  lastUpdated := e.stateAt

/-- `_execute_rollback`, with the writes that it does. -/
def executeRollback (s : Store P) (e : Env) (candidates : List (Candidate P))
    (trigger triggerDetail : Str) : Except Exc RollbackResult × List (Write P) :=
  match rollbackCandidates s trigger triggerDetail e.draws candidates
      { constitution := loadConstitution s
        alreadyRolledBack := getRolledBackExecutionIds s.ledger } with
  | (.error exc, b) => (.error exc, b.writes)
  | (.ok (), b) =>
    let result : RollbackResult :=
      { trigger := trigger
        triggerDetail := triggerDetail
        candidatesFound := candidates.length
        rolledBack := b.rolledBack
        rejected := b.rejected
        skipped := b.skipped
        rollbackIds := b.rollbackIds
        timestamp := e.resultAt }
    if 0 < b.rolledBack then
      (.ok result, b.writes ++ [.temporary b.constitution, .replace,
        .stateTemporary (newState b.alreadyRolledBack e), .stateReplace])
    else (.ok result, b.writes)

/-- A result of a call that looked for no candidate. -/
def emptyResult (trigger triggerDetail : Str) (rejected : Nat) (errors : List Str) (e : Env) :
    RollbackResult where
  trigger := trigger
  triggerDetail := triggerDetail
  candidatesFound := 0
  rolledBack := 0
  rejected := rejected
  skipped := 0
  errors := errors
  timestamp := e.resultAt

variable (P) in
/-- `scsi >= CRITICAL_SCSI_THRESHOLD` -/
def aboveThreshold (scsi : Int ⊕ P.Float) : Bool :=
  (scsi.elim (fun _ => true) fun x => P.floatText x ≠ .nan) &&
    !P.numLt scsi (.inr (criticalScsiThreshold P))

def ScsiSnapshot.critical (snapshot : ScsiSnapshot P) : Bool :=
  !(decide (snapshot.scsiStatus ≠ str "CRITICAL") || aboveThreshold P snapshot.scsi)

/-- The `trigger_detail` of an automatic rollback. -/
def criticalDetail (format : FormatScsi P) (scsi : Int ⊕ P.Float) : Str :=
  str "CRITICAL SCSI=" ++ (format.text scsi ++ str " < 0.5")

/-- `run_auto`, where the snapshot is this one. -/
def runAuto (format : FormatScsi P) (caeLedger : List (Candidate P)) (s : Store P) (e : Env)
    (snapshot : ScsiSnapshot P) : Except Exc RollbackResult × List (Write P) :=
  if snapshot.critical = false then
    (.ok (emptyResult (str "CRITICAL_SCSI") (str "scsi=" ++ format.text snapshot.scsi ++
      str " status=" ++ snapshot.scsiStatus ++ str " — no rollback triggered") 0 [] e), [])
  else
    executeRollback s e ((getRollbackCandidates caeLedger none).take 1) (str "CRITICAL_SCSI")
      (criticalDetail format snapshot.scsi)

/-- `run_manual` -/
def runManual (caeLedger : List (Candidate P)) (s : Store P) (e : Env)
    (executionId human0Token : Str) : Except Exc RollbackResult × List (Write P) :=
  if human0Token = [] ∨ ¬ human0TriggerTokenPrefix <+: human0Token then
    let line : RejectedRollback :=
      { reason := str "CAR-HUMAN0-0: invalid token"
        executionId := executionId
        human0Token := human0Token
        timestamp := e.rejectedAt }
    match writeLine P line.toDict with
    | .error exc => (.error exc, [])
    | .ok () =>
      (.ok (emptyResult (str "HUMAN0_TOKEN") (str "REJECTED: invalid token '" ++ human0Token ++ [39])
        1 [str "CAR-HUMAN0-0: invalid or absent HUMAN-0 token"] e), [.rejected line])
  else
    let candidates := getRollbackCandidates caeLedger (some executionId)
    if candidates = [] then
      (.ok (emptyResult (str "HUMAN0_TOKEN") human0Token 1
        [str "No EXECUTED amendment found with execution_id=" ++ executionId] e), [])
    else executeRollback s e candidates (str "HUMAN0_TOKEN") human0Token

/-! ### Runs -/

/-- A call, by an engine that is new or not: an engine keeps nothing in memory. -/
inductive Request (P : Platform) where
  | auto (snapshot : ScsiSnapshot P)
  | manual (executionId human0Token : Str)

structure Call (P : Platform) where
  env : Env
  request : Request P
  /-- The process stops after this number of writes. -/
  stop : Option Nat

def Request.attempt (format : FormatScsi P) (caeLedger : List (Candidate P)) (s : Store P) (e : Env) :
    Request P → Except Exc RollbackResult × List (Write P)
  | .auto snapshot => runAuto format caeLedger s e snapshot
  | .manual executionId human0Token => runManual caeLedger s e executionId human0Token

end Adaad.AmendmentRollback
