import Adaad.Py.Assoc
import Adaad.Py.Json.Dumps
import Adaad.Run
import Adaad.Undo

/-!
# The constitutional amendment executor

`dorkllm/constitutional_amendment_executor.py`: each cycle reads the disposition ledger, applies the
accepted proposals to the constitution and records each in a ledger that is chained by HMAC.  The
constitution is written once, at the end of the cycle, to a temporary file that is then renamed.

A cycle does its file writes one after the other, and the process may stop between any two of them.

A file is the data that it is written from.  The texts in them come from a JSON document, and are
read again as they were written.
-/

namespace Adaad.AmendmentExecutor

open Py

variable (P : Platform)

/-! ### Constants -/

/-- `_GOVERNOR` -/
def governor : Str := str "DUSTIN L REID"

def innovCode : Str := str "INNOV-83"

/-- `_HMAC_KEY` -/
def hmacKey : Bytes := (encode (str "adaad-cae-chain-key-v1")).getD []

/-- `_CHAIN_PREFIX_LEN` -/
def chainPrefixLen : Nat := 24

/-- `_SELF_PREFIX` -/
def selfPrefix : List Str := [str "CAE-"]

def genesisHash : Str := List.replicate 64 48

/-! ### Data -/

/-- A record of the disposition ledger.  `get` gives the empty text for an `invariant_id`, a
`rationale` and a `governor` that are missing. -/
structure Proposal where
  proposalId : Option Str
  invariantId : Str
  disposition : Option Str
  tier : Option Str
  action : Option Str
  rationale : Str
  governor : Str
  deriving DecidableEq, Repr

/-- `proposal.get("tier", proposal.get("action", "REINFORCE"))` -/
def Proposal.amendment (p : Proposal) : Str :=
  p.tier.getD (p.action.getD (str "REINFORCE"))

/-- An entry of the constitution; what it may lack is `none` then. -/
structure Entry where
  id : Str
  invariantClass : Str
  status : Str
  reinforcementCount : Nat
  reviewCount : Nat
  lastAmendedAtUtc : Option Str
  lastRationale : Option Str
  lastAction : Option Str
  retiredAtUtc : Option Str
  retirementRationale : Option Str
  deriving DecidableEq, Repr

/-- The constitution; its `schema_version` and its `governor` are constants. -/
structure Constitution where
  invariants : List (Str × Entry)
  createdAtUtc : Str
  lastAmendedAtUtc : Option Str
  deriving DecidableEq, Repr

/-- `AmendmentExecution`; the `prior_state` is empty where it is `none`. -/
structure ExecutionRecord where
  executionId : Str
  proposalId : Str
  invariantId : Str
  action : Str
  rationale : Str
  priorState : Option Entry
  postState : Entry
  governor : Str
  executedAtUtc : Str
  hmacChainHash : Str
  deriving DecidableEq, Repr

/-- `RejectedAmendment`, with the hash that is written with it. -/
structure RejectedAmendment where
  rejectionId : Str
  proposalId : Str
  invariantId : Str
  disposition : Str
  rejectionReason : Str
  rejectedAtUtc : Str
  hmacChainHash : Str
  deriving DecidableEq, Repr

/-- The file of the snapshot; its `governor` and its `innov_code` are constants. -/
structure Snapshot where
  snapshotAtUtc : Str
  invariantCount : Nat
  constitutionHash : Str
  constitution : Constitution
  deriving DecidableEq, Repr

structure ExecutionCycleResult where
  cycleId : Str
  proposalsRead : Nat
  executed : Nat
  rejected : Nat
  skipped : Nat
  snapshotHash : Str
  invariantCount : Nat
  completedAtUtc : Str
  errors : List Str
  deriving DecidableEq, Repr

/-- The files. -/
structure Store where
  /-- The execution ledger. -/
  executions : List ExecutionRecord := []
  /-- The log of the rejected amendments. -/
  rejections : List RejectedAmendment := []
  constitution : Option Constitution := none
  /-- The temporary file of the constitution. -/
  temporary : Option Constitution := none
  snapshot : Option Snapshot := none
  deriving DecidableEq, Repr

def Store.invariants (s : Store) : List (Str × Entry) :=
  (s.constitution.map Constitution.invariants).getD []

/-- A write to a file. -/
inductive Write where
  | rejection (r : RejectedAmendment)
  | execution (r : ExecutionRecord)
  | temporary (c : Constitution)
  /-- The temporary file replaces the constitution. -/
  | replace
  | snapshot (s : Snapshot)
  deriving DecidableEq, Repr

def Store.write (s : Store) : Write → Store
  | .rejection r => { s with rejections := s.rejections ++ [r] }
  | .execution r => { s with executions := s.executions ++ [r] }
  | .temporary c => { s with temporary := some c }
  | .replace => { s with constitution := s.temporary, temporary := none }
  | .snapshot t => { s with snapshot := some t }

/-- The paths of the two ledgers, which messages name. -/
structure Executor where
  execLedger : Str
  rejectedLog : Str

/-- An executor on the files of `_LEDGER_DIR`. -/
def Executor.default : Executor where
  execLedger := str "data/cae/amendment_execution_ledger.jsonl"
  rejectedLog := str "data/cae/rejected_amendments.jsonl"

/-- What the process gets from its runtime for one proposal: the times that `_utc_iso` gives and the
identifiers that are drawn. -/
structure Draws where
  /-- `last_amended_at_utc` or `retired_at_utc` of the entry. -/
  entryAt : Str
  /-- `last_amended_at_utc` of the constitution. -/
  constitutionAt : Str
  /-- `executed_at_utc` or `rejected_at_utc`. -/
  recordAt : Str
  proposalUuid : Str
  rejectionUuid : Str

/-- What the process gets from its runtime during a call. -/
structure Env where
  cycleUuid : Str
  createdAt : Str
  snapshotAt : Str
  completedAt : Str
  /-- For the proposals, by their place. -/
  draws : Nat → Draws

/-! ### Records as JSON -/

section toDict

variable {P}

def item (k v : Str) : Key P.Float × P.Obj := (.str k, .str v)

def optionalItem (k : Str) (v : Option Str) : Members P.Float :=
  (v.map (item k)).toList

def Entry.toDict (e : Entry) : Members P.Float :=
  [item (str "id") e.id, item (str "class") e.invariantClass, item (str "status") e.status,
    (.str (str "reinforcement_count"), .int e.reinforcementCount),
    (.str (str "review_count"), .int e.reviewCount)] ++
    (optionalItem (str "last_amended_at_utc") e.lastAmendedAtUtc ++
    (optionalItem (str "last_rationale") e.lastRationale ++
    (optionalItem (str "last_action") e.lastAction ++
    (optionalItem (str "retired_at_utc") e.retiredAtUtc ++
    optionalItem (str "retirement_rationale") e.retirementRationale))))

def Constitution.toDict (c : Constitution) : Members P.Float :=
  [item (str "schema_version") (str "1.0.0"), item (str "governor") governor,
    (.str (str "invariants"), .dict (c.invariants.map fun m => (.str m.1, .dict m.2.toDict))),
    item (str "created_at_utc") c.createdAtUtc,
    (.str (str "last_amended_at_utc"), (c.lastAmendedAtUtc.map Value.str).getD .none)]

def ExecutionRecord.payload (r : ExecutionRecord) : Members P.Float :=
  [item (str "execution_id") r.executionId, item (str "proposal_id") r.proposalId,
    item (str "invariant_id") r.invariantId, item (str "action") r.action,
    item (str "rationale") r.rationale,
    (.str (str "prior_state"), .dict ((r.priorState.map Entry.toDict).getD [])),
    (.str (str "post_state"), .dict r.postState.toDict),
    item (str "governor") r.governor, item (str "executed_at_utc") r.executedAtUtc]

def ExecutionRecord.toDict (r : ExecutionRecord) : Members P.Float :=
  r.payload ++ [item (str "hmac_chain_hash") r.hmacChainHash]

def RejectedAmendment.payload (r : RejectedAmendment) : Members P.Float :=
  [item (str "rejection_id") r.rejectionId, item (str "proposal_id") r.proposalId,
    item (str "invariant_id") r.invariantId, item (str "disposition") r.disposition,
    item (str "rejection_reason") r.rejectionReason, item (str "rejected_at_utc") r.rejectedAtUtc]

end toDict

/-! ### The chain -/

/-- `data.encode("utf-8")`, of a text that is ASCII here. -/
def encodeAscii (s : Str) : Bytes :=
  (encode s).getD []

/-- `json.dumps(value, sort_keys=True)`; all keys are strings. -/
def sortedJson (ms : Members P.Float) : Str :=
  (dumpsSortedAscii P .spaced (.dict ms)).getD []

/-- `_hmac_hex` -/
def hmacHex (payload previousHash : Str) : Str :=
  hmacSha256 P hmacKey (encodeAscii (payload ++ previousHash))

/-- `_get_previous_chain_hash`, of the hashes in a ledger. -/
def getPreviousChainHash (ledgerPath : Str) (hashes : List Str) : Except Exc Str :=
  match hashes.getLast? with
  | none => .ok genesisHash
  | some chainHash =>
    if chainHash = [] then
      .error (.runtimeError (str "CAE-CHAIN-0: missing hmac_chain_hash in last record of " ++
        ledgerPath))
    else .ok chainHash

/-- The hash that a record is given in `_append_to_ledger`. -/
def chainHash (ledgerPath : Str) (hashes : List Str) (payload : Members P.Float) :
    Except Exc Str :=
  (getPreviousChainHash ledgerPath hashes).map (hmacHex P (sortedJson P payload))

/-- The loop of `_verify_chain`. -/
def verifyFrom : Str → List ExecutionRecord → Bool
  | _, [] => true
  | prevHash, r :: rs =>
    if r.hmacChainHash.take chainPrefixLen ≠
        (hmacHex P (sortedJson P r.payload) prevHash).take chainPrefixLen then false
    else verifyFrom r.hmacChainHash rs

/-- `_verify_chain` -/
def verifyChain (ledger : List ExecutionRecord) : Bool :=
  verifyFrom P genesisHash ledger

/-- `_seen_execution_ids` -/
def seenExecutionIds (ledger : List ExecutionRecord) : List Str :=
  (ledger.map ExecutionRecord.executionId).filter (· ≠ [])

/-- `_sha256` -/
def sha256 (data : Str) : Except Exc Str :=
  match encode data with
  | none => .error .unicodeEncodeError
  | some raw => .ok (P.sha256 raw)

/-! ### Amendments -/

/-- `_load_accepted_proposals` -/
def loadAcceptedProposals (rdpLedger : List Proposal) : List Proposal :=
  rdpLedger.filter fun p => p.disposition = some (str "ACCEPTED")

/-- `_is_self_referential` -/
def isSelfReferential (invariantId : Str) : Bool :=
  selfPrefix.any fun pfx => decide (pfx <+: invariantId)

/-- The entry of an invariant that was not there. -/
def Entry.new (invariantId : Str) : Entry where
  id := invariantId
  invariantClass := str "Hard"
  status := str "ACTIVE"
  reinforcementCount := 0
  reviewCount := 0
  lastAmendedAtUtc := none
  lastRationale := none
  lastAction := none
  retiredAtUtc := none
  retirementRationale := none

/-- The entry after an action; what is raised is a `ValueError` with this message. -/
def amendEntry (invariantId action rationale now : Str) (prior : Option Entry) :
    Except Str Entry :=
  let entry := prior.getD (Entry.new invariantId)
  let amended (entry : Entry) : Entry :=
    { entry with
      lastAmendedAtUtc := some now
      lastRationale := some rationale
      lastAction := some action }
  if action = str "REINFORCE" then
    .ok (amended { entry with
      reinforcementCount := entry.reinforcementCount + 1
      status := str "REINFORCED" })
  else if action = str "REVIEW" then
    .ok (amended { entry with
      reviewCount := entry.reviewCount + 1
      status := str "UNDER_REVIEW" })
  else if action = str "STABLE" then .ok (amended { entry with status := str "STABLE" })
  else if action = str "ADD" then .ok (amended { entry with status := str "ACTIVE" })
  else if action = str "RETIRE" then
    match prior with
    | none => .error (str "CAE-ATOMIC-0: cannot retire unknown invariant '" ++ invariantId ++ [39])
    | some entry =>
      .ok { entry with
        status := str "RETIRED"
        retiredAtUtc := some now
        retirementRationale := some rationale
        lastAction := some (str "RETIRE") }
  else .error (str "CAE-ATOMIC-0: unknown action '" ++ action ++ [39])

/-- `_apply_amendment`: the new constitution, and the entry before and after. -/
def applyAmendment (constitution : Constitution) (p : Proposal) (d : Draws) :
    Except Str (Constitution × Option Entry × Entry) :=
  if p.invariantId = [] then .error (str "CAE-ATOMIC-0: proposal missing invariant_id")
  else if p.governor ≠ governor then
    .error (str "CAE-HUMAN0-0: governor mismatch — expected '" ++ governor ++ str "', got '" ++
      p.governor ++ [39])
  else
    let priorEntry := constitution.invariants.lookup p.invariantId
    (amendEntry p.invariantId p.amendment p.rationale d.entryAt priorEntry).map fun entry =>
      ({ constitution with
        invariants := Assoc.set constitution.invariants p.invariantId entry
        lastAmendedAtUtc := some d.constitutionAt }, priorEntry, entry)

/-! ### A cycle -/

/-- What a cycle has done so far. -/
structure Batch where
  constitution : Constitution
  seenIds : List Str
  writes : List Write := []
  executed : Nat := 0
  rejected : Nat := 0
  skipped : Nat := 0
  errors : List Str := []

/-- The hash in `execution_id`. -/
def executionId (proposalId cycleId : Str) : Except Exc Str :=
  (sha256 P (proposalId ++ 58 :: cycleId)).map (List.take 32)

/-- The rejection of a proposal that is about the executor itself. -/
def rejection (p : Proposal) (proposalId : Str) (d : Draws) : RejectedAmendment where
  rejectionId := d.rejectionUuid
  proposalId := proposalId
  invariantId := p.invariantId
  disposition := p.disposition.getD (str "ACCEPTED")
  rejectionReason := str "CAE-NOSELF-0: self-referential amendment rejected"
  rejectedAtUtc := d.recordAt
  hmacChainHash := []

/-- The record of an amendment that was applied. -/
def execRecord (p : Proposal) (proposalId executionId : Str) (prior : Option Entry) (post : Entry)
    (d : Draws) : ExecutionRecord where
  executionId := executionId
  proposalId := proposalId
  invariantId := p.invariantId
  action := p.amendment
  rationale := p.rationale
  priorState := prior
  postState := post
  governor := governor
  executedAtUtc := d.recordAt
  hmacChainHash := []

variable (x : Executor)

/-- The body of the loop, for files that were `s` before the cycle.  What was written stays written
where it raises. -/
def executeProposal (s : Store) (cycleId : Str) (d : Draws) (p : Proposal) (b : Batch) :
    Except Exc Unit × Batch :=
  let files := Writes.after Store.write s b.writes
  let proposalId := p.proposalId.getD d.proposalUuid
  if isSelfReferential p.invariantId then
    let r := rejection p proposalId d
    match chainHash P x.rejectedLog (files.rejections.map RejectedAmendment.hmacChainHash)
        r.payload with
    | .error e => (.error e, b)
    | .ok hash =>
      (.ok (), { b with
        writes := b.writes ++ [.rejection { r with hmacChainHash := hash }]
        rejected := b.rejected + 1 })
  else
    match executionId P proposalId cycleId with
    | .error e => (.error e, b)
    | .ok executionId =>
      if executionId ∈ b.seenIds then (.ok (), { b with skipped := b.skipped + 1 })
      else
        match applyAmendment b.constitution p d with
        | .error message =>
          (.ok (), { b with
            errors := b.errors ++ [p.invariantId ++ str ": " ++ message]
            rejected := b.rejected + 1 })
        | .ok (constitution, prior, post) =>
          let b := { b with constitution := constitution }
          let r := execRecord p proposalId executionId prior post d
          match chainHash P x.execLedger (files.executions.map ExecutionRecord.hmacChainHash)
              r.payload with
          | .error e => (.error e, b)
          | .ok hash =>
            (.ok (), { b with
              writes := b.writes ++ [.execution { r with hmacChainHash := hash }]
              seenIds := executionId :: b.seenIds
              executed := b.executed + 1 })

/-- The loop over the proposals that are left. -/
def executeProposals (s : Store) (cycleId : Str) :
    (Nat → Draws) → List Proposal → Batch → Except Exc Unit × Batch
  | _, [], b => (.ok (), b)
  | draws, p :: ps, b =>
    match executeProposal P x s cycleId (draws 0) p b with
    | (.error e, b) => (.error e, b)
    | (.ok (), b) => executeProposals s cycleId (fun n => draws (n + 1)) ps b

/-- `_load_constitution` -/
def loadConstitution (s : Store) (e : Env) : Constitution :=
  s.constitution.getD ⟨[], e.createdAt, none⟩

/-- The snapshot that `_write_snapshot` writes. -/
def newSnapshot (c : Constitution) (e : Env) : Snapshot where
  snapshotAtUtc := e.snapshotAt
  invariantCount := c.invariants.length
  constitutionHash := P.sha256 (encodeAscii (sortedJson P c.toDict))
  constitution := c

/-- `cycle_id or str(uuid.uuid4())` -/
def newCycleId (cycleId : Option Str) (e : Env) : Str :=
  if cycleId.getD [] = [] then e.cycleUuid else cycleId.getD []

/-- `execute`, with the writes that it does. -/
def execute (rdpLedger : List Proposal) (s : Store) (e : Env) (cycleId : Option Str) :
    Except Exc ExecutionCycleResult × List Write :=
  let cycleId := newCycleId cycleId e
  if verifyChain P s.executions = false then
    (.error (.runtimeError
      (str "CAE-CHAIN-0: execution ledger chain integrity failure — halting")), [])
  else
    let proposals := loadAcceptedProposals rdpLedger
    let seenIds := seenExecutionIds s.executions
    match executeProposals P x s cycleId e.draws proposals
        { constitution := loadConstitution s e, seenIds := seenIds } with
    | (.error exc, b) => (.error exc, b.writes)
    | (.ok (), b) =>
      let snapshot := newSnapshot P b.constitution e
      (.ok {
          cycleId := cycleId
          proposalsRead := proposals.length
          executed := b.executed
          rejected := b.rejected
          skipped := b.skipped
          snapshotHash := snapshot.constitutionHash
          invariantCount := b.constitution.invariants.length
          completedAtUtc := e.completedAt
          errors := b.errors },
        b.writes ++ [.temporary b.constitution, .replace, .snapshot snapshot])

/-! ### Runs -/

/-- A call of `execute`, by an executor that is new or not: an executor keeps nothing in memory. -/
structure Call where
  env : Env
  cycleId : Option Str
  /-- The process stops after this number of writes. -/
  stop : Option Nat

def Call.cycle (c : Call) : Str :=
  newCycleId c.cycleId c.env

/-- The disposition ledger and the files of the executor. -/
structure World where
  rdpLedger : List Proposal := []
  store : Store := {}
  /-- How the last call ended, unless it was stopped. -/
  reply : Option (Except Exc ExecutionCycleResult) := none

inductive Action where
  /-- Records are appended to the disposition ledger. -/
  | dispose (records : List Proposal)
  | execute (c : Call)

namespace World

variable (w : World) (c : Call)

/-- What the call does when it is not stopped. -/
def attempt : Except Exc ExecutionCycleResult × List Write :=
  AmendmentExecutor.execute P x w.rdpLedger w.store c.env c.cycleId

/-- The writes that the call does before the process stops. -/
def done : List Write :=
  Writes.done c.stop (w.attempt P x c).2

def step : Action → World
  | .dispose records => { w with rdpLedger := w.rdpLedger ++ records }
  | .execute c =>
    { w with
      store := Writes.after Store.write w.store (w.done P x c)
      reply := if Writes.Finishes c.stop (w.attempt P x c).2 then some (w.attempt P x c).1
        else none }

end World

end Adaad.AmendmentExecutor
