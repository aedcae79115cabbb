import Adaad.Py.Json.Loads
import Adaad.Run

/-!
# Constitutional self-amendment

`dorkllm/autonomous_constitutional_self_amendment.py`: an engine takes amendments through their
stages and writes each transition to a ledger that is chained by HMAC.

The head of the chain is kept in a state file, which is written after the ledger.  A process may
stop in between; then an engine is opened again on the same files.

The objects of type `AmendmentProposal` that an engine has returned are numbered; callers pass them
back to it.
-/

namespace Adaad.SelfAmendment

open Py

variable (P : Platform)

/-! ### Constants -/

/-- `_HMAC_KEY` -/
def hmacKey : Bytes := (encode (str "adaad-acsa-chain-key-v1")).getD []

/-- `_MIN_CGVF_SCORE` -/
def minCgvfScore : P.Float := P.floatOf (.lit ⟨false, str "0", str "72", none⟩)

/-- `_MIN_EVIDENCE` -/
def minEvidence : Nat := 3

def version : Str := str "10.27.0"
def governor : Str := str "DUSTIN L REID"
def agent : Str := str "DEVADAAD · InnovativeAI LLC"

def genesisDigest : Str := List.replicate 64 48

def eventKey : Str := str "event"
def amendmentIdKey : Str := str "amendment_id"
def stageKey : Str := str "stage"
def contentHashKey : Str := str "content_hash"
def revertHashKey : Str := str "revert_hash"
def human0SignatureKey : Str := str "human0_signature"
def prevDigestKey : Str := str "prev_digest"
def digestKey : Str := str "digest"

/-! ### Amendments -/

inductive AmendmentStage where
  | proposed
  | validated
  | simulated
  | pendingH0
  | ratified
  | rejected
  deriving DecidableEq, Repr

def AmendmentStage.value : AmendmentStage → Str
  | proposed => str "PROPOSED"
  | validated => str "VALIDATED"
  | simulated => str "SIMULATED"
  | pendingH0 => str "PENDING_H0"
  | ratified => str "RATIFIED"
  | rejected => str "REJECTED"

/-- `AmendmentStage(value)`; `none` is a `ValueError`. -/
def AmendmentStage.ofValue (v : P.Obj) : Option AmendmentStage :=
  match v with
  | .str s => [proposed, validated, simulated, pendingH0, ratified, rejected].find? (·.value = s)
  | _ => none

def AmendmentStage.text (s : AmendmentStage) : Str :=
  str "AmendmentStage." ++ s.value

inductive AmendmentClass where
  | soft
  | hard
  deriving DecidableEq, Repr

def AmendmentClass.value : AmendmentClass → Str
  | soft => str "SOFT"
  | hard => str "HARD"

structure AmendmentProposal where
  amendmentId : Str
  title : Str
  targetSection : Str
  proposedText : Str
  currentText : Str
  amendmentClass : AmendmentClass
  supportingInvariantIds : List Str
  proposedBy : Str
  proposedAt : Str
  stage : AmendmentStage
  cgvfScore : P.Float
  /-- The identifier in `simulation_result`. -/
  simulationId : Option Str
  human0Signature : Option Str
  revertHash : Option Str
  rejectionReason : Option Str

structure ValidationResult where
  passed : Bool
  cgvfScore : P.Float
  conflictCheck : Bool
  quorumSatisfied : Bool
  failureReasons : List Str

structure SimulationResult where
  passed : Bool
  hardInvariantsAffected : List Str
  softInvariantsAffected : List Str
  breakageDetected : Bool
  simulationId : Str

structure ACSAState where
  totalProposed : Nat := 0
  totalRatified : Nat := 0
  totalRejected : Nat := 0
  lastAmendmentId : Option Str := none
  chainHeadDigest : Str := genesisDigest
  lastUpdated : Str := []

/-- What the process gets from its runtime. -/
structure Runtime where
  /-- `str(uuid.uuid4())`, drawn one after the other. -/
  uuid4 : Nat → Str
  uuid4_injective : Function.Injective uuid4
  uuid4_ascii : ∀ n, ∀ c ∈ uuid4 n, c < 127
  /-- `f"{score:.3f}"` -/
  formatScore : P.Float → Str

/-! ### Records -/

variable {P}

/-- A record of the ledger, and the items it is made of. -/
abbrev Record (P : Platform) := Members P.Float

def text (k v : Str) : Key P.Float × P.Obj := (.str k, .str v)

def textOrNone (k : Str) (v : Option Str) : Key P.Float × P.Obj :=
  (.str k, (v.map Value.str).getD .none)

def texts (k : Str) (vs : List Str) : Key P.Float × P.Obj :=
  (.str k, .list (vs.map .str))

variable (P)

/-- `_canonical_json`, of a value whose keys are strings. -/
def canonicalJson (v : P.Obj) : Str :=
  (dumpsSortedAscii P .compact v).getD []

/-- `text.encode("utf-8")`, of a text that is ASCII here. -/
def encodeAscii (s : Str) : Bytes :=
  (encode s).getD []

/-- `_hmac_digest` with the key of the chain. -/
def hmacDigest (payload : Str) : Str :=
  hmacSha256 P hmacKey (encodeAscii payload)

variable {P}

/-- `_amendment_content_hash` -/
def amendmentContentHash (p : AmendmentProposal P) : Str :=
  let content : P.Obj := .dict [text (str "title") p.title,
    text (str "proposed_text") p.proposedText, text (str "target_section") p.targetSection,
    text (str "amendment_class") p.amendmentClass.value]
  (P.sha256 (encodeAscii (canonicalJson P content))).take 16

/-- `_revert_hash` -/
def revertHash (P : Platform) (currentText : Str) : Except Exc Str :=
  (writeText currentText).map P.sha256

/-! ### The ledger file -/

/-- The entry that `_append_ledger` writes for a record. -/
def ledgerEntry (chainHeadDigest : Str) (record : Record P) : Record P :=
  let payload := record ++ [text prevDigestKey chainHeadDigest]
  payload ++ [text digestKey (hmacDigest P (canonicalJson P (.dict payload)))]

def ledgerText (ledger : List (Record P)) : Str :=
  ledger.flatMap fun e => dumpsAscii P .spaced (.dict e) ++ [lf]

/-- The file is there once something was appended. -/
def ledgerFile (ledger : List (Record P)) : Option Str :=
  if ledger = [] then none else some (ledgerText ledger)

variable (P)

def isText (s : Str) : P.Obj → Bool
  | .str t => t == s
  | _ => false

/-- The loop of `_verify_chain` over the lines that are left; `none` is an exception. -/
def verifyLines (prev : Str) (count : Nat) : List Str → Option (Bool × Nat × Str)
  | [] => some (true, count, str "valid")
  | line :: lines =>
    if strip line = [] then verifyLines prev count lines
    else
      match loads P line with
      | some (.dict entry) =>
        let storedDigest := (get entry digestKey).getD (.str [])
        let body := without entry digestKey
        let expected := hmacDigest P (canonicalJson P (.dict body))
        if !isText P expected storedDigest then
          some (false, count, str "chain broken at record " ++ natText count)
        else if !isText P prev ((get body prevDigestKey).getD (.str [])) then
          some (false, count, str "prev_digest mismatch at record " ++ natText count)
        else verifyLines expected (count + 1) lines
      | _ => none

/-- `_verify_chain` -/
def verifyChain (file : Option Str) : Option (Bool × Nat × Str) :=
  match file with
  | none => some (true, 0, str "empty")
  | some t => verifyLines P genesisDigest 0 (splitlines t)

/-- The entry of a line, where it has this content hash. -/
def matchContentHash (contentHash line : Str) : Option (Record P) :=
  if strip line = [] then none
  else
    match loads P line with
    | some (.dict entry) =>
      if ((get entry contentHashKey).map (isText P contentHash)).getD false then some entry
      else none
    | _ => none

/-- `_load_existing_amendment` -/
def loadExistingAmendment (file : Option Str) (contentHash : Str) : Option (Record P) :=
  file.bind fun t => (splitlines t).findSome? (matchContentHash P contentHash)

/-! ### The engine -/

structure Engine where
  state : ACSAState
  hardRegistry : List Str
  /-- The objects that it has returned. -/
  proposals : List (AmendmentProposal P)

/-- The files, and the process if one is running.  `stateFile` is `none` also for a file that cannot
be read.  Which text an amendment was proposed for is in no file; `currentTexts` keeps it for the
statements. -/
structure World where
  ledger : List (Record P) := []
  stateFile : Option ACSAState := none
  engine : Option (Engine P) := none
  drawn : Nat := 0
  currentTexts : List (Str × Str) := []

/-- Where a process stops: before the state file is written, or while it is. -/
inductive Stop where
  | beforeSave
  | duringSave
  deriving DecidableEq, Repr

/-- What the environment does during a call: the times that `_utc_iso` gives, and whether the
process stops between the append and the end of the save. -/
structure Env where
  times : Nat → Str
  stop : Option Stop

/-- How a call ends. -/
inductive Reply (α : Type) where
  | returned (a : α)
  | raised (e : Exc)
  | stopped

variable {P}

/-- `_append_ledger` and `_save_state`. -/
def commit {α : Type} (env : Env) (w : World P) (e : Engine P) (record : Record P) (a : α) :
    World P × Reply α :=
  let entry := ledgerEntry e.state.chainHeadDigest record
  let digest := hmacDigest P (canonicalJson P (.dict (record ++
    [text prevDigestKey e.state.chainHeadDigest])))
  let w := { w with ledger := w.ledger ++ [entry] }
  match env.stop with
  | some .beforeSave => ({ w with engine := none }, .stopped)
  | some .duringSave => ({ w with engine := none, stateFile := none }, .stopped)
  | none =>
    let state := { e.state with chainHeadDigest := digest, lastUpdated := env.times 0 }
    ({ w with engine := some { e with state := state }, stateFile := some state }, .returned a)

/-- `__init__`: the state is that of the file, or a new one. -/
def openEngine (w : World P) (hardRegistry : List Str) : World P :=
  { w with engine := some ⟨w.stateFile.getD {}, hardRegistry, []⟩ }

/-- The arguments of `propose` that are used. -/
structure ProposeRequest where
  title : Str
  targetSection : Str
  proposedText : Str
  currentText : Str
  amendmentClass : AmendmentClass
  supportingInvariantIds : List Str
  proposedBy : Str

/-- The object that `propose` makes first. -/
def newProposal (P : Platform) (r : ProposeRequest) (amendmentId now : Str) :
    AmendmentProposal P where
  amendmentId := amendmentId
  title := r.title
  targetSection := r.targetSection
  proposedText := r.proposedText
  currentText := r.currentText
  amendmentClass := r.amendmentClass
  supportingInvariantIds := r.supportingInvariantIds
  proposedBy := r.proposedBy
  proposedAt := now
  stage := .proposed
  cgvfScore := P.floatOf (.lit ⟨false, str "0", str "0", none⟩)
  simulationId := none
  human0Signature := none
  revertHash := none
  rejectionReason := none

/-- `existing.get("amendment_id", "unknown")`, which is a text. -/
def existingId (existing : Record P) : Str :=
  match get existing amendmentIdKey with
  | some (.str s) => s
  | _ => str "unknown"

/-- `AmendmentStage(existing.get("stage", "PROPOSED"))` -/
def existingStage (existing : Record P) : Option AmendmentStage :=
  AmendmentStage.ofValue P ((get existing stageKey).getD (.str (str "PROPOSED")))

def proposedRecord (p : AmendmentProposal P) (contentHash now : Str) : Record P :=
  [text eventKey (str "PROPOSED"), text amendmentIdKey p.amendmentId, text (str "title") p.title,
    text (str "target_section") p.targetSection,
    text (str "amendment_class") p.amendmentClass.value,
    texts (str "supporting_invariant_ids") p.supportingInvariantIds,
    text (str "proposed_by") p.proposedBy, text (str "proposed_at") p.proposedAt,
    textOrNone revertHashKey p.revertHash, text contentHashKey contentHash,
    text stageKey AmendmentStage.proposed.value, text (str "timestamp") now,
    text (str "governor") governor, text (str "agent") agent, text (str "version") version]

/-- `propose`; the number is that of the object that is returned. -/
def propose (rt : Runtime P) (env : Env) (w : World P) (e : Engine P) (r : ProposeRequest) :
    World P × Reply Nat :=
  let number := e.proposals.length
  if r.supportingInvariantIds.length < minEvidence then
    (w, .raised (.valueError (str "ACSA-QUORUM-0 VIOLATION: amendment must cite ≥ 3 " ++
      str "supporting invariant IDs; got " ++ natText r.supportingInvariantIds.length)))
  else
    let p := newProposal P r (rt.uuid4 w.drawn) (env.times 1)
    let w := { w with drawn := w.drawn + 1 }
    let contentHash := amendmentContentHash p
    match loadExistingAmendment P (ledgerFile w.ledger) contentHash with
    | some existing =>
      match existingStage existing with
      | some stage =>
        let p := { p with amendmentId := existingId existing, stage := stage }
        ({ w with engine := some { e with proposals := e.proposals ++ [p] } }, .returned number)
      | none => (w, .raised (.valueError (str "is not a valid AmendmentStage")))
    | none =>
      match revertHash P p.currentText with
      | .error exc => (w, .raised exc)
      | .ok hash =>
        let p := { p with revertHash := some hash }
        let state := { e.state with
          totalProposed := e.state.totalProposed + 1
          lastAmendmentId := some p.amendmentId }
        let w := { w with currentTexts := w.currentTexts ++ [(p.amendmentId, p.currentText)] }
        commit env w { e with state := state, proposals := e.proposals ++ [p] }
          (proposedRecord p contentHash (env.times 2)) number

/-- `text.split("-")[0]` -/
def firstPart (s : Str) : Str :=
  s.takeWhile (· ≠ 45)

/-- The failures that `validate` lists. -/
def validationFailures (rt : Runtime P) (p : AmendmentProposal P) (score : P.Float)
    (hardRegistry : List Str) : List Str × List Str × List Str :=
  let quorum :=
    if p.supportingInvariantIds.length < minEvidence then
      [str "ACSA-QUORUM-0: insufficient evidence IDs (" ++
        natText p.supportingInvariantIds.length ++ str " < 3)"]
    else []
  let low := P.floatText score = .nan ∨ P.numLt (.inr score) (.inr (minCgvfScore P)) = true
  let scores :=
    if low then [str "CGVF score " ++ rt.formatScore score ++ str " < threshold 0.72"] else []
  let conflicting := hardRegistry.filter fun inv =>
    decide (firstPart inv <:+: p.proposedText) && !p.supportingInvariantIds.contains inv
  let conflicts :=
    if p.amendmentClass = .hard ∧ conflicting ≠ [] then
      [str "ACSA-CONFLICT-0: unresolved Hard-class conflicts: " ++
        P.repr (.list (conflicting.map .str))]
    else []
  (quorum, scores, conflicts)

/-- The result of `validate`; `existing` is the argument `existing_hard_invariants`. -/
def validationResult (rt : Runtime P) (e : Engine P) (p : AmendmentProposal P) (score : P.Float)
    (existing : List Str) : ValidationResult P :=
  let hardRegistry := if existing = [] then e.hardRegistry else existing
  let f := validationFailures rt p score hardRegistry
  { passed := f.1 = [] ∧ f.2.1 = [] ∧ f.2.2 = []
    cgvfScore := score
    conflictCheck := f.2.2 = []
    quorumSatisfied := f.1 = []
    failureReasons := f.1 ++ (f.2.1 ++ f.2.2) }

def Engine.update (e : Engine P) (number : Nat) (p : AmendmentProposal P) : Engine P :=
  { e with proposals := e.proposals.set number p }

def Engine.countRejected (e : Engine P) : Engine P :=
  { e with state := { e.state with totalRejected := e.state.totalRejected + 1 } }

/-- `validate` -/
def validate (rt : Runtime P) (env : Env) (w : World P) (e : Engine P) (number : Nat)
    (p : AmendmentProposal P) (score : P.Float) (existing : List Str) :
    World P × Reply (ValidationResult P) :=
  let result := validationResult rt e p score existing
  if result.passed then
    commit env w (e.update number { p with stage := .validated, cgvfScore := score })
      [text eventKey (str "VALIDATED"), text amendmentIdKey p.amendmentId,
        (.str (str "cgvf_score"), .float score),
        (.str (str "conflict_check"), .bool result.conflictCheck),
        text stageKey AmendmentStage.validated.value, text (str "timestamp") (env.times 2),
        text (str "governor") governor, text (str "agent") agent] result
  else
    let reason := (str "; ").intercalate result.failureReasons
    commit env w
      (e.update number
        { p with stage := .rejected, rejectionReason := some reason }).countRejected
      [text eventKey (str "REJECTED"), text amendmentIdKey p.amendmentId,
        text stageKey AmendmentStage.rejected.value, text (str "rejection_reason") reason,
        text (str "timestamp") (env.times 2), text (str "governor") governor] result

/-- The arguments of `simulate`, and the digits that its identifier ends in. -/
structure SimulateRequest where
  dryRunPasses : Bool
  hardInvariantsAffected : List Str
  softInvariantsAffected : List Str
  hex : Str

/-- A soft amendment must not affect hard invariants. -/
def scopeViolation (p : AmendmentProposal P) (r : SimulateRequest) : Bool :=
  p.amendmentClass = .soft ∧ r.hardInvariantsAffected ≠ []

/-- The result of `simulate`. -/
def simulationResult (p : AmendmentProposal P) (r : SimulateRequest) : SimulationResult :=
  let breakage := scopeViolation p r || !r.dryRunPasses
  { passed := !breakage
    hardInvariantsAffected := r.hardInvariantsAffected
    softInvariantsAffected := r.softInvariantsAffected
    breakageDetected := breakage
    simulationId := str "SIM-" ++ p.amendmentId.take 8 ++ str "-" ++ r.hex }

def boolText (b : Bool) : Str :=
  if b then str "True" else str "False"

/-- `simulate` -/
def simulate (env : Env) (w : World P) (e : Engine P) (number : Nat) (p : AmendmentProposal P)
    (r : SimulateRequest) : World P × Reply SimulationResult :=
  if p.stage ≠ .validated then
    (w, .raised (.runtimeError (str "ACSA-SIMFIRST-0 VIOLATION: cannot simulate amendment in " ++
      str "stage " ++ p.stage.text ++ str "; must be VALIDATED first")))
  else
    let result := simulationResult p r
    if result.passed then
      commit env w
        (e.update number { p with stage := .simulated, simulationId := some result.simulationId })
        [text eventKey (str "SIMULATED"), text amendmentIdKey p.amendmentId,
          text (str "simulation_id") result.simulationId, (.str (str "passed"), .bool true),
          text stageKey AmendmentStage.simulated.value,
          texts (str "hard_invariants_affected") r.hardInvariantsAffected,
          texts (str "soft_invariants_affected") r.softInvariantsAffected,
          text (str "timestamp") (env.times 2), text (str "governor") governor,
          text (str "agent") agent] result
    else
      let reason := str "Simulation " ++ result.simulationId ++ str " FAILED: breakage_detected=" ++
        boolText result.breakageDetected ++ str ", scope_violation=" ++
        boolText (scopeViolation p r)
      commit env w
        (e.update number
          { p with stage := .rejected, rejectionReason := some reason }).countRejected
        [text eventKey (str "REJECTED"), text amendmentIdKey p.amendmentId,
          text (str "simulation_id") result.simulationId, text (str "rejection_reason") reason,
          text stageKey AmendmentStage.rejected.value, text (str "timestamp") (env.times 2),
          text (str "governor") governor] result

def pendingRecord (p : AmendmentProposal P) (now : Str) : Record P :=
  [text eventKey (str "PENDING_H0"), text amendmentIdKey p.amendmentId,
    text (str "title") p.title, text (str "target_section") p.targetSection,
    text (str "amendment_class") p.amendmentClass.value,
    (.str (str "cgvf_score"), .float p.cgvfScore), textOrNone revertHashKey p.revertHash,
    text (str "simulation_id") (p.simulationId.getD []),
    text (str "human0_signature_slot") (str "__AWAITING_DUSTIN_L_REID_GPG__"),
    text stageKey AmendmentStage.pendingH0.value, text (str "timestamp") now,
    text (str "governor") governor, text (str "agent") agent, text (str "version") version,
    text (str "instructions") (str "HUMAN-0 ACTION REQUIRED: GPG-sign this amendment record " ++
      str "on ADAADell using key DD5C7176E87C213E. Provide signature to ratify().")]

/-- `queue_for_ratification` -/
def queueForRatification (env : Env) (w : World P) (e : Engine P) (number : Nat)
    (p : AmendmentProposal P) : World P × Reply (Record P) :=
  if p.stage ≠ .simulated then
    (w, .raised (.runtimeError (str "ACSA-SIMFIRST-0 VIOLATION: amendment " ++ p.amendmentId ++
      str " must be SIMULATED before PENDING_H0; current stage: " ++ p.stage.text)))
  else
    let record := pendingRecord p (env.times 2)
    commit env w (e.update number { p with stage := .pendingH0 }) record record

def ratifiedRecord (p : AmendmentProposal P) (human0Signature now : Str) : Record P :=
  [text eventKey (str "RATIFIED"), text amendmentIdKey p.amendmentId, text (str "title") p.title,
    text (str "target_section") p.targetSection,
    text (str "amendment_class") p.amendmentClass.value,
    (.str (str "cgvf_score"), .float p.cgvfScore), textOrNone revertHashKey p.revertHash,
    text human0SignatureKey human0Signature, text stageKey AmendmentStage.ratified.value,
    text (str "timestamp") now, text (str "governor") governor, text (str "agent") agent,
    text (str "version") version,
    text (str "constitutional_compliance")
      (str "CERTIFIED — HUMAN-0 ratified, simulation passed, chain sealed")]

/-- `ratify`.  The record that it returns has the ledger digest besides. -/
def ratify (env : Env) (w : World P) (e : Engine P) (number : Nat) (p : AmendmentProposal P)
    (human0Signature : Str) : World P × Reply (Record P) :=
  if strip human0Signature = [] then
    (w, .raised (.valueError (str "ACSA-HUMAN0-0 VIOLATION: human0_signature must be " ++
      str "non-empty; HUMAN-0 (Dustin L. Reid) GPG signature is mandatory")))
  else if p.stage ≠ .pendingH0 then
    (w, .raised (.runtimeError (str "ACSA-HUMAN0-0 VIOLATION: amendment must be PENDING_H0 to " ++
      str "ratify; current stage: " ++ p.stage.text)))
  else
    let e := e.update number
      { p with stage := .ratified, human0Signature := some human0Signature }
    let e := { e with state := { e.state with totalRatified := e.state.totalRatified + 1 } }
    let record := ratifiedRecord p human0Signature (env.times 2)
    commit env w e record record

/-- `reject`.  The record that it returns has the ledger digest besides. -/
def reject (env : Env) (w : World P) (e : Engine P) (number : Nat) (p : AmendmentProposal P)
    (reason : Str) : World P × Reply (Record P) :=
  let record := [text eventKey (str "REJECTED"), text amendmentIdKey p.amendmentId,
    text (str "rejection_reason") reason, text stageKey AmendmentStage.rejected.value,
    text (str "timestamp") (env.times 2), text (str "governor") governor]
  commit env w
    (e.update number { p with stage := .rejected, rejectionReason := some reason }).countRejected
    record record

/-! ### Runs -/

/-- A call on the object with a number, or the start of a process. -/
inductive Call (P : Platform) where
  | openEngine (hardRegistry : List Str)
  | propose (env : Env) (r : ProposeRequest)
  | validate (env : Env) (number : Nat) (score : P.Float) (existing : List Str)
  | simulate (env : Env) (number : Nat) (r : SimulateRequest)
  | queueForRatification (env : Env) (number : Nat)
  | ratify (env : Env) (number : Nat) (human0Signature : Str)
  | reject (env : Env) (number : Nat) (reason : Str)

/-- A call on an object that the running engine has returned; otherwise nothing happens. -/
def onProposal (w : World P) (number : Nat)
    (f : Engine P → AmendmentProposal P → World P) : World P :=
  match w.engine with
  | some e =>
    match e.proposals[number]? with
    | some p => f e p
    | none => w
  | none => w

/-- The world after a call, which may have raised or stopped. -/
def step (rt : Runtime P) (w : World P) : Call P → World P
  | .openEngine hardRegistry => openEngine w hardRegistry
  | .propose env r =>
    match w.engine with
    | some e => (propose rt env w e r).1
    | none => w
  | .validate env number score existing =>
    onProposal w number fun e p => (validate rt env w e number p score existing).1
  | .simulate env number r => onProposal w number fun e p => (simulate env w e number p r).1
  | .queueForRatification env number =>
    onProposal w number fun e p => (queueForRatification env w e number p).1
  | .ratify env number human0Signature =>
    onProposal w number fun e p => (ratify env w e number p human0Signature).1
  | .reject env number reason =>
    onProposal w number fun e p => (reject env w e number p reason).1

end Adaad.SelfAmendment
