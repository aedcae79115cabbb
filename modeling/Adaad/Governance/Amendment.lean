import Adaad.Method
import Adaad.Py.Assoc
import Adaad.Py.Json.Equiv.Ascii

/-!
# Constitutional amendments

`runtime/governance/amendment.py` and `amendment_pipeline.py`: proposals for a new policy are kept
in one file each, reviewers approve and reject them, and every vote runs the pipeline that loads the
policy of a proposal with enough approvals.

The id of a proposal is the second it was made in, and stands for the text that has this
second.  What is written to a file as JSON is read back with pairs of surrogates joined
(`readAscii`).

The log of a world has what happened, the latest event first.  No function reads it.
-/

namespace Adaad.Amendment

open Py

/-- A second of the clock; `amendment-` and this second is the id of a proposal. -/
abbrev ProposalId := Nat

inductive Status where
  | pending
  | approved
  | rejected
  deriving DecidableEq, Repr

/-- The phases that are written to the journal. -/
inductive Phase where
  | commentWindow
  | simulationGate
  | quorumVote
  | effectuation
  | archive
  deriving DecidableEq, Repr

/-- An entry of `phase_transitions`. -/
structure Transition where
  phase : Phase
  state : Str
  prevPhaseHash : Str
  txHash : Str
  deriving DecidableEq, Repr

structure AmendmentProposal where
  proposalId : ProposalId
  proposer : Str
  timestamp : Str
  oldPolicyHash : Str
  newPolicyText : Str
  newPolicyHash : Str
  rationale : Str
  approvals : List Str
  rejections : List Str
  status : Status
  phaseTransitions : List Transition
  deriving DecidableEq, Repr

/-- What happened to proposals. -/
inductive Event where
  /-- A proposal for a policy with this hash was written. -/
  | proposed (id : ProposalId) (hash : Str)
  /-- The approval is counted. -/
  | approved (id : ProposalId) (approver : Str)
  /-- A policy was loaded for the proposal, whose own has the hash `own`. -/
  | effectuated (id : ProposalId) (own loaded : Str)
  /-- The rejection was recorded, and the call returned. -/
  | rejected (id : ProposalId) (rejector : Str)
  /-- The proposal was left with the status `rejected`. -/
  | archived (id : ProposalId)
  deriving DecidableEq, Repr

structure World where
  /-- The files of the proposals. -/
  proposals : List (ProposalId × AmendmentProposal)
  /-- `constitution.POLICY_HASH` -/
  policyHash : Str
  log : List Event

/-- The arguments of `AmendmentEngine`. -/
structure Config where
  requiredApprovals : Int
  rejectionThreshold : Int

inductive AmendmentError where
  | notFound
  | unicodeEncodeError
  /-- The new policy is refused. -/
  | refused
  | policyHashMismatchAfterApply
  /-- A journal cannot be written, or a tool raises. -/
  | outside
  deriving DecidableEq, Repr

/-- What comes of `reload_constitution_policy` with the staged policy. -/
inductive Reload where
  | loaded
  | refused
  /-- A `TypeError`, so that the policy in its usual place is loaded; `none` where this raises. -/
  | usual (hash : Option Str)
  deriving DecidableEq, Repr

/-- What is written besides the proposals. -/
inductive Write where
  | transition (phase : Phase)
  | entry
  | reviewQuality
  deriving DecidableEq, Repr

/-- What a vote finds outside. -/
structure Outside where
  /-- `ok` of the simulation gate; `none` where a tool raises. -/
  simulation : Option Bool
  reload : Reload
  fails : Write → Bool
  /-- The hashes of the entries of the journal. -/
  txHash : Phase → Str

abbrev AmendmentMethod := Method AmendmentError World

variable (P : Platform)

/-- `hashlib.sha256(text.encode("utf-8")).hexdigest()` -/
def textHash (text : Str) : Option Str :=
  (encode text).map P.sha256

/-! ### Files -/

def Transition.reread (t : Transition) : Transition where
  phase := t.phase
  state := readAscii t.state
  prevPhaseHash := readAscii t.prevPhaseHash
  txHash := readAscii t.txHash

/-- What is read where the proposal was written. -/
def AmendmentProposal.reread (p : AmendmentProposal) : AmendmentProposal where
  proposalId := p.proposalId
  proposer := readAscii p.proposer
  timestamp := readAscii p.timestamp
  oldPolicyHash := readAscii p.oldPolicyHash
  newPolicyText := readAscii p.newPolicyText
  newPolicyHash := readAscii p.newPolicyHash
  rationale := readAscii p.rationale
  approvals := p.approvals.map readAscii
  rejections := p.rejections.map readAscii
  status := p.status
  phaseTransitions := p.phaseTransitions.map Transition.reread

def happens (e : Event) : AmendmentMethod Unit :=
  .change fun w => { w with log := e :: w.log }

/-- `_load_proposal` -/
def loadProposal (id : ProposalId) : AmendmentMethod AmendmentProposal := do
  let w ← .state
  match w.proposals.lookup id with
  | none => .ofExcept (.error .notFound)
  | some p => pure p

/-- `_save_proposal`: what is kept is what will be read. -/
def saveProposal (p : AmendmentProposal) : AmendmentMethod Unit :=
  .change fun w => { w with proposals := Assoc.set w.proposals p.proposalId p.reread }

/-- Something is written that is not kept here. -/
def writeOutside (o : Outside) (what : Write) : AmendmentMethod Unit :=
  .ofExcept (if o.fails what then .error .outside else .ok ())

/-! ### The pipeline -/

/-- `previous_hash` -/
def previousHash (transitions : List Transition) : Str :=
  match transitions.getLast? with
  | none => List.replicate 64 48
  | some t => if t.txHash = [] then List.replicate 64 48 else t.txHash

/-- `_append_transition` -/
def appendTransition (o : Outside) (phase : Phase) (state : Str) (p : AmendmentProposal) :
    AmendmentMethod AmendmentProposal := do
  writeOutside o (.transition phase)
  return { p with
    phaseTransitions := p.phaseTransitions ++
      [⟨phase, state, previousHash p.phaseTransitions, o.txHash phase⟩] }

def setPolicy (p : AmendmentProposal) (hash : Str) : AmendmentMethod Unit :=
  .change fun w =>
    { w with
      policyHash := hash
      log := .effectuated p.proposalId p.newPolicyHash hash :: w.log }

def reloadPolicy (o : Outside) (p : AmendmentProposal) : AmendmentMethod Str :=
  match o.reload with
  | .refused | .usual none => .ofExcept (.error .refused)
  | .usual (some hash) => do
    setPolicy p hash
    return hash
  | .loaded =>
    match textHash P (universalNewlines p.newPolicyText) with
    | none => .ofExcept (.error .unicodeEncodeError)
    | some hash => do
      setPolicy p hash
      return hash

/-- `_effectuate_amendment` -/
def effectuateAmendment (o : Outside) (p : AmendmentProposal) : AmendmentMethod Bool := do
  let w ← .state
  if w.policyHash = p.newPolicyHash then do
    writeOutside o .entry
    return false
  else do
    let newHash ← reloadPolicy P o p
    if newHash ≠ p.newPolicyHash then .ofExcept (.error .policyHashMismatchAfterApply)
    else do
      writeOutside o .entry
      return true

/-- `AmendmentPipeline.run` on a proposal that is pending or approved. -/
def runPhases (c : Config) (o : Outside) (p : AmendmentProposal) :
    AmendmentMethod AmendmentProposal := do
  let p ← appendTransition o .commentWindow (str "complete") p
  match o.simulation with
  | none => .ofExcept (.error .outside)
  | some ok => do
    let p ← appendTransition o .simulationGate (if ok then str "passed" else str "failed") p
    if ok = false then return { p with status := .pending }
    else do
      let quorumReached := c.requiredApprovals ≤ (p.approvals.length : Int)
      let rejectionTriggered := c.rejectionThreshold ≤ (p.rejections.length : Int)
      let voteState :=
        if rejectionTriggered then str "rejected"
        else if quorumReached then str "approved" else str "pending"
      let p ← appendTransition o .quorumVote voteState p
      if rejectionTriggered then do
        let p ← appendTransition o .archive (str "rejected") p
        return { p with status := .rejected }
      else if ¬ quorumReached then return { p with status := .pending }
      else do
        let applied ← effectuateAmendment P o p
        let p ← appendTransition o .effectuation
          (if applied then str "applied" else str "amendment_already_effective") p
        let p ← appendTransition o .archive (str "completed") p
        return { p with status := .approved }

/-- `_run_pipeline` -/
def runPipeline (c : Config) (o : Outside) (p : AmendmentProposal) :
    AmendmentMethod AmendmentProposal :=
  if p.status = .rejected then pure p else runPhases P c o p

/-! ### The calls -/

/-- `record_review_quality`; its key is made of the reviewer's name. -/
def recordReviewQuality (o : Outside) (reviewer : Str) : AmendmentMethod Unit :=
  match encode reviewer with
  | none => .ofExcept (.error .unicodeEncodeError)
  | some _ => writeOutside o .reviewQuality

/-- The proposal that `propose_amendment` makes. -/
def newProposal (now : ProposalId) (timestamp proposer newPolicyText rationale oldPolicyHash hash : Str) :
    AmendmentProposal where
  proposalId := now
  proposer := proposer
  timestamp := timestamp
  oldPolicyHash := oldPolicyHash
  newPolicyText := newPolicyText
  newPolicyHash := hash
  rationale := rationale
  approvals := []
  rejections := []
  status := .pending
  phaseTransitions := []

/-- `propose_amendment` at a time, with whether the journal can be written. -/
def proposeAmendment (now : ProposalId) (timestamp proposer newPolicyText rationale oldPolicyHash : Str)
    (journalFails : Bool) : AmendmentMethod AmendmentProposal :=
  match textHash P newPolicyText with
  | none => .ofExcept (.error .unicodeEncodeError)
  | some hash => do
    let p := newProposal now timestamp proposer newPolicyText rationale oldPolicyHash hash
    saveProposal p
    happens (.proposed now hash)
    if journalFails then .ofExcept (.error .outside) else return p

def withVote (votes : List Str) (reviewer : Str) : List Str :=
  if reviewer ∈ votes then votes else votes ++ [reviewer]

/-- The status is left behind for everyone to see. -/
def noteStatus (p : AmendmentProposal) : AmendmentMethod Unit :=
  if p.status = .rejected then happens (.archived p.proposalId) else pure ()

/-- `approve_amendment` -/
def approveAmendment (c : Config) (id : ProposalId) (approver : Str) (o : Outside) :
    AmendmentMethod AmendmentProposal := do
  let p ← loadProposal id
  if p.status = .rejected then return p
  else do
    let p := { p with approvals := withVote p.approvals approver }
    happens (.approved id approver)
    let p ← runPipeline P c o p
    recordReviewQuality o approver
    saveProposal p
    noteStatus p
    return p

def writeRejection (o : Outside) (p : AmendmentProposal) : AmendmentMethod Unit :=
  if p.status = .rejected then writeOutside o .entry else pure ()

/-- `reject_amendment` -/
def rejectAmendment (c : Config) (id : ProposalId) (rejector : Str) (o : Outside) :
    AmendmentMethod AmendmentProposal := do
  let p ← loadProposal id
  let p := { p with rejections := withVote p.rejections rejector }
  let p ← runPipeline P c o p
  saveProposal p
  noteStatus p
  recordReviewQuality o rejector
  writeRejection o p
  happens (.rejected id rejector)
  return p

/-- A call of a method of the engine. -/
inductive AmendmentCall where
  | propose (now : ProposalId) (timestamp proposer newPolicyText rationale oldPolicyHash : Str)
      (journalFails : Bool)
  | approve (id : ProposalId) (approver : Str) (o : Outside)
  | reject (id : ProposalId) (rejector : Str) (o : Outside)

/-- What the call returns or raises, and the world it leaves. -/
def AmendmentCall.run (c : Config) (w : World) :
    AmendmentCall → Except AmendmentError AmendmentProposal × World
  | .propose now timestamp proposer newPolicyText rationale oldPolicyHash journalFails =>
    Method.run (proposeAmendment P now timestamp proposer newPolicyText rationale oldPolicyHash
      journalFails) w
  | .approve id approver o => Method.run (approveAmendment P c id approver o) w
  | .reject id rejector o => Method.run (rejectAmendment P c id rejector o) w

def World.step (c : Config) (w : World) (call : AmendmentCall) : World :=
  (call.run P c w).2

def World.fresh (policyHash : Str) : World where
  proposals := []
  policyHash := policyHash
  log := []

end Adaad.Amendment
