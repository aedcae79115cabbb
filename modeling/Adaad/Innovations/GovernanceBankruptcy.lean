import Mathlib.Data.Finset.Insert
import Adaad.Innovations.Ledger
import Adaad.Py.Assoc

/-!
# Governance bankruptcy

`runtime/innovations30/governance_bankruptcy.py`: where the governance debt is at the threshold, a
bankruptcy is declared for an epoch.  It is discharged after a streak of clean epochs.  Declarations and
discharges go to a ledger, chained by their digests; the streak is kept in memory only.
-/

namespace Adaad.Innovations.Bankruptcy

open Py

variable {P : Platform}

/-! ### Constants -/

/-- The `prev_digest` of the first entry. -/
def genesis : Str := str "genesis"

variable (P) in
/-- `REMEDIATION_HEALTH_TARGET` -/
def remediationHealthTarget : Number P := .inr (P.floatOf (.lit ⟨false, str "0", str "65", none⟩))

/-- `REMEDIATION_CLEAN_STREAK` -/
def remediationCleanStreak : Int := 5

/-! ### Numbers as text -/

variable (P) in
/-- What `round` and the format specifications make of a number. -/
structure Formats where
  /-- `round(x, n)` -/
  round : Nat → Number P → Number P
  /-- `f"{x:.nf}"`; `none` is an `OverflowError`. -/
  fixed : Nat → Number P → Option Str
  ascii_fixed : ∀ n x s, fixed n x = some s → ∀ c ∈ s, c < 128

/-! ### Data -/

inductive Status where
  | active
  | remediation
  | discharged
  deriving DecidableEq, Repr

def Status.value : Status → Str
  | active => str "active"
  | remediation => str "remediation"
  | discharged => str "discharged"

variable (P) in
/-- `BankruptcyDeclaration` -/
structure BankruptcyDeclaration where
  epochId : Str
  debtScore : Number P
  healthScore : Number P
  reason : Str
  remediationTargetHealth : Number P
  requiredCleanEpochs : Int
  status : Str
  prevDigest : Str
  declarationDigest : Str

/-- What a call raises. -/
inductive BankruptcyError where
  /-- `GBPViolation` -/
  | violated (message : Str)
  | raised (e : Exc)
  /-- `OverflowError` -/
  | overflow
  /-- A value of a type that no protocol writes. -/
  | load (e : LoadError)
  deriving DecidableEq, Repr

/-- The message of a `GBPViolation`. -/
def violation (invariant detail : Str) : BankruptcyError :=
  .violated ([91] ++ invariant ++ str "] " ++ detail)

/-- `_compute_digest` -/
def computeDigest (fmt : Formats P) (decl : BankruptcyDeclaration P) : Except BankruptcyError Str :=
  match fmt.fixed 6 decl.debtScore with
  | none => .error .overflow
  | some debt =>
    match encode (decl.epochId ++ 58 :: (debt ++ 58 :: (decl.status ++ 58 :: decl.prevDigest))) with
    | none => .error (.raised .unicodeEncodeError)
    | some raw => .ok (str "sha256:" ++ P.sha256 raw)

/-- `__post_init__`: a declaration without a digest gets one. -/
def BankruptcyDeclaration.postInit (fmt : Formats P) (decl : BankruptcyDeclaration P) :
    Except BankruptcyError (BankruptcyDeclaration P) :=
  if decl.declarationDigest = [] then
    (computeDigest fmt decl).map fun digest => { decl with declarationDigest := digest }
  else .ok decl

/-- `asdict` of a declaration. -/
def BankruptcyDeclaration.record (decl : BankruptcyDeclaration P) : Members P.Float :=
  [(.str (str "epoch_id"), .str decl.epochId), (.str (str "debt_score"), decl.debtScore.toObj),
    (.str (str "health_score"), decl.healthScore.toObj), (.str (str "reason"), .str decl.reason),
    (.str (str "remediation_target_health"), decl.remediationTargetHealth.toObj),
    (.str (str "required_clean_epochs"), .int decl.requiredCleanEpochs),
    (.str (str "status"), .str decl.status), (.str (str "prev_digest"), .str decl.prevDigest),
    (.str (str "declaration_digest"), .str decl.declarationDigest)]

def fieldNames : List Str :=
  [str "epoch_id", str "debt_score", str "health_score", str "reason",
    str "remediation_target_health", str "required_clean_epochs", str "status", str "prev_digest",
    str "declaration_digest"]

/-- An argument of a constructor that is called with the items of a row; it may have a default. -/
def argumentAt {α : Type} (of : P.Obj → Except LoadError α) (row : Members P.Float) (key : Str)
    (default : Option α) : Except BankruptcyError α :=
  match get row key with
  | some v => (of v).mapError .load
  | none =>
    match default with
    | some a => .ok a
    | none => .error (.raised .typeError)

/-- `BankruptcyDeclaration(**row)` -/
def declarationOf (fmt : Formats P) (row : Members P.Float) :
    Except BankruptcyError (BankruptcyDeclaration P) :=
  if ∃ m ∈ row, ∀ name ∈ fieldNames, m.1.is name = false then .error (.raised .typeError)
  else do
    let epochId ← argumentAt textOf row (str "epoch_id") none
    let debtScore ← argumentAt numberOf row (str "debt_score") none
    let healthScore ← argumentAt numberOf row (str "health_score") none
    let reason ← argumentAt textOf row (str "reason") none
    let remediationTargetHealth ← argumentAt numberOf row (str "remediation_target_health")
      (some (remediationHealthTarget P))
    let requiredCleanEpochs ← argumentAt intOf row (str "required_clean_epochs")
      (some remediationCleanStreak)
    let status ← argumentAt textOf row (str "status") (some Status.active.value)
    let prevDigest ← argumentAt textOf row (str "prev_digest") (some genesis)
    let declarationDigest ← argumentAt textOf row (str "declaration_digest") (some [])
    BankruptcyDeclaration.postInit fmt
      { epochId, debtScore, healthScore, reason, remediationTargetHealth, requiredCleanEpochs, status,
        prevDigest, declarationDigest }

/-! ### The protocol -/

variable (P) in
/-- What the constructor of the protocol is given and has checked. -/
structure Config where
  bankruptcyThreshold : Number P
  remediationHealthTarget : Number P
  remediationCleanStreak : Int
  inRange : P.numLt (.inl 0) bankruptcyThreshold = true ∧
    P.numLt bankruptcyThreshold (.inl 1) = true
  attainable : remediationHealthTarget.ge bankruptcyThreshold = false

def Config.of (bankruptcyThreshold remediationHealthTarget : Number P)
    (remediationCleanStreak : Int) : Except BankruptcyError (Config P) :=
  if inRange : P.numLt (.inl 0) bankruptcyThreshold = true ∧
      P.numLt bankruptcyThreshold (.inl 1) = true then
    if attainable : remediationHealthTarget.ge bankruptcyThreshold = false then
      .ok { bankruptcyThreshold, remediationHealthTarget, remediationCleanStreak, inRange,
            attainable }
    else
      .error (violation (str "GBP-HEALTH-0") (str "REMEDIATION_HEALTH_TARGET (" ++
        toStr P remediationHealthTarget.toObj ++
          str ") must be strictly less than BANKRUPTCY_THRESHOLD (" ++
            toStr P bankruptcyThreshold.toObj ++ str ")"))
  else
    .error (violation (str "GBP-THRESH-0") (str
      "BANKRUPTCY_THRESHOLD must be in (0.0, 1.0) exclusive; got " ++
        toStr P bankruptcyThreshold.toObj))

variable (P) in
/-- `GovernanceBankruptcyProtocol`, with its ledger. -/
structure Protocol where
  config : Config P
  ledger : Bytes
  activeDeclaration : Option (BankruptcyDeclaration P)
  cleanEpochStreak : Int
  dischargedEpochIds : Finset Str
  lastDigest : Str

/-- A protocol whose ledger does not exist yet. -/
def Protocol.new (config : Config P) : Protocol P :=
  ⟨config, [], none, 0, ∅, genesis⟩

namespace Protocol

variable (p : Protocol P)

/-- `in_bankruptcy` -/
def inBankruptcy : Bool :=
  p.activeDeclaration.any fun decl =>
    decl.status = Status.active.value ∨ decl.status = Status.remediation.value

/-- `_persist_event`, of the declaration that is active afterwards. -/
def persistEvent (decl : BankruptcyDeclaration P) (active : Option (BankruptcyDeclaration P)) :
    Protocol P :=
  { p with
    ledger := appendRow P p.ledger decl.record
    activeDeclaration := active
    lastDigest := decl.declarationDigest }

def declare (fmt : Formats P) (epochId : Str) (debtScore healthScore : Number P) :
    Except BankruptcyError (BankruptcyDeclaration P) :=
  match fmt.fixed 4 debtScore with
  | none => .error .overflow
  | some debt =>
    BankruptcyDeclaration.postInit fmt
      { epochId := epochId
        debtScore := fmt.round 6 debtScore
        healthScore := fmt.round 6 healthScore
        reason := str "Governance debt " ++ debt ++ str " exceeds critical threshold " ++
          toStr P p.config.bankruptcyThreshold.toObj
        remediationTargetHealth := p.config.remediationHealthTarget
        requiredCleanEpochs := p.config.remediationCleanStreak
        status := Status.active.value
        prevDigest := p.lastDigest
        declarationDigest := [] }

/-- `evaluate` -/
def evaluate (fmt : Formats P) (epochId : Str) (debtScore healthScore : Number P) :
    Except BankruptcyError (Option (BankruptcyDeclaration P)) × Protocol P :=
  if epochId ∈ p.dischargedEpochIds then
    (.error (violation (str "GBP-IMMUT-0") (str "epoch_id '" ++ epochId ++
      str "' was previously discharged and may not be re-activated.")), p)
  else if p.inBankruptcy then (.ok p.activeDeclaration, p)
  else if debtScore.ge p.config.bankruptcyThreshold then
    match p.declare fmt epochId debtScore healthScore with
    | .error e => (.error e, p)
    | .ok decl => (.ok (some decl), p.persistEvent decl (some decl))
  else (.ok none, p)

/-- The end of a bankruptcy, whose declaration is updated and written again. -/
def discharge (fmt : Formats P) (decl : BankruptcyDeclaration P) :
    Except BankruptcyError Bool × Protocol P :=
  let decl := { decl with prevDigest := p.lastDigest, status := Status.discharged.value }
  match computeDigest fmt decl with
  | .error e => (.error e, { p with activeDeclaration := some decl })
  | .ok digest =>
    let decl := { decl with declarationDigest := digest }
    (.ok true,
      { p.persistEvent decl none with
        dischargedEpochIds := insert decl.epochId p.dischargedEpochIds
        cleanEpochStreak := 0 })

/-- The streak and the declaration after a report. -/
def reported (decl : BankruptcyDeclaration P) (healthScore : Number P) :
    Int × BankruptcyDeclaration P :=
  if healthScore.ge p.config.remediationHealthTarget then (p.cleanEpochStreak + 1, decl)
  else (0, { decl with status := Status.remediation.value })

/-- `record_remediation_epoch`; the epoch that is reported is not looked at. -/
def recordRemediationEpoch (fmt : Formats P) (_epochId : Str) (healthScore : Number P) :
    Except BankruptcyError Bool × Protocol P :=
  match p.activeDeclaration with
  | none => (.ok false, p)
  | some decl =>
    if p.inBankruptcy = false then (.ok false, p)
    else
      let (streak, decl) := p.reported decl healthScore
      let p := { p with cleanEpochStreak := streak, activeDeclaration := some decl }
      if p.config.remediationCleanStreak ≤ streak then p.discharge fmt decl
      else (.ok false, p)

end Protocol

/-! ### The ledger -/

/-- What `verify_chain` finds, with what the message names. -/
inductive ChainVerdict where
  | valid
  | broken (entry : Nat) (expected : Str)
  | mismatch (entry : Nat) (stored computed : Str)
  | unparseable (entry : Nat) (e : BankruptcyError)
  deriving DecidableEq

def isText (s : Str) : P.Obj → Bool
  | .str t => t = s
  | _ => false

/-- One entry of the ledger, after the digest of the entry before; its own digest goes on. -/
def verifyEntry (fmt : Formats P) (entry : Nat) (prev line : Str) : Except ChainVerdict Str :=
  match loads P line with
  | none => .error (.unparseable entry (.raised .jsonDecodeError))
  | some (.dict d) =>
    if isText prev ((get d (str "prev_digest")).getD (.str genesis)) = false then
      .error (.broken entry prev)
    else
      match declarationOf fmt d with
      | .error e => .error (.unparseable entry e)
      | .ok decl =>
        match argumentAt textOf d (str "declaration_digest") (some []), computeDigest fmt decl with
        | .error e, _ => .error (.unparseable entry e)
        | .ok _, .error e => .error (.unparseable entry e)
        | .ok stored, .ok expected =>
          -- `hmac.compare_digest` takes ASCII text only
          if ∃ c ∈ stored, 128 ≤ c then .error (.unparseable entry (.raised .typeError))
          else if stored ≠ expected then .error (.mismatch entry stored expected)
          else .ok stored
  | some _ => .error (.unparseable entry (.raised .attributeError))

/-- The loop of `verify_chain`, from the number of an entry and the digest before it. -/
def verifyFrom (fmt : Formats P) : Nat → Str → List Str → ChainVerdict
  | _, _, [] => .valid
  | entry, prev, line :: rest =>
    if strip line = [] then verifyFrom fmt (entry + 1) prev rest
    else
      match verifyEntry fmt entry prev line with
      | .error verdict => verdict
      | .ok digest => verifyFrom fmt (entry + 1) digest rest

/-- `verify_chain` -/
def Protocol.verifyChain (fmt : Formats P) (p : Protocol P) : Except Exc ChainVerdict :=
  (readText p.ledger).map fun text => verifyFrom fmt 1 genesis (splitlines text)

variable (P) in
/-- `latest_by_epoch` -/
abbrev LatestByEpoch := List (Str × Members P.Float)

/-- One line of the ledger: the latest entry of each epoch, and the last digest. -/
def loadLine (s : LatestByEpoch P × Str) (line : Str) : LatestByEpoch P × Str :=
  if strip line = [] then s
  else
    match loads P line with
    | some (.dict d) =>
      match (get d (str "epoch_id")).getD (.str []) with
      | .str eid =>
        (if eid = [] then s.1 else Assoc.set s.1 eid d,
          match get d (str "declaration_digest") with
          | some (.str digest) => if digest = [] then s.2 else digest
          | _ => s.2)
      | _ => s
    | _ => s

/-- What the latest entry of an epoch says: the discharged epochs, and the active declaration. -/
def settle (fmt : Formats P) (s : Finset Str × Option (BankruptcyDeclaration P))
    (m : Str × Members P.Float) : Finset Str × Option (BankruptcyDeclaration P) :=
  match get m.2 (str "status") with
  | some (.str status) =>
    if status = Status.discharged.value then (insert m.1 s.1, s.2)
    else if status = Status.active.value ∨ status = Status.remediation.value then
      match declarationOf fmt m.2 with
      | .ok decl => (s.1, some decl)
      | .error _ => s
    else s
  | _ => s

/-- `__init__` on a ledger, with `_load`. -/
def Protocol.load (fmt : Formats P) (config : Config P) (ledger : Bytes) :
    Except Exc (Protocol P) :=
  (readText ledger).map fun text =>
    let (latest, lastDigest) := (splitlines text).foldl loadLine ([], genesis)
    let (discharged, active) := latest.foldl (settle fmt) (∅, none)
    { config := config
      ledger := ledger
      activeDeclaration := active
      cleanEpochStreak := 0
      dischargedEpochIds := discharged
      lastDigest := lastDigest }

/-! ### Runs -/

variable (P) in
/-- What may happen to a protocol. -/
inductive Action where
  | evaluate (epochId : Str) (debtScore healthScore : Number P)
  | record (epochId : Str) (healthScore : Number P)
  /-- The protocol is created again from its ledger. -/
  | recreate

/-- The protocol after an action; where no new one can be created, the old one is left. -/
def Protocol.step (fmt : Formats P) (p : Protocol P) : Action P → Protocol P
  | .evaluate epochId debtScore healthScore => (p.evaluate fmt epochId debtScore healthScore).2
  | .record epochId healthScore => (p.recordRemediationEpoch fmt epochId healthScore).2
  | .recreate =>
    match Protocol.load fmt p.config p.ledger with
    | .ok p' => p'
    | .error _ => p

end Adaad.Innovations.Bankruptcy
