import Adaad.Innovations.Ledger
import Adaad.Py.Assoc

/-!
# Agent coalitions

`runtime/innovations30/agent_coalition.py`: a coalition is formed and sealed, resolved by the verdicts of
its members, and dissolved.  Each of the three is a record in the ledger; the coalitions that are not
dissolved yet are kept in memory, and that is where the gate at the end of an epoch looks.
-/

namespace Adaad.Innovations.AgentCoalition

open Py

/-! ### Constants -/

/-- `ACF_MIN_MEMBERS` -/
def acfMinMembers : Nat := 2

/-- `ACF_MAX_MEMBERS` -/
def acfMaxMembers : Nat := 7

inductive CoalitionOutcome where
  | approved
  | rejected
  | escalated
  deriving DecidableEq, Repr

def CoalitionOutcome.value : CoalitionOutcome → Str
  | approved => str "APPROVED"
  | rejected => str "REJECTED"
  | escalated => str "ESCALATED"

inductive MemberVerdict where
  | approve
  | reject
  | abstain
  deriving DecidableEq, Repr

def MemberVerdict.value : MemberVerdict → Str
  | approve => str "APPROVE"
  | reject => str "REJECT"
  | abstain => str "ABSTAIN"

inductive CoalitionStatus where
  | forming
  | sealed
  | resolved
  | dissolved
  deriving DecidableEq, Repr

def CoalitionStatus.value : CoalitionStatus → Str
  | forming => str "FORMING"
  | sealed => str "SEALED"
  | resolved => str "RESOLVED"
  | dissolved => str "DISSOLVED"

/-! ### Data -/

/-- `CoalitionMember`; a verdict may be any text. -/
structure CoalitionMember where
  agentId : Str
  role : Str
  stake : Int
  verdict : Str
  shareReturned : Int
  deriving DecidableEq, Repr

/-- `StakeDistribution` -/
structure StakeDistribution where
  totalPool : Int
  distributions : List (Str × Int)
  remainder : Int
  deriving DecidableEq, Repr

/-- `CoalitionRecord` -/
structure CoalitionRecord where
  recordId : Str
  coalitionId : Str
  mutationId : Str
  complexityClass : Str
  memberCount : Nat
  totalStake : Int
  outcome : Str
  status : CoalitionStatus
  coalitionDigest : Str
  prevDigest : Str
  recordDigest : Str
  members : List CoalitionMember
  distributions : List (Str × Int)
  deriving DecidableEq, Repr

/-- What a call raises, with what the text of it names. -/
inductive CoalitionError where
  /-- `RuntimeError` -/
  | state (status : CoalitionStatus)
  /-- `StakeError` -/
  | stake (agentId : Str) (stake : Int)
  /-- `CoalitionSizeError` -/
  | size (members : Nat)
  /-- `AlreadyResolvedError` -/
  | alreadyResolved (coalitionId : Str)
  /-- `ShareArithmeticError` -/
  | shareArithmetic (distributed pool : Int)
  /-- `EpochBoundaryError` of `dissolve` -/
  | undissolvable (status : CoalitionStatus)
  /-- `UnresolvedCoalitionError` -/
  | unresolved (coalitionIds : List Str)
  /-- `EpochBoundaryError` of the gate -/
  | undissolved (coalitionIds : List Str)
  /-- `KeyError` -/
  | unknown (coalitionId : Str)
  /-- `OSError` -/
  | osError
  | raised (e : Exc)
  deriving DecidableEq

/-! ### A coalition -/

structure Coalition where
  coalitionId : Str
  mutationId : Str
  complexityClass : Str
  status : CoalitionStatus
  members : List CoalitionMember
  deriving DecidableEq, Repr

/-- `sum(m.stake for m in members)` -/
def totalStake (members : List CoalitionMember) : Int :=
  (members.map CoalitionMember.stake).sum

/-- `StakeDistribution.validate` -/
def StakeDistribution.validate (dist : StakeDistribution) : Except CoalitionError Unit :=
  let distributed := (dist.distributions.map Prod.snd).sum + dist.remainder
  if distributed ≠ dist.totalPool then .error (.shareArithmetic distributed dist.totalPool)
  else .ok ()

/-- The stakes of some members, entered under their agents. -/
def recover (distributions : List (Str × Int)) (members : List CoalitionMember) :
    List (Str × Int) :=
  members.foldl (fun d m => Assoc.set d m.agentId m.stake) distributions

/-- The bonus of a winner: what is entered, and what is left. -/
def payBonus (bonusPool winnerTotalStake : Int) (s : List (Str × Int) × Int)
    (m : CoalitionMember) : List (Str × Int) × Int :=
  let bonus := m.stake * bonusPool / winnerTotalStake
  (Assoc.set s.1 m.agentId ((s.1.lookup m.agentId).getD 0 + bonus), s.2 - bonus)

/-- `_redistribute_stake` -/
def redistributeStake (members : List CoalitionMember) : Option Str → StakeDistribution
  | none =>
    { totalPool := totalStake members
      distributions := recover [] members
      remainder := 0 }
  | some winningVerdict =>
    let winners := members.filter fun m => m.verdict = winningVerdict
    let losers := members.filter fun m =>
      m.verdict ≠ winningVerdict ∧ m.verdict ≠ MemberVerdict.abstain.value
    let bonusPool := totalStake losers
    let distributions := recover (recover [] winners)
      (members.filter fun m => m.verdict = MemberVerdict.abstain.value)
    let winnerTotalStake := totalStake winners
    let (distributions, remainder) :=
      if winners ≠ [] ∧ 0 < winnerTotalStake then
        winners.foldl (payBonus bonusPool winnerTotalStake) (distributions, bonusPool)
      else (distributions, bonusPool)
    { totalPool := totalStake members, distributions, remainder }

namespace Coalition

/-- `__init__` -/
def new (coalitionId mutationId complexityClass : Str) : Coalition :=
  ⟨coalitionId, mutationId, complexityClass, .forming, []⟩

variable (coal : Coalition)

/-- `add_member` -/
def addMember (agentId role : Str) (stake : Int) : Except CoalitionError Coalition :=
  if coal.status ≠ .forming then .error (.state coal.status)
  else if stake ≤ 0 then .error (.stake agentId stake)
  else .ok { coal with members := coal.members ++ [⟨agentId, role, stake, [], 0⟩] }

/-- `seal` -/
def sealCoalition : Except CoalitionError Coalition :=
  if coal.members.length < acfMinMembers ∨ acfMaxMembers < coal.members.length then
    .error (.size coal.members.length)
  else .ok { coal with status := .sealed }

/-- The members with their verdicts; who gave none abstains. -/
def judged (verdicts : List (Str × Str)) : List CoalitionMember :=
  coal.members.map fun m =>
    { m with verdict := (verdicts.lookup m.agentId).getD MemberVerdict.abstain.value }

/-- The majority of the votes, and the verdict that wins. -/
def majority (members : List CoalitionMember) : CoalitionOutcome × Option Str :=
  let votes := (members.map CoalitionMember.verdict).filter (· ≠ MemberVerdict.abstain.value)
  let approveCount := votes.count MemberVerdict.approve.value
  let rejectCount := votes.count MemberVerdict.reject.value
  if rejectCount < approveCount then (.approved, some MemberVerdict.approve.value)
  else if approveCount < rejectCount then (.rejected, some MemberVerdict.reject.value)
  else (.escalated, none)

/-- `resolve`; the verdicts stay with the members where the shares do not balance. -/
def resolve (verdicts : List (Str × Str)) :
    Except CoalitionError (CoalitionOutcome × StakeDistribution) × Coalition :=
  if coal.status = .resolved then (.error (.alreadyResolved coal.coalitionId), coal)
  else if coal.status ≠ .sealed then (.error (.state coal.status), coal)
  else
    let members := coal.judged verdicts
    let (outcome, winningVerdict) := majority members
    let dist := redistributeStake members winningVerdict
    match dist.validate with
    | .error e => (.error e, { coal with members := members })
    | .ok () =>
      (.ok (outcome, dist),
        { coal with
          members := members.map fun m =>
            { m with shareReturned := (dist.distributions.lookup m.agentId).getD 0 }
          status := .resolved })

/-- `dissolve` -/
def dissolve : Except CoalitionError Coalition :=
  if coal.status ≠ .resolved then .error (.undissolvable coal.status)
  else .ok { coal with status := .dissolved }

end Coalition

/-- An item of `members`. -/
structure MemberSpec where
  agentId : Str
  role : Str
  stake : Int
  deriving DecidableEq, Repr

/-- The coalition that `form_coalition` seals. -/
def formed (coalitionId mutationId complexityClass : Str) (members : List MemberSpec) :
    Except CoalitionError Coalition := do
  let coal ← members.foldlM (fun coal m => coal.addMember m.agentId m.role m.stake)
    (Coalition.new coalitionId mutationId complexityClass)
  coal.sealCoalition

/-! ### Records -/

section records

variable (P : Platform)

/-- `asdict` of a member. -/
def CoalitionMember.toObj (m : CoalitionMember) : P.Obj :=
  .dict [(.str (str "agent_id"), .str m.agentId), (.str (str "role"), .str m.role),
    (.str (str "stake"), .int m.stake), (.str (str "verdict"), .str m.verdict),
    (.str (str "share_returned"), .int m.shareReturned)]

/-- `asdict` of a record. -/
def CoalitionRecord.toDict (rec : CoalitionRecord) : Members P.Float :=
  [(.str (str "record_id"), .str rec.recordId), (.str (str "coalition_id"), .str rec.coalitionId),
    (.str (str "mutation_id"), .str rec.mutationId),
    (.str (str "complexity_class"), .str rec.complexityClass),
    (.str (str "member_count"), .int rec.memberCount), (.str (str "total_stake"), .int rec.totalStake),
    (.str (str "outcome"), .str rec.outcome), (.str (str "status"), .str rec.status.value),
    (.str (str "coalition_digest"), .str rec.coalitionDigest),
    (.str (str "prev_digest"), .str rec.prevDigest),
    (.str (str "record_digest"), .str rec.recordDigest),
    (.str (str "members"), .list (rec.members.map (CoalitionMember.toObj P))),
    (.str (str "distributions"), .dict (rec.distributions.map fun m => (.str m.1, .int m.2)))]

/-- `compute_coalition_digest` -/
def CoalitionRecord.computeCoalitionDigest (rec : CoalitionRecord) (memberIds : List Str)
    (stakes : List Int) : Str :=
  jsonDigest P
    [(.str (str "coalition_id"), .str rec.coalitionId),
      (.str (str "member_ids"), .list ((memberIds.insertionSort fun a b => strLe a b).map .str)),
      (.str (str "stakes"), .list ((stakes.insertionSort (· ≤ ·)).map .int)),
      (.str (str "outcome"), .str rec.outcome)]

/-- `compute_record_digest` -/
def CoalitionRecord.computeRecordDigest (rec : CoalitionRecord) (secret : Bytes) : Str :=
  let payload : P.Obj :=
    .dict [(.str (str "record_id"), .str rec.recordId),
      (.str (str "coalition_id"), .str rec.coalitionId),
      (.str (str "mutation_id"), .str rec.mutationId), (.str (str "outcome"), .str rec.outcome),
      (.str (str "status"), .str rec.status.value),
      (.str (str "coalition_digest"), .str rec.coalitionDigest),
      (.str (str "prev_digest"), .str rec.prevDigest)]
  (hmacSha256 P secret ((encode ((dumpsSortedAscii P .spaced payload).getD [])).getD [])).take 24

/-! ### The engine -/

/-- `CoalitionEngine`, with its ledger. -/
structure Engine where
  secret : Bytes
  ledger : Bytes
  prevDigest : Str
  recordCounter : Nat
  active : List (Str × Coalition)
  records : List CoalitionRecord

/-- An engine whose ledger does not exist yet. -/
def Engine.new (secret : Bytes) : Engine :=
  ⟨secret, [], str "genesis", 0, [], []⟩

namespace Engine

variable (e : Engine)

/-- `_make_record` -/
def makeRecord (coal : Coalition) (status : CoalitionStatus) (outcome : Str) :
    CoalitionRecord × Engine :=
  let rec₀ : CoalitionRecord :=
    { recordId := str "ACF-REC-" ++ paddedText 6 (e.recordCounter + 1)
      coalitionId := coal.coalitionId
      mutationId := coal.mutationId
      complexityClass := coal.complexityClass
      memberCount := coal.members.length
      totalStake := totalStake coal.members
      outcome := outcome
      status := status
      coalitionDigest := []
      prevDigest := e.prevDigest
      recordDigest := []
      members := coal.members
      distributions := Assoc.ofItems (coal.members.map fun m => (m.agentId, m.shareReturned)) }
  let rec₁ :=
    { rec₀ with
      coalitionDigest := rec₀.computeCoalitionDigest P
        (coal.members.map CoalitionMember.agentId) (coal.members.map CoalitionMember.stake) }
  let rec₂ := { rec₁ with recordDigest := rec₁.computeRecordDigest P e.secret }
  (rec₂, { e with recordCounter := e.recordCounter + 1, prevDigest := rec₂.recordDigest })

/-- `_persist`; the write may fail. -/
def persist (rec : CoalitionRecord) (fails : Bool) : Except CoalitionError Unit × Engine :=
  if fails then (.error .osError, e)
  else
    match appendSorted P e.ledger (.dict (rec.toDict P)) with
    | .error x => (.error (.raised x), e)
    | .ok ledger => (.ok (), { e with ledger := ledger, records := e.records ++ [rec] })

/-- A record is made of a coalition, and written. -/
def emit (coal : Coalition) (status : CoalitionStatus) (outcome : Str) (fails : Bool) :
    Except CoalitionError Unit × Engine :=
  let (rec, e) := e.makeRecord P coal status outcome
  e.persist P rec fails

/-- `form_coalition` -/
def formCoalition (coalitionId mutationId complexityClass : Str) (members : List MemberSpec)
    (fails : Bool) : Except CoalitionError Coalition × Engine :=
  match formed coalitionId mutationId complexityClass members with
  | .error x => (.error x, e)
  | .ok coal =>
    let e := { e with active := Assoc.set e.active coalitionId coal }
    let (written, e) := e.emit P coal .sealed [] fails
    (written.map fun _ => coal, e)

/-- `resolve_coalition` -/
def resolveCoalition (coalitionId : Str) (verdicts : List (Str × Str)) (fails : Bool) :
    Except CoalitionError (CoalitionOutcome × StakeDistribution) × Engine :=
  match e.active.lookup coalitionId with
  | none => (.error (.unknown coalitionId), e)
  | some coal =>
    let (resolution, coal) := coal.resolve verdicts
    let e := { e with active := Assoc.set e.active coalitionId coal }
    match resolution with
    | .error x => (.error x, e)
    | .ok (outcome, dist) =>
      let (written, e) := e.emit P coal .resolved outcome.value fails
      (written.map fun _ => (outcome, dist), e)

/-- `dissolve_coalition` -/
def dissolveCoalition (coalitionId : Str) (fails : Bool) : Except CoalitionError Unit × Engine :=
  match e.active.lookup coalitionId with
  | none => (.error (.unknown coalitionId), e)
  | some coal =>
    match coal.dissolve with
    | .error x => (.error x, e)
    | .ok coal =>
      let e := { e with active := Assoc.set e.active coalitionId coal }
      match e.emit P coal .dissolved [] fails with
      | (.error x, e) => (.error x, e)
      | (.ok (), e) => (.ok (), { e with active := Assoc.erase e.active coalitionId })

/-- The ids of the active coalitions that have one of these statuses. -/
def activeWith (statuses : List CoalitionStatus) : List Str :=
  (e.active.filter fun m => m.2.status ∈ statuses).map Prod.fst

/-- `assert_epoch_clear` -/
def assertEpochClear : Except CoalitionError Unit :=
  let unresolved := e.activeWith [.forming, .sealed]
  if unresolved ≠ [] then .error (.unresolved unresolved)
  else
    let undissolved := e.activeWith [.resolved]
    if undissolved ≠ [] then .error (.undissolved undissolved) else .ok ()

end Engine

/-! ### The ledger -/

/-- One line of the ledger: the digest to chain the next record to, and the number of records. -/
def loadLine (s : Str × Nat) (line : Str) : Except LoadError (Str × Nat) :=
  if strip line = [] then .ok s
  else
    match loads P line with
    | none => .error (.raised .jsonDecodeError)
    | some (.dict rec) =>
      match get rec (str "record_digest") with
      | none => .ok (s.1, s.2 + 1)
      | some v => (textOf v).map fun digest => (digest, s.2 + 1)
    | some _ => .error (.raised .attributeError)

/-- `__init__` on a ledger, with `_load_ledger`; no coalition is active. -/
def Engine.load (secret ledger : Bytes) : Except LoadError Engine := do
  let text ← (readText ledger).mapError .raised
  let (prevDigest, recordCounter) ← (splitlines text).foldlM (loadLine P) (str "genesis", 0)
  return ⟨secret, ledger, prevDigest, recordCounter, [], []⟩

/-! ### Runs -/

/-- What may happen to an engine; a call comes with whether its write to the ledger fails. -/
inductive Action where
  | form (coalitionId mutationId complexityClass : Str) (members : List MemberSpec) (fails : Bool)
  | resolve (coalitionId : Str) (verdicts : List (Str × Str)) (fails : Bool)
  | dissolve (coalitionId : Str) (fails : Bool)
  /-- The engine is created again from its ledger. -/
  | recreate

/-- The engine after an action; where no new one can be created, the old one is left. -/
def Engine.step (e : Engine) : Action → Engine
  | .form coalitionId mutationId complexityClass members fails =>
    (e.formCoalition P coalitionId mutationId complexityClass members fails).2
  | .resolve coalitionId verdicts fails => (e.resolveCoalition P coalitionId verdicts fails).2
  | .dissolve coalitionId fails => (e.dissolveCoalition P coalitionId fails).2
  | .recreate =>
    match Engine.load P e.secret e.ledger with
    | .ok e' => e'
    | .error _ => e

end records

end Adaad.Innovations.AgentCoalition
