import Adaad.Innovations.Ledger
import Adaad.Py.Assoc
import Mathlib.Data.Rat.Floor

/-!
# Reputation staking

`runtime/innovations30/reputation_staking.py`: agents stake credits on mutations, and the stake is
burned, returned or rewarded.  The wallets are in one file and the stakes in another, which are written
one after the other.

An amount is an exact number of hundredths of a credit.  A file is the data that it is written from,
and its texts are read as JSON reads them (`readAscii`).
-/

namespace Adaad.Innovations.ReputationStaking

open Py

/-! ### Amounts -/

/-- `round(x, 2)` of an amount, half to even. -/
def roundCents (x : ℚ) : Int :=
  let below := ⌊x⌋
  if x - below < 1 / 2 then below
  else if 1 / 2 < x - below then below + 1
  else if below % 2 = 0 then below else below + 1

/-- `f"{amount:.6f}"` -/
def amountText (amount : Int) : Str :=
  (if amount < 0 then [45] else []) ++ natText (amount.natAbs / 100) ++
    46 :: (paddedText 2 (amount.natAbs % 100) ++ str "0000")

/-- `MIN_STAKE` -/
def minStake : Int := 100

/-- `MAX_STAKE_FRACTION` -/
def maxStakeFraction : ℚ := 1 / 5

/-- The part of the balance that is staked where no amount is given. -/
def defaultStakeFraction : ℚ := 1 / 20

/-- `GOVERNANCE_PASS_MULTIPLIER` -/
def governancePassMultiplier : ℚ := 3 / 2

/-! ### Data -/

/-- The outcome of a stake. -/
inductive Outcome where
  | pending
  | passed
  | failed
  deriving DecidableEq, Repr

/-- `StakeRecord` -/
structure StakeRecord where
  agentId : Str
  mutationId : Str
  epochId : Str
  stakedAmount : Int
  preStakeBalance : Int
  outcome : Outcome
  finalBalance : Int
  stakeDigest : Str
  deriving DecidableEq, Repr

/-- What a call raises. -/
inductive StakeError where
  /-- `InsufficientStakeError` -/
  | insufficient (agentId : Str) (balance : Int)
  /-- `StakeAlreadyResolvedError` -/
  | alreadyResolved (mutationId : Str) (outcome : Outcome)
  | raised (e : Exc)
  deriving DecidableEq

/-- `_compute_stake_digest` -/
def computeStakeDigest (P : Platform) (agentId mutationId epochId : Str) (stakedAmount : Int) :
    Except StakeError Str :=
  match encode (agentId ++ 58 :: (mutationId ++ 58 :: (epochId ++ 58 :: amountText stakedAmount))) with
  | none => .error (.raised .unicodeEncodeError)
  | some raw => .ok (str "sha256:" ++ P.sha256 raw)

/-! ### The ledger -/

/-- The file of the wallets, where there is one, and the file of the stakes. -/
structure Files where
  wallets : Option (List (Str × Int))
  stakes : List StakeRecord
  deriving DecidableEq, Repr

/-- `ReputationStakingLedger`, with its files. -/
structure Ledger where
  files : Files
  wallets : List (Str × Int)
  stakes : List (Str × StakeRecord)
  deriving DecidableEq, Repr

def StakeRecord.readBack (r : StakeRecord) : StakeRecord :=
  { r with
    agentId := readAscii r.agentId
    mutationId := readAscii r.mutationId
    epochId := readAscii r.epochId
    stakeDigest := readAscii r.stakeDigest }

def readWallets (wallets : List (Str × Int)) : List (Str × Int) :=
  Assoc.ofItems (wallets.map fun m => (readAscii m.1, m.2))

def readStakes (stakes : List StakeRecord) : List (Str × StakeRecord) :=
  stakes.foldl (fun d r => Assoc.set d r.readBack.mutationId r.readBack) []

/-- `__init__` on files, with `_load`. -/
def Files.load (files : Files) : Ledger where
  files := files
  wallets := (files.wallets.map readWallets).getD []
  stakes := readStakes files.stakes

def Ledger.new : Ledger :=
  Files.load ⟨none, []⟩

namespace Ledger

variable (l : Ledger)

/-- `balance` -/
def balance (agentId : Str) : Int :=
  (l.wallets.lookup agentId).getD 0

/-- `pending_stakes` of an agent. -/
def pendingStakes (agentId : Str) : List StakeRecord :=
  (l.stakes.map Prod.snd).filter fun r => r.outcome = .pending ∧ r.agentId = agentId

/-- `_save_wallets`: the keys are sorted. -/
def saveWallets : Ledger :=
  { l with files := { l.files with
      wallets := some (l.wallets.insertionSort fun m n => strLe m.1 n.1) } }

/-- `_persist` -/
def persist (record : StakeRecord) : Ledger :=
  { l with files := { l.files with stakes := l.files.stakes ++ [record] } }

/-- `register_agent` -/
def registerAgent (agentId : Str) (initialBalance : ℚ) : Ledger :=
  if agentId ∈ Assoc.keys l.wallets then l
  else { l with wallets := Assoc.set l.wallets agentId (roundCents initialBalance) }.saveWallets

def stakedAmount (balance : Int) (amount : Option ℚ) : Int :=
  let amount := amount.getD (balance * defaultStakeFraction)
  let amount := min amount (balance * maxStakeFraction)
  let amount := max (minStake : ℚ) (min amount balance)
  roundCents amount

/-- `stake`, up to the write of the record. -/
def stakeRecorded (P : Platform) (agentId mutationId epochId : Str) (amount : Option ℚ) :
    Except StakeError StakeRecord × Ledger :=
  let balance := (l.wallets.lookup agentId).getD 0
  if balance < minStake then (.error (.insufficient agentId balance), l)
  else
    let amount := stakedAmount balance amount
    -- the wallet is charged before there is a record
    let l := { l with wallets := Assoc.set l.wallets agentId (balance - amount) }
    match computeStakeDigest P agentId mutationId epochId amount with
    | .error e => (.error e, l)
    | .ok digest =>
      let record : StakeRecord :=
        { agentId := agentId
          mutationId := mutationId
          epochId := epochId
          stakedAmount := amount
          preStakeBalance := balance
          outcome := .pending
          finalBalance := 0
          stakeDigest := digest }
      (.ok record, { l with stakes := Assoc.set l.stakes mutationId record }.persist record)

def payout (record : StakeRecord) (fitnessImproved : Bool) : Int :=
  if fitnessImproved then roundCents (record.stakedAmount * governancePassMultiplier)
  else record.stakedAmount

/-- `resolve`, up to the write of the record; `none` where there is no stake. -/
def resolveRecorded (mutationId : Str) (passed fitnessImproved : Bool) :
    Except StakeError (Option StakeRecord) × Ledger :=
  match l.stakes.lookup mutationId with
  | none => (.ok none, l)
  | some record =>
    if record.outcome ≠ .pending then (.error (.alreadyResolved mutationId record.outcome), l)
    else
      let current := (l.wallets.lookup record.agentId).getD 0
      let settled := if passed then current + payout record fitnessImproved else current
      let record :=
        { record with
          outcome := if passed then .passed else .failed
          finalBalance := settled }
      let wallets := if passed then Assoc.set l.wallets record.agentId settled else l.wallets
      (.ok (some record),
        { l with wallets := wallets, stakes := Assoc.set l.stakes mutationId record }.persist record)

def restart : Ledger :=
  l.files.load

/-- What follows the write of a record: the wallets are written, or the process stops before that. -/
def finish (stops : Bool) : Ledger :=
  if stops then l.restart else l.saveWallets

end Ledger

/-! ### Runs -/

/-- What may happen to a ledger; a call comes with whether the process stops between its two writes. -/
inductive Action where
  | register (agentId : Str) (initialBalance : ℚ)
  | stake (agentId mutationId epochId : Str) (amount : Option ℚ) (stops : Bool)
  | resolve (mutationId : Str) (passed fitnessImproved stops : Bool)
  | restart

def Ledger.step (P : Platform) (l : Ledger) : Action → Ledger
  | .register agentId initialBalance => l.registerAgent agentId initialBalance
  | .stake agentId mutationId epochId amount stops =>
    match l.stakeRecorded P agentId mutationId epochId amount with
    | (.error _, l) => l
    | (.ok _, l) => l.finish stops
  | .resolve mutationId passed fitnessImproved stops =>
    match l.resolveRecorded mutationId passed fitnessImproved with
    | (.ok (some _), l) => l.finish stops
    | (_, l) => l
  | .restart => l.restart

end Adaad.Innovations.ReputationStaking
