import Adaad.Lineage.Ledger

/-!
# Chained checkpoints

`runtime/evolution/checkpoint_chain.py`: a list of checkpoints, each of which carries the digest of
its payload, that of the checkpoint before it, and one over both.
-/

namespace Adaad.Lineage

open Py

/-- `ZERO_HASH` -/
def zeroHash : Str := str "sha256:" ++ genesisHash

end Adaad.Lineage

namespace Adaad.Lineage.CheckpointChain

open Py

variable (P : Platform)

/-- `CHAIN_VERSION` -/
def chainVersion : Str := str "v1.0.0"

structure ChainedCheckpoint where
  epochId : Str
  payload : Members P.Float
  predecessorDigest : Str
  payloadDigest : Str
  chainDigest : Str
  chainVersion : Str

/-- `checkpoint_digest` -/
def checkpointDigest (payload : Members P.Float) : Except Exc Str :=
  prefixedDigest P .compact (.dict payload)

/-- `chain_payload` -/
def chainPayload (epochId predecessorDigest payloadDigest version : Str) : P.Obj :=
  .dict [(.str (str "epoch_id"), .str epochId),
    (.str (str "predecessor_digest"), .str predecessorDigest),
    (.str (str "payload_digest"), .str payloadDigest),
    (.str (str "chain_version"), .str version)]

/-- `checkpoint_chain_digest` -/
def checkpointChainDigest (payload : Members P.Float) (epochId predecessorDigest : Str) :
    Except Exc (ChainedCheckpoint P) := do
  let payloadDigest ← checkpointDigest P payload
  let chainDigest ← prefixedDigest P .compact
    (chainPayload P epochId predecessorDigest payloadDigest chainVersion)
  return { epochId, payload, predecessorDigest, payloadDigest, chainDigest, chainVersion }

/-- The loop of `build_checkpoint_chain`. -/
def buildFrom (predecessor : Str) :
    List (Str × Members P.Float) → Except Exc (List (ChainedCheckpoint P))
  | [] => .ok []
  | (epochId, payload) :: entries => do
    let cp ← checkpointChainDigest P payload epochId predecessor
    let later ← buildFrom cp.chainDigest entries
    return cp :: later

/-- `build_checkpoint_chain` -/
def buildCheckpointChain (entries : List (Str × Members P.Float)) :
    Except Exc (List (ChainedCheckpoint P)) := do
  match ← buildFrom P zeroHash entries with
  | [] => .error (.valueError (str "checkpoint_chain_requires_at_least_one_entry"))
  | chain => return chain

/-- The loop of `verify_checkpoint_chain`, from the chain digest of the entry before if there is
one. -/
def verifyFrom : Option Str → List (ChainedCheckpoint P) → Except Exc Bool
  | _, [] => .ok true
  | before, cp :: rest => do
    let expectedChain ← prefixedDigest P .compact
      (chainPayload P cp.epochId cp.predecessorDigest cp.payloadDigest cp.chainVersion)
    if expectedChain ≠ cp.chainDigest then return false
    else if before.any (cp.predecessorDigest ≠ ·) then return false
    else verifyFrom (some cp.chainDigest) rest

/-- `verify_checkpoint_chain` -/
def verifyCheckpointChain (chain : List (ChainedCheckpoint P)) : Except Exc Bool :=
  match chain with
  | [] => .ok false
  | first :: _ =>
    if first.predecessorDigest ≠ zeroHash then .ok false else verifyFrom P none chain

end Adaad.Lineage.CheckpointChain
