import Adaad.Py.Assoc
import Adaad.Py.Json.Dumps

/-!
# Federation decisions

`evaluate_federation_decision`: the votes of the peers are tallied by policy version, the local
version having one vote from the start, and the version with the most votes is selected where it
reaches the quorum.
-/

namespace Adaad.Coordination

open Py

inductive VoteDecision where
  | accept
  | reject
  deriving DecidableEq, Repr

structure FederationVote where
  peerId : Str
  policyVersion : Str
  manifestDigest : Str
  decision : VoteDecision
  deriving DecidableEq, Repr

/-- `FederationPolicyExchange`, as far as decisions use it. -/
structure FederationPolicyExchange where
  localPeerId : Str
  localPolicyVersion : Str
  localManifestDigest : Str

inductive DecisionClass where
  | consensus
  | quorum
  | conflict
  | splitBrain
  | rejected
  deriving DecidableEq, Repr

structure FederationDecision where
  decisionClass : DecisionClass
  selectedPolicyVersion : Str
  peerIds : List Str
  manifestDigests : List (Str × Str)
  reconciliationActions : List Str
  quorumSize : Int
  voteDigest : Str

/-! ### The vote digest -/

def VoteDecision.value : VoteDecision → Str
  | accept => str "accept"
  | reject => str "reject"

/-- The tuple that the rows of `_vote_payload` are sorted by. -/
def FederationVote.row (v : FederationVote) : List Str :=
  [v.peerId, v.policyVersion, v.manifestDigest, v.decision.value]

/-- `a <= b` on tuples of strings. -/
def rowLe : List Str → List Str → Bool
  | [], _ => true
  | _ :: _, [] => false
  | a :: s, b :: t => if a = b then rowLe s t else strLe a b

variable (P : Platform)

def FederationVote.payload (v : FederationVote) : P.Obj :=
  .dict [(.str (str "peer_id"), .str v.peerId), (.str (str "policy_version"), .str v.policyVersion),
    (.str (str "manifest_digest"), .str v.manifestDigest),
    (.str (str "decision"), .str v.decision.value)]

/-- `_vote_payload(votes)` -/
def votePayload (votes : List FederationVote) : P.Obj :=
  .list ((votes.insertionSort fun a b => rowLe a.row b.row = true).map (·.payload P))

/-- `_vote_digest(votes)`.  The keys are strings and the document is ASCII, so that neither sorting
nor encoding fails. -/
def voteDigest (votes : List FederationVote) : Str :=
  let encoded := (dumpsSortedAscii P .compact (votePayload P votes)).bind encode
  str "sha256:" ++ P.sha256 (encoded.getD [])

/-! ### The decision -/

/-- `sorted(votes, key=lambda item: item.peer_id)` -/
def sortedVotes (votes : List FederationVote) : List FederationVote :=
  votes.insertionSort fun a b => strLe a.peerId b.peerId = true

def tallyVote (tallies : List (Str × Nat)) (v : FederationVote) : List (Str × Nat) :=
  if v.decision = .accept then
    Assoc.set tallies v.policyVersion ((tallies.lookup v.policyVersion).getD 0 + 1)
  else tallies

/-- `tallies` after the loop. -/
def tallies (e : FederationPolicyExchange) (votes : List FederationVote) : List (Str × Nat) :=
  (sortedVotes votes).foldl tallyVote [(e.localPolicyVersion, 1)]

/-- `manifest_digests` after the loop. -/
def manifestDigests (e : FederationPolicyExchange) (votes : List FederationVote) :
    List (Str × Str) :=
  (sortedVotes votes).foldl (fun d v => Assoc.set d v.peerId v.manifestDigest)
    [(e.localPeerId, e.localManifestDigest)]

/-- `(-item[1], item[0])` of one item is at most that of another. -/
def versionLe (a b : Str × Nat) : Bool :=
  b.2 < a.2 || (a.2 == b.2 && strLe a.1 b.1)

/-- `sorted(tallies.items(), …)` -/
def sortedVersions (e : FederationPolicyExchange) (votes : List FederationVote) :
    List (Str × Nat) :=
  (tallies e votes).insertionSort fun a b => versionLe a b = true

/-- The decision class, the selected version and the actions, from the sorted versions. -/
def classify (e : FederationPolicyExchange) (versions : List (Str × Nat)) (quorumSize : Int) :
    DecisionClass × Str × List Str :=
  -- There always is a version, the local one.
  let top := versions.headD (e.localPolicyVersion, 1)
  let consensus := versions.length = 1
  let hasQuorum := quorumSize ≤ top.2
  if consensus ∧ hasQuorum then (.consensus, top.1, [str "bind_policy_version"])
  else if hasQuorum then
    (.quorum, top.1, [str "stage_majority_policy", str "request_minor_peer_reconciliation"])
  else if 1 < versions.length then
    let topTied := (versions[1]?).map Prod.snd = some top.2
    if topTied then
      (.splitBrain, e.localPolicyVersion,
        [str "escalate_split_brain_review", str "freeze_federated_upgrade",
          str "require_local_governance_review"])
    else
      (.conflict, e.localPolicyVersion,
        [str "freeze_federated_upgrade", str "require_local_governance_review"])
  else (.rejected, top.1, [str "reject_federated_policy_update"])

/-- `sorted(manifest_digests)` -/
def sortedPeers (digests : List (Str × Str)) : List Str :=
  (Assoc.keys digests).insertionSort fun a b => strLe a b = true

/-- `evaluate_federation_decision(exchange, votes, quorum_size=…)` -/
def evaluateFederationDecision (e : FederationPolicyExchange) (votes : List FederationVote)
    (quorumSize : Int) : FederationDecision :=
  let d := classify e (sortedVersions e votes) quorumSize
  let digests := manifestDigests e votes
  { decisionClass := d.1
    selectedPolicyVersion := d.2.1
    peerIds := sortedPeers digests
    manifestDigests := (sortedPeers digests).map fun p => (p, (digests.lookup p).getD [])
    reconciliationActions := d.2.2
    quorumSize := max 1 quorumSize
    voteDigest := voteDigest P votes }

/-! ### Support -/

def FederationVote.accepts (v : FederationVote) (version : Str) : Bool :=
  v.decision = .accept ∧ v.policyVersion = version

/-- The peers behind a policy version, one for each vote: the local peer has its own version, and
the others accept it. -/
def supporters (e : FederationPolicyExchange) (votes : List FederationVote) (version : Str) :
    List Str :=
  (if version = e.localPolicyVersion then [e.localPeerId] else []) ++
    (votes.filter (·.accepts version)).map (·.peerId)

/-- How many distinct peers support a policy version. -/
def supportCount (e : FederationPolicyExchange) (votes : List FederationVote) (version : Str) :
    Nat :=
  (supporters e votes version).dedup.length

end Adaad.Coordination
