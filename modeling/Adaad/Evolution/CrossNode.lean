import Adaad.Evolution.Budget
import Adaad.Federation.Gossip

/-!
# Cross-node arbitration

`runtime/evolution/budget/cross_node_arbitrator.py`: a node arbitrates with the fitness that its
peers have reported besides its own, and asks the consensus engine about evictions of more than half
of the agents.

The engine is not part of the arbitrator; what it answers is given with each call.  The reports come
in one at a time, each with the time when it is drained from the queue of the gossip protocol.
-/

namespace Adaad.Evolution

open Py

variable {K : Type}

variable (K) in
structure PeerFitnessReport where
  nodeId : Str
  epochId : Str
  scores : Scores K
  sampledAt : K

variable (K) in
structure CrossNodeBudgetArbitrator where
  nodeId : Str
  localArbitrator : BudgetArbitrator K
  requireQuorum : Bool
  /-- There is a consensus engine. -/
  hasConsensus : Bool
  /-- The latest report of each node. -/
  peerFitness : List (Str × PeerFitnessReport K)

variable (K) in
structure ClusterArbitrationResult where
  epochId : Str
  clusterScores : List (Str × K)
  clusterNewShares : List (Str × K)
  clusterEvicted : List Str
  clusterStarved : List Str
  contributingNodes : List Str
  quorumRequired : Bool
  /-- `None` when no quorum is required. -/
  quorumMet : Option Bool
  marketScalar : K

/-- `effective_evictions` -/
def ClusterArbitrationResult.effectiveEvictions (r : ClusterArbitrationResult K) : List Str :=
  if r.quorumRequired ∧ r.quorumMet = some false then [] else r.clusterEvicted

variable [Field K] [LinearOrder K]

variable (K) in
/-- The arguments of `arbitrate_cluster`, and what it is given from outside: the exponentials of the
agents, the time, and the answer of the engine, where `none` is an exception. -/
structure ClusterCall where
  epochId : Str
  localScores : Scores K
  marketPressure : K
  now : Option K
  exps : Str → K
  time : K
  hasQuorum : Option Bool
  exps_pos : ∀ a, 0 < exps a

/-- `now or time.time()` -/
def orTime (now : Option K) (time : K) : K :=
  match now with
  | none => time
  | some t => if t = 0 then time else t

/-- `is_fresh` -/
def PeerFitnessReport.isFresh (r : PeerFitnessReport K) (now : Option K) (time : K) : Bool :=
  orTime now time - r.sampledAt < 45

/-- The agents that an earlier report has not named are added. -/
def mergeReport (merged : Scores K) (report : PeerFitnessReport K) : Scores K :=
  report.scores.items.foldl
    (fun merged m =>
      if m.1 ∈ Assoc.keys merged.items then merged
      else ⟨Assoc.set merged.items m.1 m.2, Assoc.nodup_keys_set merged.nodup m.1 m.2⟩)
    merged

/-- `merged.update(scores)` -/
def Scores.update (merged scores : Scores K) : Scores K :=
  scores.items.foldl
    (fun merged m => ⟨Assoc.set merged.items m.1 m.2, Assoc.nodup_keys_set merged.nodup m.1 m.2⟩)
    merged

namespace CrossNodeBudgetArbitrator

omit [Field K] [LinearOrder K] in
variable (K) in
/-- `CrossNodeBudgetArbitrator(…)` -/
def new (nodeId : Str) (localArbitrator : BudgetArbitrator K) (requireQuorum hasConsensus : Bool) :
    CrossNodeBudgetArbitrator K where
  nodeId := nodeId
  localArbitrator := localArbitrator
  requireQuorum := requireQuorum
  hasConsensus := hasConsensus
  peerFitness := []

variable (c : CrossNodeBudgetArbitrator K) (call : ClusterCall K)

/-- The loop body of `ingest_pending_gossip`, from the parsed report on. -/
def ingestReport (time : K) (report : PeerFitnessReport K) : CrossNodeBudgetArbitrator K :=
  if report.nodeId = c.nodeId then c
  else if report.isFresh none time then
    { c with peerFitness := Assoc.set c.peerFitness report.nodeId report }
  else c

/-- `ingest_pending_gossip`, call after call: the reports with the times when they are drained. -/
def ingest (arrivals : List (K × PeerFitnessReport K)) : CrossNodeBudgetArbitrator K :=
  arrivals.foldl (fun c a => c.ingestReport a.1 a.2) c

def freshFitness : List (Str × PeerFitnessReport K) :=
  c.peerFitness.filter fun m => m.2.isFresh (some (orTime call.now call.time)) call.time

/-- `merged_scores` -/
def mergedScores : Scores K :=
  ((c.freshFitness call).foldl (fun merged m => mergeReport merged m.2)
    ⟨[], List.nodup_nil⟩).update call.localScores

def localCall : ArbitrateCall K where
  fitnessScores := c.mergedScores call
  epochId := call.epochId
  marketPressure := call.marketPressure
  exps := call.exps
  now := call.time
  exps_pos := call.exps_pos

/-- `eviction_fraction` -/
def evictionFraction (evicted : List Str) : K :=
  evicted.length / (max 1 (c.mergedScores call).items.length : Nat)

/-- `_check_quorum` -/
def checkQuorum : Bool :=
  if c.hasConsensus then call.hasQuorum.getD false else true

/-- `arbitrate_cluster` -/
def arbitrateCluster : CrossNodeBudgetArbitrator K × ClusterArbitrationResult K :=
  let r := c.localArbitrator.arbitrate (c.localCall call)
  let quorumRequired :=
    c.requireQuorum && decide (1 / 2 < c.evictionFraction call r.2.evictedAgents)
  let quorumMet := if quorumRequired then some (c.checkQuorum call) else none
  ({ c with
      localArbitrator := r.1
      peerFitness := c.freshFitness call },
    { epochId := call.epochId
      clusterScores := (c.mergedScores call).items
      clusterNewShares := r.2.newShares
      clusterEvicted := r.2.evictedAgents
      clusterStarved := r.2.starvedAgents
      contributingNodes := c.nodeId :: Assoc.keys (c.freshFitness call)
      quorumRequired := quorumRequired
      quorumMet := quorumMet
      marketScalar := r.2.marketScalar })

end CrossNodeBudgetArbitrator

/-! ### Rounds -/

/-- `exps` of `arbitrate`: `math.exp((s - max_s) / tau)` for each agent, with the exponential
function that is given. -/
def Scores.exps (exp : K → K) (tau : K) (scores : Scores K) (a : Str) : K :=
  let score := fun a => (scores.items.lookup a).getD 0
  let maxS := (((sortedAgents scores).map score).max?).getD 0
  exp ((score a - maxS) / tau)

variable (K) in
/-- What `arbitrate_cluster` is called with, and the exponential function. -/
structure ClusterRound where
  epochId : Str
  localScores : Scores K
  marketPressure : K
  now : Option K
  exp : K → K
  exp_pos : ∀ x, 0 < exp x

variable (K) in
/-- When `arbitrate_cluster` is called, and what the engine answers then. -/
structure ClusterMoment where
  time : K
  hasQuorum : Option Bool

def CrossNodeBudgetArbitrator.clusterCall (c : CrossNodeBudgetArbitrator K) (r : ClusterRound K)
    (m : ClusterMoment K) : ClusterCall K :=
  let call : ClusterCall K :=
    { epochId := r.epochId
      localScores := r.localScores
      marketPressure := r.marketPressure
      now := r.now
      exps := fun _ => r.exp 0
      time := m.time
      hasQuorum := m.hasQuorum
      exps_pos := fun _ => r.exp_pos 0 }
  { call with
    exps := (c.mergedScores call).exps r.exp c.localArbitrator.temperature
    exps_pos := fun _ => r.exp_pos _ }

def CrossNodeBudgetArbitrator.roundResult (c : CrossNodeBudgetArbitrator K) (r : ClusterRound K)
    (m : ClusterMoment K) : ClusterArbitrationResult K :=
  (c.arbitrateCluster (c.clusterCall r m)).2

omit [Field K] [LinearOrder K] in
/-- `lineage_digest`, where `number` is what `json.dumps` makes of a share. -/
def ClusterArbitrationResult.lineageDigest (P : Platform) (number : K → P.Obj)
    (r : ClusterArbitrationResult K) : Str :=
  Gossip.jsonDigest P (.dict [(.str (str "epoch"), .str r.epochId),
    (.str (str "nodes"),
      .list ((r.contributingNodes.insertionSort fun a b => strLe a b = true).map .str)),
    (.str (str "shares"), .dict (r.clusterNewShares.map fun m => (.str m.1, number m.2)))])

end Adaad.Evolution
