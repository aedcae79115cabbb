import Adaad.Py.Json.Dumps
import Adaad.Shares

/-!
# Budget shares

`runtime/evolution/budget/pool.py` and `arbitrator.py`: a pool holds the shares that agents have of
a budget, and an arbitrator gives them out anew in each epoch, by the fitness of the agents.

Arithmetic is that of an ordered field.  The exponentials of the softmax are positive numbers that
are given with each call.
-/

namespace Adaad.Evolution

open Py Shares

variable (K : Type)

/-! ### The pool -/

structure AllocationEntry where
  epochId : Str
  agentId : Str
  previousShare : K
  newShare : K
  reason : Str
  allocatedAt : K

/-- The shares have distinct agents, as the keys of a `dict`. -/
structure AgentBudgetPool where
  total : K
  starvationThreshold : K
  shares : List (Str × K)
  allocationLog : List (AllocationEntry K)
  nodup : (Assoc.keys shares).Nodup

/-- A `dict` from agents to numbers. -/
structure Scores where
  items : List (Str × K)
  nodup : (Assoc.keys items).Nodup

variable {K} [Field K] [LinearOrder K]

/-- `AgentBudgetPool(…)` -/
def newPool (totalBudget : K) (initialShares : Scores K) (starvationThreshold : K) :
    Except Exc (AgentBudgetPool K) :=
  if totalBudget ≤ 0 then
    .error (.valueError (str "pool_total_budget_must_be_positive"))
  else
    let w := Shares.total initialShares.items
    if 0 < w then
      .ok
        { total := totalBudget
          starvationThreshold := starvationThreshold
          shares := Assoc.mapValues (· / w) initialShares.items
          allocationLog := []
          nodup := by
            rw [Assoc.keys_mapValues]
            exact initialShares.nodup }
    else
      .ok
        { total := totalBudget
          starvationThreshold := starvationThreshold
          shares := []
          allocationLog := []
          nodup := List.nodup_nil }

/-- The body of the loop of `apply_reallocation`. -/
def AgentBudgetPool.reallocate (epochId reason : Str) (now : K) (pool : AgentBudgetPool K)
    (m : Str × K) : AgentBudgetPool K :=
  let previous := (pool.shares.lookup m.1).getD 0
  let clamped := max 0 (min 1 m.2)
  if clamped = 0 then
    { pool with
      shares := Assoc.erase pool.shares m.1
      allocationLog := pool.allocationLog ++
        [⟨epochId, m.1, previous, clamped, str "eviction", now⟩]
      nodup := Assoc.nodup_keys_erase pool.nodup m.1 }
  else
    { pool with
      shares := Assoc.set pool.shares m.1 clamped
      allocationLog := pool.allocationLog ++ [⟨epochId, m.1, previous, clamped, reason, now⟩]
      nodup := Assoc.nodup_keys_set pool.nodup m.1 clamped }

/-- `apply_reallocation` -/
def AgentBudgetPool.applyReallocation (pool : AgentBudgetPool K) (newShares : List (Str × K))
    (epochId reason : Str) (now : K) : AgentBudgetPool K :=
  newShares.foldl (AgentBudgetPool.reallocate epochId reason now) pool

/-! ### The arbitrator -/

variable (K) in
/-- A `BudgetArbitrator` with its pool. -/
structure BudgetArbitrator where
  pool : AgentBudgetPool K
  temperature : K
  starvationThreshold : K
  evictionCount : Int
  starvationCounts : List (Str × Int)

/-- `BudgetArbitrator(…)` -/
def newArbitrator (pool : AgentBudgetPool K) (temperature starvationThreshold : K)
    (evictionStarvationCount : Int) : BudgetArbitrator K where
  pool := pool
  temperature := max (1 / 100) temperature
  starvationThreshold := starvationThreshold
  evictionCount := evictionStarvationCount
  starvationCounts := []

variable (K) in
structure ArbitrationResult where
  epochId : Str
  newShares : List (Str × K)
  evictedAgents : List Str
  starvedAgents : List Str
  marketScalar : K
  temperature : K
  fitnessInputs : List (Str × K)
  totalShareSum : K

variable (K) in
/-- The arguments of `arbitrate`, and what it is given from outside: the exponential of each agent,
`math.exp((s - max_s) / tau)`, and the time. -/
structure ArbitrateCall where
  fitnessScores : Scores K
  epochId : Str
  marketPressure : K
  exps : Str → K
  now : K
  exps_pos : ∀ a, 0 < exps a

/-- `max(0.1, min(3.0, market_pressure))` -/
def marketScalar (marketPressure : K) : K :=
  max (1 / 10) (min 3 marketPressure)

/-- `sorted(fitness_scores.keys())` -/
def sortedAgents (fitnessScores : Scores K) : List Str :=
  (Assoc.keys fitnessScores.items).insertionSort fun a b => strLe a b = true

/-- `softmax`, of the weights. -/
def softmax (call : ArbitrateCall K) : List (Str × K) :=
  normalize ((sortedAgents call.fitnessScores).map fun a => (a, call.exps a))

/-- `normalised` -/
def normalised (call : ArbitrateCall K) : List (Str × K) :=
  normalize (Assoc.mapValues (fun v => min 1 (v * marketScalar call.marketPressure))
    (softmax call))

/-- `starved` -/
def starvedAgents (b : BudgetArbitrator K) (call : ArbitrateCall K) : List Str :=
  Assoc.keys ((normalised call).filter fun m => m.2 < b.starvationThreshold)

/-- The two loops over `_starvation_counts`. -/
def countStarvation (starvationCounts : List (Str × Int)) (starved : List Str) :
    List (Str × Int) :=
  let counted := starved.foldl
    (fun counts a => Assoc.set counts a ((counts.lookup a).getD 0 + 1)) starvationCounts
  counted.map fun m => (m.1, if m.1 ∈ starved then m.2 else 0)

/-- `evicted` -/
def evictedAgents (b : BudgetArbitrator K) (call : ArbitrateCall K) : List Str :=
  let starved := starvedAgents b call
  let counts := countStarvation b.starvationCounts starved
  starved.filter fun a => b.evictionCount ≤ (counts.lookup a).getD 0

/-- `final` -/
def finalShares (b : BudgetArbitrator K) (call : ArbitrateCall K) : List (Str × K) :=
  let evicted := evictedAgents b call
  let final := (normalised call).map fun m => (m.1, if m.1 ∈ evicted then 0 else m.2)
  let total2 := orOne (Shares.total final)
  Assoc.mapValues (· / total2) (final.filter fun m => 0 < m.2)

/-- `arbitrate` -/
def BudgetArbitrator.arbitrate (b : BudgetArbitrator K) (call : ArbitrateCall K) :
    BudgetArbitrator K × ArbitrationResult K :=
  let starved := starvedAgents b call
  let evicted := evictedAgents b call
  let final := finalShares b call
  ({ b with
      starvationCounts := countStarvation b.starvationCounts starved
      pool := b.pool.applyReallocation (final ++ evicted.map fun a => (a, 0)) call.epochId
        (str "darwinian_reallocation") call.now },
    { epochId := call.epochId
      newShares := final
      evictedAgents := evicted
      starvedAgents := starved
      marketScalar := marketScalar call.marketPressure
      temperature := b.temperature
      fitnessInputs := call.fitnessScores.items
      totalShareSum := Shares.total final })

def step (b : BudgetArbitrator K) (call : ArbitrateCall K) : BudgetArbitrator K :=
  (b.arbitrate call).1

end Adaad.Evolution
