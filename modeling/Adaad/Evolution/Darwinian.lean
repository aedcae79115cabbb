import Adaad.Evolution.Budget
import Adaad.Py.Call
import Mathlib.Algebra.Order.Ring.Rat
import Mathlib.Data.Rat.Defs

/-!
# Darwinian selection

`runtime/evolution/budget/darwinian_pipeline.py` and `competition_ledger.py`: a selection calls the
arbitrator with the fitness of an epoch, records what comes out in the competition ledger, and sums
it up.  An exception of any step is caught, and makes an empty summary.

The lines that the ledger writes to a file, the digest of an event, and the journal that a summary
is sent to, are left out.
-/

namespace Adaad.Evolution

open Py

variable (K : Type)

/-! ### The competition ledger -/

structure AgentAllocationDelta where
  agentId : Str
  previousShare : K
  newShare : K
  delta : K
  outcome : Str

structure CompetitionEvent where
  epochId : Str
  occurredAt : K
  temperature : K
  marketScalar : K
  totalShareSum : K
  agentDeltas : List (AgentAllocationDelta K)
  starvedAgents : List Str
  evictedAgents : List Str
  fitnessInputs : List (Str × K)

structure CompetitionLedger where
  events : List (CompetitionEvent K)

/-! ### Arguments -/

/-- What is given for a parameter. -/
inductive Argument where
  | pool (p : AgentBudgetPool K)
  | scores (s : Scores K)
  | text (s : Str)
  | number (x : K)
  | names (s : List Str)
  | deltas (d : List (AgentAllocationDelta K))
  | result (r : ArbitrationResult K)

variable [Field K] [LinearOrder K]

/-- What comes from outside the process: the exponential of each agent, and the time. -/
structure Outside where
  exps : Str → K
  now : K
  exps_pos : ∀ a, 0 < exps a

/-- A parameter after the `*`. -/
def keywordOnly (name : String) (required : Bool) : Parameter where
  name := str name
  keywordOnly := true
  required := required

variable {K}

/-- The parameters of `arbitrate`. -/
def arbitrateParameters : List Parameter :=
  [keywordOnly "fitness_scores" true, keywordOnly "epoch_id" true,
    keywordOnly "market_pressure" false]

/-- The methods of a `BudgetArbitrator`. -/
def arbitratorMethods (o : Outside K) :
    List (NamedMethod (BudgetArbitrator K) (Argument K) (ArbitrationResult K)) :=
  [{ name := str "arbitrate"
     parameters := arbitrateParameters
     body := fun bound b =>
       match bound.lookup (str "fitness_scores"), bound.lookup (str "epoch_id"),
           (bound.lookup (str "market_pressure")).getD (.number 1) with
       | some (.scores fitnessScores), some (.text epochId), .number marketPressure =>
         let r := b.arbitrate
           { fitnessScores := fitnessScores
             epochId := epochId
             marketPressure := marketPressure
             exps := o.exps
             now := o.now
             exps_pos := o.exps_pos }
         (r.1, .ok r.2)
       | _, _, _ => (b, .error .attributeError) }]

/-- The methods of a `CompetitionLedger` that change it. -/
def ledgerMethods (o : Outside K) : List (NamedMethod (CompetitionLedger K) (Argument K) Unit) :=
  [{ name := str "record"
     parameters := [keywordOnly "epoch_id" true, keywordOnly "temperature" true,
       keywordOnly "market_scalar" true, keywordOnly "total_share_sum" true,
       keywordOnly "agent_deltas" true, keywordOnly "starved_agents" true,
       keywordOnly "evicted_agents" true, keywordOnly "fitness_inputs" true]
     body := fun bound l =>
       match bound.lookup (str "epoch_id"), bound.lookup (str "temperature"),
           bound.lookup (str "market_scalar"), bound.lookup (str "total_share_sum"),
           bound.lookup (str "agent_deltas"), bound.lookup (str "starved_agents"),
           bound.lookup (str "evicted_agents"), bound.lookup (str "fitness_inputs") with
       | some (.text epochId), some (.number temperature), some (.number marketScalar),
           some (.number totalShareSum), some (.deltas agentDeltas), some (.names starvedAgents),
           some (.names evictedAgents), some (.scores fitnessInputs) =>
         ({ l with events := l.events ++
              [{ epochId := epochId
                 occurredAt := o.now
                 temperature := temperature
                 marketScalar := marketScalar
                 totalShareSum := totalShareSum
                 agentDeltas := agentDeltas
                 starvedAgents := starvedAgents
                 evictedAgents := evictedAgents
                 fitnessInputs := fitnessInputs.items }] }, .ok ())
       | _, _, _, _, _, _, _, _ => (l, .error .typeError) }]

/-! ### The pipeline -/

variable (K) in
/-- A `DarwinianSelectionPipeline` -/
structure DarwinianSelectionPipeline where
  arbitrator : BudgetArbitrator K
  /-- The pool of the pipeline, where it is not the one of its arbitrator. -/
  otherPool : Option (AgentBudgetPool K)
  ledger : CompetitionLedger K

/-- `_pool` -/
def DarwinianSelectionPipeline.pool (p : DarwinianSelectionPipeline K) : AgentBudgetPool K :=
  p.otherPool.getD p.arbitrator.pool

variable (K) in
structure SelectionSummary where
  epochId : Str
  agentCount : Nat
  evicted : List Str
  starved : List Str
  winner : Option Str
  winnerShare : K
  marketScalar : K
  completedAt : K

variable (K) in
/-- The arguments of `run`, and what it is given from outside. -/
structure SelectionCall where
  epochId : Str
  fitnessScores : Scores K
  marketScalar : K
  outside : Outside K

/-- `_find_winner`: the first of the agents with the largest share. -/
def findWinner (shares : List (Str × K)) : Option Str × K :=
  match shares with
  | [] => (none, 0)
  | m :: shares =>
    let best := shares.foldl (fun best m => if best.2 < m.2 then m else best) m
    (some best.1, best.2)

def forEach {S A : Type} (body : A → S → S × Except Exc Unit) : List A → S → S × Except Exc Unit
  | [], s => (s, .ok ())
  | a :: rest, s =>
    match body a s with
    | (s, .error e) => (s, .error e)
    | (s, .ok _) => forEach body rest s

/-- The records of `run`.  The arbitrator has no `_starv_count`, which is an argument of
`record_starvation`. -/
def recordSelection (c : SelectionCall K) (result : ArbitrationResult K) (l : CompetitionLedger K) :
    CompetitionLedger K × Except Exc Unit :=
  let call := fun name keywords => callMethod (ledgerMethods c.outside) (str name) ⟨[], keywords⟩
  match call "record_arbitration"
      [(str "epoch_id", .text c.epochId), (str "result", .result result)] l with
  | (l, .error e) => (l, .error e)
  | (l, .ok _) =>
    match forEach (fun (_ : Str) l => (l, .error .attributeError)) result.starvedAgents l with
    | (l, .error e) => (l, .error e)
    | (l, .ok _) =>
      forEach (fun agent => call "record_eviction"
        [(str "agent_id", .text agent), (str "epoch_id", .text c.epochId),
          (str "freed_share", .number 0)]) result.evictedAgents l

/-- The arguments of `run` for `arbitrate`. -/
def arbitrateArguments (p : DarwinianSelectionPipeline K) (c : SelectionCall K) :
    Arguments (Argument K) where
  positional := [.pool p.pool, .scores c.fitnessScores]
  keywords := [(str "epoch_id", .text c.epochId), (str "market_scalar", .number c.marketScalar)]

/-- The `try` of `run`. -/
def DarwinianSelectionPipeline.select (p : DarwinianSelectionPipeline K) (c : SelectionCall K) :
    DarwinianSelectionPipeline K × Except Exc (SelectionSummary K) :=
  match callMethod (arbitratorMethods c.outside) (str "arbitrate") (arbitrateArguments p c)
      p.arbitrator with
  | (b, .error e) => ({ p with arbitrator := b }, .error e)
  | (b, .ok result) =>
    match recordSelection c result p.ledger with
    | (l, .error e) => ({ p with arbitrator := b, ledger := l }, .error e)
    | (l, .ok _) =>
      ({ p with arbitrator := b, ledger := l },
        .ok
          { epochId := c.epochId
            agentCount := c.fitnessScores.items.length
            evicted := result.evictedAgents
            starved := result.starvedAgents
            winner := (findWinner result.newShares).1
            winnerShare := (findWinner result.newShares).2
            marketScalar := result.marketScalar
            completedAt := c.outside.now })

/-- The summary of `run` after an exception. -/
def emptySummary (c : SelectionCall K) : SelectionSummary K where
  epochId := c.epochId
  agentCount := 0
  evicted := []
  starved := []
  winner := none
  winnerShare := 0
  marketScalar := c.marketScalar
  completedAt := c.outside.now

/-- `run` -/
def DarwinianSelectionPipeline.run (p : DarwinianSelectionPipeline K) (c : SelectionCall K) :
    DarwinianSelectionPipeline K × SelectionSummary K :=
  match p.select c with
  | (p, .ok summary) => (p, summary)
  | (p, .error _) => (p, emptySummary c)

end Adaad.Evolution

/-!
## Selections select nothing

`run` gives the pool and the scores to `arbitrate` without keywords, and the market scalar under a
name that `arbitrate` does not have.  So every selection ends with the exception of this call, which
makes the empty summary (`run_eq`), and no selection does what it is for (`not_selected`).  The same
call with the keywords of `arbitrate` arbitrates (`callMethod_arbitrate`).
-/

namespace Adaad.Evolution

open Py

variable {K : Type} [Field K] [LinearOrder K]

/-- The names of the parameters of `arbitrate`. -/
def arbitrateNames : List Str :=
  [str "fitness_scores", str "epoch_id", str "market_pressure"]

theorem fits_of_keywords {V : Type} {keywords : List (Str × V)}
    (h : Assoc.keys keywords = arbitrateNames) : Fits arbitrateParameters ⟨[], keywords⟩ where
  positional := Nat.zero_le _
  keywords := by
    show ∀ name ∈ Assoc.keys keywords, name ∈ arbitrateParameters.map Parameter.name ∧ name ∉ []
    rw [h]
    decide
  required := by
    show ∀ p ∈ arbitrateParameters, p.required = true → p.name ∈ [] ∨ p.name ∈ Assoc.keys keywords
    rw [h]
    decide

/-- A call with the keywords of `arbitrate` arbitrates. -/
theorem callMethod_arbitrate (b : BudgetArbitrator K) (call : ArbitrateCall K) :
    callMethod (arbitratorMethods ⟨call.exps, call.now, call.exps_pos⟩) (str "arbitrate")
        ⟨[], [(str "fitness_scores", .scores call.fitnessScores),
          (str "epoch_id", .text call.epochId), (str "market_pressure", .number call.marketPressure)]⟩ b =
      ((b.arbitrate call).1, .ok (b.arbitrate call).2) := by
  have hfits : Fits arbitrateParameters
      ⟨[], [(str "fitness_scores", Argument.scores call.fitnessScores),
        (str "epoch_id", .text call.epochId), (str "market_pressure", .number call.marketPressure)]⟩ :=
    fits_of_keywords rfl
  rw [callMethod_of_fits (by rfl) hfits]
  rfl

theorem not_fits_arbitrateArguments (p : DarwinianSelectionPipeline K) (c : SelectionCall K) :
    ¬ Fits arbitrateParameters (arbitrateArguments p c) :=
  not_fits_of_length (Nat.zero_lt_succ 1)

theorem run_eq (p : DarwinianSelectionPipeline K) (c : SelectionCall K) :
    p.run c = (p, emptySummary c) := by
  have hcall : callMethod (arbitratorMethods c.outside) (str "arbitrate") (arbitrateArguments p c)
      p.arbitrator = (p.arbitrator, .error .typeError) :=
    callMethod_of_not_fits (by rfl) (not_fits_arbitrateArguments p c) p.arbitrator
  unfold DarwinianSelectionPipeline.run DarwinianSelectionPipeline.select
  rw [hcall]

/-- The shares that an arbitration of the scores gives out. -/
def newShares (p : DarwinianSelectionPipeline K) (c : SelectionCall K) : List (Str × K) :=
  finalShares p.arbitrator
    { fitnessScores := c.fitnessScores
      epochId := c.epochId
      marketPressure := c.marketScalar
      exps := c.outside.exps
      now := c.outside.now
      exps_pos := c.outside.exps_pos }

/-- The selection counts the agents and has a winner with the largest share, the pool holds the shares,
and the ledger has one event more, for the epoch and with the agents of the summary. -/
structure Selected (p : DarwinianSelectionPipeline K) (c : SelectionCall K) : Prop where
  agentCount : (p.run c).2.agentCount = c.fitnessScores.items.length
  winner : ∃ m ∈ newShares p c, (p.run c).2.winner = some m.1 ∧ ∀ m' ∈ newShares p c, m'.2 ≤ m.2
  pool : ∀ m ∈ newShares p c, (p.run c).1.pool.shares.lookup m.1 = some m.2
  event : ∃ event, (p.run c).1.ledger.events = p.ledger.events ++ [event] ∧
    event.epochId = c.epochId ∧ event.starvedAgents = (p.run c).2.starved ∧
      event.evictedAgents = (p.run c).2.evicted

theorem not_selected (p : DarwinianSelectionPipeline K) (c : SelectionCall K) : ¬ Selected p c := by
  intro h
  obtain ⟨m, -, hwinner, -⟩ := h.winner
  rw [run_eq] at hwinner
  exact absurd hwinner.symm (Option.some_ne_none m.1)

/-! ### One agent -/

theorem nodup_ofOne : (Assoc.keys [(str "a", (1 : ℚ))]).Nodup := by
  decide

theorem exps_pos_ofOne (_ : Str) : (0 : ℚ) < 1 :=
  one_pos

/-- A pipeline of agent "a", which has the whole budget. -/
def pipelineOfOne : DarwinianSelectionPipeline ℚ where
  arbitrator := newArbitrator
    { total := 1
      starvationThreshold := 1 / 50
      shares := [(str "a", 1)]
      allocationLog := []
      nodup := nodup_ofOne } 1 (1 / 50) 3
  otherPool := none
  ledger := ⟨[]⟩

def selectionOfOne : SelectionCall ℚ where
  epochId := str "e"
  fitnessScores := ⟨[(str "a", 1 / 2)], by decide⟩
  marketScalar := 1
  outside := ⟨fun _ => 1, 0, exps_pos_ofOne⟩

theorem not_always_selected : ¬ ∀ (p : DarwinianSelectionPipeline ℚ) (c : SelectionCall ℚ),
    c.fitnessScores.items ≠ [] → 0 < c.marketScalar → Selected p c := by
  intro h
  have hselected := h pipelineOfOne selectionOfOne (List.cons_ne_nil _ _) one_pos
  have hcount := hselected.agentCount
  rw [run_eq] at hcount
  cases hcount

end Adaad.Evolution
