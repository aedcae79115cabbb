import Adaad.Py.Assoc
import Adaad.Py.Json.Equiv.Sort
import Mathlib.Algebra.Order.BigOperators.Group.List
import Mathlib.Algebra.Order.Field.Basic
import Mathlib.Algebra.Order.Floor.Ring
import Mathlib.Data.List.Dedup
import Mathlib.Data.Rat.Floor
import Mathlib.Tactic.Linarith
import Mathlib.Tactic.NormNum
import Mathlib.Tactic.Positivity

/-!
# The goal graph

`runtime/evolution/goal_graph.py`: weighted goals, nested to any depth, that score the state of an
agent.

Numbers are exact here.  A text of a payload that is missing, or null, is the empty one.
-/

namespace Adaad.GoalGraph

open Py

/-- A metric of a payload; the target is none where it is missing or null. -/
structure MetricPayload (K : Type) where
  name : Str
  target : Option K

/-- A goal as it is loaded.  The weight is none where it is missing, and `some none` where it is
null. -/
structure Payload (K : Type) where
  objectiveId : Str
  objectiveName : Str
  ownId : Str
  ownName : Str
  metrics : List (MetricPayload K)
  requiredCapabilities : List Str
  completionThreshold : Option K
  rewardWeight : Option (Option K)
  childGoals : List (Payload K)

structure GoalNode (K : Type) where
  objectiveId : Str
  name : Str
  metrics : List (Str × K)
  requiredCapabilities : List Str
  completionThreshold : K
  rewardWeight : K
  childGoals : List (GoalNode K)

structure AgentState (K : Type) where
  metrics : List (Str × K)
  capabilities : List Str

variable {K : Type} [Field K] [LinearOrder K]

variable (K) in
/-- `round(x, 6)` -/
structure Rounding where
  round6 : K → K
  monotone : Monotone round6
  zero : round6 0 = 0
  one : round6 1 = 1

/-- `_clamp` -/
def clamp (x : K) : K :=
  min (max x 0) 1

/-! ### Parsing -/

/-- `s or t` -/
def orText (s t : Str) : Str :=
  if s = [] then t else s

/-- `x or y` -/
def orNumber (x : Option K) (y : K) : K :=
  if x.getD 0 = 0 then y else x.getD 0

/-- The body of the loop over the metrics in `_parse_node`. -/
def parseMetric (metrics : List (Str × K)) (metric : MetricPayload K) : List (Str × K) :=
  if strip metric.name = [] then metrics
  else
    let target := orNumber metric.target 1
    Assoc.set metrics (strip metric.name) (if 0 < target then target else 1)

/-- `{str(item).strip() for item in texts if str(item).strip()}` -/
def strippedSet (texts : List Str) : List Str :=
  ((texts.map strip).filter (· ≠ [])).dedup

/-- `sorted(texts)` -/
def sortedTexts (texts : List Str) : List Str :=
  texts.insertionSort fun s t => strLe s t = true

mutual

/-- `_parse_node` -/
def parseNode : Payload K → GoalNode K
  | ⟨objectiveId, objectiveName, ownId, ownName, metrics, capabilities, threshold, weight,
      children⟩ =>
    { objectiveId := orText objectiveId ownId
      name := orText objectiveName (orText ownName (orText objectiveId ownId))
      metrics := metrics.foldl parseMetric []
      requiredCapabilities := sortedTexts (strippedSet capabilities)
      completionThreshold := clamp (orNumber threshold 0.7)
      rewardWeight := max 0 ((weight.getD (some 1)).getD 0)
      childGoals := parseNodes children }

def parseNodes : List (Payload K) → List (GoalNode K)
  | [] => []
  | p :: ps => parseNode p :: parseNodes ps

end

/-! ### Scores -/

/-- `float(state_metrics.get(name, 0.0) or 0.0)` -/
def AgentState.observed (s : AgentState K) (name : Str) : K :=
  (s.metrics.lookup name).getD 0

variable (r : Rounding K)

/-- `_metric_score` -/
def metricScore (targets : List (Str × K)) (s : AgentState K) : K :=
  if targets = [] then 1
  else
    let values := (sortedTexts (Assoc.keys targets)).map fun name =>
      clamp (s.observed name / max ((targets.lookup name).getD 0) 1e-9)
    r.round6 (values.sum / values.length)

/-- `_capability_score` -/
def capabilityScore (required available : List Str) : K :=
  if required.dedup = [] then 1
  else r.round6 (((required.dedup.filter (· ∈ strippedSet available)).length : ℕ) /
    (required.dedup.length : ℕ))

/-- `sum(node.reward_weight for node in nodes)` -/
def totalWeight (nodes : List (GoalNode K)) : K :=
  (nodes.map GoalNode.rewardWeight).sum

/-- What `_score_node` makes of the scores of a node and of its children, before the penalty. -/
def selfScore (hasChildren : Bool) (metric capability weighted weight : K) : K :=
  let own := metric * 0.8 + capability * 0.2
  let child := if 0 < weight then weighted / weight else 0
  if hasChildren then own * 0.7 + child * 0.3 else own

def penalized (threshold score : K) : K :=
  if score < threshold then score * 0.5 else score

mutual

/-- `_score_node` -/
def scoreNode (s : AgentState K) : GoalNode K → K
  | ⟨_, _, metrics, required, threshold, _, children⟩ =>
    r.round6 (clamp (penalized threshold (selfScore (!children.isEmpty) (metricScore r metrics s)
      (capabilityScore r required s.capabilities) (weightedScore s children)
      (totalWeight children))))

/-- `sum(self._score_node(node, agent_state) * node.reward_weight for node in nodes)` -/
def weightedScore (s : AgentState K) : List (GoalNode K) → K
  | [] => 0
  | node :: nodes => scoreNode s node * node.rewardWeight + weightedScore s nodes

end

/-- `compute_goal_score` of a graph with these roots -/
def computeGoalScore (roots : List (GoalNode K)) (s : AgentState K) : K :=
  if roots = [] then 0
  else if totalWeight roots ≤ 0 then 0
  else r.round6 (clamp (weightedScore r s roots / totalWeight roots))

/-- Each metric of the first state is at most what the second one has, and each capability of the
first is one of the second. -/
structure Improves (s₁ s₂ : AgentState K) : Prop where
  metrics : ∀ name x, s₁.metrics.lookup name = some x → x ≤ s₂.observed name
  capabilities : ∀ c ∈ s₁.capabilities, c ∈ s₂.capabilities

/-! ### Monotony

A pair of numbers `0 ≤ x ≤ y ≤ 1` goes through every part of the score.
-/

variable [IsStrictOrderedRing K]

/-- Two scores of which the second is at least the first. -/
structure Rises (x y : K) : Prop where
  nonneg : 0 ≤ x
  le : x ≤ y
  le_one : y ≤ 1

variable {r} {x y : K} {s₁ s₂ : AgentState K}

theorem rises_one : Rises (1 : K) 1 :=
  ⟨zero_le_one, le_rfl, le_rfl⟩

omit [IsStrictOrderedRing K] in
theorem Rises.round6 (h : Rises x y) : Rises (r.round6 x) (r.round6 y) where
  nonneg := r.zero ▸ r.monotone h.nonneg
  le := r.monotone h.le
  le_one := r.one ▸ r.monotone h.le_one

theorem rises_clamp (h : x ≤ y ∨ x ≤ 0) : Rises (clamp x) (clamp y) where
  nonneg := le_min (le_max_right _ _) zero_le_one
  le := by
    refine min_le_min_right _ (max_le ?_ (le_max_right _ _))
    rcases h with h | h
    · exact h.trans (le_max_left _ _)
    · exact h.trans (le_max_right _ _)
  le_one := min_le_right _ _

theorem rises_mean {α : Type} {f g : α → K} (l : List α) (h : ∀ a ∈ l, Rises (f a) (g a)) :
    Rises ((l.map f).sum / l.length) ((l.map g).sum / l.length) where
  nonneg := by
    refine div_nonneg (List.sum_nonneg fun x hx => ?_) (Nat.cast_nonneg _)
    obtain ⟨a, ha, rfl⟩ := List.mem_map.mp hx
    exact (h a ha).nonneg
  le := div_le_div_of_nonneg_right (List.sum_le_sum fun a ha => (h a ha).le) (Nat.cast_nonneg _)
  le_one := by
    refine div_le_one_of_le₀ ?_ (Nat.cast_nonneg _)
    calc (l.map g).sum ≤ (l.map g).length • (1 : K) := by
          refine List.sum_le_card_nsmul _ _ fun x hx => ?_
          obtain ⟨a, ha, rfl⟩ := List.mem_map.mp hx
          exact (h a ha).le_one
      _ = l.length := by rw [List.length_map, nsmul_one]

theorem rises_metricScore (h : Improves s₁ s₂) (targets : List (Str × K)) :
    Rises (metricScore r targets s₁) (metricScore r targets s₂) := by
  unfold metricScore
  by_cases hnil : targets = []
  · rw [if_pos hnil, if_pos hnil]
    exact rises_one
  · rw [if_neg hnil, if_neg hnil]
    dsimp only
    rw [List.length_map, List.length_map]
    refine (rises_mean _ fun name _ => rises_clamp ?_).round6
    have hpos : 0 < max ((targets.lookup name).getD 0) (1e-9 : K) :=
      lt_max_of_lt_right (by positivity)
    cases hname : s₁.metrics.lookup name with
    | none =>
      right
      rw [AgentState.observed, hname, Option.getD_none, zero_div]
    | some x =>
      left
      refine div_le_div_of_nonneg_right ?_ hpos.le
      rw [AgentState.observed, hname, Option.getD_some]
      exact h.metrics name x hname

theorem rises_capabilityScore (h : Improves s₁ s₂) (required : List Str) :
    Rises (capabilityScore r required s₁.capabilities)
      (capabilityScore r required s₂.capabilities) := by
  have hstripped : ∀ c ∈ strippedSet s₁.capabilities, c ∈ strippedSet s₂.capabilities := by
    simp only [strippedSet, List.mem_dedup, List.mem_filter, List.mem_map]
    rintro _ ⟨⟨c, hc, rfl⟩, hne⟩
    exact ⟨⟨c, h.capabilities c hc, rfl⟩, hne⟩
  unfold capabilityScore
  by_cases hnil : required.dedup = []
  · rw [if_pos hnil, if_pos hnil]
    exact rises_one
  · rw [if_neg hnil, if_neg hnil]
    refine Rises.round6 ⟨by positivity, ?_, ?_⟩
    · refine div_le_div_of_nonneg_right (Nat.cast_le.mpr ?_) (Nat.cast_nonneg _)
      refine (List.monotone_filter_right _ fun c hc => ?_).length_le
      exact decide_eq_true (hstripped c (of_decide_eq_true hc))
    · exact div_le_one_of_le₀ (Nat.cast_le.mpr (List.length_filter_le _ _)) (Nat.cast_nonneg _)

theorem penalized_le (t : K) (h0 : 0 ≤ x) (h : x ≤ y) : penalized t x ≤ penalized t y := by
  unfold penalized
  split_ifs <;> linarith

theorem selfScore_le {b : Bool} {m₁ m₂ c₁ c₂ w₁ w₂ w : K} (hm : Rises m₁ m₂) (hc : Rises c₁ c₂)
    (hw : 0 ≤ w₁ ∧ w₁ ≤ w₂) :
    0 ≤ selfScore b m₁ c₁ w₁ w ∧ selfScore b m₁ c₁ w₁ w ≤ selfScore b m₂ c₂ w₂ w := by
  have hown₀ : 0 ≤ m₁ * 0.8 + c₁ * 0.2 := by linarith [hm.nonneg, hc.nonneg]
  have hown : m₁ * 0.8 + c₁ * 0.2 ≤ m₂ * 0.8 + c₂ * 0.2 := by
    linarith [hm.le, hc.le]
  have hchild : 0 ≤ (if 0 < w then w₁ / w else 0) ∧
      (if 0 < w then w₁ / w else 0) ≤ if 0 < w then w₂ / w else 0 := by
    split_ifs with hpos
    · exact ⟨div_nonneg hw.1 hpos.le, div_le_div_of_nonneg_right hw.2 hpos.le⟩
    · exact ⟨le_rfl, le_rfl⟩
  unfold selfScore
  cases b with
  | false => exact ⟨hown₀, hown⟩
  | true =>
    simp only [if_true]
    exact ⟨by linarith [hchild.1], by linarith [hchild.2]⟩

omit [IsStrictOrderedRing K] in
theorem rewardWeight_nonneg (p : Payload K) : 0 ≤ (parseNode p).rewardWeight := by
  cases p with
  | mk => exact le_max_left _ _

mutual

theorem rises_scoreNode (h : Improves s₁ s₂) :
    ∀ p : Payload K, Rises (scoreNode r s₁ (parseNode p)) (scoreNode r s₂ (parseNode p))
  | ⟨_, _, _, _, metrics, capabilities, threshold, _, children⟩ => by
    have hself := selfScore_le (b := !(parseNodes children).isEmpty)
      (w := totalWeight (parseNodes children))
      (rises_metricScore (r := r) h (metrics.foldl parseMetric []))
      (rises_capabilityScore (r := r) h (sortedTexts (strippedSet capabilities)))
      (weightedScore_le h children)
    exact (rises_clamp (.inl (penalized_le _ hself.1 hself.2))).round6

theorem weightedScore_le (h : Improves s₁ s₂) :
    ∀ ps : List (Payload K), 0 ≤ weightedScore r s₁ (parseNodes ps) ∧
      weightedScore r s₁ (parseNodes ps) ≤ weightedScore r s₂ (parseNodes ps)
  | [] => ⟨le_rfl, le_rfl⟩
  | p :: ps => by
    have hnode := rises_scoreNode h p
    have hrest := weightedScore_le h ps
    have hweight := rewardWeight_nonneg p
    exact ⟨add_nonneg (mul_nonneg hnode.nonneg hweight) hrest.1,
      add_le_add (mul_le_mul_of_nonneg_right hnode.le hweight) hrest.2⟩

end

/-- Improving an agent never lowers its score, which is in the unit interval. -/
theorem rises_computeGoalScore (r : Rounding K) (goals : List (Payload K)) {s₁ s₂ : AgentState K}
    (h : Improves s₁ s₂) :
    Rises (computeGoalScore r (parseNodes goals) s₁)
      (computeGoalScore r (parseNodes goals) s₂) := by
  unfold computeGoalScore
  by_cases hnil : parseNodes goals = []
  · rw [if_pos hnil, if_pos hnil]
    exact ⟨le_rfl, le_rfl, zero_le_one⟩
  · rw [if_neg hnil, if_neg hnil]
    by_cases hweight : totalWeight (parseNodes goals) ≤ 0
    · rw [if_pos hweight, if_pos hweight]
      exact ⟨le_rfl, le_rfl, zero_le_one⟩
    · rw [if_neg hweight, if_neg hweight]
      have hsum := weightedScore_le (r := r) h goals
      exact (rises_clamp (.inl (div_le_div_of_nonneg_right hsum.2 (not_le.mp hweight).le))).round6

def sixDecimals : Rounding ℚ where
  round6 x := (⌊x * 10 ^ 6 + 1 / 2⌋ : ℚ) / 10 ^ 6
  monotone x y h := by
    refine div_le_div_of_nonneg_right (Int.cast_le.mpr (Int.floor_mono ?_)) (by norm_num)
    linarith
  zero := by norm_num
  one := by norm_num

/-- A goal with a metric, and one below it with a capability. -/
def nestedGoals : List (Payload ℚ) :=
  [⟨str "g", [], [], [], [⟨str "m", some 2⟩], [], none, none,
    [⟨str "h", [], [], [], [], [str "c"], none, none, []⟩]⟩]

theorem rises_computeGoalScore_nestedGoals :
    Rises (computeGoalScore sixDecimals (parseNodes nestedGoals) ⟨[(str "m", 1)], []⟩)
      (computeGoalScore sixDecimals (parseNodes nestedGoals) ⟨[(str "m", 2)], [str "c"]⟩) := by
  refine rises_computeGoalScore sixDecimals nestedGoals ⟨fun name x hx => ?_, fun c hc => ?_⟩
  · rw [Assoc.lookup_cons] at hx
    split_ifs at hx with hname
    · rw [← Option.some.inj hx, hname]
      exact one_le_two
    · cases hx
  · exact absurd hc List.not_mem_nil

end Adaad.GoalGraph
