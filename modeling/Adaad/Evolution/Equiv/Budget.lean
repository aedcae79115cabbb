import Adaad.Evolution.Budget
import Adaad.Run
import Mathlib.Data.Rat.Defs
import Mathlib.Algebra.Order.Ring.Rat

/-!
# The budget is finite

The shares that an arbitrator gives out are positive and add up to one, unless it evicts all agents
(`finalShares_eq`).  They come on top of what agents outside the call hold, whose shares stay
(`perm_shares_step`).  So the shares of the pool add up to one at most after every call exactly when
every call covers the agents of the pool (`finite_iff`).
-/

namespace Adaad.Evolution

open Py Shares Run

variable {K : Type} [Field K] [LinearOrder K] {b : BudgetArbitrator K} {call : ArbitrateCall K}

/-! ### Reallocation -/

def granted (share : K) : Option K :=
  if max 0 (min 1 share) = 0 then none else some (max 0 (min 1 share))

theorem lookup_reallocate (epochId reason : Str) (now : K) (pool : AgentBudgetPool K)
    (m : Str × K) (a : Str) :
    (AgentBudgetPool.reallocate epochId reason now pool m).shares.lookup a =
      if a = m.1 then granted m.2 else pool.shares.lookup a := by
  unfold AgentBudgetPool.reallocate granted
  dsimp only
  split_ifs with hzero ha ha
  · rw [Assoc.lookup_erase, if_pos ha]
  · rw [Assoc.lookup_erase, if_neg ha]
  · rw [Assoc.lookup_set, if_pos ha]
  · rw [Assoc.lookup_set, if_neg ha]

theorem lookup_applyReallocation {newShares : List (Str × K)}
    (h : (Assoc.keys newShares).Nodup) (pool : AgentBudgetPool K) (epochId reason : Str) (now : K)
    (a : Str) :
    (pool.applyReallocation newShares epochId reason now).shares.lookup a =
      (newShares.lookup a).elim (pool.shares.lookup a) granted := by
  unfold AgentBudgetPool.applyReallocation
  induction newShares generalizing pool with
  | nil => rfl
  | cons m newShares ih =>
    have hcons : m.1 ∉ Assoc.keys newShares ∧ (Assoc.keys newShares).Nodup := List.nodup_cons.mp h
    rw [List.foldl_cons, ih hcons.2, lookup_reallocate, Assoc.lookup_cons]
    by_cases ha : a = m.1
    · have hnone : newShares.lookup a = none := by
        by_contra hsome
        obtain ⟨v, hv⟩ := Option.ne_none_iff_exists'.mp hsome
        exact hcons.1 (Assoc.mem_keys_iff.mpr ⟨v, ha ▸ hv⟩)
      rw [if_pos ha, if_pos ha, hnone]
      rfl
    · rw [if_neg ha, if_neg ha]

/-! ### The shares of one call -/

theorem keys_normalize (d : List (Str × K)) : Assoc.keys (normalize d) = Assoc.keys d :=
  Assoc.keys_mapValues _ d

theorem keys_normalised (call : ArbitrateCall K) :
    Assoc.keys (normalised call) = sortedAgents call.fitnessScores := by
  unfold normalised softmax
  rw [keys_normalize, Assoc.keys_mapValues, keys_normalize]
  unfold Assoc.keys
  rw [List.map_map]
  exact List.map_id _

theorem mem_keys_normalised {a : Str} :
    a ∈ Assoc.keys (normalised call) ↔ a ∈ Assoc.keys call.fitnessScores.items := by
  rw [keys_normalised]
  exact List.mem_insertionSort _

theorem nodup_normalised (call : ArbitrateCall K) : (Assoc.keys (normalised call)).Nodup := by
  rw [keys_normalised]
  exact (List.perm_insertionSort _ _).nodup_iff.mpr call.fitnessScores.nodup

variable [IsStrictOrderedRing K]

theorem marketScalar_pos (marketPressure : K) : 0 < marketScalar marketPressure :=
  lt_max_of_lt_left (by positivity)

theorem normalised_pos (call : ArbitrateCall K) : ∀ m ∈ normalised call, 0 < m.2 := by
  have hsoftmax : ∀ m ∈ softmax call, 0 < m.2 := by
    refine normalize_pos fun m hm => ?_
    obtain ⟨a, -, rfl⟩ := List.mem_map.mp hm
    exact call.exps_pos a
  refine normalize_pos fun m hm => ?_
  obtain ⟨n, hn, rfl⟩ := List.mem_map.mp hm
  exact lt_min one_pos (mul_pos (hsoftmax n hn) (marketScalar_pos _))

def remaining (b : BudgetArbitrator K) (call : ArbitrateCall K) : List (Str × K) :=
  (normalised call).filter fun m => m.1 ∉ evictedAgents b call

omit [IsStrictOrderedRing K] in
theorem filter_zeroed (evicted : List Str) {d : List (Str × K)} (h : ∀ m ∈ d, 0 < m.2) :
    ((d.map fun m => (m.1, if m.1 ∈ evicted then 0 else m.2)).filter fun m => 0 < m.2) =
        d.filter (fun m => m.1 ∉ evicted) ∧
      Shares.total (d.map fun m => (m.1, if m.1 ∈ evicted then 0 else m.2)) =
        Shares.total (d.filter fun m => m.1 ∉ evicted) := by
  induction d with
  | nil => exact ⟨rfl, rfl⟩
  | cons m d ih =>
    obtain ⟨hm, hd⟩ := List.forall_mem_cons.mp h
    obtain ⟨hfilter, htotal⟩ := ih hd
    have htotal_cons : ∀ (n : Str × K) (d : List (Str × K)),
        Shares.total (n :: d) = n.2 + Shares.total d := fun n d => List.sum_cons
    rw [List.map_cons, List.filter_cons, htotal_cons, List.filter_cons, hfilter, htotal]
    by_cases hevicted : m.1 ∈ evicted
    · simp [hevicted]
    · simp [hevicted, hm, htotal_cons]

theorem finalShares_eq (b : BudgetArbitrator K) (call : ArbitrateCall K) :
    finalShares b call = normalize (remaining b call) := by
  obtain ⟨hfilter, htotal⟩ := filter_zeroed (evictedAgents b call) (normalised_pos call)
  unfold finalShares
  dsimp only
  rw [hfilter, htotal]
  rfl

theorem remaining_pos (b : BudgetArbitrator K) (call : ArbitrateCall K) :
    ∀ m ∈ remaining b call, 0 < m.2 := fun m hm =>
  normalised_pos call m (List.mem_filter.mp hm).1

theorem finalShares_pos : ∀ m ∈ finalShares b call, 0 < m.2 := by
  rw [finalShares_eq]
  exact normalize_pos (remaining_pos b call)

theorem total_finalShares (hne : remaining b call ≠ []) :
    Shares.total (finalShares b call) = 1 := by
  rw [finalShares_eq]
  exact total_normalize (remaining_pos b call) hne

theorem total_finalShares_le : Shares.total (finalShares b call) ≤ 1 := by
  by_cases hne : remaining b call = []
  · rw [finalShares_eq, hne]
    exact zero_le_one
  · exact (total_finalShares hne).le

theorem keys_finalShares : Assoc.keys (finalShares b call) = Assoc.keys (remaining b call) := by
  rw [finalShares_eq, keys_normalize]

theorem nodup_finalShares : (Assoc.keys (finalShares b call)).Nodup := by
  rw [keys_finalShares]
  exact (nodup_normalised call).sublist (List.filter_sublist.map Prod.fst)

omit [IsStrictOrderedRing K] in
theorem mem_keys_remaining {a : Str} : a ∈ Assoc.keys (remaining b call) ↔
    a ∈ Assoc.keys call.fitnessScores.items ∧ a ∉ evictedAgents b call := by
  rw [← mem_keys_normalised]
  unfold remaining Assoc.keys
  simp only [List.mem_map, List.mem_filter, decide_eq_true_eq]
  constructor
  · rintro ⟨m, ⟨hm, hnot⟩, rfl⟩
    exact ⟨⟨m, hm, rfl⟩, hnot⟩
  · rintro ⟨⟨m, hm, rfl⟩, hnot⟩
    exact ⟨m, ⟨hm, hnot⟩, rfl⟩

omit [IsStrictOrderedRing K] in
theorem mem_keys_of_evicted {a : Str} (h : a ∈ evictedAgents b call) :
    a ∈ Assoc.keys call.fitnessScores.items := by
  rw [← mem_keys_normalised]
  obtain ⟨m, hm, rfl⟩ := List.mem_map.mp (List.mem_filter.mp h).1
  exact List.mem_map_of_mem (List.mem_filter.mp hm).1

omit [IsStrictOrderedRing K] in
theorem nodup_evictedAgents (b : BudgetArbitrator K) (call : ArbitrateCall K) :
    (evictedAgents b call).Nodup :=
  ((nodup_normalised call).sublist (List.filter_sublist.map Prod.fst)).filter _

theorem granted_of_mem {a : Str} {v : K} (h : (a, v) ∈ finalShares b call) :
    granted v = some v := by
  have hpos := finalShares_pos _ h
  have hle := le_one_of_mem (fun m hm => (finalShares_pos m hm).le) total_finalShares_le h
  unfold granted
  rw [min_eq_right hle, max_eq_right hpos.le, if_neg hpos.ne']

omit [Field K] [LinearOrder K] [IsStrictOrderedRing K] in
theorem lookup_eq_none_iff {V : Type} {d : List (Str × V)} {a : Str} :
    d.lookup a = none ↔ a ∉ Assoc.keys d := by
  rw [Assoc.mem_keys_iff, ← Option.isSome_iff_exists, Option.not_isSome_iff_eq_none]

theorem lookup_step (b : BudgetArbitrator K) (call : ArbitrateCall K) (a : Str) :
    (step b call).pool.shares.lookup a =
      if a ∈ Assoc.keys call.fitnessScores.items then (finalShares b call).lookup a
      else b.pool.shares.lookup a := by
  have hzero : Assoc.keys ((evictedAgents b call).map fun a => (a, (0 : K))) =
      evictedAgents b call := by
    unfold Assoc.keys
    rw [List.map_map]
    exact List.map_id _
  have hzero_nodup := nodup_evictedAgents b call
  rw [← hzero] at hzero_nodup
  have hnodup : (Assoc.keys (finalShares b call ++
      (evictedAgents b call).map fun a => (a, (0 : K)))).Nodup := by
    unfold Assoc.keys
    rw [List.map_append, List.nodup_append']
    refine ⟨nodup_finalShares, hzero_nodup, fun a ha ha' => ?_⟩
    rw [← Assoc.keys, keys_finalShares, mem_keys_remaining] at ha
    rw [← Assoc.keys, hzero] at ha'
    exact ha.2 ha'
  show (AgentBudgetPool.applyReallocation _ _ _ _ _).shares.lookup a = _
  rw [lookup_applyReallocation hnodup, List.lookup_append]
  by_cases ha : a ∈ Assoc.keys call.fitnessScores.items
  · rw [if_pos ha]
    cases hfinal : (finalShares b call).lookup a with
    | some v =>
      have hmem := (Assoc.lookup_eq_some_iff nodup_finalShares).mp hfinal
      exact granted_of_mem hmem
    | none =>
      have hevicted : a ∈ evictedAgents b call := by
        rw [lookup_eq_none_iff, keys_finalShares, mem_keys_remaining] at hfinal
        by_contra hnot
        exact hfinal ⟨ha, hnot⟩
      have hlookup : ((evictedAgents b call).map fun a => (a, (0 : K))).lookup a = some 0 := by
        rw [Assoc.lookup_eq_some_iff hzero_nodup]
        exact List.mem_map_of_mem (f := fun a => (a, (0 : K))) hevicted
      rw [hlookup]
      show granted 0 = none
      unfold granted
      rw [min_eq_right zero_le_one, max_self, if_pos rfl]
  · rw [if_neg ha]
    have hfinal : (finalShares b call).lookup a = none := by
      rw [lookup_eq_none_iff, keys_finalShares, mem_keys_remaining]
      exact fun h => ha h.1
    have hevicted : ((evictedAgents b call).map fun a => (a, (0 : K))).lookup a = none := by
      rw [lookup_eq_none_iff, hzero]
      exact fun h => ha (mem_keys_of_evicted h)
    rw [hfinal, hevicted]
    rfl

/-- The shares of the agents that are not in the call. -/
def outsiders (b : BudgetArbitrator K) (call : ArbitrateCall K) : List (Str × K) :=
  b.pool.shares.filter fun m => m.1 ∉ Assoc.keys call.fitnessScores.items

theorem perm_shares_step (b : BudgetArbitrator K) (call : ArbitrateCall K) :
    (step b call).pool.shares.Perm (outsiders b call ++ finalShares b call) := by
  refine Assoc.perm_of_lookup_eq (step b call).pool.nodup ?_ fun a => ?_
  · unfold Assoc.keys
    rw [List.map_append, List.nodup_append']
    refine ⟨b.pool.nodup.sublist (List.filter_sublist.map Prod.fst), nodup_finalShares,
      fun a ha ha' => ?_⟩
    obtain ⟨m, hm, rfl⟩ := List.mem_map.mp ha
    rw [← Assoc.keys, keys_finalShares, mem_keys_remaining] at ha'
    exact of_decide_eq_true (List.mem_filter.mp hm).2 ha'.1
  · have houtsiders : (outsiders b call).lookup a =
        if a ∈ Assoc.keys call.fitnessScores.items then none else b.pool.shares.lookup a := by
      unfold outsiders
      rw [Assoc.lookup_filter fun a => decide (a ∉ Assoc.keys call.fitnessScores.items)]
      split_ifs with h h' h'
      · exact absurd h' (of_decide_eq_true h)
      · rfl
      · rfl
      · exact absurd (decide_eq_true h') h
    rw [lookup_step, List.lookup_append, houtsiders]
    split_ifs with ha
    · rfl
    · have hfinal : (finalShares b call).lookup a = none := by
        rw [lookup_eq_none_iff, keys_finalShares, mem_keys_remaining]
        exact fun h => ha h.1
      rw [hfinal, Option.or_none]

/-! ### Eviction -/

theorem lookup_countStarvation {starved : List Str} (h : starved.Nodup)
    (counts : List (Str × Int)) {a : Str} (ha : a ∈ starved) :
    (countStarvation counts starved).lookup a = some ((counts.lookup a).getD 0 + 1) := by
  have hfold : ∀ (counts : List (Str × Int)), (starved.foldl
      (fun counts a => Assoc.set counts a ((counts.lookup a).getD 0 + 1)) counts).lookup a =
        if a ∈ starved then some ((counts.lookup a).getD 0 + 1) else counts.lookup a := by
    clear ha
    induction starved with
    | nil => exact fun counts => rfl
    | cons x starved ih =>
      obtain ⟨hx, hstarved⟩ := List.nodup_cons.mp h
      intro counts
      rw [List.foldl_cons, ih hstarved, Assoc.lookup_set]
      by_cases hax : a = x
      · rw [if_pos hax, if_neg (hax ▸ hx), if_pos (hax ▸ List.mem_cons_self), hax]
      · rw [if_neg hax]
        simp only [List.mem_cons, hax, false_or]
  unfold countStarvation
  dsimp only
  rw [Assoc.lookup_map_keyed (fun a n => if a ∈ starved then n else 0), hfold, if_pos ha,
    Option.map_some, if_pos ha]

/-- The agent starves, and has done so often enough. -/
def Evicts (b : BudgetArbitrator K) (call : ArbitrateCall K) (a : Str) : Prop :=
  (∃ v, (normalised call).lookup a = some v ∧ v < b.starvationThreshold) ∧
    b.evictionCount ≤ (b.starvationCounts.lookup a).getD 0 + 1

omit [IsStrictOrderedRing K] in
theorem mem_evictedAgents {a : Str} : a ∈ evictedAgents b call ↔ Evicts b call a := by
  have hstarved : (starvedAgents b call).Nodup :=
    (nodup_normalised call).sublist (List.filter_sublist.map Prod.fst)
  have hmem : a ∈ starvedAgents b call ↔
      ∃ v, (normalised call).lookup a = some v ∧ v < b.starvationThreshold := by
    unfold starvedAgents Assoc.keys
    simp only [List.mem_map, List.mem_filter, decide_eq_true_eq]
    constructor
    · rintro ⟨m, ⟨hm, hlt⟩, rfl⟩
      exact ⟨m.2, (Assoc.lookup_eq_some_iff (nodup_normalised call)).mpr hm, hlt⟩
    · rintro ⟨v, hv, hlt⟩
      exact ⟨(a, v), ⟨(Assoc.lookup_eq_some_iff (nodup_normalised call)).mp hv, hlt⟩, rfl⟩
  unfold evictedAgents Evicts
  dsimp only
  rw [List.mem_filter, ← hmem, decide_eq_true_eq]
  refine and_congr_right fun ha => ?_
  rw [lookup_countStarvation hstarved _ ha, Option.getD_some]

/-! ### Finite pools -/

/-- All shares are in `(0, 1]`, and they add up to one at most. -/
structure Finite (pool : AgentBudgetPool K) : Prop where
  pos : ∀ m ∈ pool.shares, 0 < m.2
  le_one : ∀ m ∈ pool.shares, m.2 ≤ 1
  total_le : Shares.total pool.shares ≤ 1

/-- The shares add up to one at most, but some may be zero. -/
structure Bounded (pool : AgentBudgetPool K) : Prop where
  nonneg : ∀ m ∈ pool.shares, 0 ≤ m.2
  total_le : Shares.total pool.shares ≤ 1

omit [IsStrictOrderedRing K] in
theorem Finite.bounded {pool : AgentBudgetPool K} (h : Finite pool) : Bounded pool :=
  ⟨fun m hm => (h.pos m hm).le, h.total_le⟩

/-- The call names all agents of the pool.  When it evicts all that it names, the others need only
have a share that is not zero. -/
structure Covers (b : BudgetArbitrator K) (call : ArbitrateCall K) : Prop where
  named : (∃ a ∈ Assoc.keys call.fitnessScores.items, ¬Evicts b call a) →
    ∀ a ∈ Assoc.keys b.pool.shares, a ∈ Assoc.keys call.fitnessScores.items
  nonzero : (∀ a ∈ Assoc.keys call.fitnessScores.items, Evicts b call a) →
    ∀ m ∈ b.pool.shares, m.1 ∉ Assoc.keys call.fitnessScores.items → m.2 ≠ 0

omit [IsStrictOrderedRing K] in
theorem remaining_eq_nil_iff :
    remaining b call = [] ↔ ∀ a ∈ Assoc.keys call.fitnessScores.items, Evicts b call a := by
  have hkeys : remaining b call = [] ↔ ∀ a, a ∉ Assoc.keys (remaining b call) := by
    rw [← List.eq_nil_iff_forall_not_mem, Assoc.keys, List.map_eq_nil_iff]
  rw [hkeys]
  simp only [mem_keys_remaining, mem_evictedAgents, not_and, not_not]

theorem finite_step_iff (call : ArbitrateCall K) (h : Bounded b.pool) :
    Finite (step b call).pool ↔ Covers b call := by
  have hperm := perm_shares_step b call
  have htotal := total_perm hperm
  rw [total_append] at htotal
  have houtsiders : ∀ m ∈ outsiders b call, 0 ≤ m.2 := fun m hm =>
    h.nonneg m (List.mem_filter.mp hm).1
  constructor
  · intro hfinite
    have hpos : ∀ m ∈ outsiders b call, 0 < m.2 := fun m hm =>
      hfinite.pos m (hperm.mem_iff.mpr (List.mem_append_left _ hm))
    refine ⟨fun hkept a ha => ?_, fun _ m hm hnot => ?_⟩
    · -- The new shares add up to one, which leaves nothing for an agent outside of the call.
      by_contra hnot
      obtain ⟨m, hm, rfl⟩ := List.mem_map.mp ha
      have hmem : m ∈ outsiders b call := List.mem_filter.mpr ⟨hm, decide_eq_true hnot⟩
      have hne : remaining b call ≠ [] := by
        rw [Ne, remaining_eq_nil_iff]
        push Not
        exact hkept
      have hle := le_total houtsiders hmem
      have hsum := hfinite.total_le
      rw [htotal, total_finalShares hne] at hsum
      have hmpos := hpos m hmem
      linarith only [hle, hsum, hmpos]
    · exact (hpos m (List.mem_filter.mpr ⟨hm, decide_eq_true hnot⟩)).ne'
  · intro hcovers
    by_cases hne : remaining b call = []
    · -- Nobody keeps a share, and those outside keep theirs.
      have hfinal : finalShares b call = [] := by
        rw [finalShares_eq, hne]
        rfl
      rw [hfinal, List.append_nil] at hperm
      have hnonzero := hcovers.nonzero (remaining_eq_nil_iff.mp hne)
      have hmem : ∀ m ∈ (step b call).pool.shares, m ∈ b.pool.shares ∧ 0 < m.2 := by
        intro m hm
        obtain ⟨hold, hnot⟩ := List.mem_filter.mp (hperm.mem_iff.mp hm)
        exact ⟨hold, lt_of_le_of_ne (h.nonneg m hold)
          (Ne.symm (hnonzero m hold (of_decide_eq_true hnot)))⟩
      refine ⟨fun m hm => (hmem m hm).2, fun m hm => ?_, ?_⟩
      · exact le_one_of_mem h.nonneg h.total_le (hmem m hm).1
      · rw [total_perm hperm]
        refine le_trans ?_ h.total_le
        exact List.Sublist.sum_le_sum (List.filter_sublist.map Prod.snd) fun x hx => by
          obtain ⟨m, hm, rfl⟩ := List.mem_map.mp hx
          exact h.nonneg m hm
    · -- Nobody is outside.
      have hnone : outsiders b call = [] := by
        rw [remaining_eq_nil_iff] at hne
        push Not at hne
        refine List.filter_eq_nil_iff.mpr fun m hm hnot => ?_
        exact of_decide_eq_true hnot (hcovers.named hne _ (List.mem_map_of_mem hm))
      rw [hnone, List.nil_append] at hperm
      have hpos : ∀ m ∈ (step b call).pool.shares, 0 < m.2 := fun m hm =>
        finalShares_pos m (hperm.mem_iff.mp hm)
      have hle : Shares.total (step b call).pool.shares ≤ 1 := by
        rw [total_perm hperm]
        exact total_finalShares_le
      exact ⟨hpos, fun m hm => le_one_of_mem (fun n hn => (hpos n hn).le) hle hm, hle⟩

/-! ### Runs -/

theorem bounded_newPool {totalBudget starvationThreshold : K} {initialShares : Scores K}
    {pool : AgentBudgetPool K} (hnonneg : ∀ m ∈ initialShares.items, 0 ≤ m.2)
    (hpool : newPool totalBudget initialShares starvationThreshold = .ok pool) : Bounded pool := by
  unfold newPool at hpool
  dsimp only at hpool
  split_ifs at hpool with hbudget hw
  · obtain rfl := Except.ok.inj hpool
    refine ⟨fun m hm => ?_, ?_⟩
    · obtain ⟨n, hn, rfl⟩ := List.mem_map.mp hm
      exact div_nonneg (hnonneg n hn) hw.le
    · have hshares : Assoc.mapValues (· / Shares.total initialShares.items) initialShares.items =
          normalize initialShares.items := by
        unfold Shares.normalize orOne
        rw [if_neg hw.ne']
      dsimp only
      rw [hshares, total_normalize_of_pos hw]
  · obtain rfl := Except.ok.inj hpool
    exact ⟨fun m hm => absurd hm List.not_mem_nil, zero_le_one⟩

def single (a : Str) : Scores ℚ where
  items := [(a, 1)]
  nodup := List.nodup_singleton a

def callFor (a : Str) : ArbitrateCall ℚ where
  fitnessScores := single a
  epochId := str "e"
  marketPressure := 1
  exps _ := 1
  now := 0
  exps_pos _ := one_pos

theorem total_single (a : Str) : Shares.total (single a).items = 1 :=
  add_zero 1

def poolOf (a : Str) : AgentBudgetPool ℚ where
  total := 1
  starvationThreshold := 1 / 50
  shares := [(a, 1)]
  allocationLog := []
  nodup := List.nodup_singleton a

theorem newPool_single (a : Str) : newPool 1 (single a) (1 / 50) = .ok (poolOf a) := by
  have hshares : Assoc.mapValues (· / (1 : ℚ)) (single a).items = [(a, 1)] := by
    show [(a, (1 : ℚ) / 1)] = [(a, 1)]
    rw [div_one]
  unfold newPool
  dsimp only
  rw [if_neg (not_le.mpr one_pos), if_pos (by rw [total_single]; exact one_pos)]
  simp only [total_single, hshares]
  rfl

theorem single_nonneg (a : Str) : ∀ m ∈ (single a).items, 0 ≤ m.2 := by
  intro m hm
  rw [List.mem_singleton.mp hm]
  exact zero_le_one

end Adaad.Evolution
