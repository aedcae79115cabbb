import Adaad.Evolution.CrossNode
import Adaad.Evolution.Equiv.Budget
import Adaad.Py.Json.Equiv.Sort

/-!
# Evictions without a quorum

The local arbitrator has taken the agents out of the pool before the quorum is asked for, and
nothing puts them back.  So the pool keeps its agents when the quorum is not met exactly when no
agent that it holds was due for eviction (`keepsAgents_iff`), as it does without any quorum.
-/

namespace Adaad.Evolution

open Py

variable {K : Type} [Field K] [LinearOrder K] [IsStrictOrderedRing K]
  {b : BudgetArbitrator K} {call : ArbitrateCall K}

def agents (pool : AgentBudgetPool K) : List Str :=
  Assoc.keys pool.shares

theorem mem_agents_step_iff {a : Str} (ha : a ∈ agents b.pool) :
    a ∈ agents (step b call).pool ↔ ¬Evicts b call a := by
  unfold agents at ha ⊢
  rw [Assoc.mem_keys_iff, lookup_step]
  split_ifs with hcall
  · rw [← Assoc.mem_keys_iff, keys_finalShares, mem_keys_remaining, and_iff_right hcall,
      mem_evictedAgents]
  · refine iff_of_true (Assoc.mem_keys_iff.mp ha) fun hevicts => ?_
    exact hcall (mem_keys_of_evicted (mem_evictedAgents.mpr hevicts))

/-- The evictions of the call exceed half of the agents, and the quorum that is required for this is
not reported. -/
structure Blocked (c : CrossNodeBudgetArbitrator K) (call : ClusterCall K) : Prop where
  required : c.requireQuorum = true
  exceeds : 1 / 2 < c.evictionFraction call (c.arbitrateCluster call).2.clusterEvicted
  unmet : c.checkQuorum call = false

omit [IsStrictOrderedRing K] in
/-- The result of a blocked call says that no eviction may be applied. -/
theorem effectiveEvictions_of_blocked {c : CrossNodeBudgetArbitrator K} {call : ClusterCall K}
    (h : Blocked c call) : (c.arbitrateCluster call).2.effectiveEvictions = [] := by
  have hrequired : (c.arbitrateCluster call).2.quorumRequired = true := by
    show (c.requireQuorum && decide (1 / 2 < c.evictionFraction call _)) = true
    rw [h.required, Bool.true_and]
    exact decide_eq_true h.exceeds
  have hmet : (c.arbitrateCluster call).2.quorumMet = some false := by
    show (if (c.arbitrateCluster call).2.quorumRequired = true then some (c.checkQuorum call)
      else none) = some false
    rw [if_pos hrequired, h.unmet]
  unfold ClusterArbitrationResult.effectiveEvictions
  rw [if_pos ⟨hrequired, hmet⟩]

/-- A call whose evictions are blocked leaves the pool all its agents exactly when the pool holds
none that is due for eviction. -/
theorem keepsAgents_iff (c : CrossNodeBudgetArbitrator K) (call : ClusterCall K) :
    (Blocked c call → ∀ a ∈ agents c.localArbitrator.pool,
        a ∈ agents (c.arbitrateCluster call).1.localArbitrator.pool) ↔
      (Blocked c call → ∀ a ∈ agents c.localArbitrator.pool,
        ¬Evicts c.localArbitrator (c.localCall call) a) :=
  imp_congr_right fun _ => forall₂_congr fun _ ha => mem_agents_step_iff ha

/-! ### Two of three agents -/

/-- The agents "a", "b" and "c", each with the number one. -/
def trio : Scores ℚ where
  items := [(str "a", 1), (str "b", 1), (str "c", 1)]
  nodup := by decide

/-- A node whose pool the three share, and that evicts agents the first time they starve. -/
def strict : CrossNodeBudgetArbitrator ℚ where
  nodeId := str "n"
  localArbitrator :=
    newArbitrator
      { total := 1000
        starvationThreshold := 1 / 50
        shares := [(str "a", 1 / 3), (str "b", 1 / 3), (str "c", 1 / 3)]
        allocationLog := []
        nodup := by decide } 1 (1 / 50) 1
  requireQuorum := true
  hasConsensus := true
  peerFitness := []

/-- The first agent is far ahead of the others, and there is no quorum. -/
def lopsided : ClusterCall ℚ where
  epochId := str "e"
  localScores := trio
  marketPressure := 1
  now := some 1
  exps a := if a = str "a" then 1 else 1 / 1000
  time := 1
  hasQuorum := some false
  exps_pos a := by
    split_ifs <;> norm_num

theorem evictedAgents_lopsided :
    evictedAgents strict.localArbitrator (strict.localCall lopsided) = [str "b", str "c"] := by
  decide +kernel

theorem blocked_lopsided : Blocked strict lopsided where
  required := rfl
  exceeds := by
    show 1 / 2 < strict.evictionFraction lopsided
      (evictedAgents strict.localArbitrator (strict.localCall lopsided))
    rw [evictedAgents_lopsided]
    decide +kernel
  unmet := rfl

theorem keepsAgents_iff_lopsided :
    (Blocked strict lopsided → ∀ a ∈ agents strict.localArbitrator.pool,
        a ∈ agents (strict.arbitrateCluster lopsided).1.localArbitrator.pool) ↔
      (Blocked strict lopsided → ∀ a ∈ agents strict.localArbitrator.pool,
        ¬Evicts strict.localArbitrator (strict.localCall lopsided) a) :=
  keepsAgents_iff strict lopsided

/-- In general evictions without a quorum are applied. -/
theorem not_keepsAgents : ¬ ∀ (c : CrossNodeBudgetArbitrator ℚ) (call : ClusterCall ℚ),
    Blocked c call → ∀ a ∈ agents c.localArbitrator.pool,
      a ∈ agents (c.arbitrateCluster call).1.localArbitrator.pool := by
  intro h
  have hheld : str "b" ∈ agents strict.localArbitrator.pool := by decide
  have hstill := h strict lopsided blocked_lopsided (str "b") hheld
  refine (mem_agents_step_iff hheld).mp hstill (mem_evictedAgents.mp ?_)
  rw [evictedAgents_lopsided]
  exact List.mem_cons_self

end Adaad.Evolution

/-!
## The merged scores

Of the reports on an agent that has no local score, the first in the order in which the nodes first
reported is taken (`lookup_mergedScores`).  So two nodes that have received the same reports merge
and allocate alike, in whatever order the reports have arrived, exactly when no two of the reports
disagree on such an agent (`mergeOrderFree_iff`).
-/

namespace Adaad.Evolution

open Py

variable {K : Type}

/-! ### Merging -/

theorem lookup_mergeReport (merged : Scores K) (report : PeerFitnessReport K) (a : Str) :
    (mergeReport merged report).items.lookup a =
      (merged.items.lookup a).or (report.scores.items.lookup a) := by
  unfold mergeReport
  induction report.scores.items generalizing merged with
  | nil => exact (Option.or_none).symm
  | cons m items ih =>
    rw [List.foldl_cons, ih, Assoc.lookup_cons]
    split_ifs with hm ha ha
    · -- the agent has a score already
      obtain ⟨v, hv⟩ := Assoc.mem_keys_iff.mp hm
      rw [ha, hv]
      rfl
    · rfl
    · have hnone := lookup_eq_none_iff.mpr hm
      rw [Assoc.lookup_set, if_pos ha, ha, hnone]
      rfl
    · rw [Assoc.lookup_set, if_neg ha]

theorem lookup_foldl_mergeReport (reports : List (Str × PeerFitnessReport K)) (merged : Scores K)
    (a : Str) :
    (reports.foldl (fun merged m => mergeReport merged m.2) merged).items.lookup a =
      (merged.items.lookup a).or (reports.findSome? fun m => m.2.scores.items.lookup a) := by
  induction reports generalizing merged with
  | nil => exact (Option.or_none).symm
  | cons m reports ih =>
    rw [List.foldl_cons, ih, lookup_mergeReport, List.findSome?_cons, Option.or_assoc]
    cases m.2.scores.items.lookup a <;> rfl

theorem lookup_update (merged scores : Scores K) (a : Str) :
    (merged.update scores).items.lookup a =
      (scores.items.lookup a).or (merged.items.lookup a) := by
  have hnodup := scores.nodup
  unfold Scores.update
  revert hnodup
  induction scores.items generalizing merged with
  | nil => exact fun _ => rfl
  | cons m items ih =>
    intro hnodup
    have hcons : m.1 ∉ Assoc.keys items ∧ (Assoc.keys items).Nodup := List.nodup_cons.mp hnodup
    rw [List.foldl_cons, ih _ hcons.2, Assoc.lookup_set, Assoc.lookup_cons]
    by_cases ha : a = m.1
    · have hnone := lookup_eq_none_iff.mpr hcons.1
      rw [if_pos ha, if_pos ha, ha, hnone]
      rfl
    · rw [if_neg ha, if_neg ha]

variable [Field K] [LinearOrder K]

theorem lookup_mergedScores (c : CrossNodeBudgetArbitrator K) (call : ClusterCall K) (a : Str) :
    (c.mergedScores call).items.lookup a =
      (call.localScores.items.lookup a).or
        ((c.freshFitness call).findSome? fun m => m.2.scores.items.lookup a) := by
  unfold CrossNodeBudgetArbitrator.mergedScores
  rw [lookup_update, lookup_foldl_mergeReport]
  rfl

/-! ### The same scores -/

omit [Field K] [LinearOrder K] in
theorem sortedTexts_eq_of_perm {xs ys : List Str} (h : xs.Perm ys) :
    (xs.insertionSort fun a b => strLe a b = true) =
      ys.insertionSort fun a b => strLe a b = true :=
  List.Perm.eq_of_pairwise (fun _ _ _ _ => strLe_antisymm) (List.pairwise_insertionSort _ _)
    (List.pairwise_insertionSort _ _)
    (((List.perm_insertionSort _ xs).trans h).trans (List.perm_insertionSort _ ys).symm)

def SameScores (s s' : Scores K) : Prop :=
  ∀ a, s.items.lookup a = s'.items.lookup a

omit [Field K] [LinearOrder K] in
theorem SameScores.sortedAgents {s s' : Scores K} (h : SameScores s s') :
    sortedAgents s = sortedAgents s' :=
  sortedTexts_eq_of_perm ((Assoc.perm_of_lookup_eq s.nodup s'.nodup h).map Prod.fst)

theorem SameScores.exps {s s' : Scores K} (h : SameScores s s') (exp : K → K) (tau : K) :
    s.exps exp tau = s'.exps exp tau := by
  have hscore : (fun a => (s.items.lookup a).getD 0) = fun a => (s'.items.lookup a).getD 0 :=
    funext fun a => by rw [h a]
  funext a
  unfold Scores.exps
  rw [h.sortedAgents, hscore]

theorem finalShares_congr (b : BudgetArbitrator K) {call call' : ArbitrateCall K}
    (hagents : sortedAgents call.fitnessScores = sortedAgents call'.fitnessScores)
    (hexps : call.exps = call'.exps) (hpressure : call.marketPressure = call'.marketPressure) :
    starvedAgents b call = starvedAgents b call' ∧
      evictedAgents b call = evictedAgents b call' ∧ finalShares b call = finalShares b call' := by
  have hnormalised : normalised call = normalised call' := by
    unfold normalised softmax
    rw [hagents, hexps, hpressure]
  have hstarved : starvedAgents b call = starvedAgents b call' := by
    unfold starvedAgents
    rw [hnormalised]
  have hevicted : evictedAgents b call = evictedAgents b call' := by
    unfold evictedAgents
    rw [hstarved]
  refine ⟨hstarved, hevicted, ?_⟩
  unfold finalShares
  rw [hevicted, hnormalised]

/-! ### Arrivals -/

variable (K) in
/-- The latest reports of the peers of two nodes, which are fresh at both of them. -/
structure PeerReports (nodeId nodeId' : Str) (now : Option K) (time time' : K) where
  reports : List (PeerFitnessReport K)
  nodup : (reports.map PeerFitnessReport.nodeId).Nodup
  foreign : ∀ r ∈ reports, r.nodeId ≠ nodeId ∧ r.nodeId ≠ nodeId'
  fresh : ∀ r ∈ reports, r.isFresh (some (orTime now time)) time = true ∧
    r.isFresh (some (orTime now time')) time' = true

/-- After the arrivals, the reports that a node has are these. -/
def Delivers (c : CrossNodeBudgetArbitrator K) (arrivals : List (K × PeerFitnessReport K))
    (reports : List (PeerFitnessReport K)) : Prop :=
  (c.ingest arrivals).peerFitness.Perm (reports.map fun r => (r.nodeId, r))

/-- No two reports disagree on an agent that has no local score. -/
def Agree (localScores : Scores K) (reports : List (PeerFitnessReport K)) : Prop :=
  ∀ r ∈ reports, ∀ r' ∈ reports, ∀ a ∉ Assoc.keys localScores.items, ∀ v v',
    r.scores.items.lookup a = some v → r'.scores.items.lookup a = some v' → v = v'

theorem ingest_cons (c : CrossNodeBudgetArbitrator K) (a : K × PeerFitnessReport K)
    (arrivals : List (K × PeerFitnessReport K)) :
    c.ingest (a :: arrivals) = (c.ingestReport a.1 a.2).ingest arrivals := rfl

theorem ingest_eq (c : CrossNodeBudgetArbitrator K) (arrivals : List (K × PeerFitnessReport K)) :
    c.ingest arrivals = { c with peerFitness := (c.ingest arrivals).peerFitness } := by
  induction arrivals generalizing c with
  | nil => rfl
  | cons a arrivals ih =>
    rw [ingest_cons, ih]
    unfold CrossNodeBudgetArbitrator.ingestReport
    split_ifs <;> rfl

theorem delivers_map [IsStrictOrderedRing K] (c : CrossNodeBudgetArbitrator K)
    (reports : List (PeerFitnessReport K))
    (hnodup : (Assoc.keys c.peerFitness ++ reports.map PeerFitnessReport.nodeId).Nodup)
    (hforeign : ∀ r ∈ reports, r.nodeId ≠ c.nodeId) :
    (c.ingest (reports.map fun r => (r.sampledAt, r))).peerFitness =
      c.peerFitness ++ reports.map fun r => (r.nodeId, r) := by
  induction reports generalizing c with
  | nil => exact (List.append_nil _).symm
  | cons r reports ih =>
    obtain ⟨hr, hreports⟩ := List.forall_mem_cons.mp hforeign
    have hfresh : r.isFresh none r.sampledAt = true := by
      refine decide_eq_true ?_
      show r.sampledAt - r.sampledAt < 45
      rw [sub_self]
      norm_num
    have hnew : r.nodeId ∉ Assoc.keys c.peerFitness := fun hmem =>
      (List.nodup_append.mp hnodup).2.2 _ hmem _ List.mem_cons_self rfl
    have hstep : c.ingestReport r.sampledAt r =
        { c with peerFitness := c.peerFitness ++ [(r.nodeId, r)] } := by
      unfold CrossNodeBudgetArbitrator.ingestReport
      rw [if_neg hr, if_pos hfresh, Assoc.set_of_notMem hnew]
    have hrest := ih { c with peerFitness := c.peerFitness ++ [(r.nodeId, r)] }
      (by simpa [Assoc.keys] using hnodup) hreports
    rw [List.map_cons, ingest_cons, hstep, hrest, List.append_assoc]
    rfl

theorem findSome?_eq_of_perm {α β : Type} {f : α → Option β} {l l' : List α} (h : l.Perm l')
    (hsame : ∀ x ∈ l, ∀ y ∈ l, ∀ v v', f x = some v → f y = some v' → v = v') :
    l.findSome? f = l'.findSome? f := by
  rcases hl : l.findSome? f with _ | v
  · rw [List.findSome?_eq_none_iff] at hl
    exact (List.findSome?_eq_none_iff.mpr fun x hx => hl x (h.mem_iff.mpr hx)).symm
  · obtain ⟨x, hx, hv⟩ := List.exists_of_findSome?_eq_some hl
    rcases hl' : l'.findSome? f with _ | v'
    · rw [List.findSome?_eq_none_iff] at hl'
      exact absurd (hv.symm.trans (hl' x (h.mem_iff.mp hx))) (Option.some_ne_none v)
    · obtain ⟨y, hy, hv'⟩ := List.exists_of_findSome?_eq_some hl'
      rw [hsame x hx y (h.mem_iff.mpr hy) v v' hv hv']

section Node

variable {c : CrossNodeBudgetArbitrator K} {r : ClusterRound K} {m : ClusterMoment K}
  {reports : List (PeerFitnessReport K)} {arrivals : List (K × PeerFitnessReport K)}

theorem freshFitness_ingest (h : Delivers c arrivals reports)
    (hfresh : ∀ report ∈ reports, report.isFresh (some (orTime r.now m.time)) m.time = true) :
    (c.ingest arrivals).freshFitness ((c.ingest arrivals).clusterCall r m) =
      (c.ingest arrivals).peerFitness := by
  refine List.filter_eq_self.mpr fun x hx => ?_
  obtain ⟨report, hreport, rfl⟩ := List.mem_map.mp (h.mem_iff.mp hx)
  exact hfresh report hreport

theorem lookup_clusterScores (h : Delivers c arrivals reports)
    (hfresh : ∀ report ∈ reports, report.isFresh (some (orTime r.now m.time)) m.time = true)
    (a : Str) :
    ((c.ingest arrivals).roundResult r m).clusterScores.lookup a =
      (r.localScores.items.lookup a).or
        ((c.ingest arrivals).peerFitness.findSome? fun x => x.2.scores.items.lookup a) := by
  show ((c.ingest arrivals).mergedScores _).items.lookup a = _
  rw [lookup_mergedScores, freshFitness_ingest h hfresh]
  rfl

theorem contributingNodes_roundResult (h : Delivers c arrivals reports)
    (hfresh : ∀ report ∈ reports, report.isFresh (some (orTime r.now m.time)) m.time = true) :
    ((c.ingest arrivals).roundResult r m).contributingNodes.Perm
      (c.nodeId :: reports.map PeerFitnessReport.nodeId) := by
  have hnode : (c.ingest arrivals).nodeId = c.nodeId := by rw [ingest_eq]
  show ((c.ingest arrivals).nodeId ::
    Assoc.keys ((c.ingest arrivals).freshFitness _)).Perm _
  rw [freshFitness_ingest h hfresh, hnode]
  refine List.Perm.cons _ ((h.map Prod.fst).trans ?_)
  rw [List.map_map]
  exact List.Perm.refl _

end Node

/-! ### Two nodes -/

/-- Two nodes have merged and allocated alike.  A digest names its own node, so it is the same for
one node only. -/
structure SameOutcome (P : Platform) (number : K → P.Obj) (oneNode : Prop)
    (r r' : ClusterArbitrationResult K) : Prop where
  scores : ∀ a, r.clusterScores.lookup a = r'.clusterScores.lookup a
  shares : r.clusterNewShares = r'.clusterNewShares
  evicted : r.clusterEvicted = r'.clusterEvicted
  starved : r.clusterStarved = r'.clusterStarved
  digest : oneNode → r.lineageDigest P number = r'.lineageDigest P number

section TwoNodes

variable {c c' : CrossNodeBudgetArbitrator K} {r : ClusterRound K} {m m' : ClusterMoment K}
  {reports : List (PeerFitnessReport K)} {arrivals arrivals' : List (K × PeerFitnessReport K)}

theorem sameScores_of_agree (h : Delivers c arrivals reports) (h' : Delivers c' arrivals' reports)
    (hfresh : ∀ report ∈ reports, report.isFresh (some (orTime r.now m.time)) m.time = true)
    (hfresh' : ∀ report ∈ reports, report.isFresh (some (orTime r.now m'.time)) m'.time = true)
    (hagree : Agree r.localScores reports) (a : Str) :
    ((c.ingest arrivals).roundResult r m).clusterScores.lookup a =
      ((c'.ingest arrivals').roundResult r m').clusterScores.lookup a := by
  rw [lookup_clusterScores h hfresh, lookup_clusterScores h' hfresh']
  by_cases ha : a ∈ Assoc.keys r.localScores.items
  · obtain ⟨v, hv⟩ := Assoc.mem_keys_iff.mp ha
    rw [hv]
    rfl
  · congr 1
    refine findSome?_eq_of_perm (h.trans h'.symm) fun x hx y hy v v' hv hv' => ?_
    obtain ⟨report, hreport, rfl⟩ := List.mem_map.mp (h.mem_iff.mp hx)
    obtain ⟨report', hreport', rfl⟩ := List.mem_map.mp (h.mem_iff.mp hy)
    exact hagree report hreport report' hreport' a ha v v' hv hv'

theorem sameOutcome_of_agree (P : Platform) (number : K → P.Obj)
    (harbitrator : c.localArbitrator = c'.localArbitrator)
    (h : Delivers c arrivals reports) (h' : Delivers c' arrivals' reports)
    (hfresh : ∀ report ∈ reports, report.isFresh (some (orTime r.now m.time)) m.time = true)
    (hfresh' : ∀ report ∈ reports, report.isFresh (some (orTime r.now m'.time)) m'.time = true)
    (hagree : Agree r.localScores reports) :
    SameOutcome P number (c.nodeId = c'.nodeId) ((c.ingest arrivals).roundResult r m)
      ((c'.ingest arrivals').roundResult r m') := by
  have hscores := sameScores_of_agree h h' hfresh hfresh' hagree
  have hlocal : (c.ingest arrivals).localArbitrator = (c'.ingest arrivals').localArbitrator := by
    rw [ingest_eq, ingest_eq c']
    exact harbitrator
  have hmerged : SameScores ((c.ingest arrivals).mergedScores ((c.ingest arrivals).clusterCall r m))
      ((c'.ingest arrivals').mergedScores ((c'.ingest arrivals').clusterCall r m')) := hscores
  have hexps : ((c.ingest arrivals).localCall ((c.ingest arrivals).clusterCall r m)).exps =
      ((c'.ingest arrivals').localCall ((c'.ingest arrivals').clusterCall r m')).exps := by
    refine Eq.trans (hmerged.exps r.exp (c.ingest arrivals).localArbitrator.temperature) ?_
    rw [hlocal]
    rfl
  obtain ⟨hstarved, hevicted, hshares⟩ := finalShares_congr (c'.ingest arrivals').localArbitrator
    hmerged.sortedAgents hexps rfl
  have hshares' : ((c.ingest arrivals).roundResult r m).clusterNewShares =
      ((c'.ingest arrivals').roundResult r m').clusterNewShares := by
    show finalShares (c.ingest arrivals).localArbitrator _ = _
    rw [hlocal]
    exact hshares
  refine ⟨hscores, hshares', ?_, ?_, fun hnode => ?_⟩
  · show evictedAgents (c.ingest arrivals).localArbitrator _ = _
    rw [hlocal]
    exact hevicted
  · show starvedAgents (c.ingest arrivals).localArbitrator _ = _
    rw [hlocal]
    exact hstarved
  · have hnodes := (contributingNodes_roundResult (r := r) h hfresh).trans
      (hnode ▸ (contributingNodes_roundResult (r := r) h' hfresh').symm)
    unfold ClusterArbitrationResult.lineageDigest
    rw [sortedTexts_eq_of_perm hnodes, hshares']
    rfl

theorem exists_arrivals [IsStrictOrderedRing K] (hempty : c.peerFitness = [])
    (hnodup : (reports.map PeerFitnessReport.nodeId).Nodup)
    (hforeign : ∀ report ∈ reports, report.nodeId ≠ c.nodeId)
    (hfresh : ∀ report ∈ reports, report.isFresh (some (orTime r.now m.time)) m.time = true)
    {report : PeerFitnessReport K} (hreport : report ∈ reports) {a : Str}
    (ha : a ∉ Assoc.keys r.localScores.items) {v : K}
    (hv : report.scores.items.lookup a = some v) :
    ∃ arrivals, Delivers c arrivals reports ∧
      ((c.ingest arrivals).roundResult r m).clusterScores.lookup a = some v := by
  obtain ⟨before, after, rfl⟩ := List.append_of_mem hreport
  have hperm : (report :: (before ++ after)).Perm (before ++ report :: after) :=
    List.perm_middle.symm
  have hdict := delivers_map c (report :: (before ++ after))
    (by
      rw [hempty]
      exact (hperm.map _).nodup_iff.mpr hnodup)
    fun x hx => hforeign x (hperm.mem_iff.mp hx)
  have hdelivers : Delivers c ((report :: (before ++ after)).map fun x => (x.sampledAt, x))
      (before ++ report :: after) := by
    unfold Delivers
    rw [hdict, hempty, List.nil_append]
    exact hperm.map _
  refine ⟨_, hdelivers, ?_⟩
  rw [lookup_clusterScores hdelivers hfresh, hdict, hempty, lookup_eq_none_iff.mpr ha,
    List.nil_append, List.map_cons, List.findSome?_cons, hv]
  rfl

end TwoNodes

/-- Two nodes with the same arbitrator, to which the same reports come in any order each. -/
def OrderFree (P : Platform) (number : K → P.Obj) (r : ClusterRound K) (m m' : ClusterMoment K)
    (c c' : CrossNodeBudgetArbitrator K) (reports : List (PeerFitnessReport K)) : Prop :=
  ∀ arrivals arrivals', Delivers c arrivals reports → Delivers c' arrivals' reports →
    SameOutcome P number (c.nodeId = c'.nodeId) ((c.ingest arrivals).roundResult r m)
      ((c'.ingest arrivals').roundResult r m')

section Iff

variable [IsStrictOrderedRing K] (P : Platform) (number : K → P.Obj) (r : ClusterRound K)
  (b : BudgetArbitrator K) (requireQuorum requireQuorum' hasConsensus hasConsensus' : Bool)
  {nodeId nodeId' : Str} (m m' : ClusterMoment K)
  (peers : PeerReports K nodeId nodeId' r.now m.time m'.time)

theorem agree_of_orderFree
    (h : OrderFree P number r m m' (.new K nodeId b requireQuorum hasConsensus)
      (.new K nodeId' b requireQuorum' hasConsensus') peers.reports) :
    Agree r.localScores peers.reports := by
  intro report hreport report' hreport' a ha v v' hv hv'
  -- At the one node the one report arrives first, at the other node the other.
  obtain ⟨arrivals, hdelivers, hscore⟩ := exists_arrivals
    (c := .new K nodeId b requireQuorum hasConsensus) rfl peers.nodup
    (fun x hx => (peers.foreign x hx).1) (fun x hx => (peers.fresh x hx).1) hreport ha hv
  obtain ⟨arrivals', hdelivers', hscore'⟩ := exists_arrivals
    (c := .new K nodeId' b requireQuorum' hasConsensus') rfl peers.nodup
    (fun x hx => (peers.foreign x hx).2) (fun x hx => (peers.fresh x hx).2) hreport' ha hv'
  have hsame := (h arrivals arrivals' hdelivers hdelivers').scores a
  rw [hscore, hscore'] at hsame
  exact Option.some.inj hsame

end Iff

/-! ### Two peers that disagree -/

def reportOn (nodeId : Str) (score : ℚ) : PeerFitnessReport ℚ where
  nodeId := nodeId
  epochId := str "e"
  scores := ⟨[(str "a", score)], List.nodup_singleton _⟩
  sampledAt := 1

/-- Two peers report the agent with different scores. -/
def disagreeing : PeerReports ℚ (str "n") (str "m") (some 1) 1 1 where
  reports := [reportOn (str "p") 1, reportOn (str "q") 2]
  nodup := by decide
  foreign := by decide
  fresh := by decide +kernel

def ofAgent : BudgetArbitrator ℚ :=
  newArbitrator
    { total := 1000
      starvationThreshold := 1 / 50
      shares := [(str "a", 1)]
      allocationLog := []
      nodup := by decide } 1 (1 / 50) 3

/-- A round with one agent, whose exponential is that of zero. -/
def roundOfOne : ClusterRound ℚ where
  epochId := str "e"
  localScores := ⟨[], List.nodup_nil⟩
  marketPressure := 1
  now := some 1
  exp _ := 1
  exp_pos _ := one_pos

/-- A whole number as a `float`. -/
def wholeNumber (x : ℚ) : reference.Obj :=
  .float (reference.floatOf (.lit (NumLit.ofInt x.num)))

end Adaad.Evolution
