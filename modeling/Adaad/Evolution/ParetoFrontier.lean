import Adaad.Py.Json.Equiv.Sort
import Adaad.Py.Reference
import Mathlib.Algebra.Order.Field.Basic
import Mathlib.Data.List.Dedup
import Mathlib.Order.WellFounded
import Mathlib.Tactic.Linarith
import Mathlib.Tactic.NormNum

/-!
# The Pareto frontier

`runtime/evolution/pareto_frontier.py`: a candidate dominates another one if it is at least as good
in all objectives and better in one, and those that none dominates are the frontier.

Both comparisons allow for a tolerance, so dominance is not transitive.  Scores are exact numbers
here.
-/

namespace Adaad.Pareto

open Py

variable {K : Type}

/-- `PARETO_OBJECTIVES` -/
def paretoObjectives : List Str :=
  [str "correctness", str "efficiency", str "governance", str "maintainability",
    str "coverage_delta"]

variable (K) in
/-- `ParetoObjectiveVector`, as far as the frontier depends on it. -/
structure ObjectiveVector where
  candidateId : Str
  objectives : List (Str × K)

structure FrontierResult where
  frontierIds : List Str
  dominatedIds : List Str
  dominancePairs : List (Str × Str)
  frontierDigest : Str
  objectiveNames : List Str

variable (K) in
/-- `ParetoFrontier(objectives, epsilon)` -/
structure ParetoFrontier where
  objectives : List Str
  epsilon : K

/-- `sorted(texts)` -/
def sortedTexts (texts : List Str) : List Str :=
  texts.insertionSort fun s t => strLe s t = true

/-- `_frontier_digest` -/
def frontierDigest (P : Platform) (frontierIds objectiveNames : List Str) : Str :=
  str "sha256:" ++ P.sha256 ((encode ((dumpsSortedAscii P .compact
    (.dict [(.str (str "frontier_ids"), .list ((sortedTexts frontierIds).map .str)),
      (.str (str "objectives"), .list ((sortedTexts objectiveNames).map .str))])).getD [])).getD [])

variable [Field K] [LinearOrder K]

/-- `get` -/
def ObjectiveVector.get (v : ObjectiveVector K) (objective : Str) : K :=
  (v.objectives.lookup objective).getD 0

/-- `_dominates` -/
def dominates (objectives : List Str) (epsilon : K) (a b : ObjectiveVector K) : Bool :=
  let atLeastAsGoodAll := objectives.all fun obj => b.get obj - epsilon ≤ a.get obj
  let strictlyBetterOne := objectives.any fun obj => b.get obj + epsilon < a.get obj
  atLeastAsGoodAll && strictlyBetterOne

namespace ParetoFrontier

variable (f : ParetoFrontier K)

/-- The pairs of candidates at two places of which the first dominates the second. -/
def dominations (vecs : List (ObjectiveVector K)) : List (ObjectiveVector K × ObjectiveVector K) :=
  vecs.zipIdx.flatMap fun a =>
    (vecs.zipIdx.filter fun b => a.2 ≠ b.2 ∧ dominates f.objectives f.epsilon a.1 b.1).map
      fun b => (a.1, b.1)

/-- `compute`; `none` is an `AssertionError`. -/
def compute (P : Platform) (vectors : List (ObjectiveVector K)) : Option FrontierResult :=
  if vectors.isEmpty then
    some {
      frontierIds := []
      dominatedIds := []
      dominancePairs := []
      frontierDigest := frontierDigest P [] f.objectives
      objectiveNames := f.objectives }
  else
    let sortedVecs := vectors.insertionSort fun a b => strLe a.candidateId b.candidateId = true
    let found := f.dominations sortedVecs
    let dominated := (found.map fun p => p.2.candidateId).dedup
    let frontierIds := sortedTexts
      ((sortedVecs.filter fun v => v.candidateId ∉ dominated).map ObjectiveVector.candidateId)
    if frontierIds = [] then none
    else
      some {
        frontierIds := frontierIds
        dominatedIds := sortedTexts dominated
        dominancePairs := (found.map fun p => (p.1.candidateId, p.2.candidateId)).dedup
        frontierDigest := frontierDigest P frontierIds f.objectives
        objectiveNames := f.objectives }

/-- The frontier is what the docstring of the module promises: the assertion holds, the frontier is
not empty, each candidate is in it or dominated and not both, and each dominated one is dominated by
one of the frontier. -/
def Nondegenerate (P : Platform) (vectors : List (ObjectiveVector K)) : Prop :=
  ∃ r, f.compute P vectors = some r ∧ r.frontierIds ≠ [] ∧
    (r.frontierIds ++ r.dominatedIds).Perm (vectors.map ObjectiveVector.candidateId) ∧
    ∀ b ∈ vectors, b.candidateId ∈ r.dominatedIds →
      ∃ a ∈ vectors, a.candidateId ∈ r.frontierIds ∧ dominates f.objectives f.epsilon a b = true

/-- A candidate is dominated by none of the list. -/
def Undominated (vectors : List (ObjectiveVector K)) (a : ObjectiveVector K) : Prop :=
  ∀ c ∈ vectors, dominates f.objectives f.epsilon c a = false

/-- Where a candidate is dominated, one of those that dominate it is itself undominated. -/
def Grounded (vectors : List (ObjectiveVector K)) : Prop :=
  ∀ b ∈ vectors, ¬f.Undominated vectors b →
    ∃ a ∈ vectors, dominates f.objectives f.epsilon a b = true ∧ f.Undominated vectors a

end ParetoFrontier

section

variable {f : ParetoFrontier K} {vectors vecs : List (ObjectiveVector K)}
  {objectives : List Str} {epsilon : K} {a b c : ObjectiveVector K}

theorem dominates_iff :
    dominates objectives epsilon a b = true ↔
      (∀ obj ∈ objectives, b.get obj - epsilon ≤ a.get obj) ∧
        ∃ obj ∈ objectives, b.get obj + epsilon < a.get obj := by
  simp [dominates]

/-! ### What `compute` finds -/

theorem mem_sortedTexts {texts : List Str} {s : Str} : s ∈ sortedTexts texts ↔ s ∈ texts :=
  List.mem_insertionSort _

variable [IsStrictOrderedRing K]

theorem dominates_self (he : 0 ≤ epsilon) (a : ObjectiveVector K) :
    dominates objectives epsilon a a = false := by
  rw [Bool.eq_false_iff, Ne, dominates_iff]
  rintro ⟨-, obj, -, hlt⟩
  linarith

theorem mem_dominations (he : 0 ≤ f.epsilon) :
    (a, b) ∈ f.dominations vecs ↔
      a ∈ vecs ∧ b ∈ vecs ∧ dominates f.objectives f.epsilon a b = true := by
  unfold ParetoFrontier.dominations
  constructor
  · intro h
    obtain ⟨⟨x, i⟩, hx, hmem⟩ := List.mem_flatMap.mp h
    obtain ⟨⟨y, j⟩, hy, heq⟩ := List.mem_map.mp hmem
    obtain ⟨hy, hdom⟩ := List.mem_filter.mp hy
    obtain ⟨rfl, rfl⟩ := Prod.mk.inj heq
    exact ⟨List.fst_mem_of_mem_zipIdx hx, List.fst_mem_of_mem_zipIdx hy,
      (of_decide_eq_true hdom).2⟩
  · rintro ⟨ha, hb, hdom⟩
    obtain ⟨i, hi⟩ := List.mem_iff_getElem?.mp ha
    obtain ⟨j, hj⟩ := List.mem_iff_getElem?.mp hb
    refine List.mem_flatMap.mpr ⟨(a, i), List.mem_zipIdx_iff_getElem?.mpr hi, ?_⟩
    refine List.mem_map.mpr ⟨(b, j), List.mem_filter.mpr
      ⟨List.mem_zipIdx_iff_getElem?.mpr hj, decide_eq_true ⟨?_, hdom⟩⟩, rfl⟩
    rintro rfl
    obtain rfl := Option.some.inj (hi.symm.trans hj)
    rw [dominates_self he] at hdom
    cases hdom

theorem candidateId_mem_dominated (he : 0 ≤ f.epsilon)
    (hids : (vecs.map ObjectiveVector.candidateId).Nodup) (hb : b ∈ vecs) :
    b.candidateId ∈ ((f.dominations vecs).map fun p => p.2.candidateId).dedup ↔
      ¬f.Undominated vecs b := by
  rw [List.mem_dedup]
  constructor
  · intro h
    obtain ⟨⟨x, y⟩, hmem, hid⟩ := List.mem_map.mp h
    obtain ⟨hx, hy, hdom⟩ := (mem_dominations he).mp hmem
    obtain rfl := List.inj_on_of_nodup_map hids hy hb hid
    intro hun
    rw [hun x hx] at hdom
    cases hdom
  · intro h
    unfold ParetoFrontier.Undominated at h
    push Not at h
    obtain ⟨x, hx, hdom⟩ := h
    exact List.mem_map.mpr
      ⟨(x, b), (mem_dominations he).mpr ⟨hx, hb, Bool.eq_true_of_not_eq_false hdom⟩, rfl⟩

theorem exists_of_mem_dominated (he : 0 ≤ f.epsilon) {s : Str}
    (h : s ∈ ((f.dominations vecs).map fun p => p.2.candidateId).dedup) :
    ∃ b ∈ vecs, b.candidateId = s := by
  obtain ⟨⟨x, y⟩, hmem, hid⟩ := List.mem_map.mp (List.mem_dedup.mp h)
  exact ⟨y, ((mem_dominations he).mp hmem).2.1, hid⟩

/-- The result of `compute`: the assertion fails exactly when all candidates are dominated, and
otherwise the ids are those of the undominated and of the dominated candidates. -/
theorem compute_spec (he : 0 ≤ f.epsilon) (hne : vectors ≠ [])
    (hids : (vectors.map ObjectiveVector.candidateId).Nodup) (P : Platform) :
    (f.compute P vectors = none ∧ ∀ b ∈ vectors, ¬f.Undominated vectors b) ∨
      ∃ r, f.compute P vectors = some r ∧ r.frontierIds ≠ [] ∧
        (r.frontierIds ++ r.dominatedIds).Perm (vectors.map ObjectiveVector.candidateId) ∧
        (∀ b ∈ vectors, b.candidateId ∈ r.frontierIds ↔ f.Undominated vectors b) ∧
        ∀ b ∈ vectors, b.candidateId ∈ r.dominatedIds ↔ ¬f.Undominated vectors b := by
  have hperm : (vectors.insertionSort fun a b =>
      strLe a.candidateId b.candidateId = true).Perm vectors := List.perm_insertionSort _ _
  have hempty : vectors.isEmpty = false := by simpa using hne
  unfold ParetoFrontier.compute
  rw [hempty, if_neg Bool.false_ne_true]
  dsimp only
  generalize (vectors.insertionSort fun a b => strLe a.candidateId b.candidateId = true) = vecs
    at hperm
  have hids' : (vecs.map ObjectiveVector.candidateId).Nodup :=
    (hperm.map ObjectiveVector.candidateId).nodup_iff.mpr hids
  have hun : ∀ b, f.Undominated vecs b ↔ f.Undominated vectors b := fun b =>
    ⟨fun h c hc => h c (hperm.mem_iff.mpr hc), fun h c hc => h c (hperm.mem_iff.mp hc)⟩
  have hdominated : ∀ b ∈ vectors, b.candidateId ∈
      ((f.dominations vecs).map fun p => p.2.candidateId).dedup ↔ ¬f.Undominated vectors b := by
    intro b hb
    rw [candidateId_mem_dominated he hids' (hperm.mem_iff.mpr hb), hun]
  generalize hdom : ((f.dominations vecs).map fun p => p.2.candidateId).dedup = dominated
    at hdominated
  have hfrontier : ∀ b ∈ vectors, b.candidateId ∈
      sortedTexts ((vecs.filter fun v => v.candidateId ∉ dominated).map
        ObjectiveVector.candidateId) ↔ f.Undominated vectors b := by
    intro b hb
    rw [mem_sortedTexts, List.mem_map]
    constructor
    · rintro ⟨v, hv, hid⟩
      obtain ⟨hv, hout⟩ := List.mem_filter.mp hv
      obtain rfl := List.inj_on_of_nodup_map hids' hv (hperm.mem_iff.mpr hb) hid
      by_contra hnot
      exact of_decide_eq_true hout ((hdominated v hb).mpr hnot)
    · intro h
      refine ⟨b, List.mem_filter.mpr ⟨hperm.mem_iff.mpr hb, decide_eq_true fun hin => ?_⟩, rfl⟩
      exact (hdominated b hb).mp hin h
  by_cases hnil : sortedTexts ((vecs.filter fun v => v.candidateId ∉ dominated).map
      ObjectiveVector.candidateId) = []
  · refine .inl ⟨if_pos hnil, fun b hb h => ?_⟩
    have := (hfrontier b hb).mpr h
    rw [hnil] at this
    cases this
  · refine .inr ⟨_, if_neg hnil, hnil, ?_, hfrontier, fun b hb => ?_⟩
    · -- Both sides have no duplicates and the same members.
      have hnodup : dominated.Nodup := hdom ▸ List.nodup_dedup _
      have hout : ∀ v ∈ vecs.filter fun v => v.candidateId ∉ dominated, v.candidateId ∉ dominated :=
        fun v hv => of_decide_eq_true (List.mem_filter.mp hv).2
      refine ((List.perm_insertionSort _ _).append (List.perm_insertionSort _ _)).trans ?_
      refine List.Perm.trans ?_ (hperm.map ObjectiveVector.candidateId)
      refine (List.perm_ext_iff_of_nodup (List.nodup_append.mpr ⟨?_, hnodup, ?_⟩) hids').mpr ?_
      · exact hids'.sublist (List.filter_sublist.map _)
      · intro s hs t ht hst
        obtain ⟨v, hv, rfl⟩ := List.mem_map.mp hs
        exact hout v hv (hst ▸ ht)
      · intro s
        rw [List.mem_append]
        constructor
        · rintro (hs | hs)
          · obtain ⟨v, hv, rfl⟩ := List.mem_map.mp hs
            exact List.mem_map_of_mem (List.mem_filter.mp hv).1
          · obtain ⟨b, hb, rfl⟩ := exists_of_mem_dominated (f := f) he (hdom.symm ▸ hs)
            exact List.mem_map_of_mem hb
        · intro hs
          obtain ⟨v, hv, rfl⟩ := List.mem_map.mp hs
          by_cases hin : v.candidateId ∈ dominated
          · exact .inr hin
          · exact .inl (List.mem_map_of_mem (List.mem_filter.mpr ⟨hv, decide_eq_true hin⟩))
    · exact mem_sortedTexts.trans (hdominated b hb)

/-- The frontier of distinct candidates is as promised exactly when every dominated candidate is
dominated by one that no candidate dominates. -/
theorem nondegenerate_iff (f : ParetoFrontier K) (he : 0 ≤ f.epsilon)
    (vectors : List (ObjectiveVector K)) (hne : vectors ≠ [])
    (hids : (vectors.map ObjectiveVector.candidateId).Nodup) (P : Platform) :
    f.Nondegenerate P vectors ↔ f.Grounded vectors := by
  rcases compute_spec (f := f) he hne hids P with
    ⟨hnone, hall⟩ | ⟨r, hsome, hnil, hperm, hfrontier, hdominated⟩
  · constructor
    · rintro ⟨r, hsome, -⟩
      cases hnone.symm.trans hsome
    · intro h
      obtain ⟨b, hb⟩ := List.exists_mem_of_ne_nil _ hne
      obtain ⟨a, ha, -, hun⟩ := h b hb (hall b hb)
      exact absurd hun (hall a ha)
  · constructor
    · rintro ⟨r', hsome', -, -, h⟩ b hb hun
      obtain rfl := Option.some.inj (hsome.symm.trans hsome')
      obtain ⟨a, ha, hmem, hdom⟩ := h b hb ((hdominated b hb).mpr hun)
      exact ⟨a, ha, hdom, (hfrontier a ha).mp hmem⟩
    · intro h
      refine ⟨r, hsome, hnil, hperm, fun b hb hmem => ?_⟩
      obtain ⟨a, ha, hdom, hun⟩ := h b hb ((hdominated b hb).mp hmem)
      exact ⟨a, ha, (hfrontier a ha).mpr hun, hdom⟩

/-! ### Scores that are not closer than the tolerance -/

/-- No two candidates have scores that differ by no more than the tolerance. -/
def Separated (f : ParetoFrontier K) (vectors : List (ObjectiveVector K)) : Prop :=
  ∀ obj ∈ f.objectives, ∀ a ∈ vectors, ∀ b ∈ vectors,
    a.get obj < b.get obj → a.get obj + f.epsilon < b.get obj

theorem dominates_iff_of_separated (h : Separated f vectors) (he : 0 ≤ f.epsilon)
    (ha : a ∈ vectors) (hb : b ∈ vectors) :
    dominates f.objectives f.epsilon a b = true ↔
      (∀ obj ∈ f.objectives, b.get obj ≤ a.get obj) ∧
        ∃ obj ∈ f.objectives, b.get obj < a.get obj := by
  rw [dominates_iff]
  refine and_congr (forall₂_congr fun obj hobj => ?_) (exists_congr fun obj =>
    and_congr_right fun hobj => ?_)
  · constructor
    · intro hle
      by_contra hlt
      have := h obj hobj a ha b hb (not_le.mp hlt)
      linarith
    · intro hle
      linarith
  · exact ⟨fun hlt => by linarith, h obj hobj b hb a ha⟩

theorem dominates_trans_of_separated (h : Separated f vectors) (he : 0 ≤ f.epsilon)
    (ha : a ∈ vectors) (hb : b ∈ vectors) (hc : c ∈ vectors)
    (hab : dominates f.objectives f.epsilon a b = true)
    (hbc : dominates f.objectives f.epsilon b c = true) :
    dominates f.objectives f.epsilon a c = true := by
  rw [dominates_iff_of_separated h he ha hb] at hab
  rw [dominates_iff_of_separated h he hb hc] at hbc
  rw [dominates_iff_of_separated h he ha hc]
  obtain ⟨obj, hobj, hlt⟩ := hab.2
  exact ⟨fun o ho => (hbc.1 o ho).trans (hab.1 o ho), obj, hobj, (hbc.1 obj hobj).trans_lt hlt⟩

/-- Among such candidates a chain of dominations ends at an undominated one. -/
theorem grounded_of_separated (h : Separated f vectors) (he : 0 ≤ f.epsilon) :
    f.Grounded vectors := by
  intro b hb hun
  unfold ParetoFrontier.Undominated at hun
  push Not at hun
  obtain ⟨a, ha, hdom⟩ := hun
  -- A candidate that dominates `b` and is dominated by no other one that does.
  let R : {v // v ∈ vectors} → {v // v ∈ vectors} → Prop :=
    fun x y => dominates f.objectives f.epsilon x.1 y.1 = true
  have htrans : IsTrans _ R :=
    ⟨fun x y z hxy hyz => dominates_trans_of_separated h he x.2 y.2 z.2 hxy hyz⟩
  have hirrefl : Std.Irrefl R := ⟨fun x hx => by
    rw [show R x x ↔ dominates f.objectives f.epsilon x.1 x.1 = true from Iff.rfl,
      dominates_self he] at hx
    cases hx⟩
  have hfin : Finite {v // v ∈ vectors} := List.finite_toSet vectors
  have hwf : WellFounded R := Finite.wellFounded_of_trans_of_irrefl R
  obtain ⟨m, hm, hmin⟩ := hwf.has_min
    {x | dominates f.objectives f.epsilon x.1 b = true}
    ⟨⟨a, ha⟩, Bool.eq_true_of_not_eq_false hdom⟩
  refine ⟨m.1, m.2, hm, fun c hc => ?_⟩
  rw [Bool.eq_false_iff]
  intro hcm
  exact hmin ⟨c, hc⟩ (dominates_trans_of_separated h he hc m.2 hb hcm hm) hcm

end

/-! ### Three candidates in a circle -/

/-- Two steps of three quarters of the default tolerance. -/
def nearby (candidateId : Str) (correctness efficiency governance : ℚ) : ObjectiveVector ℚ where
  candidateId := candidateId
  objectives := [(str "correctness", correctness * (3 / 4000000000)),
    (str "efficiency", efficiency * (3 / 4000000000)),
    (str "governance", governance * (3 / 4000000000))]

def circle : List (ObjectiveVector ℚ) :=
  [nearby (str "a") 2 1 0, nearby (str "b") 0 2 1, nearby (str "c") 1 0 2]

/-- `ParetoFrontier()` -/
def defaultFrontier : ParetoFrontier ℚ where
  objectives := paretoObjectives
  epsilon := 1 / 1000000000

/-- Each of the three dominates the next one, so that none is left and the assertion fails. -/
theorem not_nondegenerate_circle :
    defaultFrontier.compute reference circle = none ∧
      ¬defaultFrontier.Nondegenerate reference circle := by
  have hnone : (defaultFrontier.compute reference circle).isNone = true := by decide +kernel
  refine ⟨Option.isNone_iff_eq_none.mp hnone, ?_⟩
  rintro ⟨r, hsome, -⟩
  rw [hsome] at hnone
  cases hnone

/-- Two candidates of which one is better by more than the tolerance. -/
theorem nondegenerate_pair_iff :
    defaultFrontier.Nondegenerate reference [nearby (str "a") 2 0 0, nearby (str "b") 0 0 0] ↔
      defaultFrontier.Grounded [nearby (str "a") 2 0 0, nearby (str "b") 0 0 0] :=
  nondegenerate_iff defaultFrontier (by decide +kernel) _ (by simp) (by decide +kernel) reference

theorem grounded_of_separated_pair :
    defaultFrontier.Grounded [nearby (str "a") 2 0 0, nearby (str "b") 0 0 0] :=
  grounded_of_separated (by unfold Separated; decide +kernel) (by decide +kernel)

end Adaad.Pareto
