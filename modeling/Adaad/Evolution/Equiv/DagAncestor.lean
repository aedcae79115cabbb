import Adaad.Evolution.Equiv.DagStructure

/-!
# The common ancestor of two nodes

`_find_common_ancestor` meets the ways up from two nodes.  What it finds is always the deepest common
ancestor, but its loops end at an empty id as they end above a root: it finds one exactly when the
ways come to a common ancestor before they come to a node with the empty id
(`answers_iff_of_placed`).
-/

namespace Adaad.Evolution.LineageDag

open Py Forest

variable {P : Platform} {nodes : List (Str × LineageNode P)}

/-- The node is `a` or an ancestor of it, and `b` or an ancestor of it. -/
def Common (nodes : List (Str × LineageNode P)) (a b c : Str) : Prop :=
  Descends (parentIn nodes) c a ∧ Descends (parentIn nodes) c b

def SameRoot (nodes : List (Str × LineageNode P)) (a b : Str) : Prop :=
  ∃ root, parentIn nodes root = none ∧ Common nodes a b root

/-- What is meant to hold of `_find_common_ancestor(a, b)`, in a DAG with generations below
`fuel`. -/
def Answers (nodes : List (Str × LineageNode P)) (a b : Str) : Prop :=
  ∀ fuel : Nat, maxGenerationDepth + 2 ≤ fuel → ∃ found,
    findCommonAncestor nodes fuel a b = some found ∧
      (found = none ↔ ¬ SameRoot nodes a b) ∧
      ∀ c, found = some c → Common nodes a b c ∧
        ∀ d, Common nodes a b d → rankIn nodes d ≤ rankIn nodes c

/-- Where the nodes share a root, no node with the empty id lies on the ways from a common ancestor
to them, the ends included. -/
def Unblocked (nodes : List (Str × LineageNode P)) (a b : Str) : Prop :=
  SameRoot nodes a b → ∃ c, Common nodes a b c ∧
    ¬ (Descends (parentIn nodes) c [] ∧
      (Descends (parentIn nodes) [] a ∨ Descends (parentIn nodes) [] b))

/-! ### The loops -/

theorem exists_collectAncestors {rank : Str → Nat}
    (hr : Ranked (Assoc.keys nodes) (parentIn nodes) rank) {a : Str} (ha : a ∈ Assoc.keys nodes)
    {fuel : Nat} (hfuel : rank a + 2 ≤ fuel) (seen : List Str) :
    ∃ ancestors, collectAncestors nodes fuel (some a) seen = some ancestors ∧
      ∀ x, x ∈ ancestors ↔ x ∈ seen ∨ Reached (parentIn nodes) [] x a := by
  induction fuel generalizing a seen with
  | zero => exact absurd hfuel (by omega)
  | succ fuel ih =>
    unfold collectAncestors
    by_cases hnil : a = []
    · refine ⟨seen, if_pos hnil, fun x => ⟨.inl, ?_⟩⟩
      rintro (hx | hx)
      · exact hx
      · cases hx with
        | here hne => exact absurd hnil hne
        | up hne _ _ => exact absurd hnil hne
    rw [if_neg hnil]
    cases hparent : parentIn nodes a with
    | none =>
      rw [show above nodes a = none from hparent]
      obtain ⟨fuel, rfl⟩ : ∃ n, fuel = n + 1 := ⟨fuel - 1, by omega⟩
      refine ⟨a :: seen, rfl, fun x => ?_⟩
      rw [List.mem_cons, or_comm]
      refine or_congr_right ⟨?_, ?_⟩
      · rintro rfl
        exact .here hnil
      · intro hx
        cases hx with
        | here _ => rfl
        | up _ hp _ =>
          rw [hparent] at hp
          cases hp
    | some p =>
      have hrank := hr.rank_parent a ha p hparent
      obtain ⟨ancestors, heq, hmem⟩ := ih (hr.parent_mem a ha p hparent) (by omega) (a :: seen)
      refine ⟨ancestors, by rw [show above nodes a = some p from hparent, heq], fun x => ?_⟩
      rw [hmem, List.mem_cons, or_comm (a := x = a), or_assoc]
      refine or_congr_right ⟨?_, ?_⟩
      · rintro (rfl | hx)
        · exact .here hnil
        · exact .up hnil hparent hx
      · intro hx
        cases hx with
        | here _ => exact .inl rfl
        | up _ hp hx =>
          rw [hparent] at hp
          obtain rfl := Option.some.inj hp
          exact .inr hx

theorem exists_firstCommon {rank : Str → Nat}
    (hr : Ranked (Assoc.keys nodes) (parentIn nodes) rank) (ancestors : List Str) {b : Str}
    (hb : b ∈ Assoc.keys nodes) {fuel : Nat} (hfuel : rank b + 2 ≤ fuel) :
    ∃ found, firstCommon nodes ancestors fuel (some b) = some found ∧
      (found = none → ∀ x, Reached (parentIn nodes) [] x b → x ∉ ancestors) ∧
      ∀ c, found = some c → c ∈ ancestors ∧ Reached (parentIn nodes) [] c b ∧
        ∀ x, Reached (parentIn nodes) [] x b → x ∈ ancestors → Descends (parentIn nodes) x c := by
  induction fuel generalizing b with
  | zero => exact absurd hfuel (by omega)
  | succ fuel ih =>
    unfold firstCommon
    by_cases hnil : b = []
    · refine ⟨none, if_pos hnil, fun _ x hx => ?_, fun c hc => by cases hc⟩
      cases hx with
      | here hne => exact absurd hnil hne
      | up hne _ _ => exact absurd hnil hne
    rw [if_neg hnil]
    by_cases hmem : b ∈ ancestors
    · refine ⟨some b, if_pos hmem, fun hnone => (by cases hnone), fun c hc => ?_⟩
      obtain rfl := Option.some.inj hc
      exact ⟨hmem, .here hnil, fun x hx _ => hx.descends⟩
    rw [if_neg hmem]
    cases hparent : parentIn nodes b with
    | none =>
      rw [show above nodes b = none from hparent]
      obtain ⟨fuel, rfl⟩ : ∃ n, fuel = n + 1 := ⟨fuel - 1, by omega⟩
      refine ⟨none, rfl, fun _ x hx => ?_, fun c hc => by cases hc⟩
      cases hx with
      | here _ => exact hmem
      | up _ hp _ =>
        rw [hparent] at hp
        cases hp
    | some p =>
      have hrank := hr.rank_parent b hb p hparent
      obtain ⟨found, heq, hnone, hsome⟩ := ih (hr.parent_mem b hb p hparent) (by omega)
      have hup : ∀ x, Reached (parentIn nodes) [] x b → x ∈ ancestors →
          Reached (parentIn nodes) [] x p := by
        intro x hx hxmem
        cases hx with
        | here _ => exact absurd hxmem hmem
        | up _ hp hx =>
          rw [hparent] at hp
          obtain rfl := Option.some.inj hp
          exact hx
      refine ⟨found, by rw [show above nodes b = some p from hparent, heq], ?_, ?_⟩
      · intro hfound x hx hxmem
        exact hnone hfound x (hup x hx hxmem) hxmem
      · intro c hc
        obtain ⟨hcmem, hcp, hdeepest⟩ := hsome c hc
        exact ⟨hcmem, .up hnil hparent hcp, fun x hx hxmem => hdeepest x (hup x hx hxmem) hxmem⟩

/-! ### The answer -/

theorem unblocked_iff {rank : Str → Nat}
    (hr : Ranked (Assoc.keys nodes) (parentIn nodes) rank) {a b : Str} (ha : a ∈ Assoc.keys nodes)
    (hb : b ∈ Assoc.keys nodes) :
    Unblocked nodes a b ↔ (SameRoot nodes a b →
      ∃ c, Reached (parentIn nodes) [] c a ∧ Reached (parentIn nodes) [] c b) := by
  unfold Unblocked Common
  refine forall_congr' fun _ => exists_congr fun c => ?_
  rw [hr.reached_iff ha, hr.reached_iff hb]
  tauto

theorem sameRoot_iff {rank : Str → Nat} (hr : Ranked (Assoc.keys nodes) (parentIn nodes) rank)
    {a b : Str} (ha : a ∈ Assoc.keys nodes) : SameRoot nodes a b ↔ ∃ c, Common nodes a b c := by
  constructor
  · rintro ⟨root, -, hcommon⟩
    exact ⟨root, hcommon⟩
  · rintro ⟨c, hca, hcb⟩
    obtain ⟨root, hroot, hdescends⟩ := hr.exists_root (hr.mem_of_descends hca ha).1
    exact ⟨root, hroot, hdescends.trans hca, hdescends.trans hcb⟩

theorem rank_le_maxGenerationDepth (hp : Placed (places nodes)) (hs : Sane nodes) {a : Str}
    (ha : a ∈ Assoc.keys nodes) : (rankIn nodes a : Int) ≤ maxGenerationDepth := by
  obtain ⟨m, hm, rfl⟩ := List.mem_map.mp ha
  rw [hs.rankIn_eq hm, Int.toNat_of_nonneg (hp.nonneg _ (mem_places hm))]
  exact hp.depth _ (mem_places hm)

theorem answers_iff_of_placed (hp : Placed (places nodes)) (hs : Sane nodes) {a b : Str}
    (ha : a ∈ Assoc.keys nodes) (hb : b ∈ Assoc.keys nodes) :
    Answers nodes a b ↔ Unblocked nodes a b := by
  have hr := hp.ranked hs
  have hfuel : ∀ {fuel : Nat}, maxGenerationDepth + 2 ≤ fuel → ∀ x ∈ Assoc.keys nodes,
      rankIn nodes x + 2 ≤ fuel := by
    intro fuel hfuel x hx
    have hrank := rank_le_maxGenerationDepth hp hs hx
    omega
  rw [unblocked_iff hr ha hb]
  constructor
  · intro h hroot
    obtain ⟨found, hfound, hnone, -⟩ := h (maxGenerationDepth + 2).toNat (Int.self_le_toNat _)
    have hrank := hfuel (Int.self_le_toNat (maxGenerationDepth + 2))
    obtain ⟨ancestors, hcollect, hmem⟩ := exists_collectAncestors hr ha (hrank a ha) []
    obtain ⟨found', hfirst, -, hsome⟩ := exists_firstCommon hr ancestors hb (hrank b hb)
    rw [findCommonAncestor, hcollect, Option.bind_some, hfirst] at hfound
    obtain rfl := Option.some.inj hfound
    cases hc : found' with
    | none => exact absurd hroot (hnone.mp hc)
    | some c =>
      obtain ⟨hcmem, hcb, -⟩ := hsome c hc
      exact ⟨c, ((hmem c).mp hcmem).resolve_left List.not_mem_nil, hcb⟩
  · intro h fuel hle
    have hrank := hfuel hle
    obtain ⟨ancestors, hcollect, hmem⟩ := exists_collectAncestors hr ha (hrank a ha) []
    obtain ⟨found, hfirst, hnone, hsome⟩ := exists_firstCommon hr ancestors hb (hrank b hb)
    refine ⟨found, by rw [findCommonAncestor, hcollect, Option.bind_some, hfirst], ?_, ?_⟩
    · constructor
      · intro hfound hroot
        obtain ⟨c, hca, hcb⟩ := h hroot
        exact hnone hfound c hcb ((hmem c).mpr (.inr hca))
      · intro hroot
        cases hc : found with
        | none => rfl
        | some c =>
          obtain ⟨hcmem, hcb, -⟩ := hsome c hc
          have hca := ((hmem c).mp hcmem).resolve_left List.not_mem_nil
          exact absurd ((sameRoot_iff hr ha).mpr ⟨c, hca.descends, hcb.descends⟩) hroot
    · intro c hc
      obtain ⟨hcmem, hcb, hdeepest⟩ := hsome c hc
      have hca := ((hmem c).mp hcmem).resolve_left List.not_mem_nil
      refine ⟨⟨hca.descends, hcb.descends⟩, ?_⟩
      rintro d ⟨hda, hdb⟩
      have hdc : Descends (parentIn nodes) d c := by
        rcases hdb.total hcb.descends with hdc | hcd
        · exact hdc
        · -- the way comes to `d` before it comes to `c`
          refine hdeepest d (hcb.of_descends hr hb hcd hdb) ((hmem d).mpr (.inr ?_))
          exact hca.of_descends hr ha hcd hda
      exact (hr.mem_of_descends hdc (hr.mem_of_descends hca.descends ha).1).2

end Adaad.Evolution.LineageDag
