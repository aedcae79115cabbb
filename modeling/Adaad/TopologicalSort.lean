import Mathlib.Data.Fintype.Card
import Mathlib.Data.List.Lex
import Mathlib.Data.List.Sort
import Mathlib.Data.Set.Finite.List
import Mathlib.Logic.Relation
import Mathlib.Order.Bounds.Basic
import Mathlib.Order.WellFounded

/-!
# Topological sorting

The nodes of a graph are put into an order in which each parent is before its children.  A queue has
the nodes that wait for no parent, the least one first; where a node is taken from it, those children
are queued that wait for no other parent (`loop`).

All nodes are taken exactly where the graph has no cycle (`exists_sort_iff`), and then their order is
the least one that is possible (`le_of_sort`).
-/

namespace TopologicalSort

variable {α : Type} {nodes done l l' : List α} {edges : List (α × α)} {a b : α}

/-! ### Orders -/

def Acyclic (edges : List (α × α)) : Prop :=
  ∀ a, ¬ Relation.TransGen (fun p c => (p, c) ∈ edges) a a

/-- Each parent is before its children. -/
def Ordered (edges : List (α × α)) (l : List α) : Prop :=
  ∀ before a after, l = before ++ a :: after → ∀ p, (p, a) ∈ edges → p ∈ before

/-- The node waits for no parent. -/
structure Ready (nodes : List α) (edges : List (α × α)) (done : List α) (a : α) : Prop where
  mem : a ∈ nodes
  fresh : a ∉ done
  parents : ∀ p, (p, a) ∈ edges → p ∈ done

theorem Ordered.mem_before (h : Ordered edges l) {p : α}
    (hp : Relation.TransGen (fun p c => (p, c) ∈ edges) p a) :
    ∀ before after, l = before ++ a :: after → p ∈ before := by
  induction hp with
  | single hedge => exact fun before after hl => h before _ after hl p hedge
  | @tail b c _ hbc ih =>
    intro before after hl
    obtain ⟨first, second, rfl⟩ := List.append_of_mem (h before c after hl b hbc)
    refine List.mem_append_left _ (ih first (second ++ c :: after) ?_)
    rw [hl, List.append_assoc, List.cons_append]

theorem Ordered.acyclic (h : Ordered edges l) (hnodup : l.Nodup) (hmem : ∀ e ∈ edges, e.2 ∈ l) :
    Acyclic edges := by
  intro a ha
  obtain ⟨b, -, hba⟩ := Relation.TransGen.tail'_iff.mp ha
  obtain ⟨before, after, rfl⟩ := List.append_of_mem (hmem _ hba)
  have hbefore : a ∈ before := h.mem_before ha before after rfl
  exact List.disjoint_of_nodup_append hnodup hbefore List.mem_cons_self

/-- Without a cycle there is a node that is ready, until all are done. -/
theorem exists_ready (h : Acyclic edges) (hends : ∀ e ∈ edges, e.1 ∈ nodes) (ha : a ∈ nodes)
    (hdone : a ∉ done) : ∃ b, Ready nodes edges done b := by
  let Before (x y : {x // x ∈ nodes}) : Prop :=
    Relation.TransGen (fun p c => (p, c) ∈ edges) x.1 y.1
  have : Finite {x // x ∈ nodes} := (List.finite_toSet nodes).to_subtype
  have : IsTrans _ Before := ⟨fun _ _ _ => Relation.TransGen.trans⟩
  have : Std.Irrefl Before := ⟨fun x => h x.1⟩
  -- Of the nodes that are not done, one that no other of them is before.
  obtain ⟨b, hb, hmin⟩ := (Finite.wellFounded_of_trans_of_irrefl Before).has_min
    {x | x.1 ∉ done} ⟨⟨a, ha⟩, hdone⟩
  refine ⟨b.1, b.2, hb, fun p hp => ?_⟩
  by_contra hnot
  exact hmin ⟨p, hends _ hp⟩ hnot (.single hp)

variable [LinearOrder α]

/-- Each node is the least that is ready after those before it. -/
def Greedy (nodes : List α) (edges : List (α × α)) (l : List α) : Prop :=
  ∀ before a after, l = before ++ a :: after → IsLeast {b | Ready nodes edges before b} a

namespace Greedy

theorem nil : Greedy nodes edges [] := fun before a after h =>
  absurd h.symm (List.append_ne_nil_of_right_ne_nil before (List.cons_ne_nil a after))

theorem concat (h : Greedy nodes edges l) (ha : IsLeast {b | Ready nodes edges l b} a) :
    Greedy nodes edges (l ++ [a]) := by
  intro before b after heq
  rcases List.eq_nil_or_concat after with rfl | ⟨after, c, rfl⟩
  · obtain ⟨rfl, hb⟩ := List.append_inj' heq rfl
    obtain rfl := List.singleton_inj.mp hb
    exact ha
  · rw [List.concat_eq_append, ← List.cons_append, ← List.append_assoc] at heq
    exact h before b after (List.append_inj' heq rfl).1

theorem ordered (h : Greedy nodes edges l) : Ordered edges l :=
  fun before a after hl => (h before a after hl).1.parents

/-- No other order of the nodes is smaller. -/
theorem le (h : Greedy nodes edges l) (hnodup : nodes.Nodup) (hperm : l'.Perm nodes)
    (hordered : Ordered edges l') : l ≤ l' := by
  -- Where the two orders agree up to here, the node that was taken is not the greater one.
  suffices hrest : ∀ rest before rest', l = before ++ rest → l' = before ++ rest' →
      rest ≤ rest' from hrest l [] l' rfl rfl
  intro rest
  induction rest with
  | nil => exact fun _ rest' _ _ => not_lt.mp (List.not_lt_nil rest')
  | cons a rest ih =>
    intro before rest' hl hl'
    have ha := h before a rest hl
    have hnodup' : l'.Nodup := hperm.nodup_iff.mpr hnodup
    cases rest' with
    | nil =>
      rw [List.append_nil] at hl'
      exact absurd (hl' ▸ hperm.mem_iff.mpr ha.1.mem) ha.1.fresh
    | cons a' rest' =>
      have hready : Ready nodes edges before a' := by
        refine ⟨hperm.subset ?_, fun hmem => ?_, hordered before a' rest' hl'⟩
        · rw [hl']
          exact List.mem_append_right _ List.mem_cons_self
        · rw [hl'] at hnodup'
          exact List.disjoint_of_nodup_append hnodup' hmem List.mem_cons_self
      rcases (ha.2 hready).lt_or_eq with hlt | rfl
      · exact le_of_lt (List.Lex.rel hlt)
      · refine List.cons_le_cons a (ih (before ++ [a]) rest' ?_ ?_)
        · rw [hl, List.append_assoc, List.singleton_append]
        · rw [hl', List.append_assoc, List.singleton_append]

end Greedy

/-! ### The loop -/

structure Search (α : Type) where
  queue : List α
  indegree : α → Int
  ordered : List α

def children (edges : List (α × α)) (a : α) : List α :=
  ((edges.filter fun e => e.1 = a).map Prod.snd).insertionSort (· ≤ ·)

def releaseChild (s : (α → Int) × List α) (c : α) : (α → Int) × List α :=
  (Function.update s.1 c (s.1 c - 1), if s.1 c - 1 = 0 then s.2 ++ [c] else s.2)

/-- The loop over the queue, for at most so many nodes. -/
def loop (edges : List (α × α)) : Nat → Search α → Search α
  | 0, s => s
  | fuel + 1, s =>
    match s.queue with
    | [] => s
    | current :: queue =>
      let released := (children edges current).foldl releaseChild (s.indegree, queue)
      loop edges fuel
        ⟨released.2.insertionSort (· ≤ ·), released.1, s.ordered ++ [current]⟩

def start (nodes : List α) (edges : List (α × α)) : Search α :=
  let indegree (a : α) : Int := edges.countP fun e => e.2 = a
  ⟨(nodes.filter fun a => indegree a = 0).insertionSort (· ≤ ·), indegree, []⟩

/-- The nodes in order, if all of them have been taken. -/
def sort (nodes : List α) (edges : List (α × α)) : Option (List α) :=
  let ordered := (loop edges nodes.length (start nodes edges)).ordered
  if ordered.length = nodes.length then some ordered else none

/-! ### What the loop keeps -/

/-- The edges from parents that the node waits for. -/
def waits (edges : List (α × α)) (done : List α) (a : α) : Nat :=
  edges.countP fun e => e.2 = a ∧ e.1 ∉ done

theorem waits_eq_zero : waits edges done a = 0 ↔ ∀ p, (p, a) ∈ edges → p ∈ done := by
  unfold waits
  rw [List.countP_eq_zero]
  constructor
  · intro h p hp
    by_contra hnot
    exact h (p, a) hp (decide_eq_true ⟨rfl, hnot⟩)
  · rintro h ⟨p, c⟩ he hwaits
    obtain ⟨rfl, hnot⟩ := of_decide_eq_true hwaits
    exact hnot (h p he)

theorem count_children (edges : List (α × α)) (a b : α) :
    (children edges a).count b = edges.countP fun e => e.2 = b ∧ e.1 = a := by
  unfold children
  rw [(List.perm_insertionSort _ _).count_eq, List.count, List.countP_map, List.countP_filter]
  refine List.countP_congr fun e _ => ?_
  simp

theorem waits_concat (edges : List (α × α)) (ha : a ∉ done) (b : α) :
    waits edges done b = waits edges (done ++ [a]) b + (children edges a).count b := by
  rw [count_children]
  unfold waits
  induction edges with
  | nil => rfl
  | cons e edges ih =>
    rw [List.countP_cons, List.countP_cons, List.countP_cons, ih]
    by_cases hb : e.2 = b
    · by_cases he : e.1 = a
      · simp [hb, he, ha]
        omega
      · simp [hb, he]
        omega
    · simp [hb]

theorem foldl_releaseChild {cs queue : List α} {d : α → Int} (hqueue : ∀ b ∈ queue, d b = 0)
    (hnodup : queue.Nodup) (hcount : ∀ b, (cs.count b : Int) ≤ d b) :
    (∀ b, (cs.foldl releaseChild (d, queue)).1 b = d b - cs.count b) ∧
      (cs.foldl releaseChild (d, queue)).2.Nodup ∧
        ∀ b, b ∈ (cs.foldl releaseChild (d, queue)).2 ↔
          b ∈ queue ∨ 0 < d b ∧ d b = cs.count b := by
  induction cs generalizing d queue with
  | nil =>
    refine ⟨fun b => by simp, hnodup, fun b => ⟨.inl, ?_⟩⟩
    rintro (hb | ⟨hpos, hzero⟩)
    · exact hb
    · simp only [List.count_nil] at hzero
      omega
  | cons c cs ih =>
    -- A child may occur several times; it is queued where the last edge to it is counted down.
    have hc := hcount c
    rw [List.count_cons_self] at hc
    push_cast at hc
    have hfresh : c ∉ queue := fun hmem => by
      have := hqueue c hmem
      omega
    have hother : ∀ {b}, b ≠ c → Function.update d c (d c - 1) b = d b ∧
        (c :: cs).count b = cs.count b := fun hb =>
      ⟨Function.update_of_ne hb _ _, List.count_cons_of_ne (Ne.symm hb)⟩
    rw [List.foldl_cons]
    unfold releaseChild
    dsimp only
    have hqueue' : ∀ b ∈ (if d c - 1 = 0 then queue ++ [c] else queue),
        Function.update d c (d c - 1) b = 0 := by
      intro b hb
      by_cases hbc : b = c
      · split_ifs at hb with hzero
        · rw [hbc, Function.update_self, hzero]
        · exact absurd (hbc ▸ hb) hfresh
      · rw [(hother hbc).1]
        split_ifs at hb
        · exact hqueue b ((List.mem_append.mp hb).resolve_right fun h =>
            hbc (List.mem_singleton.mp h))
        · exact hqueue b hb
    have hnodup' : (if d c - 1 = 0 then queue ++ [c] else queue).Nodup := by
      split_ifs
      · exact List.concat_eq_append ▸ hnodup.concat hfresh
      · exact hnodup
    have hcount' : ∀ b, (cs.count b : Int) ≤ Function.update d c (d c - 1) b := by
      intro b
      by_cases hb : b = c
      · rw [hb, Function.update_self]
        omega
      · rw [(hother hb).1, ← (hother hb).2]
        exact hcount b
    obtain ⟨hdegree, hdistinct, hmem⟩ := ih hqueue' hnodup' hcount'
    refine ⟨fun b => ?_, hdistinct, fun b => (hmem b).trans ?_⟩
    · refine (hdegree b).trans ?_
      by_cases hb : b = c
      · rw [hb, Function.update_self, List.count_cons_self]
        push_cast
        omega
      · rw [(hother hb).1, (hother hb).2]
    · by_cases hb : b = c
      · rw [hb, Function.update_self, List.count_cons_self]
        push_cast
        split_ifs with hzero
        · exact iff_of_true (.inl (by simp)) (.inr ⟨by omega, by omega⟩)
        · simp only [hfresh, false_or]
          omega
      · rw [(hother hb).1, (hother hb).2]
        split_ifs
        · simp [hb]
        · rfl

structure Sorting (nodes : List α) (edges : List (α × α)) (s : Search α) : Prop where
  greedy : Greedy nodes edges s.ordered
  nodup : s.ordered.Nodup
  subset : s.ordered ⊆ nodes
  degree : ∀ b, s.indegree b = waits edges s.ordered b
  queued : ∀ b, b ∈ s.queue ↔ Ready nodes edges s.ordered b
  sorted : s.queue.Pairwise (· ≤ ·)
  distinct : s.queue.Nodup

variable {s : Search α}

theorem sorting_start (hnodup : nodes.Nodup) (edges : List (α × α)) :
    Sorting nodes edges (start nodes edges) where
  greedy := .nil
  nodup := List.nodup_nil
  subset := List.nil_subset _
  degree b := by
    unfold start waits
    simp
  queued b := by
    have hzero : (edges.countP fun e => e.2 = b) = 0 ↔ ∀ p, (p, b) ∈ edges → p ∈ [] := by
      rw [← waits_eq_zero]
      simp [waits]
    unfold start
    simp only [List.mem_insertionSort, List.mem_filter, decide_eq_true_eq, Int.natCast_eq_zero,
      hzero]
    exact ⟨fun h => ⟨h.1, List.not_mem_nil, h.2⟩, fun h => ⟨h.mem, h.parents⟩⟩
  sorted := List.pairwise_insertionSort _ _
  distinct := (List.perm_insertionSort _ _).nodup_iff.mpr (hnodup.filter _)

namespace Sorting

/-- A node that is done waits for no parent. -/
theorem waits_eq_zero_of_mem (h : Sorting nodes edges s) (ha : a ∈ s.ordered) :
    waits edges s.ordered a = 0 := by
  obtain ⟨before, after, hsplit⟩ := List.append_of_mem ha
  refine waits_eq_zero.mpr fun p hp => ?_
  rw [hsplit]
  exact List.mem_append_left _ (h.greedy.ordered before a after hsplit p hp)

theorem take (h : Sorting nodes edges s) (hends : ∀ e ∈ edges, e.2 ∈ nodes) {queue : List α}
    (hqueue : s.queue = a :: queue) :
    Sorting nodes edges
      ⟨((children edges a).foldl releaseChild (s.indegree, queue)).2.insertionSort (· ≤ ·),
        ((children edges a).foldl releaseChild (s.indegree, queue)).1, s.ordered ++ [a]⟩ := by
  have hready : Ready nodes edges s.ordered a := (h.queued a).mp (hqueue ▸ List.mem_cons_self)
  have hsorted := hqueue ▸ h.sorted
  obtain ⟨hfresh, hdistinct⟩ := List.nodup_cons.mp (hqueue ▸ h.distinct)
  have hleast : IsLeast {b | Ready nodes edges s.ordered b} a := by
    refine ⟨hready, fun b hb => ?_⟩
    rcases List.mem_cons.mp (hqueue ▸ (h.queued b).mpr hb) with rfl | hmem
    · exact le_refl b
    · exact List.rel_of_pairwise_cons hsorted hmem
  have hzero : ∀ b, Ready nodes edges s.ordered b → s.indegree b = 0 := fun b hb => by
    rw [h.degree, waits_eq_zero.mpr hb.parents]
    rfl
  have hconcat := waits_concat edges hready.fresh
  obtain ⟨hdegree, hnodup, hmem⟩ := @foldl_releaseChild α _ (children edges a) queue s.indegree
    (fun b hb => hzero b ((h.queued b).mp (hqueue ▸ List.mem_cons_of_mem a hb))) hdistinct
    fun b => by
      rw [h.degree, hconcat]
      omega
  refine ⟨h.greedy.concat hleast, List.concat_eq_append ▸ h.nodup.concat hready.fresh, ?_,
    fun b => ?_, fun b => ?_, List.pairwise_insertionSort _ _,
    (List.perm_insertionSort _ _).nodup_iff.mpr hnodup⟩
  · exact List.append_subset.mpr ⟨h.subset, List.forall_mem_singleton.mpr hready.mem⟩
  · dsimp only
    rw [hdegree, h.degree, hconcat]
    omega
  · dsimp only
    rw [List.mem_insertionSort, hmem, h.degree]
    have hb := hconcat b
    constructor
    · rintro (hqueued | ⟨hpos, heq⟩)
      · have hwas := (h.queued b).mp (hqueue ▸ List.mem_cons_of_mem a hqueued)
        refine ⟨hwas.mem, ?_, fun p hp => List.mem_append_left _ (hwas.parents p hp)⟩
        rw [List.mem_append, List.mem_singleton, not_or]
        exact ⟨hwas.fresh, ne_of_mem_of_not_mem hqueued hfresh⟩
      · -- A child that was queued now has waited for this parent alone.
        have hnone : waits edges (s.ordered ++ [a]) b = 0 := by omega
        have hsome : ¬ ∀ p, (p, b) ∈ edges → p ∈ s.ordered := fun hall => by
          rw [waits_eq_zero.mpr hall] at hpos
          exact absurd hpos (lt_irrefl _)
        refine ⟨?_, ?_, waits_eq_zero.mp hnone⟩
        · push Not at hsome
          obtain ⟨p, hp, -⟩ := hsome
          exact hends _ hp
        · rw [List.mem_append, List.mem_singleton, not_or]
          refine ⟨fun hdone => ?_, fun heq => hsome (heq ▸ hready.parents)⟩
          exact hsome (waits_eq_zero.mp (h.waits_eq_zero_of_mem hdone))
    · intro hnow
      obtain ⟨hfresh', hne⟩ := not_or.mp (List.mem_append.not.mp hnow.fresh)
      rw [waits_eq_zero.mpr hnow.parents] at hb
      rcases Nat.eq_zero_or_pos (waits edges s.ordered b) with hnone | hpos
      · have hwas := (h.queued b).mpr ⟨hnow.mem, hfresh', waits_eq_zero.mp hnone⟩
        rw [hqueue] at hwas
        exact .inl ((List.mem_cons.mp hwas).resolve_left fun heq =>
          hne (List.mem_singleton.mpr heq))
      · exact .inr ⟨by omega, by omega⟩

/-- The loop goes on until the queue is empty, as long as it may. -/
theorem loop (h : Sorting nodes edges s) (hends : ∀ e ∈ edges, e.2 ∈ nodes) (fuel : Nat) :
    Sorting nodes edges (loop edges fuel s) ∧
      ((TopologicalSort.loop edges fuel s).queue = [] ∨
        (TopologicalSort.loop edges fuel s).ordered.length = s.ordered.length + fuel) := by
  induction fuel generalizing s with
  | zero => exact ⟨h, .inr rfl⟩
  | succ fuel ih =>
    unfold TopologicalSort.loop
    split
    · next hqueue => exact ⟨h, .inl hqueue⟩
    · next a queue hqueue =>
      obtain ⟨hsorting, hend⟩ := ih (h.take hends hqueue)
      refine ⟨hsorting, hend.imp_right fun hlength => ?_⟩
      rw [hlength, List.length_append, List.length_singleton]
      omega

theorem perm (h : Sorting nodes edges s) (hlength : s.ordered.length = nodes.length) :
    s.ordered.Perm nodes :=
  (h.nodup.subperm h.subset).perm_of_length_le hlength.ge

end Sorting

/-- At the end no node is ready. -/
theorem not_ready_loop (hnodup : nodes.Nodup) (hends : ∀ e ∈ edges, e.2 ∈ nodes) (a : α) :
    ¬ Ready nodes edges (loop edges nodes.length (start nodes edges)).ordered a := by
  obtain ⟨hsorting, hqueue | hlength⟩ :=
    (sorting_start hnodup edges).loop hends nodes.length
  · intro hready
    have hmem := (hsorting.queued a).mpr hready
    rw [hqueue] at hmem
    cases hmem
  · -- All nodes have been taken.
    intro hready
    rw [show (start nodes edges).ordered = [] from rfl, List.length_nil, Nat.zero_add] at hlength
    exact hready.fresh ((hsorting.perm hlength).mem_iff.mpr hready.mem)

theorem sort_eq_some : sort nodes edges = some l ↔
    (loop edges nodes.length (start nodes edges)).ordered = l ∧ l.length = nodes.length := by
  unfold sort
  dsimp only
  split_ifs with hlength
  · exact ⟨fun h => ⟨Option.some.inj h, Option.some.inj h ▸ hlength⟩, fun h => congrArg some h.1⟩
  · exact ⟨fun h => (by cases h), fun h => absurd (h.1 ▸ h.2) hlength⟩

theorem le_of_sort (hnodup : nodes.Nodup) (hends : ∀ e ∈ edges, e.2 ∈ nodes)
    (h : sort nodes edges = some l) : l.Perm nodes ∧ Ordered edges l ∧
      ∀ l', l'.Perm nodes → Ordered edges l' → l ≤ l' := by
  obtain ⟨rfl, hlength⟩ := sort_eq_some.mp h
  obtain ⟨hsorting, -⟩ := (sorting_start hnodup edges).loop hends nodes.length
  exact ⟨hsorting.perm hlength, hsorting.greedy.ordered, fun _ => hsorting.greedy.le hnodup⟩

theorem exists_sort_iff (hnodup : nodes.Nodup) (hends : ∀ e ∈ edges, e.1 ∈ nodes ∧ e.2 ∈ nodes) :
    (∃ l, sort nodes edges = some l) ↔ Acyclic edges := by
  have hends' : ∀ e ∈ edges, e.2 ∈ nodes := fun e he => (hends e he).2
  constructor
  · rintro ⟨l, h⟩
    obtain ⟨hperm, hordered, -⟩ := le_of_sort hnodup hends' h
    exact hordered.acyclic (hperm.nodup_iff.mpr hnodup) fun e he =>
      hperm.mem_iff.mpr (hends' e he)
  · intro hacyclic
    obtain ⟨hsorting, -⟩ := (sorting_start hnodup edges).loop hends' nodes.length
    refine ⟨_, sort_eq_some.mpr ⟨rfl, ?_⟩⟩
    refine le_antisymm (hsorting.nodup.subperm hsorting.subset).length_le
      (hnodup.subperm fun a ha => ?_).length_le
    by_contra hdone
    obtain ⟨b, hb⟩ := exists_ready hacyclic (fun e he => (hends e he).1) ha hdone
    exact not_ready_loop hnodup hends' b hb

end TopologicalSort
