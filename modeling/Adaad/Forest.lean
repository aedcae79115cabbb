import Mathlib.Data.List.Nodup
import Mathlib.Data.List.Perm.Subperm
import Mathlib.Logic.Relation

/-!
# Forests

Nodes that have at most one parent each, which is a node as well and one rank nearer to the roots
(`Ranked`).  The ancestors of a node are then as many as its rank (`Ranked.exists_ancestors`), and a
depth-first walk with a stack meets every descendant once (`Ranked.exists_walk`).

Both loops take the number of steps they may make.
-/

namespace Forest

variable {α : Type}

/-- `b` is `a` or has it among its ancestors. -/
def Descends (parent : α → Option α) : α → α → Prop :=
  Relation.ReflTransGen fun x y => parent y = some x

/-- The rank counts the steps to a root. -/
structure Ranked (nodes : List α) (parent : α → Option α) (rank : α → Nat) : Prop where
  nodup : nodes.Nodup
  parent_mem : ∀ a ∈ nodes, ∀ p, parent a = some p → p ∈ nodes
  rank_parent : ∀ a ∈ nodes, ∀ p, parent a = some p → rank a = rank p + 1
  rank_root : ∀ a ∈ nodes, parent a = none → rank a = 0

variable {nodes : List α} {parent : α → Option α} {rank : α → Nat}

/-! ### Ancestors -/

/-- The node and its ancestors, the nearest first. -/
def ancestors (parent : α → Option α) : Nat → α → Option (List α)
  | 0, _ => none
  | fuel + 1, a =>
    match parent a with
    | none => some [a]
    | some p => (ancestors parent fuel p).map (a :: ·)

theorem Ranked.exists_ancestors (h : Ranked nodes parent rank) {fuel : Nat} {a : α} (ha : a ∈ nodes)
    (hfuel : rank a < fuel) :
    ∃ l, ancestors parent fuel a = some l ∧
      l.map rank = (List.range (rank a + 1)).reverse ∧ l.head? = some a := by
  induction fuel generalizing a with
  | zero => exact absurd hfuel (Nat.not_lt_zero _)
  | succ fuel ih =>
    cases hp : parent a with
    | none =>
      refine ⟨[a], by rw [ancestors, hp], ?_, rfl⟩
      rw [List.map_singleton, h.rank_root a ha hp]
      rfl
    | some p =>
      have hrank := h.rank_parent a ha p hp
      obtain ⟨l, hl, hranks, -⟩ := ih (h.parent_mem a ha p hp) (by omega)
      refine ⟨a :: l, by rw [ancestors, hp]; exact congrArg (Option.map _) hl, ?_, rfl⟩
      rw [List.map_cons, hranks, hrank, List.range_succ (n := rank p + 1), List.reverse_append]
      rfl

/-! ### Ways up -/

theorem Descends.total {a b c : α} (hb : Descends parent b a) (hc : Descends parent c a) :
    Descends parent b c ∨ Descends parent c b := by
  induction hb with
  | refl => exact .inr hc
  | @tail y z hy hyz ih =>
    rcases Relation.ReflTransGen.cases_tail hc with heq | ⟨w, hw, hwz⟩
    · rw [← heq]
      exact .inl (hy.tail hyz)
    · rw [hyz] at hwz
      obtain rfl := Option.some.inj hwz
      exact ih hw

/-- The way up from a node comes to `x` before it comes to `stop`. -/
inductive Reached (parent : α → Option α) (stop x : α) : α → Prop where
  | here : x ≠ stop → Reached parent stop x x
  | up {a p : α} : a ≠ stop → parent a = some p → Reached parent stop x p → Reached parent stop x a

theorem Reached.descends {stop x a : α} (h : Reached parent stop x a) : Descends parent x a := by
  induction h with
  | here _ => exact .refl
  | up _ hp _ ih => exact ih.tail hp

/-! ### Descendants -/

theorem Ranked.mem_of_descends (h : Ranked nodes parent rank) {a b : α} (hab : Descends parent a b)
    (hb : b ∈ nodes) : a ∈ nodes ∧ rank a ≤ rank b := by
  induction hab with
  | refl => exact ⟨hb, Nat.le_refl _⟩
  | @tail b c _ hbc ih =>
    obtain ⟨ha, hle⟩ := ih (h.parent_mem c hb b hbc)
    have := h.rank_parent c hb b hbc
    exact ⟨ha, by omega⟩

theorem Ranked.antisymm (h : Ranked nodes parent rank) {a b : α} (ha : a ∈ nodes)
    (hab : Descends parent a b) (hba : Descends parent b a) : a = b := by
  have hb := (h.mem_of_descends hba ha).1
  rcases Relation.ReflTransGen.cases_tail hab with heq | ⟨p, hap, hpb⟩
  · exact heq.symm
  · have hp := h.mem_of_descends hap (h.parent_mem b hb p hpb)
    have hrank := h.rank_parent b hb p hpb
    have hle := (h.mem_of_descends hba ha).2
    omega

theorem Ranked.reached_iff (h : Ranked nodes parent rank) {stop x a : α} (ha : a ∈ nodes) :
    Reached parent stop x a ↔
      Descends parent x a ∧ ¬ (Descends parent x stop ∧ Descends parent stop a) := by
  constructor
  · intro hx
    refine ⟨hx.descends, ?_⟩
    induction hx with
    | here hne =>
      rintro ⟨hxs, hsx⟩
      exact hne (h.antisymm ha hxs hsx)
    | @up a p hne hp _ ih =>
      rintro ⟨hxs, hsa⟩
      rcases Relation.ReflTransGen.cases_tail hsa with heq | ⟨q, hsq, hqa⟩
      · exact hne heq
      · rw [hp] at hqa
        obtain rfl := Option.some.inj hqa
        exact ih (h.parent_mem a ha p hp) ⟨hxs, hsq⟩
  · rintro ⟨hx, hnot⟩
    induction hx with
    | refl =>
      refine .here ?_
      rintro rfl
      exact hnot ⟨.refl, .refl⟩
    | @tail b c hxb hbc ih =>
      refine .up ?_ hbc (ih (h.parent_mem c ha b hbc) fun hstop => hnot ⟨hstop.1, hstop.2.tail hbc⟩)
      rintro rfl
      exact hnot ⟨hxb.tail hbc, .refl⟩

theorem Reached.of_descends {stop a c d : α} (hc : Reached parent stop c a)
    (h : Ranked nodes parent rank) (ha : a ∈ nodes) (hcd : Descends parent c d)
    (hda : Descends parent d a) : Reached parent stop d a := by
  rw [h.reached_iff ha] at hc ⊢
  exact ⟨hda, fun hstop => hc.2 ⟨hcd.trans hstop.1, hstop.2⟩⟩

theorem Ranked.exists_root (h : Ranked nodes parent rank) {a : α} (ha : a ∈ nodes) :
    ∃ root, parent root = none ∧ Descends parent root a := by
  induction hrank : rank a using Nat.strongRecOn generalizing a with
  | ind n ih =>
    cases hparent : parent a with
    | none => exact ⟨a, hparent, .refl⟩
    | some p =>
      have hlt := h.rank_parent a ha p hparent
      obtain ⟨root, hroot, hdescends⟩ := ih (rank p) (by omega) (h.parent_mem a ha p hparent) rfl
      exact ⟨root, hroot, hdescends.tail hparent⟩

/-- How far a walk from `root` has come: nothing is met twice, what is on the stack are the children
of what was met, and none of these is missing. -/
structure Walking (nodes : List α) (parent : α → Option α) (root : α) (stack result : List α) :
    Prop where
  nodup : (result ++ stack).Nodup
  mem : ∀ x ∈ result ++ stack, x ∈ nodes ∧ Descends parent root x
  origin : ∀ x ∈ result ++ stack, x = root ∨ ∃ p ∈ result, parent x = some p
  closed : ∀ p ∈ result, ∀ c ∈ nodes, parent c = some p → c ∈ result ++ stack
  root_mem : root ∈ result ++ stack

variable {root : α} {stack result : List α}

theorem walking_start (hroot : root ∈ nodes) : Walking nodes parent root [root] [] where
  nodup := List.nodup_singleton root
  mem x hx := by
    obtain rfl := List.mem_singleton.mp hx
    exact ⟨hroot, .refl⟩
  origin x hx := .inl (List.mem_singleton.mp hx)
  closed p hp := absurd hp List.not_mem_nil
  root_mem := List.mem_singleton_self root

theorem perm_next (a : α) (cs stack result : List α) :
    ((result ++ [a]) ++ (cs.reverse ++ stack)).Perm ((result ++ a :: stack) ++ cs) := by
  rw [List.append_assoc, List.append_assoc]
  refine List.Perm.append_left result ?_
  show (a :: (cs.reverse ++ stack)).Perm (a :: (stack ++ cs))
  exact ((List.reverse_perm cs).append_right stack |>.trans List.perm_append_comm).cons a

theorem Walking.length_le (h : Walking nodes parent root stack result) :
    result.length + stack.length ≤ nodes.length := by
  rw [← List.length_append]
  exact (List.subperm_of_subset h.nodup fun x hx => (h.mem x hx).1).length_le

variable [DecidableEq α]

/-- The nodes whose parent is `a`. -/
def children (nodes : List α) (parent : α → Option α) (a : α) : List α :=
  nodes.filter fun b => parent b = some a

/-- The walk from the nodes on `stack`, the next of which comes first, after those in `result`. -/
def walk (nodes : List α) (parent : α → Option α) : Nat → List α → List α → Option (List α)
  | _, [], result => some result
  | 0, _ :: _, _ => none
  | fuel + 1, a :: stack, result =>
    walk nodes parent fuel ((children nodes parent a).reverse ++ stack) (result ++ [a])

theorem mem_children {a b : α} : b ∈ children nodes parent a ↔ b ∈ nodes ∧ parent b = some a := by
  unfold children
  rw [List.mem_filter, decide_eq_true_eq]

theorem Walking.next (hr : Ranked nodes parent rank) {a : α}
    (h : Walking nodes parent root (a :: stack) result) :
    Walking nodes parent root ((children nodes parent a).reverse ++ stack) (result ++ [a]) := by
  have hperm := perm_next a (children nodes parent a) stack result
  obtain ⟨hanodes, haroot⟩ := h.mem a (by simp)
  have hnotin : a ∉ result := fun ha =>
    (List.nodup_append.mp h.nodup).2.2 a ha a List.mem_cons_self rfl
  have hfresh : ∀ c ∈ children nodes parent a, c ∉ result ++ a :: stack := by
    intro c hc hmem
    obtain ⟨hcnodes, hparent⟩ := mem_children.mp hc
    rcases h.origin c hmem with rfl | ⟨p, hp, hparent'⟩
    · -- the root would be below a node that is below the root
      have hle := (hr.mem_of_descends haroot hanodes).2
      have := hr.rank_parent c hcnodes a hparent
      omega
    · rw [hparent] at hparent'
      exact hnotin (Option.some.inj hparent' ▸ hp)
  refine ⟨?_, fun x hx => ?_, fun x hx => ?_, fun p hp c hc hparent => ?_, ?_⟩
  · rw [hperm.nodup_iff, List.nodup_append]
    refine ⟨h.nodup, hr.nodup.filter _, fun x hx y hy hxy => hfresh y hy (hxy ▸ hx)⟩
  · rcases List.mem_append.mp (hperm.mem_iff.mp hx) with hx | hx
    · exact h.mem x hx
    · obtain ⟨hnodes, hparent⟩ := mem_children.mp hx
      exact ⟨hnodes, haroot.tail hparent⟩
  · rcases List.mem_append.mp (hperm.mem_iff.mp hx) with hx | hx
    · rcases h.origin x hx with rfl | ⟨p, hp, hparent⟩
      · exact .inl rfl
      · exact .inr ⟨p, List.mem_append_left _ hp, hparent⟩
    · exact .inr ⟨a, by simp, (mem_children.mp hx).2⟩
  · refine hperm.mem_iff.mpr ?_
    rcases List.mem_append.mp hp with hp | hp
    · exact List.mem_append_left _ (h.closed p hp c hc hparent)
    · obtain rfl := List.mem_singleton.mp hp
      exact List.mem_append_right _ (mem_children.mpr ⟨hc, hparent⟩)
  · exact hperm.mem_iff.mpr (List.mem_append_left _ h.root_mem)

theorem Walking.exists_walk (hr : Ranked nodes parent rank) {fuel : Nat}
    (h : Walking nodes parent root stack result) (hfuel : nodes.length ≤ fuel + result.length) :
    ∃ out, walk nodes parent fuel stack result = some out ∧ Walking nodes parent root [] out := by
  induction fuel generalizing stack result with
  | zero =>
    have hle := h.length_le
    obtain rfl : stack = [] := List.eq_nil_of_length_eq_zero (by omega)
    exact ⟨result, rfl, h⟩
  | succ fuel ih =>
    cases stack with
    | nil => exact ⟨result, rfl, h⟩
    | cons a stack =>
      refine ih (h.next hr) ?_
      rw [List.length_append, List.length_singleton]
      omega

theorem Ranked.exists_walk (h : Ranked nodes parent rank) (hroot : root ∈ nodes) {fuel : Nat}
    (hfuel : nodes.length ≤ fuel) :
    ∃ out, walk nodes parent fuel [root] [] = some out ∧ out.Nodup ∧
      ∀ b, b ∈ out ↔ b ∈ nodes ∧ Descends parent root b := by
  have hlength : nodes.length ≤ fuel + ([] : List α).length := by simpa
  obtain ⟨out, hout, hwalked⟩ := (walking_start hroot).exists_walk h hlength
  have hmem := hwalked.mem
  have hclosed := hwalked.closed
  have hrootmem := hwalked.root_mem
  have hnodup := hwalked.nodup
  rw [List.append_nil] at hmem hclosed hrootmem hnodup
  refine ⟨out, hout, hnodup, fun b => ⟨hmem b, ?_⟩⟩
  rintro ⟨hb, hdescends⟩
  induction hdescends with
  | refl => exact hrootmem
  | @tail b c _ hbc ih => exact hclosed b (ih (h.parent_mem c hb b hbc)) c hb hbc

end Forest
