import Mathlib.Algebra.BigOperators.Group.List.Basic
import Mathlib.Algebra.GroupWithZero.Nat
import Mathlib.Data.List.Nodup
import Mathlib.Data.Set.Basic
import Mathlib.Logic.Relation

/-!
# Depth-first walks

A graph is given by the nodes that are next to each node.  A walk takes a node from a stack, and where
it has not met the node before it puts those next to it on the stack.  A stack is the list of what is
on it, its top first; what is put on it ends up in reverse order.

Both loops take the number of steps that they may make; as many as `cost` says are enough.  A walk
meets each node that can be reached once (`exists_walk`), and it meets them in an order of the graph
where the stack is laid out for it (`beforeNext_walk`, `afterNext_walk`).
-/

namespace DepthFirst

variable {α : Type} [DecidableEq α] (next : α → List α)

/-- `b` is next to `a`. -/
abbrev Edge (a b : α) : Prop :=
  b ∈ next a

/-- `b` can be reached from `a`. -/
abbrev Reach (a b : α) : Prop :=
  Relation.ReflTransGen (Edge next) a b

/-- The walk from what is on the stack, after the nodes in `result`. -/
def walk : Nat → List α → List α → Option (List α)
  | _, result, [] => some result
  | 0, _, _ :: _ => none
  | fuel + 1, result, a :: stack =>
    if a ∈ result then walk fuel result stack
    else walk fuel (result ++ [a]) ((next a).reverse ++ stack)

/-- A walk that stops when it meets the target. -/
def reaches (target : α) : Nat → List α → List α → Option Bool
  | _, _, [] => some false
  | 0, _, _ :: _ => none
  | fuel + 1, visited, a :: stack =>
    if a = target then some true
    else if a ∈ visited then reaches target fuel visited stack
    else reaches target fuel (visited ++ [a]) ((next a).reverse ++ stack)

/-! ### The number of steps -/

variable {next} {result stack origins : List α} {a b : α} {fuel : Nat}

variable (next) in
/-- The edges that lead from the nodes that have not been visited. -/
def cost (nodes visited : List α) : Nat :=
  ((nodes.filter fun a => a ∉ visited).map fun a => (next a).length).sum

variable {nodes visited : List α}

theorem cost_nil : cost next nodes [] = (nodes.map fun a => (next a).length).sum := by
  unfold cost
  rw [List.filter_eq_self.mpr fun a _ => decide_eq_true List.not_mem_nil]

theorem cost_concat (hnodup : nodes.Nodup) (hnodes : a ∉ nodes → next a = []) (ha : a ∉ visited) :
    cost next nodes (visited ++ [a]) + (next a).length = cost next nodes visited := by
  unfold cost
  have hfilter : nodes.filter (fun x => x ∉ visited ++ [a]) =
      (nodes.filter fun x => x ∉ visited).filter fun x => x ≠ a := by
    rw [List.filter_filter]
    refine List.filter_congr fun x _ => ?_
    simp [and_comm]
  rw [hfilter]
  by_cases hmem : a ∈ nodes
  · have hperm : (nodes.filter fun x => x ∉ visited).Perm
        (a :: (nodes.filter fun x => x ∉ visited).filter fun x => x ≠ a) := by
      have hin : a ∈ nodes.filter fun x => x ∉ visited :=
        List.mem_filter.mpr ⟨hmem, decide_eq_true ha⟩
      refine (List.perm_cons_erase hin).trans ?_
      rw [(hnodup.filter _).erase_eq_filter]
      refine List.Perm.cons a ?_
      refine List.Perm.of_eq (List.filter_congr fun x _ => ?_)
      by_cases hx : x = a <;> simp [hx]
    have hsum := (hperm.map fun x => (next x).length).sum_eq
    rw [List.map_cons, List.sum_cons] at hsum
    omega
  · have hsame : (nodes.filter fun x => x ∉ visited).filter (fun x => x ≠ a) =
        nodes.filter fun x => x ∉ visited := by
      refine List.filter_eq_self.mpr fun x hx => decide_eq_true ?_
      rintro rfl
      exact hmem (List.mem_filter.mp hx).1
    rw [hsame, hnodes hmem]
    rfl

theorem exists_walk_of_cost (hnodup : nodes.Nodup) (hnodes : ∀ a ∉ nodes, next a = [])
    (hfuel : stack.length + cost next nodes result ≤ fuel) :
    ∃ l, walk next fuel result stack = some l := by
  induction fuel generalizing result stack with
  | zero =>
    obtain rfl : stack = [] := List.eq_nil_of_length_eq_zero (by omega)
    exact ⟨result, rfl⟩
  | succ fuel ih =>
    cases stack with
    | nil => exact ⟨result, rfl⟩
    | cons a stack =>
      rw [List.length_cons] at hfuel
      unfold walk
      by_cases ha : a ∈ result
      · rw [if_pos ha]
        exact ih (by omega)
      · rw [if_neg ha]
        have hcost := cost_concat hnodup (hnodes a) ha
        refine ih ?_
        rw [List.length_append, List.length_reverse]
        omega

/-! ### What a walk meets -/

/-- How far a walk has come: nothing is met twice, what is met or on the stack can be reached, and
what is next to a node that was met is met or on the stack. -/
structure Walking (next : α → List α) (origins result stack : List α) : Prop where
  nodup : result.Nodup
  reach : ∀ x ∈ result ++ stack, ∃ s ∈ origins, Reach next s x
  origin : ∀ s ∈ origins, s ∈ result ++ stack
  closed : ∀ x ∈ result, ∀ y ∈ next x, y ∈ result ++ stack

omit [DecidableEq α] in
theorem walking_start (origins : List α) : Walking next origins [] origins where
  nodup := List.nodup_nil
  reach x hx := ⟨x, hx, .refl⟩
  origin _ hs := hs
  closed _ hx := absurd hx List.not_mem_nil

omit [DecidableEq α] in
theorem Walking.skip (h : Walking next origins result (a :: stack)) (ha : a ∈ result) :
    Walking next origins result stack := by
  have hmem : ∀ x ∈ result ++ a :: stack, x ∈ result ++ stack := by
    intro x hx
    rcases List.mem_append.mp hx with hx | hx
    · exact List.mem_append_left _ hx
    · rcases List.mem_cons.mp hx with rfl | hx
      · exact List.mem_append_left _ ha
      · exact List.mem_append_right _ hx
  refine ⟨h.nodup, fun x hx => h.reach x ?_, fun s hs => hmem s (h.origin s hs),
    fun x hx y hy => hmem y (h.closed x hx y hy)⟩
  exact (List.mem_append.mp hx).elim (List.mem_append_left _) fun hx =>
    List.mem_append_right _ (List.mem_cons_of_mem a hx)

omit [DecidableEq α] in
theorem Walking.meet (h : Walking next origins result (a :: stack)) (ha : a ∉ result) :
    Walking next origins (result ++ [a]) ((next a).reverse ++ stack) := by
  have hmem : ∀ x ∈ result ++ a :: stack, x ∈ (result ++ [a]) ++ ((next a).reverse ++ stack) := by
    intro x hx
    simp only [List.mem_append, List.mem_cons, List.not_mem_nil, or_false] at hx ⊢
    tauto
  refine ⟨?_, fun x hx => ?_, fun s hs => hmem s (h.origin s hs), fun x hx y hy => ?_⟩
  · refine List.nodup_append.mpr ⟨h.nodup, List.nodup_singleton a, fun x hx y hy hxy => ?_⟩
    exact ha (List.mem_singleton.mp hy ▸ hxy ▸ hx)
  · simp only [List.mem_append, List.mem_singleton, List.mem_reverse] at hx
    rcases hx with (hx | rfl) | hx | hx
    · exact h.reach x (List.mem_append_left _ hx)
    · exact h.reach x (by simp)
    · obtain ⟨s, hs, hsa⟩ := h.reach a (by simp)
      exact ⟨s, hs, hsa.tail hx⟩
    · exact h.reach x (by simp [hx])
  · rcases List.mem_append.mp hx with hx | hx
    · exact hmem y (h.closed x hx y hy)
    · obtain rfl := List.mem_singleton.mp hx
      simp [hy]

theorem Walking.walk {l : List α} (h : Walking next origins result stack)
    (hwalk : DepthFirst.walk next fuel result stack = some l) : Walking next origins l [] := by
  induction fuel generalizing result stack with
  | zero =>
    cases stack with
    | nil => exact Option.some.inj hwalk ▸ h
    | cons a stack => cases hwalk
  | succ fuel ih =>
    cases stack with
    | nil => exact Option.some.inj hwalk ▸ h
    | cons a stack =>
      unfold DepthFirst.walk at hwalk
      by_cases ha : a ∈ result
      · rw [if_pos ha] at hwalk
        exact ih (h.skip ha) hwalk
      · rw [if_neg ha] at hwalk
        exact ih (h.meet ha) hwalk

omit [DecidableEq α] in
theorem Walking.mem_iff (h : Walking next origins result []) (x : α) :
    x ∈ result ↔ ∃ s ∈ origins, Reach next s x := by
  constructor
  · exact fun hx => h.reach x (List.mem_append_left _ hx)
  · rintro ⟨s, hs, hreach⟩
    induction hreach with
    | refl => simpa using h.origin s hs
    | tail _ hedge ih => simpa using h.closed _ ih _ hedge

theorem exists_walk (hnodup : nodes.Nodup) (hnodes : ∀ a ∉ nodes, next a = [])
    (hfuel : origins.length + cost next nodes [] ≤ fuel) :
    ∃ l, walk next fuel [] origins = some l ∧ l.Nodup ∧
      ∀ x, x ∈ l ↔ ∃ s ∈ origins, Reach next s x := by
  obtain ⟨l, hl⟩ := exists_walk_of_cost hnodup hnodes hfuel
  have h := (walking_start origins).walk hl
  exact ⟨l, hl, h.nodup, h.mem_iff⟩

/-! ### Reaching a target -/

theorem exists_reaches_of_cost {target : α} (hnodup : nodes.Nodup) (hnodes : ∀ a ∉ nodes, next a = [])
    (hfuel : stack.length + cost next nodes visited ≤ fuel) :
    ∃ b, reaches next target fuel visited stack = some b := by
  induction fuel generalizing visited stack with
  | zero =>
    obtain rfl : stack = [] := List.eq_nil_of_length_eq_zero (by omega)
    exact ⟨false, rfl⟩
  | succ fuel ih =>
    cases stack with
    | nil => exact ⟨false, rfl⟩
    | cons a stack =>
      rw [List.length_cons] at hfuel
      unfold reaches
      by_cases htarget : a = target
      · rw [if_pos htarget]
        exact ⟨true, rfl⟩
      rw [if_neg htarget]
      by_cases ha : a ∈ visited
      · rw [if_pos ha]
        exact ih (by omega)
      · rw [if_neg ha]
        have hcost := cost_concat hnodup (hnodes a) ha
        refine ih ?_
        rw [List.length_append, List.length_reverse]
        omega

theorem Walking.reaches_iff {target : α} {found : Bool} (h : Walking next origins visited stack)
    (hnot : target ∉ visited) (hreaches : reaches next target fuel visited stack = some found) :
    found = true ↔ ∃ s ∈ origins, Reach next s target := by
  induction fuel generalizing visited stack with
  | zero =>
    cases stack with
    | nil =>
      obtain rfl := Option.some.inj hreaches
      exact iff_of_false Bool.false_ne_true fun hex => hnot ((h.mem_iff target).mpr hex)
    | cons a stack => cases hreaches
  | succ fuel ih =>
    cases stack with
    | nil =>
      obtain rfl := Option.some.inj hreaches
      exact iff_of_false Bool.false_ne_true fun hex => hnot ((h.mem_iff target).mpr hex)
    | cons a stack =>
      unfold reaches at hreaches
      by_cases htarget : a = target
      · rw [if_pos htarget] at hreaches
        obtain rfl := Option.some.inj hreaches
        exact iff_of_true rfl (htarget ▸ h.reach a (by simp))
      rw [if_neg htarget] at hreaches
      by_cases ha : a ∈ visited
      · rw [if_pos ha] at hreaches
        exact ih (h.skip ha) hnot hreaches
      · rw [if_neg ha] at hreaches
        refine ih (h.meet ha) ?_ hreaches
        rw [List.mem_append, List.mem_singleton, not_or]
        exact ⟨hnot, Ne.symm htarget⟩

theorem exists_reaches {target : α} (hnodup : nodes.Nodup) (hnodes : ∀ a ∉ nodes, next a = [])
    (hfuel : origins.length + cost next nodes [] ≤ fuel) :
    ∃ found, reaches next target fuel [] origins = some found ∧
      (found = true ↔ ∃ s ∈ origins, Reach next s target) := by
  obtain ⟨found, hfound⟩ := @exists_reaches_of_cost α _ next origins fuel nodes [] target hnodup hnodes
    hfuel
  exact ⟨found, hfound, (walking_start origins).reaches_iff List.not_mem_nil hfound⟩

/-! ### The order of a walk -/

/-- No node comes after one that is next to it. -/
def BeforeNext (next : α → List α) (l : List α) : Prop :=
  l.Pairwise fun a b => a ∉ next b

/-- No node comes before one that is next to it. -/
def AfterNext (next : α → List α) (l : List α) : Prop :=
  l.Pairwise fun a b => b ∉ next a

/-- Each node on the stack reaches only nodes that are met before it is taken, or none of them.  Met
before it are those in `met` and those that can be reached from above it. -/
def Laid (next : α → List α) : Set α → List α → Prop
  | _, [] => True
  | met, a :: stack =>
    ((∀ x, Reach next a x → x ∈ met) ∨ ∀ x, Reach next a x → x ∉ met) ∧
      Laid next (met ∪ {x | Reach next a x}) stack

/-- Each node on the stack has only nodes next to it that come before it. -/
def Shallow (next : α → List α) : List α → List α → Prop
  | _, [] => True
  | met, a :: stack => (∀ x ∈ next a, x ∈ met) ∧ Shallow next (met ++ [a]) stack

omit [DecidableEq α]

theorem laid_append {met : Set α} {stack' : List α} :
    Laid next met (stack ++ stack') ↔ Laid next met stack ∧
      Laid next (met ∪ {x | ∃ a ∈ stack, Reach next a x}) stack' := by
  induction stack generalizing met with
  | nil =>
    have heq : met ∪ {x | ∃ a ∈ ([] : List α), Reach next a x} = met := by
      ext x
      simp
    rw [heq]
    exact (and_iff_right trivial).symm
  | cons a stack ih =>
    have heq : met ∪ {x | Reach next a x} ∪ {x | ∃ b ∈ stack, Reach next b x} =
        met ∪ {x | ∃ b ∈ a :: stack, Reach next b x} := by
      ext x
      simp [or_assoc]
    rw [List.cons_append, Laid, Laid, ih, heq]
    exact and_assoc.symm

theorem Laid.union {met : Set α} (h : Laid next met stack) (met' : Set α)
    (hmet : ∀ a ∈ stack, ∀ x, Reach next a x → x ∉ met') : Laid next (met ∪ met') stack := by
  induction stack generalizing met with
  | nil => trivial
  | cons a stack ih =>
    obtain ⟨ha, hrest⟩ := List.forall_mem_cons.mp hmet
    refine ⟨h.1.imp (fun hin x hx => .inl (hin x hx)) fun hout x hx hmem => ?_, ?_⟩
    · exact hmem.elim (hout x hx) (ha x hx)
    · rw [Set.union_right_comm]
      exact ih h.2 hrest

theorem reach_eq (next : α → List α) (a : α) :
    {x | Reach next a x} = {a} ∪ {x | ∃ b ∈ (next a).reverse, Reach next b x} := by
  ext x
  constructor
  · intro hx
    rcases Relation.ReflTransGen.cases_head hx with rfl | ⟨b, hab, hbx⟩
    · exact .inl rfl
    · exact .inr ⟨b, List.mem_reverse.mpr hab, hbx⟩
  · rintro (rfl | ⟨b, hb, hbx⟩)
    · exact .refl
    · exact .head (List.mem_reverse.mp hb) hbx

variable [DecidableEq α]

theorem beforeNext_walk {l : List α} (hacyclic : ∀ a, ¬ Relation.TransGen (Edge next) a a)
    (hlaid : Laid next {x | x ∈ result} stack)
    (hnext : ∀ a ∈ stack, ∀ b, Reach next a b → Laid next ∅ (next b).reverse)
    (hresult : BeforeNext next result) (hwalk : walk next fuel result stack = some l) :
    BeforeNext next l := by
  induction fuel generalizing result stack with
  | zero =>
    cases stack with
    | nil => exact Option.some.inj hwalk ▸ hresult
    | cons a stack => cases hwalk
  | succ fuel ih =>
    cases stack with
    | nil => exact Option.some.inj hwalk ▸ hresult
    | cons a stack =>
      obtain ⟨hrule, hrest⟩ := List.forall_mem_cons.mp hnext
      unfold walk at hwalk
      by_cases ha : a ∈ result
      · rw [if_pos ha] at hwalk
        -- All that can be reached from `a` has been met.
        have hmet : ∀ x, Reach next a x → x ∈ {x | x ∈ result} :=
          hlaid.1.resolve_right fun hout => hout a .refl ha
        have hsame : {x | x ∈ result} ∪ {x | Reach next a x} = {x | x ∈ result} :=
          Set.union_eq_self_of_subset_right hmet
        have htail := hlaid.2
        rw [hsame] at htail
        exact ih htail hrest hresult hwalk
      · rw [if_neg ha] at hwalk
        have hout : ∀ x, Reach next a x → x ∉ result :=
          hlaid.1.resolve_left fun hin => ha (hin a .refl)
        have hmet : {x | x ∈ result ++ [a]} = {x | x ∈ result} ∪ {a} := by
          ext x
          show x ∈ result ++ [a] ↔ x ∈ result ∨ x = a
          rw [List.mem_append, List.mem_singleton]
        refine ih ?_ ?_ ?_ hwalk
        · rw [laid_append, hmet, Set.union_assoc, ← reach_eq]
          refine ⟨?_, hlaid.2⟩
          have hlaid' := (hrule a .refl).union ({x | x ∈ result} ∪ {a}) fun b hb x hx => ?_
          · rw [Set.empty_union] at hlaid'
            exact hlaid'
          · have hab : Edge next a b := List.mem_reverse.mp hb
            rintro (hmem | rfl)
            · exact hout x (.head hab hx) hmem
            · exact hacyclic x (Relation.TransGen.head' hab hx)
        · refine List.forall_mem_append.mpr ⟨fun b hb x hx => ?_, hrest⟩
          exact hrule x (.head (List.mem_reverse.mp hb) hx)
        · refine List.pairwise_append.mpr ⟨hresult, List.pairwise_singleton _ a, fun x hx y hy => ?_⟩
          obtain rfl := List.mem_singleton.mp hy
          exact fun hmem => hout x (.single hmem) hx

omit [DecidableEq α] in
theorem Shallow.mono {met met' : List α} (h : Shallow next met stack)
    (hsub : ∀ x ∈ met, x ∈ met') : Shallow next met' stack := by
  induction stack generalizing met met' with
  | nil => trivial
  | cons a stack ih =>
    refine ⟨fun x hx => hsub x (h.1 x hx), ih h.2 fun x hx => ?_⟩
    rcases List.mem_append.mp hx with hx | hx
    · exact List.mem_append_left _ (hsub x hx)
    · exact List.mem_append_right _ hx

omit [DecidableEq α] in
theorem Shallow.append {met stack' : List α} (h : Shallow next met stack)
    (hmet : ∀ a ∈ stack', ∀ x ∈ next a, x ∈ met) : Shallow next met (stack' ++ stack) := by
  induction stack' generalizing met with
  | nil => exact h
  | cons a stack' ih =>
    obtain ⟨ha, hrest⟩ := List.forall_mem_cons.mp hmet
    have hleft : ∀ x ∈ met, x ∈ met ++ [a] := fun x hx => List.mem_append_left _ hx
    exact ⟨ha, ih (h.mono hleft) fun b hb x hx => hleft x (hrest b hb x hx)⟩

theorem afterNext_walk {l : List α} (hshallow : Shallow next result stack)
    (hclosed : ∀ a ∈ result, ∀ x ∈ next a, x ∈ result)
    (hresult : AfterNext next result) (hwalk : walk next fuel result stack = some l) :
    AfterNext next l := by
  induction fuel generalizing result stack with
  | zero =>
    cases stack with
    | nil => exact Option.some.inj hwalk ▸ hresult
    | cons a stack => cases hwalk
  | succ fuel ih =>
    cases stack with
    | nil => exact Option.some.inj hwalk ▸ hresult
    | cons a stack =>
      unfold walk at hwalk
      have hleft : ∀ x ∈ result, x ∈ result ++ [a] := fun x hx => List.mem_append_left _ hx
      by_cases ha : a ∈ result
      · rw [if_pos ha] at hwalk
        refine ih (hshallow.2.mono fun x hx => ?_) hclosed hresult hwalk
        exact (List.mem_append.mp hx).elim id fun hx => List.mem_singleton.mp hx ▸ ha
      · rw [if_neg ha] at hwalk
        have hclosed' : ∀ b ∈ result ++ [a], ∀ x ∈ next b, x ∈ result ++ [a] := by
          refine List.forall_mem_append.mpr ⟨fun b hb x hx => hleft x (hclosed b hb x hx), ?_⟩
          exact List.forall_mem_singleton.mpr fun x hx => hleft x (hshallow.1 x hx)
        refine ih (hshallow.2.append fun b hb x hx => ?_) hclosed' ?_ hwalk
        · have hb : b ∈ result := hshallow.1 b (List.mem_reverse.mp hb)
          exact hleft x (hclosed b hb x hx)
        · refine List.pairwise_append.mpr ⟨hresult, List.pairwise_singleton _ a, fun x hx y hy => ?_⟩
          obtain rfl := List.mem_singleton.mp hy
          exact fun hmem => ha (hclosed x hx y hmem)

end DepthFirst
