import Adaad.DepthFirst
import Mathlib.Data.List.Chain

/-!
# Breadth-first searches

A search for the shortest path from a node to one of the goals.  A queue has the paths that are still
to be followed, the shortest in front; a path is its nodes but the last, and its last node.

The search takes the number of steps that it may make, as the walks of `DepthFirst` do.  Given enough
of them it finds a shortest path, or there is none (`exists_shortest`).
-/

namespace BreadthFirst

open DepthFirst

variable {α : Type} [DecidableEq α] (next : α → List α) (goal : α → Bool)

/-- The paths that go on from one that has come to `a`. -/
def extend (before : List α) (a : α) : List (List α × α) :=
  (next a).map fun b => (before ++ [a], b)

/-- The search, from the paths in the queue on. -/
def shortest : Nat → List α → List (List α × α) → Option (Option (List α))
  | _, _, [] => some none
  | 0, _, _ :: _ => none
  | fuel + 1, visited, (before, a) :: queue =>
    if goal a then some (some (before ++ [a]))
    else if a ∈ visited then shortest fuel visited queue
    else shortest fuel (visited ++ [a]) (queue ++ extend next before a)

variable {next goal} {fuel : Nat} {visited : List α} {queue : List (List α × α)} {origin a b : α}
  {before path : List α}

/-- A path from the node to a goal. -/
structure PathTo (next : α → List α) (goal : α → Bool) (origin : α) (path : List α) : Prop where
  head : path.head? = some origin
  chain : path.IsChain (Edge next)
  goal : ∃ b ∈ path.getLast?, goal b = true

def Shortest (next : α → List α) (goal : α → Bool) (origin : α) (path : List α) : Prop :=
  PathTo next goal origin path ∧ ∀ path', PathTo next goal origin path' → path.length ≤ path'.length

/-! ### The number of steps -/

theorem exists_shortest_of_cost {nodes : List α} (hnodup : nodes.Nodup)
    (hnodes : ∀ a ∉ nodes, next a = []) (hfuel : queue.length + cost next nodes visited ≤ fuel) :
    ∃ found, shortest next goal fuel visited queue = some found := by
  induction fuel generalizing visited queue with
  | zero =>
    obtain rfl : queue = [] := List.eq_nil_of_length_eq_zero (by omega)
    exact ⟨none, rfl⟩
  | succ fuel ih =>
    cases queue with
    | nil => exact ⟨none, rfl⟩
    | cons p queue =>
      obtain ⟨before, a⟩ := p
      rw [List.length_cons] at hfuel
      unfold shortest
      by_cases hgoal : goal a = true
      · rw [if_pos hgoal]
        exact ⟨_, rfl⟩
      rw [if_neg hgoal]
      by_cases ha : a ∈ visited
      · rw [if_pos ha]
        exact ih (by omega)
      · rw [if_neg ha]
        have hcost := cost_concat hnodup (hnodes a) ha
        refine ih ?_
        rw [List.length_append, extend, List.length_map]
        omega

/-! ### How far a search has come -/

section held

omit [DecidableEq α]

/-- The node was visited at this depth at most, or is on the queue at it. -/
def Held (depth : α → Nat) (visited : List α) (queue : List (List α × α)) (a : α) (n : Nat) : Prop :=
  (∃ p ∈ queue, p.2 = a ∧ p.1.length ≤ n) ∨ a ∈ visited ∧ depth a ≤ n

/-- How far a search has come, the visited nodes having these depths. -/
structure Searching (next : α → List α) (goal : α → Bool) (origin : α) (depth : α → Nat)
    (visited : List α) (queue : List (List α × α)) : Prop where
  head : ∀ p ∈ queue, (p.1 ++ [p.2]).head? = some origin
  chain : ∀ p ∈ queue, (p.1 ++ [p.2]).IsChain (Edge next)
  sorted : queue.Pairwise fun p q => p.1.length ≤ q.1.length
  /-- The paths in the queue differ by one edge at most. -/
  spread : ∀ p ∈ queue, ∀ q ∈ queue, q.1.length ≤ p.1.length + 1
  earlier : ∀ x ∈ visited, ∀ p ∈ queue, depth x ≤ p.1.length
  passed : ∀ x ∈ visited, goal x = false
  origin : Held depth visited queue origin 0
  closed : ∀ x ∈ visited, ∀ y ∈ next x, Held depth visited queue y (depth x + 1)

theorem searching_start (origin : α) (depth : α → Nat) :
    Searching next goal origin depth [] [([], origin)] where
  head p hp := by
    obtain rfl := List.mem_singleton.mp hp
    rfl
  chain p hp := by
    obtain rfl := List.mem_singleton.mp hp
    exact List.isChain_singleton origin
  sorted := List.pairwise_singleton _ _
  spread p hp q hq := by
    obtain rfl := List.mem_singleton.mp hp
    obtain rfl := List.mem_singleton.mp hq
    exact Nat.le_succ _
  earlier x hx := absurd hx List.not_mem_nil
  passed x hx := absurd hx List.not_mem_nil
  origin := .inl ⟨([], origin), List.mem_singleton_self _, rfl, Nat.le_refl 0⟩
  closed x hx := absurd hx List.not_mem_nil

end held

variable {depth : α → Nat} {n : Nat}

section skip

omit [DecidableEq α]

theorem Held.skip (h : Held depth visited ((before, a) :: queue) b n) (ha : a ∈ visited)
    (hdepth : depth a ≤ before.length) : Held depth visited queue b n := by
  rcases h with ⟨p, hp, hpb, hlen⟩ | h
  · rcases List.mem_cons.mp hp with rfl | hp
    · obtain rfl : a = b := hpb
      exact .inr ⟨ha, hdepth.trans hlen⟩
    · exact .inl ⟨p, hp, hpb, hlen⟩
  · exact .inr h

theorem Searching.skip (h : Searching next goal origin depth visited ((before, a) :: queue))
    (ha : a ∈ visited) : Searching next goal origin depth visited queue := by
  have hsub : ∀ p ∈ queue, p ∈ (before, a) :: queue := fun p hp => List.mem_cons_of_mem _ hp
  have hdepth := h.earlier a ha (before, a) List.mem_cons_self
  exact ⟨fun p hp => h.head p (hsub p hp), fun p hp => h.chain p (hsub p hp), h.sorted.of_cons,
    fun p hp q hq => h.spread p (hsub p hp) q (hsub q hq),
    fun x hx p hp => h.earlier x hx p (hsub p hp), h.passed, h.origin.skip ha hdepth,
    fun x hx y hy => (h.closed x hx y hy).skip ha hdepth⟩

end skip

theorem Held.visit (h : Held depth visited ((before, a) :: queue) b n) (ha : a ∉ visited)
    (queue' : List (List α × α)) :
    Held (Function.update depth a before.length) (visited ++ [a]) (queue ++ queue') b n := by
  rcases h with ⟨p, hp, hpb, hlen⟩ | ⟨hb, hlen⟩
  · rcases List.mem_cons.mp hp with rfl | hp
    · obtain rfl : a = b := hpb
      refine .inr ⟨List.mem_append_right _ (List.mem_singleton_self a), ?_⟩
      rw [Function.update_self]
      exact hlen
    · exact .inl ⟨p, List.mem_append_left _ hp, hpb, hlen⟩
  · refine .inr ⟨List.mem_append_left _ hb, ?_⟩
    have hne : b ≠ a := by
      rintro rfl
      exact ha hb
    rw [Function.update_of_ne hne]
    exact hlen

omit [DecidableEq α] in
theorem mem_extend {p : List α × α} :
    p ∈ extend next before a ↔ p.1 = before ++ [a] ∧ p.2 ∈ next a := by
  unfold extend
  rw [List.mem_map]
  constructor
  · rintro ⟨b, hb, rfl⟩
    exact ⟨rfl, hb⟩
  · rintro ⟨hp, hb⟩
    exact ⟨p.2, hb, Prod.ext hp.symm rfl⟩

theorem Searching.visit (h : Searching next goal origin depth visited ((before, a) :: queue))
    (ha : a ∉ visited) (hgoal : goal a = false) :
    Searching next goal origin (Function.update depth a before.length) (visited ++ [a])
      (queue ++ extend next before a) := by
  have hfront : (before, a) ∈ (before, a) :: queue := List.mem_cons_self
  have hsub : ∀ p ∈ queue, p ∈ (before, a) :: queue := fun p hp => List.mem_cons_of_mem _ hp
  have hnew : ∀ p ∈ extend next before a, p.1.length = before.length + 1 := by
    intro p hp
    rw [(mem_extend.mp hp).1, List.length_append, List.length_singleton]
  have hle : ∀ p ∈ queue, before.length ≤ p.1.length := fun p hp =>
    List.rel_of_pairwise_cons h.sorted hp
  have hold : ∀ x ∈ visited, Function.update depth a before.length x = depth x := by
    intro x hx
    refine Function.update_of_ne ?_ _ _
    rintro rfl
    exact ha hx
  refine ⟨fun p hp => ?_, fun p hp => ?_, ?_, fun p hp q hq => ?_, fun x hx p hp => ?_, ?_,
    h.origin.visit ha _, fun x hx y hy => ?_⟩
  · rcases List.mem_append.mp hp with hp | hp
    · exact h.head p (hsub p hp)
    · rw [(mem_extend.mp hp).1, List.head?_append, h.head _ hfront]
      rfl
  · rcases List.mem_append.mp hp with hp | hp
    · exact h.chain p (hsub p hp)
    · obtain ⟨hbefore, hedge⟩ := mem_extend.mp hp
      rw [hbefore]
      refine List.isChain_append.mpr ⟨h.chain _ hfront, List.isChain_singleton _, ?_⟩
      intro x hx y hy
      rw [List.getLast?_concat] at hx
      obtain rfl := Option.some.inj hx
      obtain rfl := Option.some.inj hy
      exact hedge
  · refine List.pairwise_append.mpr ⟨h.sorted.of_cons, ?_, fun p hp q hq => ?_⟩
    · exact List.pairwise_of_forall_mem_list fun p hp q hq => by rw [hnew p hp, hnew q hq]
    · have hspread := h.spread _ hfront p (hsub p hp)
      rw [hnew q hq]
      exact hspread
  · -- The paths that are longest have one edge more than the one in front.
    have hlow : before.length ≤ p.1.length := by
      rcases List.mem_append.mp hp with hp | hp
      · exact hle p hp
      · exact hnew p hp ▸ Nat.le_succ _
    have hhigh : q.1.length ≤ before.length + 1 := by
      rcases List.mem_append.mp hq with hq | hq
      · exact h.spread _ hfront q (hsub q hq)
      · exact (hnew q hq).le
    omega
  · have hlow : before.length ≤ p.1.length := by
      rcases List.mem_append.mp hp with hp | hp
      · exact hle p hp
      · exact hnew p hp ▸ Nat.le_succ _
    rcases List.mem_append.mp hx with hx | hx
    · rw [hold x hx]
      exact (h.earlier x hx _ hfront).trans hlow
    · obtain rfl := List.mem_singleton.mp hx
      rw [Function.update_self]
      exact hlow
  · exact List.forall_mem_append.mpr ⟨h.passed, List.forall_mem_singleton.mpr hgoal⟩
  · rcases List.mem_append.mp hx with hx | hx
    · rw [hold x hx]
      exact (h.closed x hx y hy).visit ha _
    · obtain rfl := List.mem_singleton.mp hx
      rw [Function.update_self]
      refine .inl ⟨(before ++ [x], y), List.mem_append_right _ (mem_extend.mpr ⟨rfl, hy⟩), rfl, ?_⟩
      rw [List.length_append, List.length_singleton]

/-! ### Shortest paths -/

section front

omit [DecidableEq α]

theorem Searching.exists_le (h : Searching next goal origin depth visited queue)
    (hheld : Held depth visited queue a n) {l : List α} (hpath : PathTo next goal a (a :: l)) :
    ∃ p ∈ queue, p.1.length ≤ n + l.length := by
  induction l generalizing a n with
  | nil =>
    rcases hheld with ⟨p, hp, -, hlen⟩ | ⟨ha, -⟩
    · exact ⟨p, hp, hlen.trans (Nat.le_add_right n _)⟩
    · obtain ⟨b, hb, hgoal⟩ := hpath.goal
      obtain rfl : a = b := Option.some.inj hb
      rw [h.passed a ha] at hgoal
      cases hgoal
  | cons b l ih =>
    rcases hheld with ⟨p, hp, -, hlen⟩ | ⟨ha, hdepth⟩
    · exact ⟨p, hp, hlen.trans (Nat.le_add_right n _)⟩
    · obtain ⟨hedge, hchain⟩ := List.isChain_cons_cons.mp hpath.chain
      have hgoal := hpath.goal
      rw [List.getLast?_cons_cons] at hgoal
      obtain ⟨p, hp, hlen⟩ := ih (h.closed a ha b hedge) ⟨rfl, hchain, hgoal⟩
      refine ⟨p, hp, ?_⟩
      rw [List.length_cons]
      omega

theorem Searching.exists_lt_length (h : Searching next goal origin depth visited queue)
    (hpath : PathTo next goal origin path) : ∃ p ∈ queue, p.1.length < path.length := by
  obtain ⟨l, rfl⟩ : ∃ l, path = origin :: l := by
    cases path with
    | nil => exact absurd hpath.head (Option.some_ne_none origin).symm
    | cons x l => exact ⟨l, by rw [Option.some.inj hpath.head]⟩
  obtain ⟨p, hp, hlen⟩ := h.exists_le h.origin hpath
  refine ⟨p, hp, ?_⟩
  rw [List.length_cons]
  omega

theorem Searching.shortest_front (h : Searching next goal origin depth visited ((before, a) :: queue))
    (hgoal : goal a = true) : Shortest next goal origin (before ++ [a]) := by
  have hfront : (before, a) ∈ (before, a) :: queue := List.mem_cons_self
  refine ⟨⟨h.head _ hfront, h.chain _ hfront, a, List.getLast?_concat .., hgoal⟩, fun path' hpath' => ?_⟩
  obtain ⟨p, hp, hlen⟩ := h.exists_lt_length hpath'
  have hle : before.length ≤ p.1.length := by
    rcases List.mem_cons.mp hp with rfl | hp
    · exact Nat.le_refl _
    · exact List.rel_of_pairwise_cons h.sorted hp
  rw [List.length_append, List.length_singleton]
  omega

def Tells (next : α → List α) (goal : α → Bool) (origin : α) : Option (List α) → Prop
  | some path => Shortest next goal origin path
  | none => ∀ path, ¬ PathTo next goal origin path

theorem Searching.tells_none (h : Searching next goal origin depth visited []) :
    Tells next goal origin none := by
  intro path hpath
  obtain ⟨p, hp, -⟩ := h.exists_lt_length hpath
  exact absurd hp List.not_mem_nil

end front

theorem Searching.tells {found : Option (List α)}
    (h : Searching next goal origin depth visited queue)
    (hfound : shortest next goal fuel visited queue = some found) :
    Tells next goal origin found := by
  induction fuel generalizing depth visited queue with
  | zero =>
    cases queue with
    | nil =>
      obtain rfl := Option.some.inj hfound
      exact h.tells_none
    | cons p queue => cases hfound
  | succ fuel ih =>
    cases queue with
    | nil =>
      obtain rfl := Option.some.inj hfound
      exact h.tells_none
    | cons p queue =>
      obtain ⟨before, a⟩ := p
      unfold shortest at hfound
      by_cases hgoal : goal a = true
      · rw [if_pos hgoal] at hfound
        obtain rfl := Option.some.inj hfound
        exact h.shortest_front hgoal
      rw [if_neg hgoal] at hfound
      by_cases ha : a ∈ visited
      · rw [if_pos ha] at hfound
        exact ih (h.skip ha) hfound
      · rw [if_neg ha] at hfound
        exact ih (h.visit ha (Bool.eq_false_iff.mpr hgoal)) hfound

theorem exists_shortest {nodes : List α} (hnodup : nodes.Nodup) (hnodes : ∀ a ∉ nodes, next a = [])
    (hfuel : 1 + cost next nodes [] ≤ fuel) (origin : α) :
    ∃ found, shortest next goal fuel [] [([], origin)] = some found ∧
      Tells next goal origin found := by
  obtain ⟨found, hfound⟩ := @exists_shortest_of_cost α _ next goal fuel [] [([], origin)] nodes hnodup
    hnodes hfuel
  exact ⟨found, hfound, (searching_start origin fun _ => 0).tells hfound⟩

end BreadthFirst
