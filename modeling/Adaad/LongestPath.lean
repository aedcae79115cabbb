import Adaad.Py.Assoc
import Mathlib.Data.Set.Card
import Mathlib.Logic.Relation
import Mathlib.Order.Bounds.Basic

/-!
# Longest paths by relaxation

A graph is given by the children of its nodes.  Starting from the roots, a loop goes through a queue
of nodes; where a child of a node has a depth that is not larger than that of the node, it gets one
that is, and is put into the next queue (`relax`).

The loop has no bound of its own.  It ends exactly when no cycle can be reached from a root
(`exists_relax_iff`), and then the depth of a node is the length of the longest path from a root to
it (`Relaxed.isGreatest`).
-/

namespace LongestPath

variable {α : Type}

/-! ### Paths -/

/-- A path of this many edges. -/
inductive Steps (edge : α → α → Prop) (a : α) : Nat → α → Prop
  | refl : Steps edge a 0 a
  | tail {n : Nat} {b c : α} : Steps edge a n b → edge b c → Steps edge a (n + 1) c

namespace Steps

variable {edge : α → α → Prop} {n m : Nat} {a b c : α}

theorem trans (h : Steps edge a n b) (h' : Steps edge b m c) : Steps edge a (n + m) c := by
  induction h' with
  | refl => exact h
  | tail _ hedge ih => exact .tail ih hedge

theorem reflTransGen (h : Steps edge a n b) : Relation.ReflTransGen edge a b := by
  induction h with
  | refl => exact .refl
  | tail _ hedge ih => exact .tail ih hedge

theorem exists_of_reflTransGen (h : Relation.ReflTransGen edge a b) : ∃ n, Steps edge a n b := by
  induction h with
  | refl => exact ⟨0, .refl⟩
  | tail _ hedge ih =>
    obtain ⟨n, hn⟩ := ih
    exact ⟨n + 1, .tail hn hedge⟩

theorem exists_of_transGen (h : Relation.TransGen edge a b) : ∃ n, Steps edge a (n + 1) b := by
  obtain ⟨x, hax, hxb⟩ := Relation.TransGen.tail'_iff.mp h
  obtain ⟨n, hn⟩ := exists_of_reflTransGen hax
  exact ⟨n, .tail hn hxb⟩

theorem exists_long (h : Relation.TransGen edge a a) (n : Nat) : ∃ m, n ≤ m ∧ Steps edge a m a := by
  obtain ⟨k, hk⟩ := exists_of_transGen h
  induction n with
  | zero => exact ⟨0, Nat.le_refl 0, .refl⟩
  | succ n ih =>
    obtain ⟨m, hnm, hm⟩ := ih
    exact ⟨m + (k + 1), by omega, hm.trans hk⟩

end Steps

def NoCycle (edge : α → α → Prop) (roots : List α) : Prop :=
  ∀ root ∈ roots, ∀ a, Relation.ReflTransGen edge root a → ¬ Relation.TransGen edge a a

theorem NoCycle.le_length {edge : α → α → Prop} {roots nodes : List α} (h : NoCycle edge roots)
    (hroots : ∀ root ∈ roots, root ∈ nodes) (hedge : ∀ a b, edge a b → b ∈ nodes) {root a : α}
    (hroot : root ∈ roots) {n : Nat} (hsteps : Steps edge root n a) : n ≤ nodes.length := by
  -- The nodes before `a`, of those that can be reached.
  let before (a : α) : Set α :=
    {x | (∃ root ∈ roots, Relation.ReflTransGen edge root x) ∧ Relation.TransGen edge x a}
  have hsub : ∀ a, before a ⊆ {x | x ∈ nodes} := by
    rintro a x ⟨⟨root, hroot, hx⟩, -⟩
    rcases Relation.ReflTransGen.cases_tail hx with rfl | ⟨y, -, hyx⟩
    · exact hroots x hroot
    · exact hedge y x hyx
  have hfinite : ∀ a, (before a).Finite := fun a => (List.finite_toSet nodes).subset (hsub a)
  have hrank : ∀ n a, Steps edge root n a → n ≤ (before a).ncard := by
    intro n a hn
    induction hn with
    | refl => exact Nat.zero_le _
    | @tail n b c hb hbc ih =>
      have hreach : Relation.ReflTransGen edge root b := hb.reflTransGen
      have hnot : b ∉ before b := fun hmem => h root hroot b hreach hmem.2
      have hinsert : insert b (before b) ⊆ before c := by
        refine Set.insert_subset ⟨⟨root, hroot, hreach⟩, .single hbc⟩ ?_
        exact fun x hx => ⟨hx.1, hx.2.tail hbc⟩
      have hcard := Set.ncard_le_ncard hinsert (hfinite c)
      rw [Set.ncard_insert_of_notMem hnot (hfinite b)] at hcard
      exact (Nat.succ_le_succ ih).trans hcard
  calc n ≤ (before a).ncard := hrank n a hsteps
    _ ≤ {x | x ∈ nodes}.ncard := Set.ncard_le_ncard (hsub a) (List.finite_toSet nodes)
    _ ≤ nodes.length := by
      classical
      have heq : {x | x ∈ nodes} = (nodes.toFinset : Set α) := by
        ext x
        simp
      rw [heq, Set.ncard_coe_finset]
      exact nodes.toFinset_card_le

/-! ### Relaxation -/

-- The test that looks up a node need not be the one that decides equality.
variable [DecidableEq α] [BEq α]

/-- The depths of the nodes, and the nodes that are queued for the next round. -/
structure Search (α : Type) where
  depth : List (α × Nat)
  next : List α

/-- A child gets the depth `d` where it has none, or a smaller one. -/
def relaxChild (d : Nat) (s : Search α) (c : α) : Search α :=
  if ∀ e ∈ s.depth.lookup c, e < d then ⟨Assoc.set s.depth c d, s.next ++ [c]⟩ else s

/-- The children of a node get a depth larger than that of the node. -/
def relaxNode (children : α → List α) (s : Search α) (a : α) : Search α :=
  (children a).foldl (relaxChild ((s.depth.lookup a).getD 0 + 1)) s

def relaxRound (children : α → List α) (depth : List (α × Nat)) (queue : List α) : Search α :=
  queue.foldl (relaxNode children) ⟨depth, []⟩

/-- The loop, for at most so many rounds; it ends when a queue is empty. -/
def relax (children : α → List α) : Nat → List (α × Nat) → List α → Option (List (α × Nat))
  | _, depth, [] => some depth
  | 0, _, _ :: _ => none
  | fuel + 1, depth, a :: queue =>
    let s := relaxRound children depth (a :: queue)
    relax children fuel s.depth s.next

def start (roots : List α) : List (α × Nat) :=
  roots.foldl (fun depth a => Assoc.set depth a 0) []

/-- The node has a depth of at least `d`. -/
def AtLeast (depth : List (α × Nat)) (a : α) (d : Nat) : Prop :=
  ∃ e, depth.lookup a = some e ∧ d ≤ e

/-- What a search has become by giving the depth `d` to these nodes. -/
structure Grown (d : Nat) (cs : List α) (s s' : Search α) : Prop where
  atLeast : ∀ a e, AtLeast s.depth a e → AtLeast s'.depth a e
  given : ∀ c ∈ cs, AtLeast s'.depth c d
  depth : ∀ a e, s'.depth.lookup a = some e →
    s.depth.lookup a = some e ∨ (a ∈ cs ∧ e = d ∧ a ∈ s'.next)
  next : ∀ a ∈ s.next, a ∈ s'.next
  queued : ∀ a ∈ s'.next, a ∈ s.next ∨ AtLeast s'.depth a d

variable [LawfulBEq α] {d : Nat} {s s' s'' : Search α} {a c : α} {cs : List α}

omit [DecidableEq α] [LawfulBEq α] in
theorem AtLeast.mono {depth : List (α × Nat)} {e : Nat} (h : AtLeast depth a d) (hle : e ≤ d) :
    AtLeast depth a e := by
  obtain ⟨e', he', hle'⟩ := h
  exact ⟨e', he', hle.trans hle'⟩

theorem grown_relaxChild (d : Nat) (s : Search α) (c : α) : Grown d [c] s (relaxChild d s c) := by
  unfold relaxChild
  by_cases h : ∀ e ∈ s.depth.lookup c, e < d
  · rw [if_pos h]
    have hlookup : ∀ a, (Assoc.set s.depth c d).lookup a =
        if a = c then some d else s.depth.lookup a := fun a => Assoc.lookup_set s.depth c a d
    refine ⟨fun a e ha => ?_, fun c' hc' => ?_, fun a e ha => ?_, fun a ha => ?_, fun a ha => ?_⟩
    · obtain ⟨e', he', hle⟩ := ha
      by_cases hac : a = c
      · exact ⟨d, by rw [hlookup, if_pos hac], hle.trans (h e' (hac ▸ he')).le⟩
      · exact ⟨e', by rw [hlookup, if_neg hac, he'], hle⟩
    · obtain rfl := List.mem_singleton.mp hc'
      exact ⟨d, by rw [hlookup, if_pos rfl], Nat.le_refl d⟩
    · dsimp only at ha
      rw [hlookup] at ha
      by_cases hac : a = c
      · rw [if_pos hac] at ha
        exact .inr ⟨hac ▸ List.mem_singleton_self a, (Option.some.inj ha).symm,
          hac ▸ List.mem_append_right _ (List.mem_singleton_self a)⟩
      · rw [if_neg hac] at ha
        exact .inl ha
    · exact List.mem_append_left _ ha
    · refine (List.mem_append.mp ha).imp_right fun hac => ?_
      exact ⟨d, by rw [hlookup, if_pos (List.mem_singleton.mp hac)], Nat.le_refl d⟩
  · rw [if_neg h]
    refine ⟨fun a e ha => ha, fun c' hc' => ?_, fun a e ha => .inl ha, fun a ha => ha,
      fun a ha => .inl ha⟩
    obtain rfl := List.mem_singleton.mp hc'
    push Not at h
    exact h

omit [DecidableEq α] [LawfulBEq α] in
theorem Grown.trans (h : Grown d cs s s') {cs' : List α} (h' : Grown d cs' s' s'') :
    Grown d (cs ++ cs') s s'' where
  atLeast a e ha := h'.atLeast a e (h.atLeast a e ha)
  given c hc := by
    rcases List.mem_append.mp hc with hc | hc
    · exact h'.atLeast c d (h.given c hc)
    · exact h'.given c hc
  depth a e ha := by
    rcases h'.depth a e ha with ha | ⟨hc, he, hnext⟩
    · rcases h.depth a e ha with ha | ⟨hc, he, hnext⟩
      · exact .inl ha
      · exact .inr ⟨List.mem_append_left _ hc, he, h'.next a hnext⟩
    · exact .inr ⟨List.mem_append_right _ hc, he, hnext⟩
  next a ha := h'.next a (h.next a ha)
  queued a ha := by
    rcases h'.queued a ha with ha | ha
    · exact (h.queued a ha).imp_right (h'.atLeast a d)
    · exact .inr ha

theorem grown_foldl (d : Nat) (cs : List α) (s : Search α) :
    Grown d cs s (cs.foldl (relaxChild d) s) := by
  induction cs generalizing s with
  | nil =>
    exact ⟨fun _ _ h => h, fun _ h => absurd h List.not_mem_nil, fun _ _ h => .inl h, fun _ h => h,
      fun _ h => .inl h⟩
  | cons c cs ih => exact (grown_relaxChild d s c).trans (ih _)

/-! ### What the loop keeps -/

variable {children : α → List α} {roots queue next pending : List α} {depth depth' : List (α × Nat)}

/-- `b` is a child of `a`. -/
abbrev Edge (children : α → List α) (a b : α) : Prop :=
  b ∈ children a

/-- The depths are those of paths from a root, and every node that is not pending has children that
are deeper. -/
structure Relaxed (children : α → List α) (roots : List α) (depth : List (α × Nat))
    (pending : List α) : Prop where
  steps : ∀ a d, depth.lookup a = some d → ∃ root ∈ roots, Steps (Edge children) root d a
  root : ∀ a ∈ roots, AtLeast depth a 0
  known : ∀ a ∈ pending, AtLeast depth a 0
  deeper : ∀ a d, depth.lookup a = some d → a ∉ pending → ∀ c ∈ children a, AtLeast depth c (d + 1)

theorem Relaxed.node (h : Relaxed children roots s.depth (a :: queue ++ s.next)) :
    Relaxed children roots (relaxNode children s a).depth
      (queue ++ (relaxNode children s a).next) := by
  obtain ⟨d, hd, -⟩ := h.known a (List.mem_cons_self)
  have hgrown : Grown (d + 1) (children a) s (relaxNode children s a) := by
    unfold relaxNode
    rw [hd]
    exact grown_foldl (d + 1) (children a) s
  refine ⟨fun x e hx => ?_, fun x hx => ?_, fun x hx => ?_, fun x e hx hnot => ?_⟩
  · rcases hgrown.depth x e hx with hx | ⟨hxa, rfl, -⟩
    · exact h.steps x e hx
    · obtain ⟨root, hroot, hsteps⟩ := h.steps a d hd
      exact ⟨root, hroot, .tail hsteps hxa⟩
  · exact hgrown.atLeast x 0 (h.root x hx)
  · rcases List.mem_append.mp hx with hx | hx
    · exact hgrown.atLeast x 0 (h.known x (by simp [hx]))
    · rcases hgrown.queued x hx with hx | hx
      · exact hgrown.atLeast x 0 (h.known x (by simp [hx]))
      · exact hx.mono (Nat.zero_le _)
  · rw [List.mem_append, not_or] at hnot
    have hold : s.depth.lookup x = some e :=
      (hgrown.depth x e hx).resolve_right fun hnew => hnot.2 hnew.2.2
    by_cases hxa : x = a
    · rw [hxa, hd] at hold
      obtain rfl := Option.some.inj hold
      exact fun c hc => hgrown.given c (hxa ▸ hc)
    · have hpending : x ∉ a :: queue ++ s.next := by
        rw [List.cons_append, List.mem_cons, List.mem_append, not_or, not_or]
        exact ⟨hxa, hnot.1, fun hnext => hnot.2 (hgrown.next x hnext)⟩
      exact fun c hc => hgrown.atLeast c _ (h.deeper x e hold hpending c hc)

theorem Relaxed.foldl (h : Relaxed children roots s.depth (queue ++ s.next)) :
    Relaxed children roots (queue.foldl (relaxNode children) s).depth
      (queue.foldl (relaxNode children) s).next := by
  induction queue generalizing s with
  | nil => exact h
  | cons a queue ih => exact ih h.node

theorem Relaxed.round (h : Relaxed children roots depth queue) :
    Relaxed children roots (relaxRound children depth queue).depth
      (relaxRound children depth queue).next := by
  refine Relaxed.foldl (s := ⟨depth, []⟩) ?_
  rw [List.append_nil]
  exact h

theorem Relaxed.relax {fuel : Nat} (h : Relaxed children roots depth queue)
    (hrelax : LongestPath.relax children fuel depth queue = some depth') :
    Relaxed children roots depth' [] := by
  induction fuel generalizing depth queue with
  | zero =>
    cases queue with
    | nil => exact Option.some.inj hrelax ▸ h
    | cons a queue => cases hrelax
  | succ fuel ih =>
    cases queue with
    | nil => exact Option.some.inj hrelax ▸ h
    | cons a queue => exact ih h.round hrelax

/-! ### The start -/

theorem lookup_start (a : α) : (start roots).lookup a = if a ∈ roots then some 0 else none := by
  unfold start
  induction roots using List.reverseRecOn with
  | nil => rfl
  | append_singleton roots root ih =>
    rw [List.foldl_append, List.foldl_cons, List.foldl_nil, Assoc.lookup_set, ih]
    by_cases ha : a = root
    · rw [if_pos ha, if_pos (by simp [ha])]
    · rw [if_neg ha]
      exact if_congr (by simp [ha]) rfl rfl

theorem relaxed_start : Relaxed children roots (start roots) roots where
  steps a d ha := by
    rw [lookup_start] at ha
    by_cases hroot : a ∈ roots
    · rw [if_pos hroot] at ha
      obtain rfl := Option.some.inj ha
      exact ⟨a, hroot, .refl⟩
    · rw [if_neg hroot] at ha
      cases ha
  root a ha := ⟨0, by rw [lookup_start, if_pos ha], Nat.le_refl 0⟩
  known a ha := ⟨0, by rw [lookup_start, if_pos ha], Nat.le_refl 0⟩
  deeper a d ha hnot := by
    rw [lookup_start, if_neg hnot] at ha
    cases ha

/-! ### The end -/

omit [DecidableEq α] [LawfulBEq α] in
theorem Relaxed.atLeast (h : Relaxed children roots depth []) {root : α} (hroot : root ∈ roots)
    {n : Nat} (hsteps : Steps (Edge children) root n a) : AtLeast depth a n := by
  induction hsteps with
  | refl => exact h.root root hroot
  | tail _ hedge ih =>
    obtain ⟨e, he, hle⟩ := ih
    exact (h.deeper _ e he List.not_mem_nil _ hedge).mono (Nat.succ_le_succ hle)

omit [DecidableEq α] [LawfulBEq α] in
theorem Relaxed.isGreatest (h : Relaxed children roots depth []) (ha : depth.lookup a = some d) :
    IsGreatest {n | ∃ root ∈ roots, Steps (Edge children) root n a} d := by
  refine ⟨h.steps a d ha, ?_⟩
  rintro n ⟨root, hroot, hsteps⟩
  obtain ⟨e, he, hle⟩ := h.atLeast hroot hsteps
  rw [ha] at he
  exact Option.some.inj he ▸ hle

omit [DecidableEq α] [LawfulBEq α] in
theorem Relaxed.eq_none (h : Relaxed children roots depth []) (ha : depth.lookup a = none) :
    ∀ root ∈ roots, ¬ Relation.ReflTransGen (Edge children) root a := by
  intro root hroot hreach
  obtain ⟨n, hn⟩ := Steps.exists_of_reflTransGen hreach
  obtain ⟨e, he, -⟩ := h.atLeast hroot hn
  rw [ha] at he
  cases he

/-! ### When the loop ends -/

theorem atLeast_round {k : Nat} (hqueue : ∀ a ∈ queue, AtLeast depth a k) :
    ∀ a ∈ (relaxRound children depth queue).next,
      AtLeast (relaxRound children depth queue).depth a (k + 1) := by
  have hfold : ∀ (queue : List α) (s : Search α), (∀ a ∈ queue, AtLeast s.depth a k) →
      (∀ a ∈ s.next, AtLeast s.depth a (k + 1)) →
      ∀ a ∈ (queue.foldl (relaxNode children) s).next,
        AtLeast (queue.foldl (relaxNode children) s).depth a (k + 1) := by
    intro queue
    induction queue with
    | nil => exact fun s _ hnext => hnext
    | cons a queue ih =>
      intro s hqueue hnext
      obtain ⟨⟨d, hd, hkd⟩, hrest⟩ := List.forall_mem_cons.mp hqueue
      have hgrown : Grown (d + 1) (children a) s (relaxNode children s a) := by
        unfold relaxNode
        rw [hd]
        exact grown_foldl (d + 1) (children a) s
      refine ih (relaxNode children s a) (fun x hx => hgrown.atLeast x k (hrest x hx)) fun x hx => ?_
      rcases hgrown.queued x hx with hold | hnew
      · exact hgrown.atLeast x (k + 1) (hnext x hold)
      · exact hnew.mono (Nat.succ_le_succ hkd)
  exact hfold queue ⟨depth, []⟩ hqueue fun a ha => absurd ha List.not_mem_nil

theorem exists_relax_of_bounded {bound : Nat}
    (hbound : ∀ root ∈ roots, ∀ n a, Steps (Edge children) root n a → n ≤ bound) {fuel k : Nat}
    (h : Relaxed children roots depth queue) (hqueue : ∀ a ∈ queue, AtLeast depth a k)
    (hfuel : bound < k + fuel) : ∃ depth', relax children fuel depth queue = some depth' := by
  induction fuel generalizing depth queue k with
  | zero =>
    cases queue with
    | nil => exact ⟨depth, rfl⟩
    | cons a queue =>
      obtain ⟨d, hd, hkd⟩ := hqueue a List.mem_cons_self
      obtain ⟨root, hroot, hsteps⟩ := h.steps a d hd
      exact absurd (hbound root hroot d a hsteps) (by omega)
  | succ fuel ih =>
    cases queue with
    | nil => exact ⟨depth, rfl⟩
    | cons a queue => exact ih h.round (atLeast_round hqueue) (by omega)

theorem exists_relax_iff {nodes : List α} (hroots : ∀ root ∈ roots, root ∈ nodes)
    (hchildren : ∀ a, ∀ c ∈ children a, c ∈ nodes) :
    (∃ fuel depth, relax children fuel (start roots) roots = some depth) ↔
      NoCycle (Edge children) roots := by
  constructor
  · rintro ⟨fuel, depth, hrelax⟩ root hroot a hreach hcycle
    have h := relaxed_start.relax hrelax
    obtain ⟨n, hn⟩ := Steps.exists_of_reflTransGen hreach
    obtain ⟨d, hd, -⟩ := h.atLeast hroot hn
    -- Around the cycle there is a path that is longer than the depth.
    obtain ⟨m, hm, hlong⟩ := Steps.exists_long hcycle (d + 1)
    have hle := (h.isGreatest hd).2 ⟨root, hroot, hn.trans hlong⟩
    omega
  · intro h
    have hbound : ∀ root ∈ roots, ∀ n a, Steps (Edge children) root n a → n ≤ nodes.length :=
      fun root hroot n a hsteps => h.le_length hroots hchildren hroot hsteps
    have hstart : Relaxed children roots (start roots) roots := relaxed_start
    exact ⟨nodes.length + 1, exists_relax_of_bounded hbound hstart hstart.known (by omega)⟩

end LongestPath
