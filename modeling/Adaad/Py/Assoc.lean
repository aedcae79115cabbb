import Mathlib.Data.List.Induction
import Mathlib.Data.List.Nodup
import Mathlib.Data.List.Perm.Basic

/-!
# Association lists

A `dict` whose keys are of one type, as the list of its items in insertion order.  `List.lookup` is
`d.get(k)`, and `set` keeps the place of a key that is there.
-/

namespace Assoc

variable {K V : Type} [DecidableEq K]

/-- `d[k] = v` -/
def set : List (K × V) → K → V → List (K × V)
  | [], k, v => [(k, v)]
  | m :: d, k, v => if m.1 = k then (k, v) :: d else m :: set d k v

/-- `del d[k]` -/
def erase (d : List (K × V)) (k : K) : List (K × V) :=
  d.filter fun m => m.1 ≠ k

/-- The keys of a `dict`. -/
def keys (d : List (K × V)) : List K :=
  d.map Prod.fst

section lookup

-- The test that `List.lookup` uses need not be the one that decides equality.
variable [BEq K] [LawfulBEq K]

theorem lookup_cons (m : K × V) (d : List (K × V)) (k : K) :
    (m :: d).lookup k = if k = m.1 then some m.2 else d.lookup k := by
  rw [List.lookup_cons]
  by_cases h : k = m.1
  · rw [if_pos h, h, beq_self_eq_true]
  · rw [if_neg h, beq_false_of_ne h]

theorem lookup_set (d : List (K × V)) (k k' : K) (v : V) :
    (set d k v).lookup k' = if k' = k then some v else d.lookup k' := by
  induction d with
  | nil => exact lookup_cons _ _ _
  | cons m d ih =>
    rw [set]
    by_cases hm : m.1 = k
    · rw [if_pos hm, lookup_cons, lookup_cons, hm]
      split_ifs <;> rfl
    · rw [if_neg hm, lookup_cons, lookup_cons, ih]
      by_cases h : k' = k
      · rw [if_neg (by rw [h]; exact Ne.symm hm), if_pos h, if_pos h]
      · rw [if_neg h, if_neg h]

omit [BEq K] [LawfulBEq K] in
theorem mem_of_mem_set {d : List (K × V)} {k : K} {v : V} {m : K × V} (h : m ∈ set d k v) :
    m = (k, v) ∨ m ∈ d := by
  induction d with
  | nil => exact .inl (List.mem_singleton.mp h)
  | cons m' d ih =>
    rw [set] at h
    by_cases hk : m'.1 = k
    · rw [if_pos hk] at h
      exact (List.mem_cons.mp h).imp_right (List.mem_cons_of_mem _)
    · rw [if_neg hk] at h
      rcases List.mem_cons.mp h with rfl | h
      · exact .inr List.mem_cons_self
      · exact (ih h).imp_right (List.mem_cons_of_mem _)

omit [DecidableEq K] in
theorem mem_of_lookup {d : List (K × V)} {k : K} {v : V} (h : d.lookup k = some v) :
    (k, v) ∈ d := by
  obtain ⟨l, l', heq, -⟩ := List.lookup_eq_some_iff.mp h
  rw [heq]
  exact List.mem_append_right _ List.mem_cons_self

theorem set_eq_self {d : List (K × V)} {k : K} {v : V}
    (h : d.lookup k = some v) : set d k v = d := by
  induction d with
  | nil => cases h
  | cons m d ih =>
    rw [lookup_cons] at h
    rw [set]
    by_cases hk : m.1 = k
    · rw [if_pos hk.symm] at h
      rw [if_pos hk, ← Option.some.inj h, ← hk]
    · rw [if_neg (Ne.symm hk)] at h
      rw [if_neg hk, ih h]

omit [BEq K] [LawfulBEq K] in
theorem set_set (d : List (K × V)) (k : K) (v v' : V) : set (set d k v) k v' = set d k v' := by
  induction d with
  | nil => exact if_pos rfl
  | cons m d ih =>
    rw [set, set]
    by_cases hk : m.1 = k
    · rw [if_pos hk, if_pos hk, set, if_pos rfl]
    · rw [if_neg hk, if_neg hk, set, if_neg hk, ih]

theorem lookup_erase (d : List (K × V)) (k k' : K) :
    (erase d k).lookup k' = if k' = k then none else d.lookup k' := by
  induction d with
  | nil =>
    split_ifs <;> rfl
  | cons m d ih =>
    unfold erase at ih ⊢
    rw [List.filter_cons, lookup_cons]
    by_cases hm : m.1 = k
    · rw [if_neg (by simp [hm]), ih, hm]
      split_ifs <;> rfl
    · rw [if_pos (decide_eq_true hm), lookup_cons, ih]
      by_cases h : k' = k
      · rw [if_neg (by rw [h]; exact Ne.symm hm), if_pos h, if_pos h]
      · rw [if_neg h, if_neg h]

omit [DecidableEq K] in
theorem lookup_filter (p : K → Bool) (d : List (K × V)) (k : K) :
    (d.filter fun m => p m.1).lookup k = if p k = true then d.lookup k else none := by
  classical
  induction d with
  | nil => split_ifs <;> rfl
  | cons m d ih =>
    rw [List.filter_cons, lookup_cons]
    by_cases hm : p m.1 = true
    · rw [if_pos hm, lookup_cons, ih]
      by_cases hk : k = m.1
      · rw [if_pos hk, if_pos hk, hk, if_pos hm]
      · rw [if_neg hk, if_neg hk]
    · rw [if_neg hm, ih]
      by_cases hk : k = m.1
      · rw [hk, if_neg hm, if_neg hm]
      · rw [if_neg hk]

end lookup

theorem mem_keys_set {d : List (K × V)} {k k' : K} {v : V} :
    k' ∈ keys (set d k v) ↔ k' = k ∨ k' ∈ keys d := by
  induction d with
  | nil => simp [set, keys]
  | cons m d ih =>
    rw [set]
    by_cases hm : m.1 = k
    · rw [if_pos hm]
      subst hm
      simp [keys]
    · rw [if_neg hm]
      unfold keys at ih ⊢
      rw [List.map_cons, List.mem_cons, ih, List.map_cons, List.mem_cons]
      tauto

theorem nodup_keys_set {d : List (K × V)} (h : (keys d).Nodup) (k : K) (v : V) :
    (keys (set d k v)).Nodup := by
  induction d with
  | nil => exact List.nodup_singleton k
  | cons m d ih =>
    have hcons : m.1 ∉ keys d ∧ (keys d).Nodup := List.nodup_cons.mp h
    rw [set]
    by_cases hm : m.1 = k
    · rw [if_pos hm]
      subst hm
      exact h
    · rw [if_neg hm]
      refine List.nodup_cons.mpr ⟨fun hmem => ?_, ih hcons.2⟩
      rcases mem_keys_set.mp hmem with heq | hmem
      · exact hm heq
      · exact hcons.1 hmem

theorem nodup_keys_erase {d : List (K × V)} (h : (keys d).Nodup) (k : K) :
    (keys (erase d k)).Nodup :=
  h.sublist (List.filter_sublist.map Prod.fst)

variable [BEq K] [LawfulBEq K]

theorem lookup_eq_some_iff {d : List (K × V)} (h : (keys d).Nodup) {k : K} {v : V} :
    d.lookup k = some v ↔ (k, v) ∈ d := by
  induction d with
  | nil => exact ⟨nofun, nofun⟩
  | cons m d ih =>
    have hcons : m.1 ∉ keys d ∧ (keys d).Nodup := List.nodup_cons.mp h
    rw [lookup_cons, List.mem_cons]
    by_cases hk : k = m.1
    · have hnot : (k, v) ∉ d := by
        intro hmem
        exact hcons.1 (hk ▸ List.mem_map_of_mem (f := Prod.fst) hmem)
      rw [if_pos hk, Option.some.injEq, or_iff_left hnot, Prod.ext_iff]
      exact ⟨fun hv => ⟨hk, hv.symm⟩, fun hv => hv.2.symm⟩
    · have hne : (k, v) ≠ m := fun heq => hk (congrArg Prod.fst heq)
      rw [if_neg hk, ih hcons.2, or_iff_right hne]

theorem perm_of_lookup_eq {d d' : List (K × V)} (h : (keys d).Nodup) (h' : (keys d').Nodup)
    (heq : ∀ k, d.lookup k = d'.lookup k) : d.Perm d' := by
  refine (List.perm_ext_iff_of_nodup h.of_map h'.of_map).mpr fun m => ?_
  rw [← lookup_eq_some_iff h, ← lookup_eq_some_iff h', heq]

theorem mem_keys_iff {d : List (K × V)} {k : K} : k ∈ keys d ↔ ∃ v, d.lookup k = some v := by
  induction d with
  | nil => exact ⟨nofun, nofun⟩
  | cons m d ih =>
    have hcons : k ∈ keys (m :: d) ↔ k = m.1 ∨ k ∈ keys d := List.mem_cons
    rw [hcons, ih, lookup_cons]
    by_cases hk : k = m.1
    · rw [if_pos hk]
      exact ⟨fun _ => ⟨m.2, rfl⟩, fun _ => .inl hk⟩
    · rw [if_neg hk, or_iff_right hk]

/-! ### The values changed -/

/-- `{k: f(v) for k, v in d.items()}` -/
def mapValues {W : Type} (f : V → W) (d : List (K × V)) : List (K × W) :=
  d.map fun m => (m.1, f m.2)

omit [DecidableEq K] [BEq K] [LawfulBEq K] in
theorem keys_mapValues {W : Type} (f : V → W) (d : List (K × V)) :
    keys (mapValues f d) = keys d := by
  unfold keys mapValues
  rw [List.map_map]
  rfl

omit [DecidableEq K] in
theorem lookup_map_keyed {W : Type} (f : K → V → W) (d : List (K × V)) (k : K) :
    (d.map fun m => (m.1, f m.1 m.2)).lookup k = (d.lookup k).map (f k) := by
  induction d with
  | nil => rfl
  | cons m d ih =>
    rw [List.map_cons, List.lookup_cons, List.lookup_cons]
    by_cases hk : k = m.1
    · rw [hk, beq_self_eq_true]
      rfl
    · rw [beq_false_of_ne hk]
      exact ih

omit [DecidableEq K] in
theorem lookup_mapValues {W : Type} (f : V → W) (d : List (K × V)) (k : K) :
    (mapValues f d).lookup k = (d.lookup k).map f :=
  lookup_map_keyed (fun _ => f) d k

omit [BEq K] [LawfulBEq K] in
theorem set_mapValues {W : Type} (f : V → W) (d : List (K × V)) (k : K) (v : V) :
    set (mapValues f d) k (f v) = mapValues f (set d k v) := by
  induction d with
  | nil => rfl
  | cons m d ih =>
    show set ((m.1, f m.2) :: mapValues f d) k (f v) = _
    rw [set, set]
    by_cases hk : m.1 = k
    · rw [if_pos hk, if_pos hk]
      rfl
    · rw [if_neg hk, if_neg hk, ih]
      rfl

/-! ### From items -/

/-- `dict(items)` -/
def ofItems (l : List (K × V)) : List (K × V) :=
  l.foldl (fun d m => set d m.1 m.2) []

omit [BEq K] [LawfulBEq K]

theorem ofItems_concat (l : List (K × V)) (m : K × V) :
    ofItems (l ++ [m]) = set (ofItems l) m.1 m.2 := by
  unfold ofItems
  rw [List.foldl_append]
  rfl

theorem mem_of_mem_ofItems {l : List (K × V)} {x : K × V} (h : x ∈ ofItems l) : x ∈ l := by
  induction l using List.reverseRecOn with
  | nil => exact h
  | append_singleton l m ih =>
    rw [ofItems_concat] at h
    rcases mem_of_mem_set h with rfl | h
    · exact List.mem_append_right _ (List.mem_singleton_self _)
    · exact List.mem_append_left _ (ih h)

theorem mem_keys_ofItems {l : List (K × V)} {k : K} : k ∈ keys (ofItems l) ↔ k ∈ keys l := by
  induction l using List.reverseRecOn with
  | nil => exact Iff.rfl
  | append_singleton l m ih =>
    rw [ofItems_concat, mem_keys_set, ih]
    unfold keys
    rw [List.map_append, List.mem_append, List.map_singleton, List.mem_singleton]
    exact or_comm

theorem nodup_keys_ofItems (l : List (K × V)) : (keys (ofItems l)).Nodup := by
  induction l using List.reverseRecOn with
  | nil => exact List.nodup_nil
  | append_singleton l m ih =>
    rw [ofItems_concat]
    exact nodup_keys_set ih m.1 m.2

theorem set_of_notMem {d : List (K × V)} {k : K} (h : k ∉ keys d) (v : V) :
    set d k v = d ++ [(k, v)] := by
  induction d with
  | nil => rfl
  | cons m d ih =>
    have hne : m.1 ≠ k := fun heq => h (heq ▸ List.mem_cons_self)
    rw [set, if_neg hne, ih fun hk => h (List.mem_cons_of_mem _ hk)]
    rfl

theorem set_append_cons {d : List (K × V)} {k : K} (h : k ∉ keys d) (v v' : V) (d' : List (K × V)) :
    set (d ++ (k, v) :: d') k v' = d ++ (k, v') :: d' := by
  induction d with
  | nil => exact if_pos rfl
  | cons m d ih =>
    have hne : m.1 ≠ k := fun heq => h (heq ▸ List.mem_cons_self)
    rw [List.cons_append, set, if_neg hne, ih fun hk => h (List.mem_cons_of_mem _ hk)]
    rfl

theorem lookup_append_cons [BEq K] [LawfulBEq K] {d : List (K × V)} {k : K} (h : k ∉ keys d) (v : V)
    (d' : List (K × V)) : (d ++ (k, v) :: d').lookup k = some v := by
  induction d with
  | nil => rw [List.nil_append, lookup_cons, if_pos rfl]
  | cons m d ih =>
    have hne : k ≠ m.1 := fun heq => h (heq ▸ List.mem_cons_self)
    rw [List.cons_append, lookup_cons, if_neg hne, ih fun hk => h (List.mem_cons_of_mem _ hk)]

theorem ofItems_eq_self {l : List (K × V)} (h : (keys l).Nodup) : ofItems l = l := by
  induction l using List.reverseRecOn with
  | nil => rfl
  | append_singleton l m ih =>
    unfold keys at h
    rw [List.map_append, List.map_singleton, List.nodup_append] at h
    obtain ⟨hl, -, hm⟩ := h
    rw [ofItems_concat, ih hl]
    exact set_of_notMem (fun hk => hm m.1 hk m.1 (List.mem_singleton_self _) rfl) m.2

end Assoc
