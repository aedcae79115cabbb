import Adaad.Py.Assoc
import Mathlib.Algebra.BigOperators.Ring.List
import Mathlib.Algebra.Order.BigOperators.Group.List
import Mathlib.Algebra.Order.Field.Basic
import Mathlib.Tactic.Linarith

/-!
# Shares of a whole

An association list of weights, and the shares that come of dividing each by their total
(`normalize`).  Positive weights have positive shares (`normalize_pos`) that add up to one
(`total_normalize`), none of which is greater than one (`le_one_of_mem`).
-/

namespace Shares

variable {A K : Type} [Field K]

/-- `sum(d.values())` -/
def total (d : List (A × K)) : K :=
  (d.map Prod.snd).sum

theorem total_append (d d' : List (A × K)) : total (d ++ d') = total d + total d' := by
  unfold total
  rw [List.map_append, List.sum_append]

theorem total_perm {d d' : List (A × K)} (h : d.Perm d') : total d = total d' :=
  (h.map Prod.snd).sum_eq

variable [LinearOrder K]

/-- `x or 1.0` -/
def orOne (x : K) : K :=
  if x = 0 then 1 else x

/-- `{a: v / t for a, v in d.items()}`, where `t` is `sum(d.values()) or 1.0`. -/
def normalize (d : List (A × K)) : List (A × K) :=
  Assoc.mapValues (· / orOne (total d)) d

theorem mem_normalize {d : List (A × K)} {m : A × K} :
    m ∈ normalize d ↔ ∃ v, (m.1, v) ∈ d ∧ v / orOne (total d) = m.2 := by
  unfold normalize Assoc.mapValues
  rw [List.mem_map]
  constructor
  · rintro ⟨n, hn, rfl⟩
    exact ⟨n.2, hn, rfl⟩
  · rintro ⟨v, hv, heq⟩
    exact ⟨(m.1, v), hv, Prod.ext rfl heq⟩

variable [IsStrictOrderedRing K]

theorem total_nonneg {d : List (A × K)} (h : ∀ m ∈ d, 0 ≤ m.2) : 0 ≤ total d :=
  List.sum_nonneg fun _ hx => by
    obtain ⟨m, hm, rfl⟩ := List.mem_map.mp hx
    exact h m hm

theorem le_total {d : List (A × K)} (h : ∀ m ∈ d, 0 ≤ m.2) {m : A × K} (hm : m ∈ d) :
    m.2 ≤ total d :=
  List.single_le_sum (fun _ hx => by
    obtain ⟨n, hn, rfl⟩ := List.mem_map.mp hx
    exact h n hn) _ (List.mem_map_of_mem hm)

theorem total_pos {d : List (A × K)} (h : ∀ m ∈ d, 0 < m.2) (hne : d ≠ []) : 0 < total d := by
  obtain ⟨m, hm⟩ := List.exists_mem_of_ne_nil d hne
  exact (h m hm).trans_le (le_total (fun n hn => (h n hn).le) hm)

theorem orOne_total_pos {d : List (A × K)} (h : ∀ m ∈ d, 0 < m.2) : 0 < orOne (total d) := by
  unfold orOne
  split_ifs with hzero
  · exact one_pos
  · exact lt_of_le_of_ne (total_nonneg fun m hm => (h m hm).le) (Ne.symm hzero)

theorem normalize_pos {d : List (A × K)} (h : ∀ m ∈ d, 0 < m.2) : ∀ m ∈ normalize d, 0 < m.2 := by
  intro m hm
  obtain ⟨v, hv, heq⟩ := mem_normalize.mp hm
  rw [← heq]
  exact div_pos (h _ hv) (orOne_total_pos h)

omit [IsStrictOrderedRing K] in
theorem total_normalize_of_pos {d : List (A × K)} (h : 0 < total d) : total (normalize d) = 1 := by
  have hsum : total (normalize d) = total d / orOne (total d) := by
    unfold normalize total Assoc.mapValues
    rw [div_eq_mul_inv, ← List.sum_map_mul_right, List.map_map]
    simp only [Function.comp_def, div_eq_mul_inv]
  rw [hsum, orOne, if_neg h.ne', div_self h.ne']

theorem total_normalize {d : List (A × K)} (h : ∀ m ∈ d, 0 < m.2) (hne : d ≠ []) :
    total (normalize d) = 1 :=
  total_normalize_of_pos (total_pos h hne)

theorem le_one_of_mem {d : List (A × K)} (h : ∀ m ∈ d, 0 ≤ m.2) (htotal : total d ≤ 1) {m : A × K}
    (hm : m ∈ d) : m.2 ≤ 1 :=
  (le_total h hm).trans htotal

/-! ### Whole shares -/

/-- What is left when each weight gets its share of `pool`, rounded down. -/
def leftOver (pool whole : Int) (weights : List Int) : Int :=
  pool - (weights.map fun w => w * pool / whole).sum

theorem sum_floor_le {whole : Int} (hwhole : 0 < whole) (pool : Int) (weights : List Int) :
    whole * (weights.map fun w => w * pool / whole).sum ≤ weights.sum * pool ∧
      weights.sum * pool ≤
        whole * (weights.map fun w => w * pool / whole).sum + weights.length * (whole - 1) := by
  induction weights with
  | nil => simp
  | cons w weights ih =>
    have hdiv := Int.mul_ediv_add_emod (w * pool) whole
    have hnonneg := Int.emod_nonneg (w * pool) hwhole.ne'
    have hlt := Int.emod_lt_of_pos (w * pool) hwhole
    rw [List.map_cons, List.sum_cons, List.sum_cons, List.length_cons, mul_add, add_mul]
    push_cast
    rw [add_mul]
    constructor
    · linarith only [ih.1, hdiv, hnonneg]
    · linarith only [ih.2, hdiv, hlt]

theorem leftOver_bounds {whole : Int} (hwhole : 0 < whole) (pool : Int) {weights : List Int}
    (hsum : weights.sum = whole) :
    0 ≤ leftOver pool whole weights ∧ leftOver pool whole weights < weights.length := by
  obtain ⟨hle, hge⟩ := sum_floor_le hwhole pool weights
  have hne : weights ≠ [] := by
    rintro rfl
    rw [List.sum_nil] at hsum
    exact hwhole.ne hsum
  have hpos : (0 : Int) < weights.length := by
    exact_mod_cast List.length_pos_of_ne_nil hne
  rw [hsum] at hle hge
  unfold leftOver
  constructor
  · exact sub_nonneg.mpr (le_of_mul_le_mul_left hle hwhole)
  · refine lt_of_mul_lt_mul_left ?_ hwhole.le
    have hsplit : (weights.length : Int) * (whole - 1) = whole * weights.length - weights.length := by
      rw [mul_sub, mul_one, mul_comm]
    rw [mul_sub]
    linarith only [hge, hpos, hsplit]

end Shares
