import Adaad.Py.Json.Loads

/-!
# The parser

Three facts about `parseValue`, each proved for values, items and members at once by induction on
the fuel:

* it reads at least one character (`length_of_parse`);
* fuel beyond two units a character changes nothing (`parse_fuel`);
* what it reads does not depend on what follows (`parse_append`), except that a number must be
  seen to end.

`loads_append_eq_none` puts the last one to use: a document that is an object, with more text
behind it, is no document.
-/

namespace Py

variable (P : Platform)

/-! ### Whitespace -/

theorem length_skipWs_le (s : Str) : (skipWs s).length ≤ s.length :=
  length_dropWhile_le _ _

theorem skipWs_cons_of_not {c : Nat} (hc : isJsonSpace c = false) (r : Str) :
    skipWs (c :: r) = c :: r := by
  simp [skipWs, hc]

theorem skipWs_append_of_ne_nil {s : Str} (h : skipWs s ≠ []) (t : Str) :
    skipWs (s ++ t) = skipWs s ++ t := by
  induction s with
  | nil => exact absurd rfl h
  | cons c s ih =>
    by_cases hc : isJsonSpace c = true
    · have hs : ∀ u, skipWs (c :: u) = skipWs u := fun u => by simp [skipWs, hc]
      rw [hs] at h
      rw [List.cons_append, hs, hs, ih h]
    · rw [List.cons_append, skipWs_cons_of_not (by simpa using hc),
        skipWs_cons_of_not (by simpa using hc), List.cons_append]

theorem skipWs_append_of_eq_nil {s : Str} (h : skipWs s = []) (t : Str) :
    skipWs (s ++ t) = skipWs t := by
  have hs : ∀ c ∈ s, isJsonSpace c = true := by
    simpa [skipWs, List.dropWhile_eq_nil_iff] using h
  exact dropWhile_append_of_all hs t

theorem exists_skipWs (s : Str) : ∃ w, s = w ++ skipWs s ∧ ∀ c ∈ w, isJsonSpace c = true :=
  ⟨s.takeWhile isJsonSpace, (List.takeWhile_append_dropWhile ..).symm,
    fun _ hc => List.mem_takeWhile_imp hc⟩

theorem numEnd_of_skipWs {s r : Str} {c : Nat} (h : skipWs s = c :: r)
    (hc : c = 44 ∨ c = 93 ∨ c = 125) : s ≠ [] ∧ NumEnd s := by
  cases s with
  | nil => simp [skipWs] at h
  | cons d s =>
    refine ⟨by simp, numEnd_cons.mpr ?_⟩
    by_cases hd : isJsonSpace d = true
    · simp only [isJsonSpace, Bool.or_eq_true, beq_iff_eq] at hd
      rcases hd with ((rfl | rfl) | rfl) | rfl <;> decide
    · rw [skipWs_cons_of_not (by simpa using hd)] at h
      obtain ⟨rfl, -⟩ := List.cons.inj h
      rcases hc with rfl | rfl | rfl <;> decide

/-! ### Strings -/

theorem scanUnits_quote (r : Str) : scanUnits (quote :: r) = some ([], r) := by
  rw [scanUnits.eq_def]
  simp

theorem scanUnits_unit (a b c d : Nat) (r : Str) :
    scanUnits (backslash :: 117 :: a :: b :: c :: d :: r) =
      (hex4 a b c d).bind fun u => (scanUnits r).map (pushUnit (.unit u)) := rfl

theorem scanUnits_escape {e : Nat} (he : e ≠ 117) (r : Str) :
    scanUnits (backslash :: e :: r) =
      (unescape e).bind fun x => (scanUnits r).map (pushUnit (.char x)) := by
  rw [scanUnits.eq_def]
  simp [he, show backslash ≠ quote by decide]

theorem scanUnits_char {c : Nat} (hq : c ≠ quote) (hb : c ≠ backslash) (hc : ¬ c < 32) (r : Str) :
    scanUnits (c :: r) = (scanUnits r).map (pushUnit (.char c)) := by
  rw [scanUnits.eq_def]
  simp [hq, hb, hc]

theorem length_of_scanUnits {s r : Str} {us : List StrUnit} (h : scanUnits s = some (us, r)) :
    r.length < s.length := by
  fun_induction scanUnits s generalizing us r with
  | case2 =>
    obtain ⟨-, rfl⟩ := Prod.mk.inj (Option.some.inj h)
    simp
  | case4 _ a b c d r' ih =>
    obtain ⟨u, -, h⟩ := Option.bind_eq_some_iff.mp h
    obtain ⟨p, hp, h⟩ := Option.map_eq_some_iff.mp h
    obtain ⟨-, rfl⟩ := Prod.mk.inj h
    have := ih hp
    simp only [List.length_cons]
    omega
  | case6 _ r' _ _ ih =>
    obtain ⟨u, -, h⟩ := Option.bind_eq_some_iff.mp h
    obtain ⟨p, hp, h⟩ := Option.map_eq_some_iff.mp h
    obtain ⟨-, rfl⟩ := Prod.mk.inj h
    have := ih hp
    simp only [List.length_cons]
    omega
  | case8 _ r' _ _ _ ih =>
    obtain ⟨p, hp, h⟩ := Option.map_eq_some_iff.mp h
    obtain ⟨-, rfl⟩ := Prod.mk.inj h
    have := ih hp
    simp only [List.length_cons]
    omega
  | case1 | case3 | case5 | case7 => simp at h

theorem scanUnits_append {s r : Str} {us : List StrUnit} (h : scanUnits s = some (us, r))
    (t : Str) : scanUnits (s ++ t) = some (us, r ++ t) := by
  fun_induction scanUnits s generalizing us r with
  | case2 =>
    obtain ⟨rfl, rfl⟩ := Prod.mk.inj (Option.some.inj h)
    exact scanUnits_quote _
  | case4 _ a b c d r' ih =>
    obtain ⟨u, hu, h⟩ := Option.bind_eq_some_iff.mp h
    obtain ⟨p, hp, h⟩ := Option.map_eq_some_iff.mp h
    obtain ⟨rfl, rfl⟩ := Prod.mk.inj h
    simp only [List.cons_append]
    rw [scanUnits_unit, hu, Option.bind_some, ih hp]
    rfl
  | case6 e r' he _ ih =>
    obtain ⟨u, hu, h⟩ := Option.bind_eq_some_iff.mp h
    obtain ⟨p, hp, h⟩ := Option.map_eq_some_iff.mp h
    obtain ⟨rfl, rfl⟩ := Prod.mk.inj h
    simp only [List.cons_append]
    rw [scanUnits_escape he, hu, Option.bind_some, ih hp]
    rfl
  | case8 c r' hq hb hc ih =>
    obtain ⟨p, hp, h⟩ := Option.map_eq_some_iff.mp h
    obtain ⟨rfl, rfl⟩ := Prod.mk.inj h
    rw [List.cons_append, scanUnits_char hq hb hc, ih hp]
    rfl
  | case1 | case3 | case5 | case7 => simp at h

theorem length_of_scanString {s t r : Str} (h : scanString s = some (t, r)) :
    r.length < s.length := by
  obtain ⟨p, hp, h⟩ := Option.map_eq_some_iff.mp h
  obtain ⟨-, rfl⟩ := Prod.mk.inj h
  exact length_of_scanUnits hp

theorem scanString_append {s x r : Str} (h : scanString s = some (x, r)) (t : Str) :
    scanString (s ++ t) = some (x, r ++ t) := by
  obtain ⟨p, hp, h⟩ := Option.map_eq_some_iff.mp h
  obtain ⟨rfl, rfl⟩ := Prod.mk.inj h
  rw [scanString, scanUnits_append hp]
  rfl

/-! ### Scalars -/

theorem length_of_parseName {t r r' : Str} {v w : P.Obj} (h : parseName P t v r = some (w, r')) :
    r'.length ≤ r.length := by
  unfold parseName at h
  split_ifs at h
  obtain ⟨-, rfl⟩ := Prod.mk.inj (Option.some.inj h)
  simp

theorem parseName_append {t r r' : Str} {v w : P.Obj} (h : parseName P t v r = some (w, r'))
    (u : Str) : parseName P t v (r ++ u) = some (w, r' ++ u) := by
  unfold parseName at h ⊢
  split_ifs at h with ht
  obtain ⟨rfl, rfl⟩ := Prod.mk.inj (Option.some.inj h)
  obtain ⟨x, rfl⟩ := List.isPrefixOf_iff_prefix.mp ht
  rw [if_pos (by simp [List.append_assoc])]
  simp [List.append_assoc]

theorem length_of_parseScalar {c : Nat} {r r' : Str} {v : P.Obj}
    (h : parseScalar P c r = some (v, r')) : r'.length ≤ r.length := by
  unfold parseScalar at h
  split_ifs at h
  any_goals exact length_of_parseName P h
  obtain ⟨p, hp, h⟩ := Option.map_eq_some_iff.mp h
  obtain ⟨-, rfl⟩ := Prod.mk.inj h
  exact Nat.le_of_lt_succ (length_of_scanNumber hp)

/-- Numbers are the values whose end only the following character shows. -/
def Value.isNumber {F : Type} : Value F → Bool
  | .int _ => true
  | .float _ => true
  | _ => false

theorem isNumber_numberOf (l : NumLit) : (numberOf P l).isNumber = true := by
  unfold numberOf
  split_ifs <;> rfl

private theorem not_prefix_of_scanNumber {r u : Str} {p : NumLit × Str}
    (h : scanNumber (45 :: r) = some p) : (str "Infinity").isPrefixOf (r ++ u) = false := by
  unfold scanNumber at h
  obtain ⟨q, hq, -⟩ := Option.map_eq_some_iff.mp h
  simp only [scanMinus] at hq
  cases r with
  | nil => simp [scanInt] at hq
  | cons d r =>
    rw [List.cons_append]
    rw [scanInt] at hq
    have hd : isDigit d = true := by
      by_cases h48 : d = 48
      · rw [h48]; rfl
      · by_contra hn
        rw [if_neg h48, if_neg hn] at hq
        exact absurd hq (by simp)
    have hne : (73 == d) = false := by
      simp only [isDigit, Bool.and_eq_true, decide_eq_true_eq] at hd
      simp only [beq_eq_false_iff_ne]
      omega
    rw [show str "Infinity" = 73 :: str "nfinity" from rfl, List.isPrefixOf, hne, Bool.false_and]

theorem parseScalar_append {c : Nat} {r r' : Str} {v : P.Obj}
    (h : parseScalar P c r = some (v, r'))
    (hend : v.isNumber = false ∨ r' ≠ [] ∧ NumEnd r') (t : Str) :
    parseScalar P c (r ++ t) = some (v, r' ++ t) := by
  unfold parseScalar at h ⊢
  by_cases h1 : c = 110
  · rw [if_pos h1] at h ⊢
    exact parseName_append P h t
  rw [if_neg h1] at h ⊢
  by_cases h2 : c = 116
  · rw [if_pos h2] at h ⊢
    exact parseName_append P h t
  rw [if_neg h2] at h ⊢
  by_cases h3 : c = 102
  · rw [if_pos h3] at h ⊢
    exact parseName_append P h t
  rw [if_neg h3] at h ⊢
  by_cases h4 : c = 78
  · rw [if_pos h4] at h ⊢
    exact parseName_append P h t
  rw [if_neg h4] at h ⊢
  by_cases h5 : c = 73
  · rw [if_pos h5] at h ⊢
    exact parseName_append P h t
  rw [if_neg h5] at h ⊢
  by_cases h6 : c = 45 ∧ (str "Infinity").isPrefixOf r = true
  · rw [if_pos h6] at h
    have hpre : (str "Infinity").isPrefixOf (r ++ t) = true := by
      rw [List.isPrefixOf_iff_prefix] at h6 ⊢
      exact h6.2.trans (List.prefix_append _ _)
    rw [if_pos ⟨h6.1, hpre⟩]
    exact parseName_append P h t
  · rw [if_neg h6] at h
    obtain ⟨p, hp, h⟩ := Option.map_eq_some_iff.mp h
    obtain ⟨rfl, rfl⟩ := Prod.mk.inj h
    have hend' : p.2 ≠ [] ∧ NumEnd p.2 := by
      rcases hend with hnum | hend
      · rw [isNumber_numberOf] at hnum
        exact Bool.noConfusion hnum
      · exact hend
    have h6' : ¬ (c = 45 ∧ (str "Infinity").isPrefixOf (r ++ t) = true) := by
      rintro ⟨rfl, hpre⟩
      rw [not_prefix_of_scanNumber hp] at hpre
      exact Bool.false_ne_true hpre
    rw [if_neg h6', ← List.cons_append, scanNumber_append hp hend'.1 hend'.2]
    rfl

/-! ### One step

What a successful parse of a container did, read off the definition once. -/

theorem parseValue_cons (n : Nat) (c : Nat) (r : Str) :
    parseValue P (n + 1) (c :: r) =
      if c = quote then (scanString r).map fun p => (.str p.1, p.2)
      else if c = 123 then
        if (skipWs r).head? = some 125 then some (.dict [], (skipWs r).tail)
        else (parseMembers P n (skipWs r)).map fun p => (.dict (dictOf P p.1), p.2)
      else if c = 91 then
        if (skipWs r).head? = some 93 then some (.list [], (skipWs r).tail)
        else (parseItems P n (skipWs r)).map fun p => (.list p.1, p.2)
      else parseScalar P c r := by
  rw [parseValue]

theorem parseItems_eq_some {n : Nat} {s r' : Str} {xs : List P.Obj} :
    parseItems P n s = some (xs, r') ↔
      ∃ m v r c r₁, n = m + 1 ∧ parseValue P m s = some (v, r) ∧ skipWs r = c :: r₁ ∧
        ((c = 44 ∧ ∃ ys, parseItems P m (skipWs r₁) = some (ys, r') ∧ xs = v :: ys) ∨
          (c = 93 ∧ xs = [v] ∧ r' = r₁)) := by
  cases n with
  | zero => simp [parseItems]
  | succ m =>
    rw [parseItems, Option.bind_eq_some_iff]
    constructor
    · rintro ⟨⟨v, r⟩, hv, h⟩
      cases hr : skipWs r with
      | nil => simp [hr] at h
      | cons c r₁ =>
        refine ⟨m, v, r, c, r₁, rfl, hv, hr, ?_⟩
        simp only [hr] at h
        split_ifs at h with h1 h2
        · obtain ⟨⟨ys, r₂⟩, hq, h⟩ := Option.map_eq_some_iff.mp h
          obtain ⟨rfl, rfl⟩ := Prod.mk.inj h
          exact .inl ⟨h1, ys, hq, rfl⟩
        · obtain ⟨rfl, rfl⟩ := Prod.mk.inj (Option.some.inj h)
          exact .inr ⟨h2, rfl, rfl⟩
    · rintro ⟨m', v, r, c, r₁, hm, hv, hr, h⟩
      obtain rfl := Nat.succ.inj hm
      refine ⟨(v, r), hv, ?_⟩
      rcases h with ⟨rfl, ys, hq, rfl⟩ | ⟨rfl, rfl, rfl⟩
      · simp [hr, hq]
      · simp [hr]

theorem parseMembers_eq_some {n : Nat} {s r' : Str} {ms : List (Str × P.Obj)} :
    parseMembers P n s = some (ms, r') ↔
      ∃ m t k r₁ r₂ v r₃ e r₄, n = m + 1 ∧ s = quote :: t ∧ scanString t = some (k, r₁) ∧
        skipWs r₁ = 58 :: r₂ ∧ parseValue P m (skipWs r₂) = some (v, r₃) ∧
        skipWs r₃ = e :: r₄ ∧
        ((e = 44 ∧ ∃ ns, parseMembers P m (skipWs r₄) = some (ns, r') ∧ ms = (k, v) :: ns) ∨
          (e = 125 ∧ ms = [(k, v)] ∧ r' = r₄)) := by
  cases n with
  | zero => simp [parseMembers]
  | succ m =>
    cases s with
    | nil => simp [parseMembers]
    | cons c t =>
      rw [parseMembers]
      constructor
      · intro h
        split_ifs at h with hq
        obtain ⟨⟨k, r₁⟩, hk, h⟩ := Option.bind_eq_some_iff.mp h
        cases hr₁ : skipWs r₁ with
        | nil => simp [hr₁] at h
        | cons d r₂ =>
          simp only [hr₁] at h
          split_ifs at h with hd
          obtain ⟨⟨v, r₃⟩, hv, h⟩ := Option.bind_eq_some_iff.mp h
          cases hr₃ : skipWs r₃ with
          | nil => simp [hr₃] at h
          | cons e r₄ =>
            refine ⟨m, t, k, r₁, r₂, v, r₃, e, r₄, rfl, by rw [hq], hk, by rw [hr₁, hd], hv,
              hr₃, ?_⟩
            simp only [hr₃] at h
            split_ifs at h with h1 h2
            · obtain ⟨⟨ns, r₅⟩, hns, h⟩ := Option.map_eq_some_iff.mp h
              obtain ⟨rfl, rfl⟩ := Prod.mk.inj h
              exact .inl ⟨h1, ns, hns, rfl⟩
            · obtain ⟨rfl, rfl⟩ := Prod.mk.inj (Option.some.inj h)
              exact .inr ⟨h2, rfl, rfl⟩
      · rintro ⟨m', t', k, r₁, r₂, v, r₃, e, r₄, hm, hs, hk, hr₁, hv, hr₃, h⟩
        obtain rfl := Nat.succ.inj hm
        obtain ⟨rfl, rfl⟩ := List.cons.inj hs
        rcases h with ⟨rfl, ns, hns, rfl⟩ | ⟨rfl, rfl, rfl⟩
        · simp [hk, hr₁, hv, hr₃, hns]
        · simp [hk, hr₁, hv, hr₃]

/-! ### Progress -/

private theorem length_lt_of_skipWs {r r₁ : Str} {c : Nat} (h : skipWs r = c :: r₁) :
    r₁.length < r.length := by
  have := length_skipWs_le r
  rw [h, List.length_cons] at this
  exact this

theorem length_of_parse (n : Nat) :
    (∀ s r v, parseValue P n s = some (v, r) → r.length < s.length) ∧
      (∀ s r xs, parseItems P n s = some (xs, r) → r.length < s.length) ∧
      ∀ s r ms, parseMembers P n s = some (ms, r) → r.length < s.length := by
  induction n with
  | zero => exact ⟨by simp [parseValue], by simp [parseItems], by simp [parseMembers]⟩
  | succ n ih =>
    obtain ⟨ihv, ihi, ihm⟩ := ih
    refine ⟨?_, ?_, ?_⟩
    · intro s r v h
      cases s with
      | nil => simp [parseValue] at h
      | cons c s =>
        rw [parseValue_cons] at h
        have hws := length_skipWs_le s
        rw [List.length_cons]
        split_ifs at h
        · obtain ⟨p, hp, h⟩ := Option.map_eq_some_iff.mp h
          obtain ⟨-, rfl⟩ := Prod.mk.inj h
          have := length_of_scanString hp
          omega
        · obtain ⟨-, rfl⟩ := Prod.mk.inj (Option.some.inj h)
          rw [List.length_tail]
          omega
        · obtain ⟨p, hp, h⟩ := Option.map_eq_some_iff.mp h
          obtain ⟨-, rfl⟩ := Prod.mk.inj h
          have := ihm _ _ _ hp
          omega
        · obtain ⟨-, rfl⟩ := Prod.mk.inj (Option.some.inj h)
          rw [List.length_tail]
          omega
        · obtain ⟨p, hp, h⟩ := Option.map_eq_some_iff.mp h
          obtain ⟨-, rfl⟩ := Prod.mk.inj h
          have := ihi _ _ _ hp
          omega
        · exact Nat.lt_succ_of_le (length_of_parseScalar P h)
    · intro s r xs h
      obtain ⟨m, v, r₁, c, r₂, hm, hv, hr, h⟩ := (parseItems_eq_some P).mp h
      obtain rfl := Nat.succ.inj hm
      have h₁ := ihv _ _ _ hv
      have h₂ := length_lt_of_skipWs hr
      rcases h with ⟨-, ys, hys, -⟩ | ⟨-, -, rfl⟩
      · have := ihi _ _ _ hys
        have := length_skipWs_le r₂
        omega
      · omega
    · intro s r ms h
      obtain ⟨m, t, k, r₁, r₂, v, r₃, e, r₄, hm, rfl, hk, hr₁, hv, hr₃, h⟩ :=
        (parseMembers_eq_some P).mp h
      obtain rfl := Nat.succ.inj hm
      have h₁ := length_of_scanString hk
      have h₂ := length_lt_of_skipWs hr₁
      have h₃ := ihv _ _ _ hv
      have h₄ := length_skipWs_le r₂
      have h₅ := length_lt_of_skipWs hr₃
      rw [List.length_cons]
      rcases h with ⟨-, ns, hns, -⟩ | ⟨-, -, rfl⟩
      · have := ihm _ _ _ hns
        have := length_skipWs_le r₄
        omega
      · omega

/-! ### Fuel -/

theorem parse_fuel (n : Nat) :
    (∀ s p m, parseValue P n s = some p → 2 * s.length + 1 ≤ m → parseValue P m s = some p) ∧
      (∀ s p m, parseItems P n s = some p → 2 * s.length + 2 ≤ m → parseItems P m s = some p) ∧
      ∀ s p m, parseMembers P n s = some p → 2 * s.length + 2 ≤ m →
        parseMembers P m s = some p := by
  induction n with
  | zero => exact ⟨by simp [parseValue], by simp [parseItems], by simp [parseMembers]⟩
  | succ n ih =>
    obtain ⟨ihv, ihi, ihm⟩ := ih
    refine ⟨?_, ?_, ?_⟩
    · intro s p m h hm
      obtain ⟨m, rfl⟩ : ∃ k, m = k + 1 := ⟨m - 1, by omega⟩
      cases s with
      | nil => simp [parseValue] at h
      | cons c s =>
        have hws := length_skipWs_le s
        rw [List.length_cons] at hm
        rw [parseValue_cons] at h ⊢
        by_cases hq : c = quote
        · rw [if_pos hq] at h ⊢
          exact h
        rw [if_neg hq] at h ⊢
        by_cases hb : c = 123
        · rw [if_pos hb] at h ⊢
          split_ifs at h ⊢
          · exact h
          · obtain ⟨q, hq, h⟩ := Option.map_eq_some_iff.mp h
            rw [ihm _ _ m hq (by omega), Option.map_some, h]
        rw [if_neg hb] at h ⊢
        by_cases hb' : c = 91
        · rw [if_pos hb'] at h ⊢
          split_ifs at h ⊢
          · exact h
          · obtain ⟨q, hq, h⟩ := Option.map_eq_some_iff.mp h
            rw [ihi _ _ m hq (by omega), Option.map_some, h]
        rw [if_neg hb'] at h ⊢
        exact h
    · rintro s ⟨xs, r⟩ m h hm
      obtain ⟨m, rfl⟩ : ∃ k, m = k + 1 := ⟨m - 1, by omega⟩
      obtain ⟨n', v, r₁, c, r₂, hn, hv, hr, h⟩ := (parseItems_eq_some P).mp h
      obtain rfl := Nat.succ.inj hn
      have h₁ := (length_of_parse P _).1 _ _ _ hv
      have h₂ := length_lt_of_skipWs hr
      have h₃ := length_skipWs_le r₂
      refine (parseItems_eq_some P).mpr
        ⟨m, v, r₁, c, r₂, rfl, ihv _ _ _ hv (by omega), hr, h.imp ?_ id⟩
      rintro ⟨hc, ys, hys, hxs⟩
      exact ⟨hc, ys, ihi _ _ _ hys (by omega), hxs⟩
    · rintro s ⟨ms, r⟩ m h hm
      obtain ⟨m, rfl⟩ : ∃ k, m = k + 1 := ⟨m - 1, by omega⟩
      obtain ⟨n', t, k, r₁, r₂, v, r₃, e, r₄, hn, rfl, hk, hr₁, hv, hr₃, h⟩ :=
        (parseMembers_eq_some P).mp h
      obtain rfl := Nat.succ.inj hn
      have h₁ := length_of_scanString hk
      have h₂ := length_lt_of_skipWs hr₁
      have h₃ := (length_of_parse P _).1 _ _ _ hv
      have h₄ := length_skipWs_le r₂
      have h₅ := length_lt_of_skipWs hr₃
      have h₆ := length_skipWs_le r₄
      rw [List.length_cons] at hm
      refine (parseMembers_eq_some P).mpr
        ⟨m, t, k, r₁, r₂, v, r₃, e, r₄, rfl, rfl, hk, hr₁, ihv _ _ _ hv (by omega), hr₃,
          h.imp ?_ id⟩
      rintro ⟨he, ns, hns, hms⟩
      exact ⟨he, ns, ihm _ _ _ hns (by omega), hms⟩

/-! ### What follows -/

private theorem skipWs_append_cons {r r₁ : Str} {c : Nat} (h : skipWs r = c :: r₁) (t : Str) :
    skipWs (r ++ t) = c :: (r₁ ++ t) := by
  rw [skipWs_append_of_ne_nil (by rw [h]; simp), h, List.cons_append]

theorem parse_append (n : Nat) :
    (∀ s r v t, parseValue P n s = some (v, r) → (v.isNumber = false ∨ r ≠ [] ∧ NumEnd r) →
        parseValue P n (s ++ t) = some (v, r ++ t)) ∧
      (∀ s r xs t, parseItems P n s = some (xs, r) →
        parseItems P n (s ++ t) = some (xs, r ++ t)) ∧
      ∀ s r ms t, parseMembers P n s = some (ms, r) →
        parseMembers P n (s ++ t) = some (ms, r ++ t) := by
  induction n with
  | zero => exact ⟨by simp [parseValue], by simp [parseItems], by simp [parseMembers]⟩
  | succ n ih =>
    obtain ⟨ihv, ihi, ihm⟩ := ih
    refine ⟨?_, ?_, ?_⟩
    · intro s r v t h hend
      cases s with
      | nil => simp [parseValue] at h
      | cons c s =>
        rw [List.cons_append, parseValue_cons]
        rw [parseValue_cons] at h
        by_cases hq : c = quote
        · rw [if_pos hq] at h ⊢
          obtain ⟨p, hp, h⟩ := Option.map_eq_some_iff.mp h
          obtain ⟨rfl, rfl⟩ := Prod.mk.inj h
          rw [scanString_append hp]
          rfl
        rw [if_neg hq] at h ⊢
        by_cases hb : c = 123
        · rw [if_pos hb] at h ⊢
          by_cases hclose : (skipWs s).head? = some 125
          · rw [if_pos hclose] at h
            obtain ⟨rfl, rfl⟩ := Prod.mk.inj (Option.some.inj h)
            obtain ⟨u, hu⟩ : ∃ u, skipWs s = 125 :: u := List.head?_eq_some_iff.mp hclose
            rw [skipWs_append_cons hu, hu]
            rfl
          · rw [if_neg hclose] at h
            obtain ⟨p, hp, h⟩ := Option.map_eq_some_iff.mp h
            obtain ⟨rfl, rfl⟩ := Prod.mk.inj h
            have hne : skipWs s ≠ [] := by
              intro hnil
              have := (length_of_parse P n).2.2 _ _ _ hp
              simp [hnil] at this
            obtain ⟨d, u, hu⟩ := List.exists_cons_of_ne_nil hne
            have hd : d ≠ 125 := by
              rintro rfl
              exact hclose (by rw [hu]; rfl)
            rw [skipWs_append_cons hu, if_neg (by simpa using hd), ← List.cons_append, ← hu,
              ihm _ _ _ t hp]
            rfl
        rw [if_neg hb] at h ⊢
        by_cases hb' : c = 91
        · rw [if_pos hb'] at h ⊢
          by_cases hclose : (skipWs s).head? = some 93
          · rw [if_pos hclose] at h
            obtain ⟨rfl, rfl⟩ := Prod.mk.inj (Option.some.inj h)
            obtain ⟨u, hu⟩ : ∃ u, skipWs s = 93 :: u := List.head?_eq_some_iff.mp hclose
            rw [skipWs_append_cons hu, hu]
            rfl
          · rw [if_neg hclose] at h
            obtain ⟨p, hp, h⟩ := Option.map_eq_some_iff.mp h
            obtain ⟨rfl, rfl⟩ := Prod.mk.inj h
            have hne : skipWs s ≠ [] := by
              intro hnil
              have := (length_of_parse P n).2.1 _ _ _ hp
              simp [hnil] at this
            obtain ⟨d, u, hu⟩ := List.exists_cons_of_ne_nil hne
            have hd : d ≠ 93 := by
              rintro rfl
              exact hclose (by rw [hu]; rfl)
            rw [skipWs_append_cons hu, if_neg (by simpa using hd), ← List.cons_append, ← hu,
              ihi _ _ _ t hp]
            rfl
        rw [if_neg hb'] at h ⊢
        exact parseScalar_append P h hend t
    · intro s r xs t h
      obtain ⟨m, v, r₁, c, r₂, hm, hv, hr, h⟩ := (parseItems_eq_some P).mp h
      obtain rfl := Nat.succ.inj hm
      have hc : c = 44 ∨ c = 93 ∨ c = 125 := by
        rcases h with ⟨rfl, -⟩ | ⟨rfl, -⟩ <;> simp
      refine (parseItems_eq_some P).mpr ⟨n, v, r₁ ++ t, c, r₂ ++ t, rfl,
        ihv _ _ _ t hv (.inr (numEnd_of_skipWs hr hc)), skipWs_append_cons hr t, ?_⟩
      rcases h with ⟨hc, ys, hys, hxs⟩ | ⟨hc, hxs, rfl⟩
      · have hne : skipWs r₂ ≠ [] := by
          intro hnil
          have := (length_of_parse P n).2.1 _ _ _ hys
          simp [hnil] at this
        exact .inl ⟨hc, ys, by rw [skipWs_append_of_ne_nil hne, ihi _ _ _ t hys], hxs⟩
      · exact .inr ⟨hc, hxs, rfl⟩
    · intro s r ms t h
      obtain ⟨m, u, k, r₁, r₂, v, r₃, e, r₄, hm, rfl, hk, hr₁, hv, hr₃, h⟩ :=
        (parseMembers_eq_some P).mp h
      obtain rfl := Nat.succ.inj hm
      have he : e = 44 ∨ e = 93 ∨ e = 125 := by
        rcases h with ⟨rfl, -⟩ | ⟨rfl, -⟩ <;> simp
      have hne₂ : skipWs r₂ ≠ [] := by
        intro hnil
        have := (length_of_parse P n).1 _ _ _ hv
        simp [hnil] at this
      refine (parseMembers_eq_some P).mpr ⟨n, u ++ t, k, r₁ ++ t, r₂ ++ t, v, r₃ ++ t, e, r₄ ++ t,
        rfl, rfl, scanString_append hk t, skipWs_append_cons hr₁ t, ?_, skipWs_append_cons hr₃ t,
        ?_⟩
      · rw [skipWs_append_of_ne_nil hne₂]
        exact ihv _ _ _ t hv (.inr (numEnd_of_skipWs hr₃ he))
      rcases h with ⟨he, ns, hns, hms⟩ | ⟨he, hms, rfl⟩
      · have hne : skipWs r₄ ≠ [] := by
          intro hnil
          have := (length_of_parse P n).2.2 _ _ _ hns
          simp [hnil] at this
        exact .inl ⟨he, ns, by rw [skipWs_append_of_ne_nil hne, ihm _ _ _ t hns], hms⟩
      · exact .inr ⟨he, hms, rfl⟩

/-! ### Documents -/

theorem loads_eq_some {s : Str} {v : P.Obj} :
    loads P s = some v ↔ ∃ n r, parseValue P n (skipWs s) = some (v, r) ∧ skipWs r = [] := by
  unfold loads
  rw [Option.bind_eq_some_iff]
  constructor
  · rintro ⟨⟨w, r⟩, hp, h⟩
    simp only at h
    split_ifs at h with hr
    obtain rfl := Option.some.inj h
    exact ⟨_, r, hp, hr⟩
  · rintro ⟨n, r, hp, hr⟩
    have hws := length_skipWs_le s
    exact ⟨(v, r), (parse_fuel P n).1 _ _ _ hp (by omega), by simp [hr]⟩

theorem loads_append_eq_none {s : Str} {v : P.Obj} (h : loads P s = some v)
    (hv : v.isNumber = false) {t : Str} (ht : skipWs t ≠ []) : loads P (s ++ t) = none := by
  obtain ⟨n, r, hp, hr⟩ := (loads_eq_some P).mp h
  have hne : skipWs s ≠ [] := by
    intro hnil
    have := (length_of_parse P n).1 _ _ _ hp
    simp [hnil] at this
  have hp' := (parse_append P n).1 _ _ _ t hp (.inl hv)
  by_contra hsome
  obtain ⟨w, hw⟩ := Option.ne_none_iff_exists'.mp hsome
  obtain ⟨m, r', hq, hr'⟩ := (loads_eq_some P).mp hw
  rw [skipWs_append_of_ne_nil hne] at hq
  have hfuel := (parse_fuel P n).1 _ _ (2 * (skipWs s ++ t).length + 1) hp' le_rfl
  rw [(parse_fuel P m).1 _ _ (2 * (skipWs s ++ t).length + 1) hq le_rfl] at hfuel
  obtain ⟨-, rfl⟩ := Prod.mk.inj (Option.some.inj hfuel)
  rw [skipWs_append_of_eq_nil hr] at hr'
  exact ht hr'

end Py
