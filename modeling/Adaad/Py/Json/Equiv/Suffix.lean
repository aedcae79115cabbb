import Adaad.Py.Json.Equiv.Parse

/-!
# The end of a document

An object with text in front of it is no object: if `x ++ q` and `q` are both the text of an
object, then `x` is blank (`blank_of_loads_append`).

The proof does not look at the values.  A small machine follows the nesting of a document and says
whether a character stands in a string literal (`Mode`).  Every object brings it back to where it
started, and from no other mode does the text of an object lead there.
-/

namespace Py

/-! ### The machine -/

/-- Where in a document a character stands: between string literals, in one, or after a backslash
in one; with the number of open brackets. -/
inductive Mode where
  | out (depth : Nat)
  | lit (depth : Nat)
  | esc (depth : Nat)

namespace Mode

def step : Mode → Nat → Option Mode
  | out d, c =>
    if c = quote then some (lit d)
    else if c = 123 ∨ c = 91 then some (out (d + 1))
    else if c = 125 ∨ c = 93 then if d = 0 then none else some (out (d - 1))
    else if c = backslash then none
    else some (out d)
  | lit d, c =>
    if c = quote then some (out d)
    else if c = backslash then some (esc d)
    else some (lit d)
  | esc d, c => if c = 117 ∨ (unescape c).isSome then some (lit d) else none

/-- The mode after a text; `none` where it cannot be part of a document. -/
def run (m : Mode) (s : Str) : Option Mode :=
  s.foldlM step m

/-- The same place with `k` more brackets open. -/
def shift (k : Nat) : Mode → Mode
  | out d => out (d + k)
  | lit d => lit (d + k)
  | esc d => esc (d + k)

theorem step_out (d c : Nat) : (out d).step c =
    if c = quote then some (lit d)
    else if c = 123 ∨ c = 91 then some (out (d + 1))
    else if c = 125 ∨ c = 93 then if d = 0 then none else some (out (d - 1))
    else if c = backslash then none
    else some (out d) := rfl

theorem step_lit (d c : Nat) : (lit d).step c =
    if c = quote then some (out d) else if c = backslash then some (esc d) else some (lit d) :=
  rfl

theorem step_esc (d c : Nat) : (esc d).step c =
    if c = 117 ∨ (unescape c).isSome then some (lit d) else none := rfl

@[simp] theorem run_nil (m : Mode) : m.run [] = some m := rfl

theorem run_cons (m : Mode) (c : Nat) (s : Str) : m.run (c :: s) = (m.step c).bind (run · s) :=
  List.foldlM_cons

theorem run_append (m : Mode) (s t : Str) : m.run (s ++ t) = (m.run s).bind (run · t) :=
  List.foldlM_append

theorem step_shift {m m' : Mode} {c : Nat} (h : m.step c = some m') (k : Nat) :
    (m.shift k).step c = some (m'.shift k) := by
  cases m with
  | out d =>
    rw [step_out] at h
    rw [shift, step_out]
    split_ifs at h ⊢ with h1 h2 h3 h4 h5 h6
    · obtain rfl := Option.some.inj h
      rfl
    · obtain rfl := Option.some.inj h
      simp only [shift, Option.some.injEq, out.injEq]
      omega
    · omega
    · obtain rfl := Option.some.inj h
      simp only [shift, Option.some.injEq, out.injEq]
      omega
    · obtain rfl := Option.some.inj h
      rfl
  | lit d =>
    rw [step_lit] at h
    rw [shift, step_lit]
    split_ifs at h ⊢ with h1 h2
    all_goals
      obtain rfl := Option.some.inj h
      rfl
  | esc d =>
    rw [step_esc] at h
    rw [shift, step_esc]
    split_ifs at h ⊢ with h1
    obtain rfl := Option.some.inj h
    rfl

theorem run_shift {m m' : Mode} {s : Str} (h : m.run s = some m') (k : Nat) :
    (m.shift k).run s = some (m'.shift k) := by
  induction s generalizing m with
  | nil =>
    obtain rfl := Option.some.inj h
    rfl
  | cons c s ih =>
    rw [run_cons, Option.bind_eq_some_iff] at h
    obtain ⟨m₁, hstep, h⟩ := h
    rw [run_cons, step_shift hstep k, Option.bind_some, ih h]

/-- One of the modes is in a string literal and the other is not. -/
def Opposite : Mode → Mode → Prop
  | out _, lit _ => True
  | lit _, out _ => True
  | _, _ => False

theorem opposite_step {m n m' n' : Mode} (h : Opposite m n) {c : Nat} (hm : m.step c = some m')
    (hn : n.step c = some n') : Opposite m' n' := by
  have main : ∀ {d e : Nat} {p q : Mode}, (out d).step c = some p → (lit e).step c = some q →
      Opposite p q ∧ Opposite q p := by
    intro d e p q hp hq
    have hne : c ≠ backslash := by
      rintro rfl
      exact absurd hp (by simp [step_out, quote, backslash])
    rw [step_out] at hp
    rw [step_lit, if_neg hne] at hq
    split_ifs at hp hq
    all_goals
      obtain rfl := Option.some.inj hp
      obtain rfl := Option.some.inj hq
      exact ⟨trivial, trivial⟩
  cases m <;> cases n <;> first | exact h.elim | skip
  · exact (main hm hn).1
  · exact (main hn hm).2

theorem opposite_run {m n m' n' : Mode} (h : Opposite m n) {s : Str} (hm : m.run s = some m')
    (hn : n.run s = some n') : Opposite m' n' := by
  induction s generalizing m n with
  | nil =>
    obtain rfl := Option.some.inj hm
    obtain rfl := Option.some.inj hn
    exact h
  | cons c s ih =>
    rw [run_cons, Option.bind_eq_some_iff] at hm hn
    obtain ⟨m₁, hm₁, hm⟩ := hm
    obtain ⟨n₁, hn₁, hn⟩ := hn
    exact ih (opposite_step h hm₁ hn₁) hm hn

/-! ### Text that is passed over -/

/-- A character that changes nothing outside of a string literal. -/
def Neutral (c : Nat) : Prop :=
  c ≠ quote ∧ c ≠ 123 ∧ c ≠ 91 ∧ c ≠ 125 ∧ c ≠ 93 ∧ c ≠ backslash

instance (c : Nat) : Decidable (Neutral c) := by
  unfold Neutral
  infer_instance

theorem step_neutral {c : Nat} (h : Neutral c) (d : Nat) : (out d).step c = some (out d) := by
  obtain ⟨h1, h2, h3, h4, h5, h6⟩ := h
  simp [step, h1, h2, h3, h4, h5, h6]

theorem run_neutral {s : Str} (h : ∀ c ∈ s, Neutral c) (d : Nat) :
    (out d).run s = some (out d) := by
  induction s with
  | nil => rfl
  | cons c s ih =>
    rw [run_cons, step_neutral (h c (by simp)), Option.bind_some, ih fun x hx => h x (by simp [hx])]

/-- A prefix of `s` leads from `m` to `m'`, and `r` is the rest. -/
def Passes (m : Mode) (s r : Str) (m' : Mode) : Prop :=
  ∃ w, s = w ++ r ∧ m.run w = some m'

theorem Passes.refl (m : Mode) (s : Str) : Passes m s s m := ⟨[], rfl, rfl⟩

theorem Passes.trans {m₁ m₂ m₃ : Mode} {s t r : Str} (h : Passes m₁ s t m₂)
    (h' : Passes m₂ t r m₃) : Passes m₁ s r m₃ := by
  obtain ⟨w, rfl, hw⟩ := h
  obtain ⟨w', rfl, hw'⟩ := h'
  exact ⟨w ++ w', by rw [List.append_assoc], by rw [run_append, hw, Option.bind_some, hw']⟩

theorem Passes.cons {m m₁ m' : Mode} {c : Nat} {s r : Str} (hc : m.step c = some m₁)
    (h : Passes m₁ s r m') : Passes m (c :: s) r m' := by
  obtain ⟨w, rfl, hw⟩ := h
  exact ⟨c :: w, rfl, by rw [run_cons, hc, Option.bind_some, hw]⟩

theorem Passes.shift {m m' : Mode} {s r : Str} (h : Passes m s r m') (k : Nat) :
    Passes (m.shift k) s r (m'.shift k) := by
  obtain ⟨w, hs, hw⟩ := h
  exact ⟨w, hs, run_shift hw k⟩

theorem passes_neutral {w : Str} (h : ∀ c ∈ w, Neutral c) (d : Nat) (r : Str) :
    Passes (out d) (w ++ r) r (out d) :=
  ⟨w, rfl, run_neutral h d⟩

theorem neutral_of_isJsonSpace {c : Nat} (h : isJsonSpace c = true) : Neutral c := by
  simp only [isJsonSpace, Bool.or_eq_true, beq_iff_eq] at h
  rcases h with ((rfl | rfl) | rfl) | rfl <;> decide

theorem passes_skipWs (d : Nat) (s : Str) : Passes (out d) s (skipWs s) (out d) := by
  obtain ⟨w, hw, hall⟩ := exists_skipWs s
  have := passes_neutral (fun c hc => neutral_of_isJsonSpace (hall c hc)) d (skipWs s)
  rwa [← hw] at this

/-! ### Numbers -/

theorem neutral_of_isDigit {c : Nat} (h : isDigit c = true) : Neutral c := by
  simp only [isDigit, Bool.and_eq_true, decide_eq_true_eq] at h
  unfold Neutral quote backslash
  omega

private theorem passes_digits (d : Nat) (s : Str) :
    Passes (out d) s (s.dropWhile isDigit) (out d) := by
  have hdigits : ∀ c ∈ s.takeWhile isDigit, Neutral c := fun c hc =>
    neutral_of_isDigit (List.mem_takeWhile_imp hc)
  have := passes_neutral hdigits d (s.dropWhile isDigit)
  rwa [List.takeWhile_append_dropWhile] at this

private theorem passes_scanMinus (d : Nat) (s : Str) :
    Passes (out d) s (scanMinus s).2 (out d) := by
  unfold scanMinus
  split
  · exact .cons (step_neutral (by decide) d) (.refl _ _)
  · exact .refl _ _

private theorem passes_scanSign (d : Nat) (s : Str) : Passes (out d) s (scanSign s).2 (out d) := by
  unfold scanSign
  split
  · exact .cons (step_neutral (by decide) d) (.refl _ _)
  · exact .cons (step_neutral (by decide) d) (.refl _ _)
  · exact .refl _ _

private theorem passes_scanInt (d : Nat) {s ds r : Str} (h : scanInt s = some (ds, r)) :
    Passes (out d) s r (out d) := by
  cases s with
  | nil => simp [scanInt] at h
  | cons c s =>
    rw [scanInt] at h
    split_ifs at h with h48 hd
    · obtain ⟨-, rfl⟩ := Prod.mk.inj (Option.some.inj h)
      exact .cons (step_neutral (by rw [h48]; decide) d) (.refl _ _)
    · obtain ⟨-, rfl⟩ := Prod.mk.inj (Option.some.inj h)
      exact passes_digits d _

private theorem passes_scanFrac (d : Nat) (s : Str) : Passes (out d) s (scanFrac s).2 (out d) := by
  unfold scanFrac
  split
  · split_ifs
    · exact .refl _ _
    · exact .cons (step_neutral (by decide) d) (passes_digits d _)
  · exact .refl _ _

private theorem passes_scanExp (d : Nat) (s : Str) : Passes (out d) s (scanExp s).2 (out d) := by
  unfold scanExp
  split
  · exact .refl _ _
  · next c r =>
    split_ifs with hc
    · exact .refl _ _
    · have hn : Neutral c := by rcases hc with rfl | rfl <;> decide
      exact .cons (step_neutral hn d) ((passes_scanSign d r).trans (passes_digits d _))
    · exact .refl _ _

theorem passes_scanNumber (d : Nat) {s r : Str} {l : NumLit} (h : scanNumber s = some (l, r)) :
    Passes (out d) s r (out d) := by
  obtain ⟨⟨ds, t⟩, hint, h⟩ := Option.map_eq_some_iff.mp h
  obtain ⟨-, rfl⟩ := Prod.mk.inj h
  exact (passes_scanMinus d s).trans ((passes_scanInt d hint).trans
    ((passes_scanFrac d t).trans (passes_scanExp d _)))

/-! ### String literals -/

private theorem step_lit_hex {c : Nat} (h : (hexValue c).isSome = true) (d : Nat) :
    (lit d).step c = some (lit d) := by
  have hne : c ≠ quote ∧ c ≠ backslash := by
    constructor <;> rintro rfl <;> exact absurd h (by decide)
  simp [step, hne.1, hne.2]

private theorem isSome_of_hex4 {a b c d u : Nat} (h : hex4 a b c d = some u) :
    (hexValue a).isSome = true ∧ (hexValue b).isSome = true ∧ (hexValue c).isSome = true ∧
      (hexValue d).isSome = true := by
  unfold hex4 at h
  cases ha : hexValue a <;> cases hb : hexValue b <;> cases hc : hexValue c <;>
    cases hd : hexValue d <;> simp_all

theorem passes_scanUnits (d : Nat) {s r : Str} {us : List StrUnit}
    (h : scanUnits s = some (us, r)) : Passes (lit d) s r (out d) := by
  have hback : (lit d).step backslash = some (esc d) := rfl
  fun_induction scanUnits s generalizing us r with
  | case2 =>
    obtain ⟨-, rfl⟩ := Prod.mk.inj (Option.some.inj h)
    exact .cons rfl (.refl _ _)
  | case4 _ a b c e r' ih =>
    obtain ⟨u, hu, h⟩ := Option.bind_eq_some_iff.mp h
    obtain ⟨p, hp, h⟩ := Option.map_eq_some_iff.mp h
    obtain ⟨-, rfl⟩ := Prod.mk.inj h
    obtain ⟨ha, hb, hc, he⟩ := isSome_of_hex4 hu
    exact .cons hback (.cons rfl (.cons (step_lit_hex ha d) (.cons (step_lit_hex hb d)
      (.cons (step_lit_hex hc d) (.cons (step_lit_hex he d) (ih hp))))))
  | case6 e r' _ _ ih =>
    obtain ⟨u, hu, h⟩ := Option.bind_eq_some_iff.mp h
    obtain ⟨p, hp, h⟩ := Option.map_eq_some_iff.mp h
    obtain ⟨-, rfl⟩ := Prod.mk.inj h
    have hesc : (esc d).step e = some (lit d) := by
      rw [step_esc, if_pos (.inr (by rw [hu]; rfl))]
    exact .cons hback (.cons hesc (ih hp))
  | case8 c r' hq hb _ ih =>
    obtain ⟨p, hp, h⟩ := Option.map_eq_some_iff.mp h
    obtain ⟨-, rfl⟩ := Prod.mk.inj h
    have hstep : (lit d).step c = some (lit d) := by
      rw [step_lit, if_neg hq, if_neg hb]
    exact .cons hstep (ih hp)
  | case1 | case3 | case5 | case7 => simp at h

theorem passes_scanString (d : Nat) {s t r : Str} (h : scanString s = some (t, r)) :
    Passes (out d) (quote :: s) r (out d) := by
  obtain ⟨p, hp, h⟩ := Option.map_eq_some_iff.mp h
  obtain ⟨-, rfl⟩ := Prod.mk.inj h
  exact .cons rfl (passes_scanUnits d hp)

/-! ### Values -/

variable (P : Platform)

private theorem passes_parseName (d : Nat) {t r r' : Str} {v w : P.Obj} (ht : ∀ c ∈ t, Neutral c)
    (h : parseName P t v r = some (w, r')) : Passes (out d) r r' (out d) := by
  unfold parseName at h
  split_ifs at h with hpre
  obtain ⟨-, rfl⟩ := Prod.mk.inj (Option.some.inj h)
  obtain ⟨u, rfl⟩ := List.isPrefixOf_iff_prefix.mp hpre
  rw [List.drop_left]
  exact passes_neutral ht d u

private theorem passes_parseScalar (d : Nat) {c : Nat} {r r' : Str} {v : P.Obj}
    (h : parseScalar P c r = some (v, r')) : Passes (out d) (c :: r) r' (out d) := by
  unfold parseScalar at h
  split_ifs at h with h1 h2 h3 h4 h5 h6
  · exact .cons (step_neutral (by rw [h1]; decide) d) (passes_parseName P d (by decide) h)
  · exact .cons (step_neutral (by rw [h2]; decide) d) (passes_parseName P d (by decide) h)
  · exact .cons (step_neutral (by rw [h3]; decide) d) (passes_parseName P d (by decide) h)
  · exact .cons (step_neutral (by rw [h4]; decide) d) (passes_parseName P d (by decide) h)
  · exact .cons (step_neutral (by rw [h5]; decide) d) (passes_parseName P d (by decide) h)
  · exact .cons (step_neutral (by rw [h6.1]; decide) d) (passes_parseName P d (by decide) h)
  · obtain ⟨p, hp, h⟩ := Option.map_eq_some_iff.mp h
    obtain ⟨-, rfl⟩ := Prod.mk.inj h
    exact passes_scanNumber d hp

private theorem Passes.bracket {s r : Str} {o c : Nat} (ho : o = 123 ∨ o = 91)
    (hc : c = 125 ∨ c = 93) (h : Passes (out 0) s (c :: r) (out 0)) :
    Passes (out 0) (o :: s) r (out 0) := by
  have hopen : (out 0).step o = some (out 1) := by rcases ho with rfl | rfl <;> rfl
  have hclose : (out 1).step c = some (out 0) := by rcases hc with rfl | rfl <;> rfl
  exact .cons hopen ((h.shift 1).trans (.cons hclose (.refl _ _)))

theorem passes_parse (n : Nat) :
    (∀ s r v, parseValue P n s = some (v, r) → Passes (out 0) s r (out 0)) ∧
      (∀ s r xs, parseItems P n s = some (xs, r) → Passes (out 0) s (93 :: r) (out 0)) ∧
      ∀ s r ms, parseMembers P n s = some (ms, r) → Passes (out 0) s (125 :: r) (out 0) := by
  induction n with
  | zero => exact ⟨by simp [parseValue], by simp [parseItems], by simp [parseMembers]⟩
  | succ n ih =>
    obtain ⟨ihv, ihi, ihm⟩ := ih
    have hcomma : (out 0).step 44 = some (out 0) := rfl
    have hcolon : (out 0).step 58 = some (out 0) := rfl
    refine ⟨?_, ?_, ?_⟩
    · intro s r v h
      cases s with
      | nil => simp [parseValue] at h
      | cons c s =>
        rw [parseValue_cons] at h
        have hws := passes_skipWs 0 s
        split_ifs at h with h1 h2 h3 h4 h5
        · obtain ⟨p, hp, h⟩ := Option.map_eq_some_iff.mp h
          obtain ⟨-, rfl⟩ := Prod.mk.inj h
          rw [h1]
          exact passes_scanString 0 hp
        · obtain ⟨-, rfl⟩ := Prod.mk.inj (Option.some.inj h)
          obtain ⟨u, hu⟩ : ∃ u, skipWs s = 125 :: u := List.head?_eq_some_iff.mp h3
          rw [hu] at hws ⊢
          exact hws.bracket (.inl h2) (.inl rfl)
        · obtain ⟨p, hp, h⟩ := Option.map_eq_some_iff.mp h
          obtain ⟨-, rfl⟩ := Prod.mk.inj h
          exact (hws.trans (ihm _ _ _ hp)).bracket (.inl h2) (.inl rfl)
        · obtain ⟨-, rfl⟩ := Prod.mk.inj (Option.some.inj h)
          obtain ⟨u, hu⟩ : ∃ u, skipWs s = 93 :: u := List.head?_eq_some_iff.mp h5
          rw [hu] at hws ⊢
          exact hws.bracket (.inr h4) (.inr rfl)
        · obtain ⟨p, hp, h⟩ := Option.map_eq_some_iff.mp h
          obtain ⟨-, rfl⟩ := Prod.mk.inj h
          exact (hws.trans (ihi _ _ _ hp)).bracket (.inr h4) (.inr rfl)
        · exact passes_parseScalar P 0 h
    · intro s r xs h
      obtain ⟨m, v, r₁, c, r₂, hm, hv, hr, h⟩ := (parseItems_eq_some P).mp h
      obtain rfl := Nat.succ.inj hm
      have hitem := (ihv _ _ _ hv).trans (hr ▸ passes_skipWs 0 r₁)
      rcases h with ⟨rfl, ys, hys, -⟩ | ⟨rfl, -, rfl⟩
      · exact hitem.trans (.cons hcomma ((passes_skipWs 0 r₂).trans (ihi _ _ _ hys)))
      · exact hitem
    · intro s r ms h
      obtain ⟨m, t, k, r₁, r₂, v, r₃, e, r₄, hm, rfl, hk, hr₁, hv, hr₃, h⟩ :=
        (parseMembers_eq_some P).mp h
      obtain rfl := Nat.succ.inj hm
      have hkey := (passes_scanString 0 hk).trans (hr₁ ▸ passes_skipWs 0 r₁)
      have hvalue := (passes_skipWs 0 r₂).trans ((ihv _ _ _ hv).trans (hr₃ ▸ passes_skipWs 0 r₃))
      have hmember := hkey.trans (.cons hcolon hvalue)
      rcases h with ⟨rfl, ns, hns, -⟩ | ⟨rfl, -, rfl⟩
      · exact hmember.trans (.cons hcomma ((passes_skipWs 0 r₄).trans (ihm _ _ _ hns)))
      · exact hmember

/-! ### Objects -/

private theorem parseScalar_ne_dict {c : Nat} {r r' : Str} {e : Members P.Float} :
    parseScalar P c r ≠ some (.dict e, r') := by
  intro h
  have hname : ∀ {t : Str} {w : P.Obj}, (∀ e, w ≠ .dict e) →
      parseName P t w r ≠ some (.dict e, r') := by
    intro t w hw h
    unfold parseName at h
    split_ifs at h
    exact hw e (Prod.mk.inj (Option.some.inj h)).1
  unfold parseScalar at h
  split_ifs at h
  any_goals exact hname (by simp) h
  obtain ⟨p, -, h⟩ := Option.map_eq_some_iff.mp h
  have := isNumber_numberOf P p.1
  rw [(Prod.mk.inj h).1] at this
  exact absurd this Bool.false_ne_true

theorem exists_object {s : Str} {e : Members P.Float} (h : loads P s = some (.dict e)) :
    ∃ w t w', s = w ++ 123 :: (t ++ 125 :: w') ∧ (∀ c ∈ w, isJsonSpace c = true) ∧
      (∀ c ∈ w', isJsonSpace c = true) ∧ (out 0).run t = some (out 0) := by
  obtain ⟨n, r, hp, hr⟩ := (loads_eq_some P).mp h
  obtain ⟨w, hw, hall⟩ := exists_skipWs s
  have hr' : ∀ c ∈ r, isJsonSpace c = true := by
    simpa [skipWs, List.dropWhile_eq_nil_iff] using hr
  cases n with
  | zero => simp [parseValue] at hp
  | succ n =>
    cases hs : skipWs s with
    | nil =>
      rw [hs] at hp
      simp [parseValue] at hp
    | cons c u =>
      rw [hs, parseValue_cons] at hp
      have hws := passes_skipWs 0 u
      split_ifs at hp with h1 h2 h3 h4 h5
      · obtain ⟨p, -, hp⟩ := Option.map_eq_some_iff.mp hp
        simp at hp
      · obtain ⟨-, rfl⟩ := Prod.mk.inj (Option.some.inj hp)
        obtain ⟨x, hx⟩ : ∃ x, skipWs u = 125 :: x := List.head?_eq_some_iff.mp h3
        rw [hx] at hws hr'
        obtain ⟨t, ht, hrun⟩ := hws
        exact ⟨w, t, x, by rw [hw, hs, h2, ht], hall, hr', hrun⟩
      · obtain ⟨p, hp', hp⟩ := Option.map_eq_some_iff.mp hp
        obtain ⟨-, rfl⟩ := Prod.mk.inj hp
        obtain ⟨t, ht, hrun⟩ := hws.trans ((passes_parse P n).2.2 _ _ _ hp')
        exact ⟨w, t, p.2, by rw [hw, hs, h2, ht], hall, hr', hrun⟩
      · simp at hp
      · obtain ⟨p, -, hp⟩ := Option.map_eq_some_iff.mp hp
        simp at hp
      · exact absurd hp (parseScalar_ne_dict P)

theorem run_object {s : Str} {e : Members P.Float} (h : loads P s = some (.dict e)) :
    (out 0).run s = some (out 0) := by
  obtain ⟨w, t, w', rfl, hw, hw', ht⟩ := exists_object P h
  have hspace : ∀ {x : Str}, (∀ c ∈ x, isJsonSpace c = true) → (out 0).run x = some (out 0) :=
    fun hx => run_neutral (fun c hc => neutral_of_isJsonSpace (hx c hc)) 0
  have hopen : (out 0).step 123 = some (out 1) := rfl
  have hclose : (out 1).step 125 = some (out 0) := rfl
  have ht' : (out 1).run t = some (out 1) := run_shift ht 1
  rw [run_append, hspace hw, Option.bind_some, run_cons, hopen, Option.bind_some, run_append, ht',
    Option.bind_some, run_cons, hclose, Option.bind_some, hspace hw']

theorem blank_of_loads_append {x q : Str} {e e' : Members P.Float}
    (h : loads P (x ++ q) = some (.dict e)) (hq : loads P q = some (.dict e')) :
    ∀ c ∈ x, isJsonSpace c = true := by
  obtain ⟨w, t, w', hs, hw, hw', ht⟩ := exists_object P h
  obtain ⟨v, y, v', hv, hvspace, -, -⟩ := exists_object P hq
  have hmem : 123 ∈ q := by simp [hv]
  have hrunq := run_object P hq
  have hnospace : isJsonSpace 123 = false := by decide
  -- either `x` ends before the opening bracket, or that bracket is in `x`
  rcases List.append_eq_append_iff.mp hs with ⟨a, rfl, -⟩ | ⟨a, rfl, ha⟩
  · exact fun c hc => hw c (List.mem_append_left _ hc)
  · cases a with
    | nil => simpa using hw
    | cons b x₁ =>
      rw [List.cons_append] at ha
      obtain ⟨rfl, htq⟩ := List.cons.inj ha
      -- and then it cannot reach to the closing one
      obtain ⟨y₁, rfl, rfl⟩ : ∃ y₁, t = x₁ ++ y₁ ∧ q = y₁ ++ 125 :: w' := by
        rcases List.append_eq_append_iff.mp htq with ⟨b, rfl, hb⟩ | ⟨b, hb, hq'⟩
        · cases b with
          | nil => exact ⟨[], by simp, by simpa using hb.symm⟩
          | cons z b =>
            obtain ⟨-, rfl⟩ := List.cons.inj hb
            have := hw' 123 (List.mem_append_right _ hmem)
            rw [hnospace] at this
            exact absurd this Bool.false_ne_true
        · exact ⟨b, hb, hq'⟩
      rw [run_append, Option.bind_eq_some_iff] at ht
      obtain ⟨m, -, hm⟩ := ht
      have hclose : (out 1).step 125 = some (out 0) := rfl
      have hrun : (m.shift 1).run (y₁ ++ 125 :: w') = some (out 0) := by
        have hy : (m.shift 1).run y₁ = some (out 1) := run_shift hm 1
        rw [run_append, hy, Option.bind_some, run_cons, hclose, Option.bind_some,
          run_neutral (fun c hc => neutral_of_isJsonSpace (hw' c hc))]
      exfalso
      cases m with
      | out d =>
        have := run_shift hrunq (d + 1)
        rw [show (out 0).shift (d + 1) = (out d).shift 1 by simp [Mode.shift]] at this
        rw [this] at hrun
        simp [Mode.shift] at hrun
      | lit d => exact (opposite_run (m := (lit d).shift 1) (n := out 0) trivial hrun hrunq).elim
      | esc d =>
        -- no document begins with a character that a backslash could stand before
        rw [hv] at hrun
        cases v with
        | nil =>
          rw [List.nil_append, run_cons] at hrun
          exact absurd hrun (by simp [Mode.shift, Mode.step, unescape, quote, backslash])
        | cons z v =>
          have hz := hvspace z (by simp)
          rw [List.cons_append, run_cons] at hrun
          simp only [isJsonSpace, Bool.or_eq_true, beq_iff_eq] at hz
          rcases hz with ((rfl | rfl) | rfl) | rfl <;>
            exact absurd hrun (by simp [Mode.shift, Mode.step, unescape, quote, backslash])

end Mode

end Py
