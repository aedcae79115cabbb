import Adaad.Py.Reference

/-!
# Letters, digits and fields

The parts of `str` that need the tables of Unicode beyond what a platform has of them: `str.upper`,
`str.lower` on ASCII, and the decimal digits that `int` takes.  `int(text)` and `text.split(sep,
n)`.

A number that is written is read back (`intOf_intText`), and a text that is put together from fields
without the separator is split into them again (`splitMax_field`).
-/

namespace Py

/-- The tables of Unicode. -/
structure Letters (P : Platform) where
  /-- `str.upper` -/
  upper : Str → Str
  /-- The value of a decimal digit that is not one of ASCII. -/
  decimal : Nat → Option Nat
  lower_ascii : ∀ s, (∀ c ∈ s, c < 128) → P.lower s = asciiLower s
  /-- What follows letters of ASCII does not matter to them. -/
  lower_append : ∀ s t, (∀ c ∈ s, c < 128) → ∃ u, P.lower (s ++ t) = asciiLower s ++ u

def referenceLetters : Letters reference where
  upper s := s.map fun c => if 97 ≤ c ∧ c ≤ 122 then c - 32 else c
  decimal _ := none
  lower_ascii _ _ := rfl
  lower_append _ t _ := ⟨asciiLower t, List.map_append⟩

variable {P : Platform}

theorem rdropWhile_of_not_space {s : Str} (h : ∀ c ∈ s, isSpace c = false) :
    s.rdropWhile isSpace = s := by
  rw [List.rdropWhile_eq_self_iff]
  intro hne
  rw [h _ (List.getLast_mem hne)]
  exact Bool.false_ne_true

theorem rdropWhile_append_of_ne_nil {p : Nat → Bool} {s t : Str} (ht : t.rdropWhile p = t)
    (hne : t ≠ []) : (s ++ t).rdropWhile p = s ++ t := by
  rw [List.rdropWhile_eq_self_iff] at ht ⊢
  intro happend
  rw [List.getLast_append_of_ne_nil happend hne]
  exact ht hne

theorem rdropWhile_right {p : Nat → Bool} {s t : Str} (h : (s ++ t).rdropWhile p = s ++ t) :
    t.rdropWhile p = t := by
  rw [List.rdropWhile_eq_self_iff] at h ⊢
  intro hne
  have := h (List.append_ne_nil_of_right_ne_nil s hne)
  rwa [List.getLast_append_of_ne_nil _ hne] at this

theorem Letters.lower_hex (u : Letters P) {s : Str} (h : ∀ c ∈ s, isHexDigit c = true) :
    P.lower s = s := by
  rw [u.lower_ascii s (ascii_of_isHexDigit h), asciiLower]
  conv_rhs => rw [← List.map_id s]
  refine List.map_congr_left fun c hc => if_neg ?_
  have := h c hc
  simp only [isHexDigit, isDigit, Bool.or_eq_true, Bool.and_eq_true, decide_eq_true_eq] at this
  omega

/-! ### `int(text)` -/

/-- The whitespace around the text of an `int`. -/
def isIntSpace (c : Nat) : Bool :=
  isAsciiSpace c || (127 ≤ c && isSpace c)

def Letters.digit (u : Letters P) (c : Nat) : Option Nat :=
  if c < 127 then if isDigit c then some (c - 48) else none else u.decimal c

def Letters.digits (u : Letters P) : Nat → Str → Option Nat
  | n, [] => some n
  | n, c :: cs => (u.digit c).bind fun d => u.digits (10 * n + d) cs

def Letters.digitGroups (u : Letters P) : Nat → List Str → Option Nat
  | n, [] => some n
  | n, g :: gs => if g = [] then none else (u.digits n g).bind fun m => u.digitGroups m gs

def Letters.unsigned (u : Letters P) (s : Str) : Option Nat :=
  let r := cutAll (· == 95) s
  u.digitGroups 0 (r.1 ++ [r.2])

/-- `int(text)`; `none` is a `ValueError`. -/
def intOf (u : Letters P) (text : Str) : Option Int :=
  match stripBy isIntSpace text with
  | 45 :: s => (u.unsigned s).map fun n => -Int.ofNat n
  | 43 :: s => (u.unsigned s).map Int.ofNat
  | s => (u.unsigned s).map Int.ofNat

theorem digits_of_isDigit (u : Letters P) {n : Nat} {s : Str} (h : ∀ c ∈ s, isDigit c = true) :
    u.digits n s = some (s.foldl (fun a c => 10 * a + (c - 48)) n) := by
  induction s generalizing n with
  | nil => rfl
  | cons c s ih =>
    obtain ⟨hc, hs⟩ := List.forall_mem_cons.mp h
    have hlt : c < 127 := by
      simp only [isDigit, Bool.and_eq_true, decide_eq_true_eq] at hc
      omega
    rw [Letters.digits, Letters.digit, if_pos hlt, if_pos hc, Option.bind_some, ih hs]
    rfl

theorem intOf_natText (u : Letters P) (n : Nat) : intOf u (natText n) = some (n : Int) := by
  have hdigit : ∀ c ∈ natText n, 48 ≤ c ∧ c ≤ 57 := fun c hc => by
    have := isDigit_of_mem_natText hc
    simpa only [isDigit, Bool.and_eq_true, decide_eq_true_eq] using this
  have hspace : ∀ c ∈ natText n, isIntSpace c = false := fun c hc => by
    have := hdigit c hc
    simp only [isIntSpace, isAsciiSpace, Bool.or_eq_false_iff, Bool.and_eq_false_iff,
      decide_eq_false_iff_not, beq_eq_false_iff_ne]
    omega
  have hstrip : stripBy isIntSpace (natText n) = natText n :=
    stripBy_eq_self (fun c hc => hspace c (List.mem_of_mem_head? hc))
      fun c hc => hspace c (List.mem_of_mem_getLast? hc)
  have hcut : cutAll (· == 95) (natText n) = ([], natText n) := by
    refine cutAll_of_not_brk fun c hc => ?_
    have := hdigit c hc
    rw [beq_eq_false_iff_ne]
    omega
  have hvalue : u.unsigned (natText n) = some n := by
    unfold Letters.unsigned
    rw [hcut]
    show u.digitGroups 0 [natText n] = some n
    rw [Letters.digitGroups, if_neg (natText_ne_nil n),
      digits_of_isDigit u fun c hc => isDigit_of_mem_natText hc]
    exact congrArg some (natValue_natText n)
  unfold intOf
  rw [hstrip]
  split
  next s heq =>
    have := hdigit 45 (by rw [heq]; exact List.mem_cons_self)
    omega
  next s heq =>
    have := hdigit 43 (by rw [heq]; exact List.mem_cons_self)
    omega
  next s _ _ =>
    rw [hvalue]
    rfl

theorem intText_of_nonneg {i : Int} (h : 0 ≤ i) : intText i = natText i.toNat := by
  have hneg : decide (i < 0) = false := decide_eq_false (by omega)
  have habs : i.natAbs = i.toNat := by omega
  simp [intText, NumLit.ofInt, NumLit.text, NumLit.signText, NumLit.fracText, NumLit.expText, hneg,
    habs]

theorem intOf_intText (u : Letters P) {i : Int} (h : 0 ≤ i) : intOf u (intText i) = some i := by
  rw [intText_of_nonneg h, intOf_natText]
  exact congrArg some (Int.toNat_of_nonneg h)

/-! ### `text.split(sep, n)` -/

/-- `text.split(sep, n)` -/
def splitMax (sep : Nat) : Nat → Str → List Str
  | 0, s => [s]
  | n + 1, s =>
    if sep ∈ s then s.takeWhile (· ≠ sep) :: splitMax sep n ((s.dropWhile (· ≠ sep)).drop 1) else [s]

theorem splitMax_field {sep : Nat} {p : Str} (hp : sep ∉ p) (n : Nat) (s : Str) :
    splitMax sep (n + 1) (p ++ sep :: s) = p :: splitMax sep n s := by
  have hkeep : ∀ c ∈ p, decide (c ≠ sep) = true := fun c hc =>
    decide_eq_true fun heq => hp (heq ▸ hc)
  have htake : (p ++ sep :: s).takeWhile (· ≠ sep) = p := by
    rw [List.takeWhile_append_of_pos hkeep, List.takeWhile_cons_of_neg (by simp), List.append_nil]
  have hdrop : (p ++ sep :: s).dropWhile (· ≠ sep) = sep :: s := by
    rw [List.dropWhile_append_of_pos hkeep, List.dropWhile_cons_of_neg (by simp)]
  rw [splitMax, if_pos (List.mem_append_right _ List.mem_cons_self), htake, hdrop]
  rfl

theorem splitMax_cons {sep n : Nat} {s p : Str} {ps : List Str} (hps : ps ≠ [])
    (h : splitMax sep n s = p :: ps) :
    ∃ m t, n = m + 1 ∧ s = p ++ sep :: t ∧ splitMax sep m t = ps ∧ sep ∉ p := by
  cases n with
  | zero =>
    obtain ⟨-, hnil⟩ := List.cons.inj h
    exact absurd hnil.symm hps
  | succ m =>
    rw [splitMax] at h
    by_cases hmem : sep ∈ s
    · rw [if_pos hmem] at h
      obtain ⟨hp, hrest⟩ := List.cons.inj h
      have hne : s.dropWhile (· ≠ sep) ≠ [] := by
        rw [Ne, List.dropWhile_eq_nil_iff]
        intro hall
        exact absurd (hall sep hmem) (by simp)
      have hhead : (s.dropWhile (· ≠ sep)).head hne = sep := by
        have := List.head_dropWhile_not (p := (· ≠ sep)) hne
        simpa using this
      obtain ⟨c, t, ht⟩ := List.exists_cons_of_ne_nil hne
      have hc : c = sep := by
        rw [← hhead]
        simp only [ht, List.head_cons]
      refine ⟨m, t, rfl, ?_, ?_, ?_⟩
      · rw [hc] at ht
        rw [← hp, ← ht, List.takeWhile_append_dropWhile]
      · rw [← hrest, ht]
        rfl
      · rw [← hp]
        intro hin
        have := List.mem_takeWhile_imp hin
        simp at this
    · rw [if_neg hmem] at h
      obtain ⟨-, hnil⟩ := List.cons.inj h
      exact absurd hnil.symm hps

end Py
