import Adaad.Py.Text
import Mathlib.Data.Nat.Digits.Lemmas

/-!
# Number literals

The number grammar of JSON, as Python's `json` scanner reads it: an optional minus sign, digits
without a leading zero, an optional fraction and an optional exponent.  A literal without fraction
and exponent is an `int`, any other is a `float`.

`scanNumber_text` reads a written literal back, and `scanNumber_append` says that the scanner does
not look past a character that cannot continue a number.
-/

namespace Py

def isDigit (c : Nat) : Bool :=
  48 ≤ c && c ≤ 57

/-- A number literal, by its parts.  An absent fraction is empty, an exponent has a sign. -/
structure NumLit where
  neg : Bool
  int : Str
  frac : Str
  exp : Option (Bool × Str)
  deriving DecidableEq, Repr

namespace NumLit

/-- The parts are digits, the integer part and an exponent are not empty, and a leading zero
stands alone. -/
structure WF (l : NumLit) : Prop where
  int_ne : l.int ≠ []
  int_digit : ∀ c ∈ l.int, isDigit c = true
  int_zero : l.int.head? = some 48 → l.int = [48]
  frac_digit : ∀ c ∈ l.frac, isDigit c = true
  exp_ne : ∀ e ∈ l.exp, e.2 ≠ []
  exp_digit : ∀ e ∈ l.exp, ∀ c ∈ e.2, isDigit c = true

/-- Python reads a literal with a fraction or an exponent as a `float`. -/
def isFloat (l : NumLit) : Bool :=
  l.frac ≠ [] || l.exp.isSome

def signText (neg : Bool) : Str :=
  if neg then [45] else []

def fracText (frac : Str) : Str :=
  if frac = [] then [] else 46 :: frac

def expText : Option (Bool × Str) → Str
  | none => []
  | some (neg, ds) => 101 :: (if neg then 45 else 43) :: ds

def text (l : NumLit) : Str :=
  signText l.neg ++ (l.int ++ (fracText l.frac ++ expText l.exp))

end NumLit

/-! ### Integers -/

def natText (n : Nat) : Str :=
  if n = 0 then [48] else (Nat.digits 10 n).reverse.map (48 + ·)

def natValue (ds : Str) : Nat :=
  ds.foldl (fun a c => 10 * a + (c - 48)) 0

/-- The literal of an `int`. -/
def NumLit.ofInt (i : Int) : NumLit :=
  ⟨decide (i < 0), natText i.natAbs, [], none⟩

/-- `int.__repr__` -/
def intText (i : Int) : Str :=
  (NumLit.ofInt i).text

/-- The `int` of a literal without fraction and exponent. -/
def NumLit.intValue (l : NumLit) : Int :=
  if l.neg then -(natValue l.int : Int) else natValue l.int

theorem natText_ne_nil (n : Nat) : natText n ≠ [] := by
  unfold natText
  split_ifs with h
  · simp
  · simp [Nat.digits_ne_nil_iff_ne_zero.mpr h]

theorem isDigit_of_mem_natText {n c : Nat} (hc : c ∈ natText n) : isDigit c = true := by
  unfold natText at hc
  split_ifs at hc with h
  · obtain rfl := List.mem_singleton.mp hc
    rfl
  · obtain ⟨d, hd, rfl⟩ := List.mem_map.mp hc
    have := Nat.digits_lt_base (by norm_num : 1 < 10) (List.mem_reverse.mp hd)
    simp only [isDigit, Bool.and_eq_true, decide_eq_true_eq]
    omega

theorem natText_head {n : Nat} (h : (natText n).head? = some 48) : natText n = [48] := by
  unfold natText at h ⊢
  split_ifs at h ⊢ with hn
  · rfl
  · have hne := Nat.digits_ne_nil_iff_ne_zero (b := 10).mpr hn
    have hlast := Nat.getLast_digit_ne_zero 10 hn
    rw [List.head?_map, List.head?_reverse, List.getLast?_eq_some_getLast hne,
      Option.map_some, Option.some.injEq] at h
    omega

private theorem natValue_append (ds : Str) (c : Nat) :
    natValue (ds ++ [c]) = 10 * natValue ds + (c - 48) := by
  unfold natValue
  rw [List.foldl_append]
  rfl

theorem natValue_natText (n : Nat) : natValue (natText n) = n := by
  unfold natText
  split_ifs with h
  · rw [h]
    rfl
  · have key : ∀ ds : List Nat, natValue (ds.reverse.map (48 + ·)) = Nat.ofDigits 10 ds := by
      intro ds
      induction ds with
      | nil => rfl
      | cons d ds ih =>
        rw [List.reverse_cons, List.map_append, List.map_singleton, natValue_append, ih,
          Nat.ofDigits_cons]
        omega
    rw [key, Nat.ofDigits_digits]

theorem NumLit.ofInt_wf (i : Int) : (NumLit.ofInt i).WF where
  int_ne := natText_ne_nil _
  int_digit _ hc := isDigit_of_mem_natText hc
  int_zero h := natText_head h
  frac_digit := by simp [ofInt]
  exp_ne := by simp [ofInt]
  exp_digit := by simp [ofInt]

theorem NumLit.intValue_ofInt (i : Int) : (NumLit.ofInt i).intValue = i := by
  simp only [intValue, ofInt, natValue_natText, decide_eq_true_eq]
  split_ifs <;> omega

theorem NumLit.isFloat_ofInt (i : Int) : (NumLit.ofInt i).isFloat = false := rfl

/-! ### The scanner -/

/-- The integer part: a single zero, or digits that begin with another one. -/
def scanInt : Str → Option (Str × Str)
  | [] => none
  | c :: r =>
    if c = 48 then some ([48], r)
    else if isDigit c then some ((c :: r).takeWhile isDigit, (c :: r).dropWhile isDigit)
    else none

/-- A fraction is a point and at least one digit; otherwise nothing is read. -/
def scanFrac (s : Str) : Str × Str :=
  match s with
  | 46 :: r =>
    if r.takeWhile isDigit = [] then ([], s) else (r.takeWhile isDigit, r.dropWhile isDigit)
  | _ => ([], s)

def scanSign : Str → Bool × Str
  | 45 :: r => (true, r)
  | 43 :: r => (false, r)
  | r => (false, r)

/-- An exponent is `e` or `E`, an optional sign and at least one digit; otherwise nothing is
read. -/
def scanExp (s : Str) : Option (Bool × Str) × Str :=
  match s with
  | [] => (none, s)
  | c :: r =>
    if c = 101 ∨ c = 69 then
      if (scanSign r).2.takeWhile isDigit = [] then (none, s)
      else
        (some ((scanSign r).1, (scanSign r).2.takeWhile isDigit),
          (scanSign r).2.dropWhile isDigit)
    else (none, s)

def scanMinus : Str → Bool × Str
  | 45 :: r => (true, r)
  | r => (false, r)

/-- The longest number literal at the front of a text. -/
def scanNumber (s : Str) : Option (NumLit × Str) :=
  (scanInt (scanMinus s).2).map fun p =>
    let frac := scanFrac p.2
    let exp := scanExp frac.2
    (⟨(scanMinus s).1, p.1, frac.1, exp.1⟩, exp.2)

/-- Nothing that a number could go on with: no digit, point or exponent. -/
def NumEnd (r : Str) : Prop :=
  ∀ c ∈ r.head?, isDigit c = false ∧ c ≠ 46 ∧ c ≠ 101 ∧ c ≠ 69

theorem numEnd_nil : NumEnd [] := by simp [NumEnd]

theorem numEnd_cons {c : Nat} {r : Str} :
    NumEnd (c :: r) ↔ isDigit c = false ∧ c ≠ 46 ∧ c ≠ 101 ∧ c ≠ 69 := by
  simp [NumEnd]

/-! ### Reading a literal back -/

private theorem takeWhile_digits {ds r : Str} (hds : ∀ c ∈ ds, isDigit c = true)
    (hr : ∀ c ∈ r.head?, isDigit c = false) :
    (ds ++ r).takeWhile isDigit = ds ∧ (ds ++ r).dropWhile isDigit = r := by
  have hr' : r.takeWhile isDigit = [] ∧ r.dropWhile isDigit = r := by
    cases r with
    | nil => simp
    | cons c r =>
      have := hr c rfl
      simp [this]
  rw [List.takeWhile_append_of_pos hds, List.dropWhile_append_of_pos hds, hr'.1, hr'.2]
  simp

theorem scanInt_append {ds r : Str} (hne : ds ≠ []) (hds : ∀ c ∈ ds, isDigit c = true)
    (hzero : ds.head? = some 48 → ds = [48]) (hr : ∀ c ∈ r.head?, isDigit c = false) :
    scanInt (ds ++ r) = some (ds, r) := by
  cases ds with
  | nil => exact absurd rfl hne
  | cons d ds =>
    rw [List.cons_append, scanInt]
    split_ifs with h48 hd
    · have := hzero (by rw [h48]; rfl)
      obtain ⟨rfl, rfl⟩ := List.cons.inj this
      rfl
    · have := takeWhile_digits hds hr
      rw [List.cons_append] at this
      rw [this.1, this.2]
    · exact absurd (hds d (by simp)) hd

theorem scanFrac_append {ds r : Str} (hds : ∀ c ∈ ds, isDigit c = true)
    (hr : ∀ c ∈ r.head?, isDigit c = false ∧ c ≠ 46) :
    scanFrac (NumLit.fracText ds ++ r) = (ds, r) := by
  unfold NumLit.fracText
  split_ifs with hne
  · subst hne
    unfold scanFrac
    split
    · exact absurd rfl (hr 46 (by simp_all)).2
    · rfl
  · have := takeWhile_digits hds fun c hc => (hr c hc).1
    rw [List.cons_append, scanFrac, this.1, if_neg hne, this.2]

theorem scanExp_append {e : Option (Bool × Str)} {r : Str} (hne : ∀ x ∈ e, x.2 ≠ [])
    (hds : ∀ x ∈ e, ∀ c ∈ x.2, isDigit c = true) (hr : NumEnd r) :
    scanExp (NumLit.expText e ++ r) = (e, r) := by
  cases e with
  | none =>
    cases r with
    | nil => rfl
    | cons c r =>
      have := numEnd_cons.mp hr
      simp [NumLit.expText, scanExp, this]
  | some e =>
    obtain ⟨neg, ds⟩ := e
    have := takeWhile_digits (hds _ rfl) fun c hc => (hr c hc).1
    have hsign : scanSign ((if neg then 45 else 43) :: (ds ++ r)) = (neg, ds ++ r) := by
      cases neg <;> rfl
    simp only [NumLit.expText, List.cons_append, scanExp, hsign, this.1, this.2, true_or,
      ↓reduceIte, if_neg (hne _ rfl)]

private theorem frac_exp_head {l : NumLit} {r : Str} (hr : NumEnd r) :
    ∀ c ∈ (NumLit.fracText l.frac ++ (NumLit.expText l.exp ++ r)).head?, isDigit c = false := by
  intro c hc
  unfold NumLit.fracText at hc
  split_ifs at hc with hf
  · cases he : l.exp with
    | none =>
      rw [he] at hc
      exact (hr c hc).1
    | some e =>
      rw [he] at hc
      obtain rfl : 101 = c := by simpa [NumLit.expText] using hc
      rfl
  · obtain rfl : 46 = c := by simpa using hc
    rfl

theorem scanNumber_text {l : NumLit} (hl : l.WF) {r : Str} (hr : NumEnd r) :
    scanNumber (l.text ++ r) = some (l, r) := by
  have hminus : scanMinus (l.text ++ r) =
      (l.neg, l.int ++ (NumLit.fracText l.frac ++ (NumLit.expText l.exp ++ r))) := by
    obtain ⟨d, ds, hint⟩ := List.exists_cons_of_ne_nil hl.int_ne
    have hd := hl.int_digit d (by simp [hint])
    unfold NumLit.text NumLit.signText
    cases l.neg
    · simp only [Bool.false_eq_true, ↓reduceIte, List.nil_append, List.append_assoc, hint,
        List.cons_append]
      unfold scanMinus
      split
      · simp_all [isDigit]
      · rfl
    · simp [scanMinus]
  have hexp : ∀ c ∈ (NumLit.expText l.exp ++ r).head?, isDigit c = false ∧ c ≠ 46 := by
    intro c hc
    cases he : l.exp with
    | none =>
      rw [he] at hc
      exact ⟨(hr c hc).1, (hr c hc).2.1⟩
    | some e =>
      rw [he] at hc
      obtain rfl : 101 = c := by simpa [NumLit.expText] using hc
      decide
  unfold scanNumber
  rw [hminus, scanInt_append hl.int_ne hl.int_digit hl.int_zero (frac_exp_head hr),
    Option.map_some]
  simp only [scanFrac_append hl.frac_digit hexp, scanExp_append hl.exp_ne hl.exp_digit hr]

/-! ### What follows a number -/

private theorem while_append {p : Nat → Bool} {s : Str} (h : s.dropWhile p ≠ []) (t : Str) :
    (s ++ t).takeWhile p = s.takeWhile p ∧ (s ++ t).dropWhile p = s.dropWhile p ++ t := by
  induction s with
  | nil => exact absurd rfl h
  | cons c s ih =>
    by_cases hc : p c = true
    · rw [List.dropWhile_cons_of_pos hc] at h ⊢
      rw [List.cons_append, List.takeWhile_cons_of_pos hc, List.takeWhile_cons_of_pos hc,
        List.dropWhile_cons_of_pos hc, (ih h).1, (ih h).2]
      exact ⟨rfl, rfl⟩
    · rw [List.cons_append, List.takeWhile_cons_of_neg hc, List.takeWhile_cons_of_neg hc,
        List.dropWhile_cons_of_neg hc, List.dropWhile_cons_of_neg hc]
      exact ⟨rfl, rfl⟩

private theorem scanInt_append_right {s ds r : Str} (h : scanInt s = some (ds, r)) (hne : r ≠ [])
    (t : Str) : scanInt (s ++ t) = some (ds, r ++ t) := by
  cases s with
  | nil => simp [scanInt] at h
  | cons c s =>
    rw [scanInt] at h
    rw [List.cons_append, scanInt]
    split_ifs at h ⊢ with h48 hd
    · obtain ⟨rfl, rfl⟩ := Prod.mk.inj (Option.some.inj h)
      rfl
    · obtain ⟨rfl, rfl⟩ := Prod.mk.inj (Option.some.inj h)
      have := while_append hne t
      rw [List.cons_append] at this
      rw [this.1, this.2]

private theorem scanFrac_append_right {s ds r : Str} (h : scanFrac s = (ds, r)) (hne : r ≠ [])
    (hpoint : r.head? ≠ some 46) (t : Str) : scanFrac (s ++ t) = (ds, r ++ t) := by
  cases s with
  | nil => exact absurd (Prod.mk.inj h).2.symm hne
  | cons c s =>
    by_cases hc : c = 46
    · subst hc
      rw [List.cons_append]
      unfold scanFrac at h ⊢
      simp only at h ⊢
      split_ifs at h with hds
      · obtain ⟨rfl, rfl⟩ := Prod.mk.inj h
        exact absurd rfl hpoint
      · obtain ⟨rfl, rfl⟩ := Prod.mk.inj h
        have := while_append hne t
        rw [this.1, this.2, if_neg hds]
    · have hs : ∀ u : Str, scanFrac (c :: u) = ([], c :: u) := by
        intro u
        unfold scanFrac
        split
        · simp_all
        · rfl
      rw [hs] at h
      rw [List.cons_append, hs]
      obtain ⟨rfl, rfl⟩ := Prod.mk.inj h
      rfl

private theorem scanSign_append {s : Str} (hne : (scanSign s).2 ≠ []) (t : Str) :
    scanSign (s ++ t) = ((scanSign s).1, (scanSign s).2 ++ t) := by
  cases s with
  | nil => exact absurd rfl hne
  | cons c s =>
    rw [List.cons_append]
    unfold scanSign
    split <;> split <;> simp_all

private theorem scanExp_append_right {s : Str} {e : Option (Bool × Str)} {r : Str}
    (h : scanExp s = (e, r)) (hne : r ≠ []) (hr : NumEnd r) (t : Str) :
    scanExp (s ++ t) = (e, r ++ t) := by
  cases s with
  | nil => exact absurd (Prod.mk.inj h).2.symm hne
  | cons c s =>
    rw [scanExp] at h
    rw [List.cons_append, scanExp]
    by_cases hc : c = 101 ∨ c = 69
    · rw [if_pos hc] at h ⊢
      by_cases hds : (scanSign s).2.takeWhile isDigit = []
      · -- an `e` that begins no exponent would be the next character
        rw [if_pos hds] at h
        obtain ⟨rfl, rfl⟩ := Prod.mk.inj h
        have := numEnd_cons.mp hr
        omega
      · rw [if_neg hds] at h
        obtain ⟨rfl, rfl⟩ := Prod.mk.inj h
        have hs : (scanSign s).2 ≠ [] := by
          intro h0
          rw [h0] at hds
          exact hds rfl
        have := while_append hne t
        rw [scanSign_append hs, this.1, this.2, if_neg hds]
    · rw [if_neg hc] at h ⊢
      obtain ⟨rfl, rfl⟩ := Prod.mk.inj h
      rfl

private theorem scanMinus_append {s : Str} (hne : (scanMinus s).2 ≠ []) (t : Str) :
    scanMinus (s ++ t) = ((scanMinus s).1, (scanMinus s).2 ++ t) := by
  cases s with
  | nil => exact absurd rfl hne
  | cons c s =>
    rw [List.cons_append]
    unfold scanMinus
    split <;> split <;> simp_all

theorem scanNumber_append {s r : Str} {l : NumLit} (h : scanNumber s = some (l, r)) (hne : r ≠ [])
    (hr : NumEnd r) (t : Str) : scanNumber (s ++ t) = some (l, r ++ t) := by
  unfold scanNumber at h ⊢
  rw [Option.map_eq_some_iff] at h
  obtain ⟨⟨ds, s₁⟩, hint, h⟩ := h
  simp only at h
  rcases hfrac : scanFrac s₁ with ⟨frac, s₂⟩
  rcases hexp : scanExp s₂ with ⟨e, s₃⟩
  rw [hfrac] at h
  simp only [hexp] at h
  obtain ⟨rfl, rfl⟩ := Prod.mk.inj h
  have hne₂ : s₂ ≠ [] := by
    rintro rfl
    exact hne (Prod.mk.inj hexp).2.symm
  have hne₁ : s₁ ≠ [] := by
    rintro rfl
    exact hne₂ (Prod.mk.inj hfrac).2.symm
  have hpoint : s₂.head? ≠ some 46 := by
    intro h46
    obtain ⟨u, rfl⟩ : ∃ u, s₂ = 46 :: u := by
      cases s₂ with
      | nil => simp at h46
      | cons c u => exact ⟨u, by simp_all⟩
    obtain ⟨-, rfl⟩ := Prod.mk.inj hexp
    exact (numEnd_cons.mp hr).2.1 rfl
  have hminus : (scanMinus s).2 ≠ [] := by
    intro h0
    rw [h0] at hint
    simp [scanInt] at hint
  rw [scanMinus_append hminus, scanInt_append_right hint hne₁, Option.map_some]
  simp only [scanFrac_append_right hfrac hne₂ hpoint, scanExp_append_right hexp hne hr]

/-! ### The scanner reads something -/

theorem length_dropWhile_le (p : Nat → Bool) (s : Str) : (s.dropWhile p).length ≤ s.length :=
  (List.dropWhile_sublist p).length_le

private theorem length_scanFrac (s : Str) : (scanFrac s).2.length ≤ s.length := by
  unfold scanFrac
  split
  · split_ifs
    · exact Nat.le_refl _
    · exact Nat.le_succ_of_le (length_dropWhile_le _ _)
  · exact Nat.le_refl _

private theorem length_scanSign (s : Str) : (scanSign s).2.length ≤ s.length := by
  unfold scanSign
  split <;> simp

private theorem length_scanExp (s : Str) : (scanExp s).2.length ≤ s.length := by
  unfold scanExp
  split
  · exact Nat.le_refl _
  · rename_i c r
    split_ifs
    · exact Nat.le_refl _
    · exact Nat.le_succ_of_le ((length_dropWhile_le _ _).trans (length_scanSign r))
    · exact Nat.le_refl _

theorem length_of_scanNumber {s r : Str} {l : NumLit} (h : scanNumber s = some (l, r)) :
    r.length < s.length := by
  unfold scanNumber at h
  rw [Option.map_eq_some_iff] at h
  obtain ⟨⟨ds, s₁⟩, hint, h⟩ := h
  obtain ⟨-, rfl⟩ := Prod.mk.inj h
  have h₁ : s₁.length < (scanMinus s).2.length := by
    cases hs : (scanMinus s).2 with
    | nil =>
      rw [hs] at hint
      simp [scanInt] at hint
    | cons c u =>
      rw [hs] at hint
      rw [scanInt] at hint
      split_ifs at hint with h48 hd
      · obtain ⟨-, rfl⟩ := Prod.mk.inj (Option.some.inj hint)
        simp
      · obtain ⟨-, rfl⟩ := Prod.mk.inj (Option.some.inj hint)
        rw [List.dropWhile_cons_of_pos hd]
        exact Nat.lt_succ_of_le (length_dropWhile_le _ _)
  have h₂ : (scanMinus s).2.length ≤ s.length := by
    unfold scanMinus
    split <;> simp
  have h₃ := length_scanFrac s₁
  have h₄ := length_scanExp (scanFrac s₁).2
  simp only
  omega

end Py

/-!
## Formatted numbers

`f"{n:04d}"`: a number with zeros in front of it, up to a width.
-/

namespace Py

/-- `f"{n:0{width}d}"` -/
def paddedText (width n : Nat) : Str :=
  List.replicate (width - (natText n).length) 48 ++ natText n

theorem isDigit_of_mem_paddedText {width n c : Nat} (hc : c ∈ paddedText width n) :
    isDigit c = true := by
  rcases List.mem_append.mp hc with hc | hc
  · rw [List.eq_of_mem_replicate hc]
    rfl
  · exact isDigit_of_mem_natText hc

theorem natValue_paddedText (width n : Nat) : natValue (paddedText width n) = n := by
  have hzeros : ∀ k, natValue (List.replicate k 48 ++ natText n) = natValue (natText n) := by
    intro k
    induction k with
    | zero => rfl
    | succ k ih =>
      rw [← ih, List.replicate_succ, List.cons_append]
      rfl
  rw [paddedText, hzeros, natValue_natText]

theorem paddedText_inj {width m n : Nat} (h : paddedText width m = paddedText width n) : m = n := by
  rw [← natValue_paddedText width m, h, natValue_paddedText]

theorem eq_of_append_paddedText {sep width m n : Nat} {s t : Str} (hsep : isDigit sep = false)
    (h : s ++ sep :: paddedText width m = t ++ sep :: paddedText width n) : s = t ∧ m = n := by
  have hnot : ∀ k, sep ∉ (paddedText width k).reverse := fun k hmem => by
    rw [List.mem_reverse] at hmem
    rw [isDigit_of_mem_paddedText hmem] at hsep
    cases hsep
  have hrev := congrArg List.reverse h
  rw [List.reverse_append, List.reverse_append, List.reverse_cons, List.reverse_cons,
    List.append_assoc, List.append_assoc, List.singleton_append, List.singleton_append] at hrev
  have hcut : ∀ (p q : Str), sep ∉ p → (p ++ sep :: q).takeWhile (fun c => decide (c ≠ sep)) = p ∧
      (p ++ sep :: q).dropWhile (fun c => decide (c ≠ sep)) = sep :: q := by
    intro p q hp
    induction p with
    | nil => exact ⟨by simp, by simp⟩
    | cons c p ih =>
      obtain ⟨hc, hp⟩ := not_or.mp (mt List.mem_cons.mpr hp)
      obtain ⟨htake, hdrop⟩ := ih hp
      rw [List.cons_append, List.takeWhile_cons_of_pos (by simpa using Ne.symm hc),
        List.dropWhile_cons_of_pos (by simpa using Ne.symm hc), htake, hdrop]
      exact ⟨rfl, rfl⟩
  obtain ⟨htake, hdrop⟩ := hcut _ s.reverse (hnot m)
  obtain ⟨htake', hdrop'⟩ := hcut _ t.reverse (hnot n)
  rw [hrev, htake'] at htake
  rw [hrev, hdrop'] at hdrop
  refine ⟨?_, (paddedText_inj (List.reverse_injective htake)).symm⟩
  exact (List.reverse_injective (List.cons.inj hdrop).2).symm

end Py
