import Mathlib.Data.List.DropRight

/-!
# Python text

A `str` is a sequence of code points (surrogates included, as in Python).  This file has the parts
of `str` and of text files that line-oriented stores use: `strip`, `splitlines` and the universal
newlines of a file opened in text mode.

Both notions of a line come from one scanner, `cut`, which differs in the characters that end a
line: `newline` for text files, `lineBoundary` for `str.splitlines`.  `cut_append_line` and
`splitLines_append_lf` say how the lines of a text change when a line is appended to it.
-/

namespace Py

/-- A Python `str`, as its code points. -/
abbrev Str := List Nat

instance : LawfulBEq Str := inferInstance

/-- The `str` of a source literal. -/
def str (s : String) : Str :=
  s.toList.map Char.toNat

/-- `\n` -/
def lf : Nat := 10
/-- `\r` -/
def cr : Nat := 13

theorem lf_ne_cr : lf ≠ cr := by decide

/-- `str.isspace` on one character: the characters `str.strip` removes. -/
def isSpace (c : Nat) : Bool :=
  (9 ≤ c && c ≤ 13) || (28 ≤ c && c ≤ 32) || c == 0x85 || c == 0xA0 || c == 0x1680 ||
    (0x2000 ≤ c && c ≤ 0x200A) || c == 0x2028 || c == 0x2029 || c == 0x202F || c == 0x205F ||
    c == 0x3000

/-- The whitespace that `bytes.strip` removes. -/
def isAsciiSpace (c : Nat) : Bool :=
  (9 ≤ c && c ≤ 13) || c == 32

/-- Remove the characters of a class from both ends. -/
def stripBy (p : Nat → Bool) (s : Str) : Str :=
  (s.dropWhile p).rdropWhile p

/-- `str.strip` -/
def strip (s : Str) : Str :=
  stripBy isSpace s

/-! ### Lines -/

/-- The line ends of a text file read with universal newlines. -/
def newline (c : Nat) : Bool :=
  c == 10 || c == 13

theorem newline_lf : newline lf = true := rfl

/-- The line boundaries of `str.splitlines`. -/
def lineBoundary (c : Nat) : Bool :=
  c == 10 || c == 13 || c == 11 || c == 12 || (28 ≤ c && c ≤ 30) || c == 0x85 || c == 0x2028 ||
    c == 0x2029

def byteNewline (c : Nat) : Bool :=
  c == 10

/-- The terminated lines of a text, without their ends, and the unterminated rest.  `\r\n` is one
line end wherever `\r` is one at all. -/
def cut (brk : Nat → Bool) : Str → List Str × Str
  | [] => ([], [])
  | c :: cs =>
    let r := cut brk cs
    if brk c then
      if c = cr ∧ cs.head? = some lf then r else ([] :: r.1, r.2)
    else
      match r with
      | ([], t) => ([], c :: t)
      | (l :: ls, t) => ((c :: l) :: ls, t)

/-- All lines of a text: an unterminated rest is a line unless it is empty. -/
def splitLines (brk : Nat → Bool) (s : Str) : List Str :=
  let r := cut brk s
  if r.2 = [] then r.1 else r.1 ++ [r.2]

/-- `str.splitlines` -/
def splitlines (s : Str) : List Str :=
  splitLines lineBoundary s

/-! ### Stripping -/

theorem stripBy_eq_self {p : Nat → Bool} {s : Str} (hhead : ∀ c ∈ s.head?, p c = false)
    (hlast : ∀ c ∈ s.getLast?, p c = false) : stripBy p s = s := by
  cases s with
  | nil => rfl
  | cons c cs =>
    have hc : p c = false := hhead c rfl
    unfold stripBy
    rw [List.dropWhile_cons_of_neg (by simp [hc]), List.rdropWhile_eq_self_iff]
    intro hne
    have := hlast _ (List.getLast?_eq_some_getLast hne)
    simp [this]

theorem stripBy_eq_nil_iff {p : Nat → Bool} {s : Str} :
    stripBy p s = [] ↔ ∀ c ∈ s, p c = true := by
  unfold stripBy
  rw [List.rdropWhile_eq_nil_iff]
  constructor
  · intro h c hc
    by_cases hd : c ∈ s.dropWhile p
    · exact h c hd
    · rw [← List.takeWhile_append_dropWhile (p := p) (l := s)] at hc
      rcases List.mem_append.mp hc with ht | hd'
      · exact List.mem_takeWhile_imp ht
      · exact absurd hd' hd
  · intro h c hc
    exact h c ((List.dropWhile_sublist p).mem hc)

theorem dropWhile_append_of_all {p : Nat → Bool} {w : Str} (hw : ∀ c ∈ w, p c = true) (s : Str) :
    (w ++ s).dropWhile p = s.dropWhile p := by
  induction w with
  | nil => rfl
  | cons c w ih =>
    rw [List.cons_append, List.dropWhile_cons_of_pos (hw c (by simp))]
    exact ih fun x hx => hw x (by simp [hx])

theorem stripBy_append_of_all {p : Nat → Bool} {w : Str} (hw : ∀ c ∈ w, p c = true) (s : Str) :
    stripBy p (w ++ s) = stripBy p s := by
  unfold stripBy
  rw [dropWhile_append_of_all hw]

theorem exists_stripBy (p : Nat → Bool) (s : Str) :
    ∃ w w', s = w ++ stripBy p s ++ w' ∧ (∀ c ∈ w, p c = true) ∧ ∀ c ∈ w', p c = true := by
  refine ⟨s.takeWhile p, (s.dropWhile p).rtakeWhile p, ?_, fun c hc => List.mem_takeWhile_imp hc,
    fun c hc => List.mem_rtakeWhile_imp hc⟩
  unfold stripBy
  rw [List.append_assoc, List.rdropWhile_append_rtakeWhile, List.takeWhile_append_dropWhile]

/-! ### Cutting an appended line off -/

theorem cut_cons (brk : Nat → Bool) (c : Nat) (cs : Str) :
    cut brk (c :: cs) =
      if brk c then
        if c = cr ∧ cs.head? = some lf then cut brk cs else ([] :: (cut brk cs).1, (cut brk cs).2)
      else
        match cut brk cs with
        | ([], t) => ([], c :: t)
        | (l :: ls, t) => ((c :: l) :: ls, t) :=
  rfl

variable {brk : Nat → Bool}

/-- Appending a nonempty line and its end to a text: the line joins the unterminated rest of the
text, and nothing is left unterminated. -/
theorem cut_append_line (hlf : brk lf = true) {s : Str} (hs : ∀ c ∈ s, brk c = false)
    (hne : s ≠ []) (t : Str) :
    cut brk (t ++ s ++ [lf]) = ((cut brk t).1 ++ [(cut brk t).2 ++ s], []) := by
  induction t with
  | nil =>
    rw [List.nil_append]
    simp only [cut, List.nil_append]
    induction s with
    | nil => exact absurd rfl hne
    | cons c s ih =>
      have hc := hs c (by simp)
      cases s with
      | nil => simp [cut, hlf, hc]
      | cons d s =>
        have := ih (fun x hx => hs x (by simp [hx])) (by simp)
        rw [List.cons_append, cut, this]
        simp [hc]
  | cons c t ih =>
    have hhead : (t ++ s ++ [lf]).head? = some lf ↔ t.head? = some lf := by
      cases t with
      | nil =>
        cases s with
        | nil => exact absurd rfl hne
        | cons d s =>
          have hd := hs d (by simp)
          simp only [List.nil_append, List.cons_append, List.head?_cons, Option.some.injEq,
            List.head?_nil, reduceCtorEq, iff_false]
          rintro rfl
          simp [hlf] at hd
      | cons d t => simp
    rw [List.cons_append, List.cons_append, cut_cons, cut_cons brk c t, ih]
    by_cases hc : brk c
    · simp only [hc, ↓reduceIte, hhead]
      split <;> rfl
    · simp only [hc, Bool.false_eq_true, ↓reduceIte]
      rcases hr : cut brk t with ⟨_ | ⟨l, ls⟩, r⟩ <;> simp

theorem exists_cut_lf (hlf : brk lf = true) (t : Str) :
    ∃ l ls, cut brk (t ++ [lf]) = (l :: ls, []) := by
  induction t with
  | nil => exact ⟨[], [], by simp [cut, hlf]⟩
  | cons c t ih =>
    obtain ⟨l, ls, ih⟩ := ih
    rw [List.cons_append, cut_cons, ih]
    by_cases hc : brk c
    · by_cases hcr : c = cr ∧ (t ++ [lf]).head? = some lf
      · exact ⟨l, ls, by simp only [hc, ↓reduceIte, if_pos hcr]⟩
      · exact ⟨[], l :: ls, by simp only [hc, ↓reduceIte, if_neg hcr]⟩
    · exact ⟨c :: l, ls, by simp [hc]⟩

theorem exists_splitLines_cons (hlf : brk lf = true) {p : Str} (hp : ∀ c ∈ p, brk c = false)
    {c : Nat} (hc : brk c = true) (q : Str) :
    ∃ ls, splitLines brk (p ++ c :: q) = p :: ls := by
  obtain ⟨ls, hls⟩ : ∃ ls, (cut brk (p ++ c :: q)).1 = p :: ls := by
    induction p with
    | nil =>
      rw [List.nil_append, cut_cons, if_pos hc]
      split_ifs with hcrlf
      · -- the pair is one line end
        obtain ⟨u, rfl⟩ := List.head?_eq_some_iff.mp hcrlf.2
        rw [cut_cons, if_pos hlf, if_neg fun h => lf_ne_cr h.1]
        exact ⟨_, rfl⟩
      · exact ⟨_, rfl⟩
    | cons x p ih =>
      obtain ⟨ls, hls⟩ := ih fun y hy => hp y (by simp [hy])
      have hx := hp x (by simp)
      rw [List.cons_append, cut_cons]
      rcases hcut : cut brk (p ++ c :: q) with ⟨ls', r⟩
      rw [hcut] at hls
      obtain rfl : ls' = p :: ls := hls
      exact ⟨ls, by simp [hx]⟩
  by_cases hrest : (cut brk (p ++ c :: q)).2 = []
  · exact ⟨ls, by rw [splitLines, if_pos hrest, hls]⟩
  · exact ⟨ls ++ [(cut brk (p ++ c :: q)).2], by
      rw [splitLines, if_neg hrest, hls, List.cons_append]⟩

theorem cut_append_lf (hlf : brk lf = true) (t u : Str) :
    cut brk (t ++ lf :: u) = ((cut brk (t ++ [lf])).1 ++ (cut brk u).1, (cut brk u).2) := by
  induction t with
  | nil => simp [cut, hlf, lf_ne_cr]
  | cons c t ih =>
    have hhead : (t ++ lf :: u).head? = (t ++ [lf]).head? := by
      cases t <;> rfl
    obtain ⟨l, ls, hl⟩ := exists_cut_lf hlf t
    rw [List.cons_append, List.cons_append, cut_cons, cut_cons brk c (t ++ [lf]), ih, hhead, hl]
    by_cases hc : brk c
    · by_cases hcr : c = cr ∧ (t ++ [lf]).head? = some lf
      · simp only [hc, ↓reduceIte, if_pos hcr]
      · simp only [hc, ↓reduceIte, if_neg hcr, List.cons_append]
    · simp [hc]

theorem splitLines_append_lf (hlf : brk lf = true) (t u : Str) :
    splitLines brk (t ++ lf :: u) = splitLines brk (t ++ [lf]) ++ splitLines brk u := by
  obtain ⟨l, ls, hl⟩ := exists_cut_lf hlf t
  unfold splitLines
  rw [cut_append_lf hlf, hl]
  by_cases hu : (cut brk u).2 = [] <;> simp [hu]

theorem splitLines_append_line (hlf : brk lf = true) {s : Str} (hs : ∀ c ∈ s, brk c = false)
    (hne : s ≠ []) (t : Str) :
    splitLines brk (t ++ s ++ [lf]) = (cut brk t).1 ++ [(cut brk t).2 ++ s] := by
  unfold splitLines
  rw [cut_append_line hlf hs hne]
  simp

theorem splitLines_flatMap (hlf : brk lf = true) {ls : List Str}
    (hs : ∀ l ∈ ls, l ≠ [] ∧ ∀ c ∈ l, brk c = false) :
    splitLines brk (ls.flatMap (· ++ [lf])) = ls := by
  induction ls with
  | nil => rfl
  | cons l ls ih =>
    obtain ⟨hne, hl⟩ := hs l (by simp)
    have hline := splitLines_append_line hlf hl hne []
    simp only [List.nil_append, cut] at hline
    rw [List.flatMap_cons, List.append_assoc, List.singleton_append, splitLines_append_lf hlf,
      hline, ih fun x hx => hs x (by simp [hx])]
    rfl

/-! ### Records

What a reader that skips blank lines sees of a text.  `\r\n` need not be one line end for that: the
line between the two would be blank.  So the records are those of `cutAll`, and a text in two
pieces has the records of the pieces (`records_append`). -/

/-- The pieces between line ends, each of which counts, and the unterminated rest. -/
def cutAll {α : Type} (brk : α → Bool) : List α → List (List α) × List α
  | [] => ([], [])
  | c :: cs =>
    let r := cutAll brk cs
    if brk c then ([] :: r.1, r.2)
    else
      match r with
      | ([], t) => ([], c :: t)
      | (l :: ls, t) => ((c :: l) :: ls, t)

def nonblank (ls : List Str) : List Str :=
  (ls.map strip).filter (· ≠ [])

/-- The records of a text: its stripped lines, without the blank ones. -/
def records (s : Str) : List Str :=
  nonblank (splitLines newline s)

def lastLine (s : Str) : Str :=
  (cut newline s).2

@[simp] theorem strip_nil : strip [] = [] := rfl

theorem strip_eq_nil_iff {s : Str} : strip s = [] ↔ ∀ c ∈ s, isSpace c = true :=
  stripBy_eq_nil_iff

@[simp] theorem nonblank_nil : nonblank [] = [] := rfl

theorem nonblank_append (ls ls' : List Str) :
    nonblank (ls ++ ls') = nonblank ls ++ nonblank ls' := by
  simp [nonblank]

theorem nonblank_cons (l : Str) (ls : List Str) :
    nonblank (l :: ls) = nonblank [l] ++ nonblank ls :=
  nonblank_append [l] ls

theorem nonblank_singleton (l : Str) : nonblank [l] = if strip l = [] then [] else [strip l] := by
  unfold nonblank
  by_cases h : strip l = [] <;> simp [h]

theorem nonblank_of_blank {l : Str} (h : strip l = []) : nonblank [l] = [] := by
  rw [nonblank_singleton, if_pos h]

theorem nonblank_of_not_blank {l : Str} (h : strip l ≠ []) : nonblank [l] = [strip l] := by
  rw [nonblank_singleton, if_neg h]

theorem nonblank_nil_cons (ls : List Str) : nonblank ([] :: ls) = nonblank ls := by
  rw [nonblank_cons, nonblank_of_blank strip_nil, List.nil_append]

private theorem cutAll_cons {α : Type} (brk : α → Bool) (c : α) (cs : List α) :
    cutAll brk (c :: cs) =
      if brk c then ([] :: (cutAll brk cs).1, (cutAll brk cs).2)
      else
        match cutAll brk cs with
        | ([], t) => ([], c :: t)
        | (l :: ls, t) => ((c :: l) :: ls, t) :=
  rfl

private theorem cut_cutAll (hlf : brk lf = true) (s : Str) :
    (cut brk s).2 = (cutAll brk s).2 ∧
      ((cut brk s).1 = [] ∧ (cutAll brk s).1 = [] ∨
        ∃ l ls ls', (cut brk s).1 = l :: ls ∧ (cutAll brk s).1 = l :: ls' ∧
          nonblank ls = nonblank ls') := by
  induction s with
  | nil => exact ⟨rfl, .inl ⟨rfl, rfl⟩⟩
  | cons c s ih =>
    obtain ⟨hlast, ih⟩ := ih
    have hnonblank : nonblank (cut brk s).1 = nonblank (cutAll brk s).1 := by
      rcases ih with ⟨h, h'⟩ | ⟨l, ls, ls', h, h', heq⟩
      · rw [h, h']
      · rw [h, h', nonblank_cons, nonblank_cons l ls', heq]
    rw [cut_cons, cutAll_cons]
    by_cases hc : brk c = true
    · simp only [hc, ↓reduceIte]
      by_cases hcrlf : c = cr ∧ s.head? = some lf
      · -- the pair is one line end, and `cut` has seen it at the `\n`
        rw [if_pos hcrlf]
        obtain ⟨u, rfl⟩ := List.head?_eq_some_iff.mp hcrlf.2
        have h₁ : (cut brk (lf :: u)).1 = [] :: (cut brk u).1 := by
          rw [cut_cons, if_pos hlf, if_neg fun h => lf_ne_cr h.1]
        have h₂ : (cutAll brk (lf :: u)).1 = [] :: (cutAll brk u).1 := by
          rw [cutAll_cons, if_pos hlf]
        rw [h₁, h₂, nonblank_nil_cons, nonblank_nil_cons] at hnonblank
        refine ⟨hlast, .inr ⟨[], (cut brk u).1, [] :: (cutAll brk u).1, h₁, by rw [h₂], ?_⟩⟩
        rw [nonblank_nil_cons, hnonblank]
      · rw [if_neg hcrlf]
        exact ⟨hlast, .inr ⟨[], _, _, rfl, rfl, hnonblank⟩⟩
    · have hc' : brk c = false := by simpa using hc
      simp only [hc', Bool.false_eq_true, ↓reduceIte]
      rcases hs : cut brk s with ⟨ls₁, r₁⟩
      rcases hs' : cutAll brk s with ⟨ls₂, r₂⟩
      rw [hs, hs'] at ih hlast
      obtain rfl : r₁ = r₂ := hlast
      rcases ih with ⟨h, h'⟩ | ⟨l, ls, ls', h, h', heq⟩
      · obtain rfl : ls₁ = [] := h
        obtain rfl : ls₂ = [] := h'
        exact ⟨rfl, .inl ⟨rfl, rfl⟩⟩
      · obtain rfl : ls₁ = l :: ls := h
        obtain rfl : ls₂ = l :: ls' := h'
        exact ⟨rfl, .inr ⟨c :: l, ls, ls', rfl, rfl, heq⟩⟩

/-- Put text in front of the first piece. -/
private def joinFirst (p : Str) : List Str × Str → List Str × Str
  | ([], t) => ([], p ++ t)
  | (l :: ls, t) => ((p ++ l) :: ls, t)

private theorem cutAll_append (s t : Str) :
    cutAll brk (s ++ t) =
      ((cutAll brk s).1 ++ (joinFirst (cutAll brk s).2 (cutAll brk t)).1,
        (joinFirst (cutAll brk s).2 (cutAll brk t)).2) := by
  induction s with
  | nil =>
    rcases h : cutAll brk t with ⟨_ | ⟨l, ls⟩, r⟩ <;> simp [cutAll, joinFirst, h]
  | cons c s ih =>
    rw [List.cons_append, cutAll_cons, cutAll_cons, ih]
    by_cases hc : brk c = true
    · simp [hc]
    · rcases hs : cutAll brk s with ⟨_ | ⟨m, ms⟩, q⟩ <;>
        rcases ht : cutAll brk t with ⟨_ | ⟨l, ls⟩, r⟩ <;> simp [hc, joinFirst]

theorem lastLine_eq (s : Str) : lastLine s = (cutAll newline s).2 :=
  (cut_cutAll rfl s).1

theorem records_eq (s : Str) :
    records s = nonblank (cutAll newline s).1 ++ nonblank [lastLine s] := by
  have hcut : records s = nonblank (cut newline s).1 ++ nonblank [(cut newline s).2] := by
    unfold records splitLines
    by_cases h : (cut newline s).2 = []
    · simp [h, nonblank_of_blank strip_nil]
    · simp only [h, ↓reduceIte, nonblank_append]
  rw [hcut, lastLine]
  rcases (cut_cutAll newline_lf s).2 with ⟨h, h'⟩ | ⟨l, ls, ls', h, h', heq⟩
  · rw [h, h']
  · rw [h, h', nonblank_cons, nonblank_cons l ls', heq]

def firstLine (s : Str) : Str :=
  match cutAll newline s with
  | ([], r) => r
  | (l :: _, _) => l

def laterLines (s : Str) : List Str :=
  match cutAll newline s with
  | ([], _) => []
  | (_ :: ls, r) => ls ++ [r]

theorem records_eq_first (t : Str) :
    records t = nonblank [firstLine t] ++ nonblank (laterLines t) := by
  rw [records_eq t, lastLine_eq t]
  unfold firstLine laterLines
  rcases cutAll newline t with ⟨_ | ⟨l, ls⟩, r⟩
  · simp
  · rw [nonblank_cons, nonblank_append, List.append_assoc]

theorem records_append (s t : Str) :
    records (s ++ t) = nonblank (cutAll newline s).1 ++
      (nonblank [lastLine s ++ firstLine t] ++ nonblank (laterLines t)) := by
  rw [records_eq (s ++ t), lastLine_eq (s ++ t), cutAll_append, ← lastLine_eq s, nonblank_append,
    List.append_assoc]
  unfold firstLine laterLines
  rcases cutAll newline t with ⟨_ | ⟨l, ls⟩, r⟩
  · simp [joinFirst]
  · simp only [joinFirst]
    rw [nonblank_cons, nonblank_append, List.append_assoc]

theorem strip_append_of_blank {p : Str} (h : strip p = []) (q : Str) : strip (p ++ q) = strip q :=
  stripBy_append_of_all (strip_eq_nil_iff.mp h) q

theorem strip_append_blank {q : Str} (h : strip q = []) (p : Str) : strip (p ++ q) = strip p := by
  rw [strip_eq_nil_iff] at h
  by_cases hp : strip p = []
  · rw [hp, strip_append_of_blank hp, strip_eq_nil_iff]
    exact h
  · have hne : p.dropWhile isSpace ≠ [] := by
      rw [Ne, List.dropWhile_eq_nil_iff]
      intro hall
      exact hp (strip_eq_nil_iff.mpr hall)
    unfold strip stripBy
    rw [List.dropWhile_append, if_neg (by simpa using hne)]
    generalize p.dropWhile isSpace = x
    rw [List.rdropWhile, List.rdropWhile, List.reverse_append,
      dropWhile_append_of_all (by simpa using h)]

theorem strip_strip (s : Str) : strip (strip s) = strip s := by
  obtain ⟨w, w', hs, hw, hw'⟩ := exists_stripBy isSpace s
  conv_rhs =>
    rw [hs, strip_append_blank (strip_eq_nil_iff.mpr hw'),
      strip_append_of_blank (strip_eq_nil_iff.mpr hw)]
  rfl

theorem exists_strip_append {p q : Str} (hp : strip p ≠ []) (hq : strip q ≠ []) :
    ∃ x, strip (p ++ q) = x ++ strip q ∧ ∃ c ∈ x, isSpace c = false := by
  have hdrop : ∀ {s : Str}, strip s ≠ [] → s.dropWhile isSpace ≠ [] := by
    intro s hs hnil
    rw [List.dropWhile_eq_nil_iff] at hnil
    exact hs (strip_eq_nil_iff.mpr hnil)
  have hright : ∀ {s : Str} (x : Str), strip s ≠ [] →
      (x ++ s).rdropWhile isSpace = x ++ s.rdropWhile isSpace := by
    intro s x hs
    have hne : s.reverse.dropWhile isSpace ≠ [] := by
      rw [Ne, List.dropWhile_eq_nil_iff]
      intro hall
      exact hs (strip_eq_nil_iff.mpr (by simpa using hall))
    rw [List.rdropWhile, List.rdropWhile, List.reverse_append, List.dropWhile_append,
      if_neg (by simpa using hne), List.reverse_append, List.reverse_reverse]
  have hstrip : strip (q.dropWhile isSpace) ≠ [] := by
    have hidem : (q.dropWhile isSpace).dropWhile isSpace = q.dropWhile isSpace :=
      List.dropWhile_idempotent _ _
    unfold strip stripBy at hq ⊢
    rwa [hidem]
  obtain ⟨c, u, hc⟩ := List.exists_cons_of_ne_nil (hdrop hp)
  refine ⟨p.dropWhile isSpace ++ q.takeWhile isSpace, ?_, c, by rw [hc]; simp, ?_⟩
  · have hq' : q.rdropWhile isSpace = q.takeWhile isSpace ++ strip q := by
      conv_lhs => rw [← List.takeWhile_append_dropWhile (p := isSpace) (l := q)]
      rw [hright _ hstrip]
      rfl
    rw [List.append_assoc, ← hq', ← hright _ hq]
    unfold strip stripBy
    rw [List.dropWhile_append, if_neg (by simpa using hdrop hp)]
  · have := List.head?_dropWhile_not isSpace p
    rw [hc] at this
    exact this

theorem records_append_of_blank {s : Str} (h : strip (lastLine s) = []) (t : Str) :
    records (s ++ t) = records s ++ records t := by
  have hq : nonblank [lastLine s ++ firstLine t] = nonblank [firstLine t] := by
    rw [nonblank_singleton, nonblank_singleton, strip_append_of_blank h]
  rw [records_append, records_eq_first t, records_eq s, nonblank_of_blank h, List.append_nil, hq]

theorem cutAll_append_cons {α : Type} {brk : α → Bool} {l : List α} (hl : ∀ c ∈ l, brk c = false)
    {x : α} (hx : brk x = true) (t : List α) :
    cutAll brk (l ++ x :: t) = (l :: (cutAll brk t).1, (cutAll brk t).2) := by
  induction l with
  | nil => rw [List.nil_append, cutAll_cons, if_pos hx]
  | cons c l ih =>
    have hc := hl c (by simp)
    rw [List.cons_append, cutAll_cons, ih fun y hy => hl y (by simp [hy])]
    simp [hc]

theorem cutAll_of_not_brk {α : Type} {brk : α → Bool} {l : List α}
    (hl : ∀ c ∈ l, brk c = false) : cutAll brk l = ([], l) := by
  induction l with
  | nil => rfl
  | cons c l ih =>
    have hc := hl c (by simp)
    rw [cutAll_cons, ih fun y hy => hl y (by simp [hy])]
    simp [hc]

private theorem cutAll_line {l : Str} (hl : ∀ c ∈ l, newline c = false) :
    cutAll newline (l ++ [lf]) = ([l], []) :=
  cutAll_append_cons hl newline_lf []

theorem firstLine_line {l : Str} (hl : ∀ c ∈ l, newline c = false) :
    firstLine (l ++ [lf]) = l := by
  rw [firstLine, cutAll_line hl]

theorem records_line {l : Str} (hl : ∀ c ∈ l, newline c = false) (hne : l ≠ [])
    (hstrip : strip l = l) : records (l ++ [lf]) = [l] := by
  have := splitLines_append_line newline_lf hl hne []
  simp only [List.nil_append, cut] at this
  rw [records, this, nonblank_of_not_blank (by rw [hstrip]; exact hne), hstrip]

theorem lastLine_append_lf (s : Str) : lastLine (s ++ [lf]) = [] := by
  obtain ⟨l, ls, h⟩ := exists_cut_lf newline_lf s
  rw [lastLine, h]

/-! ### The first record -/

theorem strip_append_of_stripped {l : Str} (hl : strip l = l) (hne : l ≠ []) (rest : Str) :
    strip (l ++ rest) = l ++ rest.rdropWhile isSpace := by
  have hdrop : l.dropWhile isSpace = l := by
    refine (List.dropWhile_sublist _).eq_of_length_le ?_
    have := (List.rdropWhile_prefix isSpace (l := l.dropWhile isSpace)).length_le
    rwa [show (l.dropWhile isSpace).rdropWhile isSpace = l from hl] at this
  have hrdrop : l.rdropWhile isSpace = l := by
    have := hl
    rwa [strip, stripBy, hdrop] at this
  have hempty : (l.dropWhile isSpace).isEmpty = false := by
    rw [hdrop]
    simpa using hne
  rw [strip, stripBy, List.dropWhile_append, if_neg (by rw [hempty]; simp), hdrop]
  by_cases hrest : strip rest = []
  · have hall := strip_eq_nil_iff.mp hrest
    rw [List.rdropWhile_eq_nil_iff.mpr hall, List.append_nil, List.rdropWhile, List.reverse_append,
      dropWhile_append_of_all (by simpa using hall)]
    exact hrdrop
  · have hnil : rest.rdropWhile isSpace ≠ [] := fun h =>
      hrest (strip_eq_nil_iff.mpr (List.rdropWhile_eq_nil_iff.mp h))
    have hnil' : (rest.reverse.dropWhile isSpace).isEmpty = false := by
      rw [List.rdropWhile, Ne, List.reverse_eq_nil_iff] at hnil
      simpa using hnil
    rw [List.rdropWhile, List.reverse_append, List.dropWhile_append,
      if_neg (by rw [hnil']; simp), List.reverse_append, List.reverse_reverse, List.rdropWhile]

end Py
