import Adaad.Py.Json.Loads

/-!
# The characters of a document

A written document is a single line of printable text: it has no control character, and beyond
ASCII only the characters of its own strings (`mem_dumps`).  Those it has all of
(`mem_dumps_of_mem_chars`).
-/

namespace Py

variable (P : Platform)

def Printable (c : Nat) : Prop :=
  32 ≤ c ∧ c < 127

theorem printable_of_isDigit {c : Nat} (h : isDigit c = true) : Printable c := by
  simp only [isDigit, Bool.and_eq_true, decide_eq_true_eq] at h
  unfold Printable
  omega

theorem NumLit.printable_of_mem_text {l : NumLit} (hl : l.WF) {c : Nat} (hc : c ∈ l.text) :
    Printable c := by
  simp only [text, List.mem_append] at hc
  rcases hc with hc | hc | hc | hc
  · unfold signText at hc
    split_ifs at hc
    · obtain rfl := List.mem_singleton.mp hc
      unfold Printable
      omega
    · exact absurd hc (by simp)
  · exact printable_of_isDigit (hl.int_digit c hc)
  · unfold fracText at hc
    split_ifs at hc
    · exact absurd hc (by simp)
    · rcases List.mem_cons.mp hc with rfl | hc
      · unfold Printable
        omega
      · exact printable_of_isDigit (hl.frac_digit c hc)
  · cases he : l.exp with
    | none => simp [he, expText] at hc
    | some e =>
      simp only [he, expText, List.mem_cons] at hc
      rcases hc with rfl | rfl | hc
      · unfold Printable
        omega
      · unfold Printable
        split_ifs <;> omega
      · exact printable_of_isDigit (hl.exp_digit e (by simp [he]) c hc)

theorem printable_of_mem_intText {i : Int} {c : Nat} (hc : c ∈ intText i) : Printable c :=
  NumLit.printable_of_mem_text (NumLit.ofInt_wf i) hc

theorem printable_of_mem_floatJson {x : P.Float} {c : Nat} (hc : c ∈ floatJson P x) :
    Printable c := by
  unfold floatJson at hc
  unfold Printable
  split at hc
  · revert c
    decide
  · revert c
    decide
  · revert c
    decide
  · next l hl => exact NumLit.printable_of_mem_text (P.floatText_wf x l hl).1 hc

theorem printable_of_mem_boolJson {b : Bool} {c : Nat} (hc : c ∈ boolJson b) :
    Printable c := by
  unfold Printable
  cases b <;> revert c <;> decide

theorem mem_escapeChar {c x : Nat} (h : c ∈ escapeChar x) : 32 ≤ c ∧ (c < 127 ∨ c = x) := by
  unfold escapeChar quote backslash at h
  split_ifs at h with h1 h2 h3 h4 h5 h6 h7 h8
  any_goals
    simp only [List.mem_cons, List.not_mem_nil, or_false] at h
    omega
  · have hhex : ∀ n < 16, 32 ≤ hexDigit n ∧ hexDigit n < 127 := by decide
    have h₁ := hhex (x / 16) (by omega)
    have h₂ := hhex (x % 16) (by omega)
    simp only [List.mem_cons, List.not_mem_nil, or_false] at h
    omega

theorem mem_quoteStr {s : Str} {c : Nat} (h : c ∈ quoteStr s) : 32 ≤ c ∧ (c < 127 ∨ c ∈ s) := by
  simp only [quoteStr, List.mem_cons, List.mem_append, List.not_mem_nil, or_false] at h
  have hquote : 32 ≤ quote ∧ (quote < 127 ∨ quote ∈ s) := ⟨by decide, .inl (by decide)⟩
  rcases h with rfl | h | rfl
  · exact hquote
  · obtain ⟨x, hx, hc⟩ := List.mem_flatMap.mp h
    obtain ⟨hle, hc | rfl⟩ := mem_escapeChar hc
    · exact ⟨hle, .inl hc⟩
    · exact ⟨hle, .inr hx⟩
  · exact hquote

theorem mem_quoteStr_of_mem {s : Str} {c : Nat} (h : c ∈ s) (hc : 127 ≤ c) : c ∈ quoteStr s := by
  have : escapeChar c = [c] := by
    unfold escapeChar quote backslash
    split_ifs <;> first | rfl | omega
  exact List.mem_cons_of_mem _ (List.mem_append_left _
    (List.mem_flatMap.mpr ⟨c, h, by rw [this]; simp⟩))

theorem mem_keyName {k : Key P.Float} {c : Nat} (h : c ∈ keyName P k) :
    Printable c ∨ c ∈ k.chars := by
  cases k with
  | str s => exact .inr h
  | int i => exact .inl (printable_of_mem_intText h)
  | float x => exact .inl (printable_of_mem_floatJson P h)
  | bool b => exact .inl (printable_of_mem_boolJson h)
  | none =>
    have : ∀ c ∈ str "null", 32 ≤ c ∧ c < 127 := by decide
    exact .inl (this c h)

private theorem mem_sep {L : Layout} {c : Nat} (h : c ∈ L.itemSep ∨ c ∈ L.keySep) :
    32 ≤ c ∧ c < 127 := by
  have : ∀ c ∈ L.itemSep ++ L.keySep, 32 ≤ c ∧ c < 127 := by cases L <;> decide
  exact this c (List.mem_append.mpr h)

/-- The characters that a value of these may be written with. -/
private def Written (cs : List Nat) (c : Nat) : Prop :=
  32 ≤ c ∧ (c < 127 ∨ c ∈ cs)

private theorem Written.mono {cs cs' : List Nat} {c : Nat} (h : Written cs c)
    (hs : ∀ x ∈ cs, x ∈ cs') : Written cs' c :=
  ⟨h.1, h.2.imp_right (hs c)⟩

private theorem written_of_printable {cs : List Nat} {c : Nat} (h : Printable c) : Written cs c :=
  ⟨h.1, .inl h.2⟩

private theorem mem_dumpsItems (L : Layout) {xs : List P.Obj}
    (ih : ∀ x ∈ xs, ∀ c ∈ dumps P L x, Written x.chars c) {c : Nat}
    (h : c ∈ dumpsItems P L xs) : Written (charsList xs) c := by
  induction xs with
  | nil =>
    obtain rfl := List.mem_singleton.mp h
    exact written_of_printable (by unfold Printable; omega)
  | cons x xs ihx =>
    simp only [dumpsItems, List.mem_append] at h
    rcases h with h | h | h
    · exact written_of_printable (mem_sep (.inl h))
    · exact (ih x (by simp) c h).mono fun y hy => mem_charsList.mpr ⟨x, by simp, hy⟩
    · exact (ihx (fun y hy => ih y (by simp [hy])) h).mono fun y hy => by
        rw [charsList]
        exact List.mem_append_right _ hy

private theorem mem_member (L : Layout) {k : Key P.Float} {v : P.Obj} {c : Nat}
    (ih : ∀ c ∈ dumps P L v, Written v.chars c)
    (h : c ∈ quoteStr (keyName P k) ∨ c ∈ L.keySep ∨ c ∈ dumps P L v) :
    Written (k.chars ++ v.chars) c := by
  rcases h with h | h | h
  · obtain ⟨hle, hc | hc⟩ := mem_quoteStr h
    · exact ⟨hle, .inl hc⟩
    · rcases mem_keyName P hc with hc | hc
      · exact written_of_printable hc
      · exact ⟨hle, .inr (List.mem_append_left _ hc)⟩
  · exact written_of_printable (mem_sep (.inr h))
  · exact (ih c h).mono fun y hy => List.mem_append_right _ hy

private theorem mem_dumpsMembers (L : Layout) {ms : Members P.Float}
    (ih : ∀ m ∈ ms, ∀ c ∈ dumps P L m.2, Written m.2.chars c) {c : Nat}
    (h : c ∈ dumpsMembers P L ms) : Written (charsMembers ms) c := by
  induction ms with
  | nil =>
    obtain rfl := List.mem_singleton.mp h
    exact written_of_printable (by unfold Printable; omega)
  | cons m ms ihm =>
    obtain ⟨k, v⟩ := m
    simp only [dumpsMembers, List.mem_append] at h
    rcases h with h | h | h | h | h
    · exact written_of_printable (mem_sep (.inl h))
    · exact (mem_member P L (ih (k, v) (by simp)) (.inl h)).mono fun y hy => by
        rw [charsMembers, ← List.append_assoc]
        exact List.mem_append_left _ hy
    · exact (mem_member P L (k := k) (ih (k, v) (by simp)) (.inr (.inl h))).mono fun y hy => by
        rw [charsMembers, ← List.append_assoc]
        exact List.mem_append_left _ hy
    · exact (mem_member P L (k := k) (ih (k, v) (by simp)) (.inr (.inr h))).mono fun y hy => by
        rw [charsMembers, ← List.append_assoc]
        exact List.mem_append_left _ hy
    · exact (ihm (fun y hy => ih y (by simp [hy])) h).mono fun y hy => by
        rw [charsMembers, ← List.append_assoc]
        exact List.mem_append_right _ hy

theorem mem_dumps (L : Layout) {v : P.Obj} {c : Nat} (h : c ∈ dumps P L v) :
    32 ≤ c ∧ (c < 127 ∨ c ∈ v.chars) := by
  induction v using Value.ind generalizing c with
  | none =>
    have : ∀ c ∈ str "null", 32 ≤ c ∧ c < 127 := by decide
    exact written_of_printable (this c h)
  | bool b => exact written_of_printable (printable_of_mem_boolJson h)
  | int i => exact written_of_printable (printable_of_mem_intText h)
  | float x => exact written_of_printable (printable_of_mem_floatJson P h)
  | str s => exact mem_quoteStr h
  | list xs ih =>
    cases xs with
    | nil =>
      have : ∀ c ∈ str "[]", 32 ≤ c ∧ c < 127 := by decide
      exact written_of_printable (this c h)
    | cons x xs =>
      rw [dumps, List.mem_cons] at h
      rcases h with rfl | h
      · exact written_of_printable (by unfold Printable; omega)
      · refine (mem_dumpsItems P L (fun y hy c hc => ih y hy hc) (c := c) ?_ :)
        rw [dumpsItems]
        exact List.mem_append_right _ h
  | tuple xs ih =>
    cases xs with
    | nil =>
      have : ∀ c ∈ str "[]", 32 ≤ c ∧ c < 127 := by decide
      exact written_of_printable (this c h)
    | cons x xs =>
      rw [dumps, List.mem_cons] at h
      rcases h with rfl | h
      · exact written_of_printable (by unfold Printable; omega)
      · refine (mem_dumpsItems P L (fun y hy c hc => ih y hy hc) (c := c) ?_ :)
        rw [dumpsItems]
        exact List.mem_append_right _ h
  | dict kvs ih =>
    cases kvs with
    | nil =>
      have : ∀ c ∈ str "{}", 32 ≤ c ∧ c < 127 := by decide
      exact written_of_printable (this c h)
    | cons kv kvs =>
      obtain ⟨k, v⟩ := kv
      rw [dumps, List.mem_cons] at h
      rcases h with rfl | h
      · exact written_of_printable (by unfold Printable; omega)
      · refine (mem_dumpsMembers P L (fun y hy c hc => ih y hy hc) (c := c) ?_ :)
        rw [dumpsMembers]
        exact List.mem_append_right _ h

theorem mem_dumps_of_mem_chars (L : Layout) {v : P.Obj} {c : Nat} (h : c ∈ v.chars)
    (hc : 127 ≤ c) : c ∈ dumps P L v := by
  have hitems : ∀ xs : List P.Obj, (∃ x ∈ xs, c ∈ dumps P L x) → c ∈ dumpsItems P L xs := by
    intro xs
    induction xs with
    | nil => simp
    | cons x xs ihx =>
      rintro ⟨y, hy, hmem⟩
      simp only [dumpsItems, List.mem_append]
      rcases List.mem_cons.mp hy with rfl | hy
      · exact .inr (.inl hmem)
      · exact .inr (.inr (ihx ⟨y, hy, hmem⟩))
  have hmembers : ∀ ms : Members P.Float,
      (∃ m ∈ ms, c ∈ quoteStr (keyName P m.1) ∨ c ∈ dumps P L m.2) → c ∈ dumpsMembers P L ms := by
    intro ms
    induction ms with
    | nil => simp
    | cons m ms ihm =>
      rintro ⟨y, hy, hmem⟩
      simp only [dumpsMembers, List.mem_append]
      rcases List.mem_cons.mp hy with rfl | hy
      · rcases hmem with hmem | hmem
        · exact .inr (.inl hmem)
        · exact .inr (.inr (.inr (.inl hmem)))
      · exact .inr (.inr (.inr (.inr (ihm ⟨y, hy, hmem⟩))))
  have hsep : c ∉ L.itemSep := fun hsep => by
    have := mem_sep (.inl hsep)
    omega
  induction v using Value.ind with
  | none | bool | int | float => simp [Value.chars] at h
  | str s => exact mem_quoteStr_of_mem h hc
  | list xs ih =>
    obtain ⟨x, hx, hmem⟩ := mem_charsList.mp h
    have := hitems xs ⟨x, hx, ih x hx hmem⟩
    cases xs with
    | nil => simp at hx
    | cons y ys =>
      rw [dumpsItems, List.mem_append] at this
      rw [dumps]
      exact List.mem_cons_of_mem _ (this.resolve_left hsep)
  | tuple xs ih =>
    obtain ⟨x, hx, hmem⟩ := mem_charsList.mp h
    have := hitems xs ⟨x, hx, ih x hx hmem⟩
    cases xs with
    | nil => simp at hx
    | cons y ys =>
      rw [dumpsItems, List.mem_append] at this
      rw [dumps]
      exact List.mem_cons_of_mem _ (this.resolve_left hsep)
  | dict kvs ih =>
    obtain ⟨m, hm, hmem⟩ := mem_charsMembers.mp h
    have hwritten : c ∈ quoteStr (keyName P m.1) ∨ c ∈ dumps P L m.2 := by
      rcases hmem with hmem | hmem
      · left
        obtain ⟨k, v⟩ := m
        cases k with
        | str s => exact mem_quoteStr_of_mem hmem hc
        | int | float | bool | none => simp [Key.chars] at hmem
      · exact .inr (ih m hm hmem)
    have := hmembers kvs ⟨m, hm, hwritten⟩
    cases kvs with
    | nil => simp at hm
    | cons y ys =>
      obtain ⟨k, v⟩ := y
      rw [dumpsMembers, List.mem_append] at this
      rw [dumps]
      exact List.mem_cons_of_mem _ (this.resolve_left hsep)

theorem encodable_dumps_iff (L : Layout) {v : P.Obj} :
    Encodable (dumps P L v) ↔ Encodable v.chars := by
  have hascii : ∀ c : Nat, c < 127 → ∃ b, encodeChar c = some b := fun c hc =>
    ⟨_, encodeChar_ascii (by omega)⟩
  constructor
  · intro h c hc
    by_cases hlt : c < 127
    · exact hascii c hlt
    · exact h c (mem_dumps_of_mem_chars P L hc (by omega))
  · intro h c hc
    rcases (mem_dumps P L hc).2 with hlt | hmem
    · exact hascii c hlt
    · exact h c hmem

section texts

variable {F : Type}

theorem encodable_list_iff {xs : List (Value F)} :
    Encodable (Value.list xs).chars ↔ ∀ x ∈ xs, Encodable x.chars := by
  constructor
  · exact fun h x hx c hc => h c (mem_charsList.mpr ⟨x, hx, hc⟩)
  · intro h c hc
    obtain ⟨x, hx, hc⟩ := mem_charsList.mp hc
    exact h x hx c hc

theorem encodable_dict_iff {ms : Members F} :
    Encodable (Value.dict ms).chars ↔ ∀ m ∈ ms, Encodable m.1.chars ∧ Encodable m.2.chars := by
  constructor
  · exact fun h m hm => ⟨fun c hc => h c (mem_charsMembers.mpr ⟨m, hm, .inl hc⟩),
      fun c hc => h c (mem_charsMembers.mpr ⟨m, hm, .inr hc⟩)⟩
  · intro h c hc
    obtain ⟨m, hm, hc | hc⟩ := mem_charsMembers.mp hc
    · exact (h m hm).1 c hc
    · exact (h m hm).2 c hc

theorem encodable_str_iff {s : Str} :
    Encodable (Value.str s : Value F).chars ↔ Encodable s := Iff.rfl

end texts

/-! ### Lines -/

section lines

variable {P}

private theorem exists_dumpsMembers (L : Layout) (ms : Members P.Float) :
    ∃ t, dumpsMembers P L ms = t ++ [125] := by
  induction ms with
  | nil => exact ⟨[], rfl⟩
  | cons m ms ih =>
    obtain ⟨k, v⟩ := m
    obtain ⟨t, ht⟩ := ih
    refine ⟨L.itemSep ++ (quoteStr (keyName P k) ++ (L.keySep ++ (dumps P L v ++ t))), ?_⟩
    rw [dumpsMembers, ht]
    simp only [List.append_assoc]

theorem exists_dumps_dict (L : Layout) (e : Members P.Float) :
    ∃ t, dumps P L (.dict e) = 123 :: (t ++ [125]) := by
  cases e with
  | nil => exact ⟨[], rfl⟩
  | cons m ms =>
    obtain ⟨k, v⟩ := m
    obtain ⟨t, ht⟩ := exists_dumpsMembers L ms
    refine ⟨quoteStr (keyName P k) ++ (L.keySep ++ (dumps P L v ++ t)), ?_⟩
    rw [dumps, ht]
    simp only [List.append_assoc]

theorem newline_eq_false_of_mem_dumps {L : Layout} {v : P.Obj} {c : Nat} (hc : c ∈ dumps P L v) :
    newline c = false := by
  have := (mem_dumps P L hc).1
  simp only [newline, Bool.or_eq_false_iff, beq_eq_false_iff_ne]
  omega

theorem strip_braces (t : Str) : strip (123 :: (t ++ [125])) = 123 :: (t ++ [125]) := by
  have hlast : (123 :: (t ++ [125])).getLast? = some 125 := by
    rw [← List.cons_append, List.getLast?_append]
    rfl
  refine stripBy_eq_self (fun c hc => ?_) fun c hc => ?_
  · obtain rfl : 123 = c := by simpa using hc
    decide
  · rw [hlast] at hc
    obtain rfl : 125 = c := by simpa using hc
    decide

theorem strip_dumps_dict (L : Layout) (e : Members P.Float) :
    strip (dumps P L (.dict e)) = dumps P L (.dict e) := by
  obtain ⟨t, ht⟩ := exists_dumps_dict L e
  rw [ht]
  exact strip_braces t

end lines

end Py
