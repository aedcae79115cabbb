import Adaad.Py.Json.Equiv.RowLog

/-!
# Strings that JSON has

Two lone surrogates never stand side by side in a string that `json.loads` gives for a document, because
the scanner joins them.  So such a string is written and read again as it is
(`IsJsonText.readAscii_eq`).
-/

namespace Py

variable {P : Platform}

def IsJsonText (P : Platform) (s : Str) : Prop :=
  ∃ doc, Encodable doc ∧ loads P doc = some (.str s)

/-- No high surrogate stands before a low one. -/
def Unpaired (s : Str) : Prop :=
  s.IsChain fun c d => isHighSurrogate c = true → isLowSurrogate d = false

theorem isHighSurrogate_eq_false {c : Nat} (h : c < 0xD800 ∨ 0xDBFF < c) :
    isHighSurrogate c = false := by
  simp only [isHighSurrogate, Bool.and_eq_false_iff, decide_eq_false_iff_not]
  omega

theorem isLowSurrogate_eq_false {c : Nat} (h : c < 0xDC00 ∨ 0xDFFF < c) :
    isLowSurrogate c = false := by
  simp only [isLowSurrogate, Bool.and_eq_false_iff, decide_eq_false_iff_not]
  omega

theorem bound_of_encodable {s : Str} (h : Encodable s) {c : Nat} (hc : c ∈ s) :
    isSurrogate c = false ∧ c < 0x110000 := by
  obtain ⟨b, hb⟩ := h c hc
  unfold encodeChar at hb
  split_ifs at hb with h₁ h₂ h₃ h₄ <;> simp_all [isSurrogate] <;> omega

/-! ### Reading what has no pairs -/

theorem readAscii_of_unpaired {s : Str} (h : Unpaired s) (hlt : ∀ c ∈ s, c < 0x110000) :
    readAscii s = s := by
  induction s with
  | nil => rfl
  | cons c s ih =>
    obtain ⟨hc, hs⟩ := List.forall_mem_cons.mp hlt
    have hrest := ih (List.IsChain.tail h) hs
    unfold readAscii at hrest ⊢
    rw [utf16_cons]
    by_cases hsmall : c < 0x10000
    · rw [show utf16Char c = [c] from if_pos hsmall]
      cases s with
      | nil => rfl
      | cons d s =>
        have hpair := (List.isChain_cons_cons.mp h).1
        -- the first code unit of the rest is no low surrogate after a high one
        have hnext : ∃ l us, utf16 (d :: s) = l :: us ∧
            (isHighSurrogate c = true → isLowSurrogate l = false) := by
          rw [utf16_cons]
          by_cases hd : d < 0x10000
          · exact ⟨d, _, by rw [show utf16Char d = [d] from if_pos hd]; rfl, hpair⟩
          · refine ⟨_, _, by rw [show utf16Char d = _ from if_neg hd]; rfl, fun _ => ?_⟩
            exact isLowSurrogate_eq_false (by omega)
        obtain ⟨l, us, hunits, hl⟩ := hnext
        rw [hunits] at hrest ⊢
        rw [List.singleton_append, ofUtf16, if_neg, hrest]
        rintro ⟨hhigh, hlow⟩
        rw [hl hhigh] at hlow
        cases hlow
    · rw [show utf16Char c = _ from if_neg hsmall, List.cons_append, List.cons_append,
        List.nil_append, ofUtf16, if_pos, hrest]
      · have hjoin : joinSurrogates (0xD800 + (c - 0x10000) / 1024 % 1024)
            (0xDC00 + (c - 0x10000) % 1024) = c := by
          unfold joinSurrogates
          omega
        rw [hjoin]
      · simp only [isHighSurrogate, isLowSurrogate, Bool.and_eq_true, decide_eq_true_eq]
        omega

/-! ### What the scanner gives -/

def StrUnit.Proper : StrUnit → Prop
  | .unit u => u < 0x10000
  | .char c => isSurrogate c = false ∧ c < 0x110000

theorem hexValue_lt {c n : Nat} (h : hexValue c = some n) : n < 16 := by
  unfold hexValue isDigit at h
  split_ifs at h with h₁ h₂ h₃
  · obtain rfl := Option.some.inj h
    simp only [Bool.and_eq_true, decide_eq_true_eq] at h₁
    omega
  · obtain rfl := Option.some.inj h
    omega
  · obtain rfl := Option.some.inj h
    omega

theorem hex4_lt {a b c d u : Nat} (h : hex4 a b c d = some u) : u < 0x10000 := by
  unfold hex4 at h
  simp only [Option.bind_eq_bind, Option.bind_eq_some_iff, Option.pure_def, Option.some.injEq] at h
  obtain ⟨a', ha, b', hb, c', hc, d', hd, rfl⟩ := h
  have := hexValue_lt ha
  have := hexValue_lt hb
  have := hexValue_lt hc
  have := hexValue_lt hd
  omega

theorem unescape_lt {e x : Nat} (h : unescape e = some x) : x < 128 := by
  unfold unescape quote backslash at h
  split_ifs at h <;> obtain rfl := Option.some.inj h <;> omega

theorem proper_of_lt {c : Nat} (h : c < 128) : (StrUnit.char c).Proper := by
  refine ⟨?_, by omega⟩
  simp only [isSurrogate, Bool.and_eq_false_iff, decide_eq_false_iff_not]
  omega

theorem proper_of_scanUnits {s r : Str} {us : List StrUnit} (h : scanUnits s = some (us, r))
    (hs : ∀ c ∈ s, isSurrogate c = false ∧ c < 0x110000) : ∀ u ∈ us, u.Proper := by
  fun_induction scanUnits s generalizing us r with
  | case1 => cases h
  | case2 r' =>
    obtain ⟨rfl, rfl⟩ := Prod.mk.inj (Option.some.inj h)
    exact List.forall_mem_nil _
  | case3 => cases h
  | case4 _ h₁ h₂ h₃ h₄ r' ih =>
    obtain ⟨u, hu, h⟩ := Option.bind_eq_some_iff.mp h
    obtain ⟨⟨vs, r''⟩, hrest, heq⟩ := Option.map_eq_some_iff.mp h
    obtain ⟨rfl, rfl⟩ := Prod.mk.inj heq
    refine List.forall_mem_cons.mpr ⟨hex4_lt hu, ih hrest fun c hc => hs c ?_⟩
    simp [hc]
  | case5 => cases h
  | case6 _ e r' _ ih =>
    obtain ⟨x, hx, h⟩ := Option.bind_eq_some_iff.mp h
    obtain ⟨⟨vs, r''⟩, hrest, heq⟩ := Option.map_eq_some_iff.mp h
    obtain ⟨rfl, rfl⟩ := Prod.mk.inj heq
    refine List.forall_mem_cons.mpr ⟨proper_of_lt (unescape_lt hx), ih hrest fun c hc => hs c ?_⟩
    simp [hc]
  | case7 => cases h
  | case8 c r' _ _ _ ih =>
    obtain ⟨⟨vs, r''⟩, hrest, heq⟩ := Option.map_eq_some_iff.mp h
    obtain ⟨rfl, rfl⟩ := Prod.mk.inj heq
    exact List.forall_mem_cons.mpr
      ⟨hs c List.mem_cons_self, ih hrest fun c' hc => hs c' (List.mem_cons_of_mem _ hc)⟩

theorem joinSurrogates_bounds {u l : Nat} (hu : isHighSurrogate u = true)
    (hl : isLowSurrogate l = true) :
    0x10000 ≤ joinSurrogates u l ∧ joinSurrogates u l < 0x110000 := by
  simp only [isHighSurrogate, isLowSurrogate, Bool.and_eq_true, decide_eq_true_eq] at hu hl
  unfold joinSurrogates
  omega

theorem head_joinUnits {u : Nat} {us : List StrUnit} {c : Nat}
    (hc : c ∈ (joinUnits (.unit u :: us)).head?) : c = u ∨ 0x10000 ≤ c := by
  cases us with
  | nil => exact .inl (Option.some.inj hc).symm
  | cons v us =>
    cases v with
    | char d => exact .inl (Option.some.inj hc).symm
    | unit l =>
      rw [joinUnits] at hc
      split_ifs at hc with hpair
      · obtain rfl := Option.some.inj hc
        exact .inr (joinSurrogates_bounds hpair.1 hpair.2).1
      · exact .inl (Option.some.inj hc).symm

theorem unpaired_joinUnits {us : List StrUnit} (h : ∀ u ∈ us, u.Proper) :
    Unpaired (joinUnits us) ∧ ∀ c ∈ joinUnits us, c < 0x110000 := by
  fun_induction joinUnits us with
  | case1 => exact ⟨List.isChain_nil, List.forall_mem_nil _⟩
  | case2 c us ih =>
    obtain ⟨⟨hsurrogate, hlt⟩, hus⟩ := List.forall_mem_cons.mp h
    obtain ⟨hchain, hall⟩ := ih hus
    refine ⟨List.isChain_cons.mpr ⟨fun d _ hhigh => ?_, hchain⟩, List.forall_mem_cons.mpr ⟨hlt, hall⟩⟩
    simp only [isSurrogate, isHighSurrogate, Bool.and_eq_true, Bool.and_eq_false_iff,
      decide_eq_true_eq, decide_eq_false_iff_not] at hsurrogate hhigh
    omega
  | case3 u l us hpair ih =>
    obtain ⟨-, hrest⟩ := List.forall_mem_cons.mp h
    obtain ⟨hchain, hall⟩ := ih (List.forall_mem_cons.mp hrest).2
    have hbounds := joinSurrogates_bounds hpair.1 hpair.2
    refine ⟨List.isChain_cons.mpr ⟨fun d _ hhigh => ?_, hchain⟩,
      List.forall_mem_cons.mpr ⟨hbounds.2, hall⟩⟩
    rw [isHighSurrogate_eq_false (by omega)] at hhigh
    cases hhigh
  | case4 u l us hpair ih =>
    obtain ⟨hu, hrest⟩ := List.forall_mem_cons.mp h
    have hu : u < 0x10000 := hu
    obtain ⟨hchain, hall⟩ := ih hrest
    refine ⟨List.isChain_cons.mpr ⟨fun d hd hhigh => ?_, hchain⟩,
      List.forall_mem_cons.mpr ⟨by omega, hall⟩⟩
    rcases head_joinUnits hd with rfl | hlarge
    · exact Bool.eq_false_iff.mpr fun hlow => hpair ⟨hhigh, hlow⟩
    · exact isLowSurrogate_eq_false (by omega)
  | case5 u us hnext ih =>
    obtain ⟨hu, hrest⟩ := List.forall_mem_cons.mp h
    have hu : u < 0x10000 := hu
    obtain ⟨hchain, hall⟩ := ih hrest
    refine ⟨List.isChain_cons.mpr ⟨fun d hd _ => ?_, hchain⟩,
      List.forall_mem_cons.mpr ⟨by omega, hall⟩⟩
    cases us with
    | nil => cases hd
    | cons v us =>
      cases v with
      | unit l => exact absurd rfl (hnext l us)
      | char c =>
        obtain rfl := Option.some.inj hd
        obtain ⟨⟨hsurrogate, -⟩, -⟩ := List.forall_mem_cons.mp hrest
        simp only [isSurrogate, isLowSurrogate, Bool.and_eq_false_iff,
          decide_eq_false_iff_not] at hsurrogate ⊢
        omega

theorem parseScalar_ne_str {c : Nat} {r r' : Str} {s : Str} :
    parseScalar P c r ≠ some (.str s, r') := by
  have hname : ∀ {t : Str} {w : P.Obj}, w ≠ .str s → parseName P t w r ≠ some (.str s, r') := by
    intro t w hw h
    unfold parseName at h
    split_ifs at h
    exact hw (Prod.mk.inj (Option.some.inj h)).1
  intro h
  unfold parseScalar at h
  split_ifs at h
  · exact hname (by simp) h
  · exact hname (by simp) h
  · exact hname (by simp) h
  · exact hname (by simp) h
  · exact hname (by simp) h
  · exact hname (by simp) h
  · obtain ⟨p, -, heq⟩ := Option.map_eq_some_iff.mp h
    unfold numberOf at heq
    split_ifs at heq <;> cases heq

theorem IsJsonText.readAscii_eq {s : Str} (h : IsJsonText P s) : readAscii s = s := by
  obtain ⟨doc, hdoc, hload⟩ := h
  obtain ⟨⟨v, r⟩, hparse, hend⟩ := Option.bind_eq_some_iff.mp hload
  split_ifs at hend
  obtain rfl := Option.some.inj hend
  cases hskip : skipWs doc with
  | nil =>
    rw [hskip] at hparse
    cases hparse
  | cons c rest =>
    rw [hskip, show 2 * doc.length + 2 = 2 * doc.length + 1 + 1 from rfl, parseValue] at hparse
    split_ifs at hparse with hquote hbrace hempty hbracket hempty'
    · obtain ⟨⟨t, r'⟩, hscan, heq⟩ := Option.map_eq_some_iff.mp hparse
      obtain ⟨⟨us, r''⟩, hunits, ht⟩ := Option.map_eq_some_iff.mp hscan
      obtain ⟨rfl, rfl⟩ := Prod.mk.inj ht
      obtain rfl := Value.str.inj (Prod.mk.inj heq).1
      have hrest : ∀ c ∈ rest, isSurrogate c = false ∧ c < 0x110000 := fun x hx => by
        refine bound_of_encodable hdoc ((List.dropWhile_suffix isJsonSpace).subset ?_)
        rw [show doc.dropWhile isJsonSpace = c :: rest from hskip]
        exact List.mem_cons_of_mem _ hx
      obtain ⟨hunpaired, hlt⟩ := unpaired_joinUnits (proper_of_scanUnits hunits hrest)
      exact readAscii_of_unpaired hunpaired hlt
    · cases hparse
    · obtain ⟨p, -, heq⟩ := Option.map_eq_some_iff.mp hparse
      cases heq
    · cases hparse
    · obtain ⟨p, -, heq⟩ := Option.map_eq_some_iff.mp hparse
      cases heq
    · exact absurd hparse parseScalar_ne_str

theorem isJsonText_iff {s : Str} : IsJsonText P s ↔ readAscii s = s := by
  refine ⟨IsJsonText.readAscii_eq, fun h => ?_⟩
  obtain ⟨b, hb⟩ := exists_encode_dumpsAscii P .spaced (.str s)
  refine ⟨dumpsAscii P .spaced (.str s), exists_encode_iff.mp ⟨b, hb⟩, ?_⟩
  rw [loads_dumpsAscii, Value.mapStr, h]
  rfl

theorem isJsonText_of_ascii {s : Str} (h : ∀ c ∈ s, c < 128) : IsJsonText P s :=
  isJsonText_iff.mpr (readAscii_of_ascii h)

end Py
