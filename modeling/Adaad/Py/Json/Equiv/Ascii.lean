import Adaad.Py.Json.Equiv.RoundTrip

/-!
# ASCII documents

With `ensure_ascii=True` a document holds UTF-16 code units for the characters beyond ASCII.  It is
read back as the value that was written, except that two lone surrogates side by side become the
character that they are the code units of (`loads_dumpsAscii`); written again, that value gives the
same document (`dumpsAscii_mapStr`).
-/

namespace Py

variable (P : Platform)

/-! ### Code units -/

def utf16 (s : Str) : List Nat :=
  s.flatMap utf16Char

/-- The text of code units: surrogate pairs are joined. -/
def ofUtf16 : List Nat → Str
  | [] => []
  | [u] => [u]
  | u :: l :: us =>
    if isHighSurrogate u ∧ isLowSurrogate l then joinSurrogates u l :: ofUtf16 us
    else u :: ofUtf16 (l :: us)

/-- What `json` reads for the text of an escaped string literal. -/
def readAscii (s : Str) : Str :=
  ofUtf16 (utf16 s)

theorem utf16_cons (c : Nat) (s : Str) : utf16 (c :: s) = utf16Char c ++ utf16 s :=
  List.flatMap_cons

theorem lt_of_mem_utf16 {s : Str} {u : Nat} (h : u ∈ utf16 s) : u < 0x10000 := by
  obtain ⟨c, -, hu⟩ := List.mem_flatMap.mp h
  unfold utf16Char at hu
  split_ifs at hu with hc
  · rw [List.mem_singleton] at hu
    omega
  · simp only [List.mem_cons, List.not_mem_nil, or_false] at hu
    omega

theorem ofUtf16_cons_of_not_high {u : Nat} (h : isHighSurrogate u = false) (us : List Nat) :
    ofUtf16 (u :: us) = u :: ofUtf16 us := by
  cases us with
  | nil => rfl
  | cons l us => rw [ofUtf16, if_neg (by simp [h])]

theorem utf16Char_joinSurrogates {u l : Nat} (hu : isHighSurrogate u = true)
    (hl : isLowSurrogate l = true) : utf16Char (joinSurrogates u l) = [u, l] := by
  simp only [isHighSurrogate, isLowSurrogate, Bool.and_eq_true, decide_eq_true_eq] at hu hl
  unfold utf16Char joinSurrogates
  rw [if_neg (by omega)]
  have h₁ : 0xD800 + (0x10000 + (u - 0xD800) * 1024 + (l - 0xDC00) - 0x10000) / 1024 % 1024 = u := by
    omega
  have h₂ : 0xDC00 + (0x10000 + (u - 0xD800) * 1024 + (l - 0xDC00) - 0x10000) % 1024 = l := by
    omega
  rw [h₁, h₂]

theorem utf16_ofUtf16 {us : List Nat} (h : ∀ u ∈ us, u < 0x10000) : utf16 (ofUtf16 us) = us := by
  have hone : ∀ u < 0x10000, utf16Char u = [u] := fun u hu => if_pos hu
  fun_induction ofUtf16 us with
  | case1 => rfl
  | case2 u => rw [utf16_cons, hone u (h u (by simp))]; rfl
  | case3 u l us hpair ih =>
    rw [utf16_cons, utf16Char_joinSurrogates hpair.1 hpair.2, ih fun x hx => h x (by simp [hx])]
    rfl
  | case4 u l us _ ih =>
    rw [utf16_cons, hone u (h u (by simp)), ih fun x hx => h x (by simp_all)]
    rfl

theorem utf16_readAscii (s : Str) : utf16 (readAscii s) = utf16 s :=
  utf16_ofUtf16 fun _ hu => lt_of_mem_utf16 hu

theorem readAscii_readAscii (s : Str) : readAscii (readAscii s) = readAscii s :=
  congrArg ofUtf16 (utf16_readAscii s)

theorem readAscii_eq_self {s : Str} (h : Encodable s) : readAscii s = s := by
  induction s with
  | nil => rfl
  | cons c s ih =>
    have hs := ih fun x hx => h x (by simp [hx])
    obtain ⟨b, hb⟩ := h c (by simp)
    have hc : isSurrogate c = false ∧ c < 0x110000 := by
      unfold encodeChar at hb
      split_ifs at hb with h1 h2 h3 h4 <;> simp_all [isSurrogate] <;> omega
    unfold readAscii at hs ⊢
    rw [utf16_cons]
    simp only [isSurrogate, Bool.and_eq_false_iff, decide_eq_false_iff_not] at hc
    by_cases hlt : c < 0x10000
    · rw [show utf16Char c = [c] from if_pos hlt, List.singleton_append,
        ofUtf16_cons_of_not_high, hs]
      simp only [isHighSurrogate, Bool.and_eq_false_iff, decide_eq_false_iff_not]
      omega
    · rw [show utf16Char c = _ from if_neg hlt, List.cons_append, List.cons_append,
        List.nil_append, ofUtf16, if_pos, hs]
      · have hjoin : joinSurrogates (0xD800 + (c - 0x10000) / 1024 % 1024)
            (0xDC00 + (c - 0x10000) % 1024) = c := by
          unfold joinSurrogates
          omega
        rw [hjoin]
      · simp only [isHighSurrogate, isLowSurrogate, Bool.and_eq_true, decide_eq_true_eq]
        omega

theorem readAscii_of_ascii {s : Str} (h : ∀ c ∈ s, c < 128) : readAscii s = s :=
  readAscii_eq_self (encodable_of_ascii h)

theorem utf16_eq_self {s : Str} (h : ∀ u ∈ utf16 s, u < 0xD800) : utf16 s = s := by
  induction s with
  | nil => rfl
  | cons c s ih =>
    rw [utf16_cons] at h ⊢
    rw [ih fun u hu => h u (List.mem_append_right _ hu)]
    have hc : c < 0x10000 := by
      by_contra hc
      have hhigh : 0xD800 + (c - 0x10000) / 1024 % 1024 ∈ utf16Char c := by
        rw [utf16Char, if_neg hc]
        exact List.mem_cons_self
      have := h _ (List.mem_append_left _ hhigh)
      omega
    rw [utf16Char, if_pos hc]
    rfl

theorem eq_of_readAscii_eq {s t : Str} (h : readAscii s = t) (ht : ∀ c ∈ t, c < 128) : s = t := by
  have hunits : utf16 s = utf16 t := by
    rw [← h, utf16_readAscii]
  have hself : utf16 t = t := by
    refine utf16_eq_self fun u hu => ?_
    obtain ⟨c, hc, hu⟩ := List.mem_flatMap.mp hu
    have hlt := ht c hc
    rw [utf16Char, if_pos (by omega), List.mem_singleton] at hu
    omega
  rw [hself] at hunits
  rw [← utf16_eq_self (s := s) fun u hu => ?_, hunits]
  rw [hunits] at hu
  have := ht u hu
  omega

/-! ### String literals -/

theorem hexValue_hexDigit {n : Nat} (h : n < 16) : hexValue (hexDigit n) = some n := by
  have hall : ∀ n < 16, hexValue (hexDigit n) = some n := by decide
  exact hall n h

theorem hex4_unicodeEscape {u : Nat} (h : u < 0x10000) :
    hex4 (hexDigit (u / 4096 % 16)) (hexDigit (u / 256 % 16)) (hexDigit (u / 16 % 16))
      (hexDigit (u % 16)) = some u := by
  unfold hex4
  rw [hexValue_hexDigit (by omega), hexValue_hexDigit (by omega), hexValue_hexDigit (by omega),
    hexValue_hexDigit (by omega)]
  show some _ = some u
  congr 1
  omega

theorem scanUnits_unicodeEscape {u : Nat} (h : u < 0x10000) (r : Str) :
    scanUnits (unicodeEscape u ++ r) = (scanUnits r).map (pushUnit (.unit u)) := by
  unfold unicodeEscape
  simp only [List.cons_append, List.nil_append]
  rw [scanUnits_unit, hex4_unicodeEscape h, Option.bind_some]

theorem joinUnits_eq_ofUtf16 {us : List StrUnit}
    (h : ∀ c, .char c ∈ us → isHighSurrogate c = false ∧ isLowSurrogate c = false) :
    joinUnits us = ofUtf16 (us.map StrUnit.code) := by
  fun_induction joinUnits us with
  | case1 => rfl
  | case2 c us ih =>
    show c :: joinUnits us = ofUtf16 (c :: us.map StrUnit.code)
    rw [ofUtf16_cons_of_not_high (h c (by simp)).1, ih fun x hx => h x (by simp [hx])]
  | case3 u l us hpair ih =>
    show _ = ofUtf16 (u :: l :: us.map StrUnit.code)
    rw [ofUtf16, if_pos hpair, ih fun x hx => h x (by simp [hx])]
  | case4 u l us hpair ih =>
    show _ = ofUtf16 (u :: l :: us.map StrUnit.code)
    rw [ofUtf16, if_neg hpair, ih fun x hx => h x (by simpa using hx)]
    rfl
  | case5 u us hnext ih =>
    have ih := ih fun x hx => h x (by simp [hx])
    cases us with
    | nil => rfl
    | cons l us =>
      cases l with
      | unit l => exact absurd rfl (hnext l us)
      | char l =>
        have hlow := (h l (by simp)).2
        show u :: joinUnits (.char l :: us) = ofUtf16 (u :: l :: us.map StrUnit.code)
        rw [ofUtf16, if_neg (by simp [hlow]), ih]
        rfl

private theorem exists_units (c : Nat) (r : Str) :
    ∃ us : List StrUnit, us.map StrUnit.code = utf16Char c ∧
      (∀ x, .char x ∈ us → isHighSurrogate x = false ∧ isLowSurrogate x = false) ∧
      scanUnits ((escapeChar c).flatMap asciiChar ++ r) =
        (scanUnits r).map fun p => (us ++ p.1, p.2) := by
  by_cases hc : c < 127
  · obtain ⟨u, hu, -, hscan⟩ := scanUnits_escapeChar c r
    have hascii : (escapeChar c).flatMap asciiChar = escapeChar c := by
      have hfix : ∀ x ∈ escapeChar c, asciiChar x = [x] := by
        intro x hx
        have := (mem_escapeChar hx).2
        exact if_pos (by omega)
      rw [List.flatMap_congr hfix, List.flatMap_singleton']
    refine ⟨[u], ?_, ?_, ?_⟩
    · rw [List.map_singleton, hu]
      exact (if_pos (by omega)).symm
    · intro x hx
      rw [List.mem_singleton] at hx
      have hx' : x = c := by rw [← hu, ← hx]; rfl
      simp only [isHighSurrogate, isLowSurrogate, Bool.and_eq_false_iff, decide_eq_false_iff_not]
      omega
    · rw [hascii, hscan]
      rfl
  · have hplain : escapeChar c = [c] := by
      unfold escapeChar quote backslash
      split_ifs <;> first | rfl | omega
    have hchar : asciiChar c = (utf16Char c).flatMap unicodeEscape := if_neg hc
    rw [hplain, List.flatMap_singleton, hchar]
    refine ⟨(utf16Char c).map .unit, ?_, by simp, ?_⟩
    · rw [List.map_map]
      exact List.map_id _
    · have hlt : ∀ u ∈ utf16Char c, u < 0x10000 := fun u hu =>
        lt_of_mem_utf16 (s := [c]) (List.mem_flatMap.mpr ⟨c, by simp, hu⟩)
      generalize utf16Char c = units at hlt
      induction units generalizing r with
      | nil =>
        show scanUnits r = _
        cases scanUnits r <;> rfl
      | cons u units ih =>
        rw [List.flatMap_cons, List.append_assoc, scanUnits_unicodeEscape (hlt u (by simp)),
          ih r fun x hx => hlt x (by simp [hx])]
        cases scanUnits r <;> rfl

/-- `ensure_ascii=True` -/
def Spelling.ascii : Spelling where
  char := asciiChar
  read := readAscii
  char_ascii c hc := if_pos hc
  read_ascii s hs := readAscii_eq_self (encodable_of_ascii fun c hc => by
    have := hs c hc
    omega)
  scanString_escape s r := by
    have hunits : ∃ us : List StrUnit, us.map StrUnit.code = utf16 s ∧
        (∀ x, .char x ∈ us → isHighSurrogate x = false ∧ isLowSurrogate x = false) ∧
        scanUnits ((escape s).flatMap asciiChar ++ quote :: r) = some (us, r) := by
      induction s with
      | nil => exact ⟨[], rfl, by simp, scanUnits_quote r⟩
      | cons c s ih =>
        obtain ⟨us, hus, hchars, hscan⟩ := ih
        obtain ⟨vs, hvs, hchars', hscan'⟩ :=
          exists_units c ((escape s).flatMap asciiChar ++ quote :: r)
        refine ⟨vs ++ us, ?_, ?_, ?_⟩
        · rw [List.map_append, hvs, hus, utf16_cons]
        · intro x hx
          rcases List.mem_append.mp hx with hx | hx
          · exact hchars' x hx
          · exact hchars x hx
        · show scanUnits ((escapeChar c ++ escape s).flatMap asciiChar ++ quote :: r) = _
          rw [List.flatMap_append, List.append_assoc, hscan', hscan]
          rfl
    obtain ⟨us, hus, hchars, hscan⟩ := hunits
    rw [scanString, hscan, Option.map_some, joinUnits_eq_ofUtf16 hchars, hus]
    rfl

/-! ### Documents -/

theorem loads_dumpsAscii (L : Layout) (v : P.Obj) :
    loads P (dumpsAscii P L v) = some (image P (v.mapStr readAscii)) :=
  loads_text_dumps P .ascii L v

theorem printable_of_mem_dumpsAscii {L : Layout} {v : P.Obj} {c : Nat}
    (h : c ∈ dumpsAscii P L v) : Printable c := by
  obtain ⟨x, hx, hc⟩ := List.mem_flatMap.mp h
  have hx := (mem_dumps P L hx).1
  unfold asciiChar at hc
  split_ifs at hc with hlt
  · rw [List.mem_singleton] at hc
    exact hc ▸ ⟨hx, hlt⟩
  · obtain ⟨u, -, hu⟩ := List.mem_flatMap.mp hc
    have hhex : ∀ n < 16, Printable (hexDigit n) := by
      unfold Printable
      decide
    have hmod : ∀ n, n % 16 < 16 := fun n => Nat.mod_lt n (by decide)
    unfold unicodeEscape at hu
    simp only [List.mem_cons, List.not_mem_nil, or_false] at hu
    rcases hu with rfl | rfl | rfl | rfl | rfl | rfl
    · unfold Printable
      decide
    · unfold Printable
      decide
    · exact hhex _ (hmod _)
    · exact hhex _ (hmod _)
    · exact hhex _ (hmod _)
    · exact hhex _ (hmod _)

theorem newline_eq_false_of_mem_dumpsAscii {L : Layout} {v : P.Obj} {c : Nat}
    (hc : c ∈ dumpsAscii P L v) : newline c = false := by
  have := (printable_of_mem_dumpsAscii P hc).1
  simp only [newline, Bool.or_eq_false_iff, beq_eq_false_iff_ne]
  omega

theorem strip_dumpsAscii_dict (L : Layout) (e : Members P.Float) :
    strip (dumpsAscii P L (.dict e)) = dumpsAscii P L (.dict e) := by
  obtain ⟨t, ht⟩ := exists_dumps_dict L e
  have hbraces : dumpsAscii P L (.dict e) = 123 :: (asciiText t ++ [125]) := by
    unfold dumpsAscii asciiText
    rw [ht, List.flatMap_cons, List.flatMap_append]
    rfl
  rw [hbraces]
  exact strip_braces (asciiText t)

theorem exists_encode_dumpsAscii (L : Layout) (v : P.Obj) :
    ∃ b, encode (dumpsAscii P L v) = some b := by
  refine exists_encode_iff.mpr (encodable_of_ascii fun c hc => ?_)
  have hlt := (printable_of_mem_dumpsAscii P hc).2
  omega

private theorem asciiText_escape (s : Str) : asciiText (escape s) =
    (utf16 s).flatMap fun u => if u < 127 then escapeChar u else unicodeEscape u := by
  induction s with
  | nil => rfl
  | cons c s ih =>
    have happ : asciiText (escape (c :: s)) = asciiText (escapeChar c) ++ asciiText (escape s) :=
      List.flatMap_append
    rw [happ, ih, utf16_cons, List.flatMap_append]
    congr 1
    by_cases hc : c < 127
    · have hfix : asciiText (escapeChar c) = escapeChar c :=
        Spelling.ascii.text_of_ascii fun x hx => by
          have := (mem_escapeChar hx).2
          omega
      rw [hfix, show utf16Char c = [c] from if_pos (by omega), List.flatMap_singleton, if_pos hc]
    · have hplain : escapeChar c = [c] := by
        unfold escapeChar quote backslash
        split_ifs <;> first | rfl | omega
      have hbig : ∀ u ∈ utf16Char c, ¬ u < 127 := by
        intro u hu
        unfold utf16Char at hu
        split_ifs at hu
        · rw [List.mem_singleton] at hu
          omega
        · simp only [List.mem_cons, List.not_mem_nil, or_false] at hu
          omega
      rw [hplain, asciiText, List.flatMap_singleton, asciiChar, if_neg hc]
      exact List.flatMap_congr fun u hu => (if_neg (hbig u hu)).symm

theorem asciiText_append (s t : Str) : asciiText (s ++ t) = asciiText s ++ asciiText t :=
  List.flatMap_append

theorem asciiText_cons (c : Nat) (t : Str) : asciiText (c :: t) = asciiChar c ++ asciiText t :=
  List.flatMap_cons

theorem asciiText_quoteStr_readAscii (s : Str) :
    asciiText (quoteStr (readAscii s)) = asciiText (quoteStr s) := by
  have h := asciiText_escape (readAscii s)
  rw [utf16_readAscii, ← asciiText_escape] at h
  rw [quoteStr, quoteStr, asciiText_cons, asciiText_cons, asciiText_append, asciiText_append, h]

theorem dumpsAscii_mapStr (L : Layout) (v : P.Obj) :
    dumpsAscii P L (v.mapStr readAscii) = dumpsAscii P L v := by
  have hitems : ∀ xs : List P.Obj,
      (∀ x ∈ xs, dumpsAscii P L (x.mapStr readAscii) = dumpsAscii P L x) →
      asciiText (dumpsItems P L (mapStrList readAscii xs)) = asciiText (dumpsItems P L xs) := by
    intro xs h
    induction xs with
    | nil => rfl
    | cons x xs ih =>
      have hx := h x (by simp)
      unfold dumpsAscii at hx
      rw [mapStrList, dumpsItems, dumpsItems, asciiText_append, asciiText_append, asciiText_append,
        asciiText_append, hx, ih fun y hy => h y (by simp [hy])]
  have hkey : ∀ k : Key P.Float, asciiText (quoteStr (keyName P (k.mapStr readAscii))) =
      asciiText (quoteStr (keyName P k)) := by
    intro k
    rw [← asciiText_quoteStr_readAscii (keyName P k)]
    rw [show readAscii (keyName P k) = _ from Spelling.ascii.read_keyName P k]
    rfl
  have hmembers : ∀ ms : Members P.Float,
      (∀ m ∈ ms, dumpsAscii P L (m.2.mapStr readAscii) = dumpsAscii P L m.2) →
      asciiText (dumpsMembers P L (mapStrMembers readAscii ms)) =
        asciiText (dumpsMembers P L ms) := by
    intro ms h
    induction ms with
    | nil => rfl
    | cons m ms ih =>
      obtain ⟨k, v⟩ := m
      have hv := h (k, v) (by simp)
      unfold dumpsAscii at hv
      rw [mapStrMembers, dumpsMembers, dumpsMembers]
      simp only [asciiText_append, hkey, hv, ih fun y hy => h y (by simp [hy])]
  induction v using Value.ind with
  | none => rfl
  | bool b => rfl
  | int i => rfl
  | float x => rfl
  | str s => exact asciiText_quoteStr_readAscii s
  | list xs ih =>
    cases xs with
    | nil => rfl
    | cons x xs =>
      have hx := ih x (by simp)
      have hxs := hitems xs fun y hy => ih y (by simp [hy])
      unfold dumpsAscii at hx ⊢
      rw [Value.mapStr, mapStrList, dumps, dumps]
      simp only [asciiText_cons, asciiText_append, hx, hxs]
  | tuple xs ih =>
    cases xs with
    | nil => rfl
    | cons x xs =>
      have hx := ih x (by simp)
      have hxs := hitems xs fun y hy => ih y (by simp [hy])
      unfold dumpsAscii at hx ⊢
      rw [Value.mapStr, mapStrList, dumps, dumps]
      simp only [asciiText_cons, asciiText_append, hx, hxs]
  | dict kvs ih =>
    cases kvs with
    | nil => rfl
    | cons m kvs =>
      obtain ⟨k, v⟩ := m
      have hv := ih (k, v) (by simp)
      have hms := hmembers kvs fun y hy => ih y (by simp [hy])
      unfold dumpsAscii at hv ⊢
      rw [Value.mapStr, mapStrMembers, dumps, dumps]
      simp only [asciiText_cons, asciiText_append, hkey, hv, hms]

end Py
